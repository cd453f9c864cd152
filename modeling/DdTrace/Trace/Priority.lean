import DdTrace.Trace.Conservation

/-!
# The sampling priority over a run

What a step can do to the trace's priority, to the metrics and to what was
written or propagated is said once (`step_cases`); the results on runs are
invariants over it. `decided` is the priority that an operation asks the trace
to take.
-/

namespace DdTrace.Trace

open Lib

namespace State

variable {tr : Tracer}

/-! ## What a step does -/

/-- The priority the first span of a trace decides on. -/
def initialPriority (tr : Tracer) (span : Span) : Option SamplingPriority :=
  match span.parent with
  | some (.spanContext ⟨_, _, some p, _⟩) => some p
  | _ => tr.getSamplingPriority span

/-- The priority an operation asks the trace to take, if it asks for one. -/
def decided (tr : Tracer) (s : State) : Op → Option (Option SamplingPriority)
  | .setSamplingPriority value => some value
  | .setTag x key value =>
    if (s.heap x).isFinished then none else (tagPriority key value).map some
  | .addSpan x =>
    if s.ctx.rootSpan = none ∧ s.ctx.samplingPriority = none then
      some (initialPriority tr (s.heap x))
    else none
  | .closeSpan _ | .finish _ | .inject => none

/-- `t` is `s` with the trace's priority possibly changed. -/
structure SameMetrics (s t : State) : Prop where
  metric : ∀ x, t.metric x = s.metric x
  written : t.written = s.written
  propagated : t.propagated = s.propagated

/-- `t` is `s` after the trace was asked to take the priority `v`. -/
structure Decides (s : State) (v : Option SamplingPriority) (t : State) : Prop
    extends SameMetrics s t where
  unlocked : s.ctx.samplingPriorityLocked = false → t.ctx.samplingPriority = v
  locked : s.ctx.samplingPriorityLocked = true → s.ctx.samplingPriority.isSome = true →
    t.ctx.samplingPriority = s.ctx.samplingPriority
  lock : t.ctx.samplingPriorityLocked = true →
    s.ctx.samplingPriorityLocked = true ∨ t.ctx.samplingPriority.isSome = true
  keeps_lock : s.ctx.samplingPriorityLocked = true → t.ctx.samplingPriorityLocked = true

/-- `t` is `s` as far as priorities go. -/
structure SamePriority (s t : State) : Prop extends SameMetrics s t where
  samplingPriority : t.ctx.samplingPriority = s.ctx.samplingPriority
  locked : t.ctx.samplingPriorityLocked = s.ctx.samplingPriorityLocked

theorem decides_setSamplingPriority (s : State) (v : Option SamplingPriority) :
    Decides s v (s.setSamplingPriority v) := by
  unfold setSamplingPriority
  split
  · rename_i h
    exact ⟨⟨fun _ => rfl, rfl, rfl⟩, fun h' => by simp [h] at h', fun _ _ => rfl, fun _ => .inl h,
      fun _ => h⟩
  · rename_i h
    exact ⟨⟨fun _ => rfl, rfl, rfl⟩, fun _ => rfl, fun h' => absurd h' h,
      fun h' => absurd h' h, fun h' => absurd h' h⟩

theorem decides_addSpan {s : State} (x : SpanRef) (hr : s.ctx.rootSpan = none)
    (hp : s.ctx.samplingPriority = none) :
    Decides s (initialPriority tr (s.heap x)) (s.addSpan tr x) := by
  have hsampler : Decides s (tr.getSamplingPriority (s.heap x))
      { s with ctx := { s.ctx with
        rootSpan := some x
        samplingPriority := tr.getSamplingPriority (s.heap x)
        openSpans := s.ctx.openSpans + 1 } } :=
    ⟨⟨fun _ => rfl, rfl, rfl⟩, fun _ => rfl, by simp [hp], fun h => .inl h, fun h => h⟩
  unfold addSpan initialPriority lockSamplingPriority
  simp only [hr, hp]
  rcases hpar : (s.heap x).parent with _ | ⟨_, _, _ | p, _⟩ | _
  · exact hsampler
  · exact hsampler
  · exact ⟨⟨fun _ => rfl, rfl, rfl⟩, fun _ => rfl, by simp [hp], fun _ => .inr rfl, fun _ => rfl⟩
  · exact hsampler

theorem samePriority_addSpan (tr : Tracer) {s : State} (x : SpanRef)
    (h : ¬(s.ctx.rootSpan = none ∧ s.ctx.samplingPriority = none)) :
    SamePriority s (s.addSpan tr x) := by
  unfold addSpan
  split
  · exact ⟨⟨fun _ => rfl, rfl, rfl⟩, rfl, rfl⟩
  · rename_i hr
    dsimp only
    split
    · exact ⟨⟨fun _ => rfl, rfl, rfl⟩, rfl, rfl⟩
    · rename_i hp
      exact absurd ⟨hr, hp⟩ h

theorem SameUpToTags.samePriority {s t : State} (h : SameUpToTags s t) : SamePriority s t :=
  ⟨⟨h.metric, h.written, h.propagated⟩, by rw [h.ctx], by rw [h.ctx]⟩

/-- Of an operation that asks for a priority nothing else changes. -/
theorem after_of_decided {s : State} {op : Op} {v : Option SamplingPriority}
    (h : decided tr s op = some v) : Decides s v (s.after tr op) := by
  cases op with
  | setSamplingPriority w => cases h; exact decides_setSamplingPriority s _
  | setTag x key value =>
    rw [after]
    simp only [decided] at h
    split at h
    · cases h
    · rename_i hf
      rcases setTag_cases tr s x key value (by simpa using hf) with ⟨p, hp, e⟩ | ⟨hp, -⟩
      · rw [hp] at h; cases h
        rw [e]; exact decides_setSamplingPriority s _
      · rw [hp] at h; cases h
  | addSpan x =>
    simp only [decided] at h
    split at h
    · rename_i hn; cases h; exact decides_addSpan x hn.1 hn.2
    · cases h
  | closeSpan x => cases h
  | finish x => cases h
  | inject => cases h

/-- `Finish` closes the span; marking it finished first changes no priority. -/
theorem finish_cases (tr : Tracer) (s : State) (x : SpanRef) :
    SamePriority s (s.finish tr x) ∨ ∃ cut, ClosedAs s x cut (s.finish tr x) := by
  unfold finish
  split
  · exact .inl ⟨⟨fun _ => rfl, rfl, rfl⟩, rfl, rfl⟩
  · obtain ⟨cut, hc⟩ := afterClose_closedAs tr { s with
      heap := Function.update s.heap x { s.heap x with isFinished := true } } x
    refine .inr ⟨cut, hc.samplingPriority, hc.locked, hc.rootSpan, hc.propagated, fun y => ?_,
      hc.written⟩
    have hm : ∀ y, metric { s with
        heap := Function.update s.heap x { s.heap x with isFinished := true } } y = s.metric y := by
      intro y
      by_cases hy : y = x
      · subst hy; simp [metric]
      · simp [metric, hy]
    rw [hc.metric, stamp, stamp, hm]

/-- Everything a step can do to priorities. -/
theorem step_cases {s t : State} {op : Op} (h : Step tr s op t) :
    (∃ v, decided tr s op = some v ∧ Decides s v t) ∨
      decided tr s op = none ∧ (SamePriority s t ∨ t = s.inject ∨ ∃ x cut, ClosedAs s x cut t) := by
  cases hd : decided tr s op with
  | some v =>
    cases h
    exact .inl ⟨v, rfl, after_of_decided hd⟩
  | none =>
    refine .inr ⟨rfl, ?_⟩
    cases h
    cases op with
    | setSamplingPriority w => cases hd
    | setTag x key value =>
      simp only [after]
      simp only [decided] at hd
      split at hd
      · rename_i hf
        rw [setTag_of_finished hf]
        exact .inl ⟨⟨fun _ => rfl, rfl, rfl⟩, rfl, rfl⟩
      · rename_i hf
        rcases setTag_cases tr s x key value (by simpa using hf) with ⟨p, hp, e⟩ | ⟨-, e⟩
        · rw [hp] at hd; cases hd
        · exact .inl e.samePriority
    | addSpan x =>
      simp only [decided] at hd
      split at hd
      · cases hd
      · rename_i hn; exact .inl (samePriority_addSpan tr x hn)
    | closeSpan x =>
      obtain ⟨cut, hc⟩ := afterClose_closedAs tr s x
      exact .inr (.inr ⟨x, cut, hc⟩)
    | finish x =>
      rcases finish_cases tr s x with h | ⟨cut, hc⟩
      · exact .inl h
      · exact .inr (.inr ⟨x, cut, hc⟩)
    | inject => exact .inr (.inl rfl)

theorem inject_spec (s : State) :
    s.inject.ctx.samplingPriority = s.ctx.samplingPriority ∧
      s.inject.ctx.samplingPriorityLocked =
        (s.ctx.samplingPriorityLocked || s.ctx.samplingPriority.isSome) ∧
      (∀ x, s.inject.metric x = s.metric x) ∧ s.inject.written = s.written ∧
      s.inject.propagated = s.propagated ++ [s.ctx.samplingPriority] := by
  obtain ⟨h1, h2, h3, h4⟩ := lockSamplingPriority_spec s
  have hw := (sameSpans_lockSamplingPriority s).written
  refine ⟨h1, h2, fun x => ?_, hw, ?_⟩
  · show metric s.lockSamplingPriority x = _
    rw [metric, h3, metric]
  · show s.lockSamplingPriority.propagated ++ [s.lockSamplingPriority.ctx.samplingPriority] = _
    rw [h1, h4]

/-- The metrics on the spans written so far. -/
def writtenPriorities (s : State) : List Rat :=
  s.written.flatten.filterMap (·.samplingPriorityMetric)

theorem ClosedAs.writtenPriorities_subset {s t : State} {x : SpanRef} {cut : Cut}
    (h : ClosedAs s x cut t) {v : Rat} (hv : v ∈ t.writtenPriorities) :
    v ∈ s.writtenPriorities ∨ ∃ y, t.metric y = some v := by
  rw [writtenPriorities, h.written, List.flatten_append, List.filterMap_append,
    List.mem_append] at hv
  refine hv.imp id fun hv => ?_
  obtain ⟨w, hw, e⟩ := List.mem_filterMap.1 hv
  obtain ⟨l, hl, hw⟩ := List.mem_flatten.1 hw
  obtain ⟨chunk, -, rfl⟩ := List.mem_map.1 hl
  obtain ⟨y, -, rfl⟩ := List.mem_map.1 hw
  exact ⟨y, e⟩

/-- A metric after `CloseSpan` is the one before it or the trace's priority. -/
theorem ClosedAs.metric_cases {s t : State} {x : SpanRef} {cut : Cut} (h : ClosedAs s x cut t)
    {y : SpanRef} {v : Rat} (hv : t.metric y = some v) :
    s.metric y = some v ∨ ∃ p, s.ctx.samplingPriority = some p ∧ v = p.toInt := by
  rw [h.metric] at hv
  split at hv
  · rw [stamp] at hv
    cases hp : s.ctx.samplingPriority with
    | none => rw [hp] at hv; exact .inl hv
    | some p => rw [hp] at hv; cases hv; exact .inr ⟨p, rfl, rfl⟩
  · exact .inl hv

/-! ## A priority taken over from a propagated context -/

/-- The trace has the priority `p`, and so has all it wrote and propagated. -/
structure PriorityIs (p : SamplingPriority) (s : State) : Prop where
  samplingPriority : s.ctx.samplingPriority = some p
  written : ∀ v ∈ s.writtenPriorities, v = p.toInt
  propagated : ∀ q ∈ s.propagated, q = some p

/-- The operation does not ask an unlocked trace for another priority than `p`. -/
def AsksOnlyFor (tr : Tracer) (p : SamplingPriority) (s : State) (op : Op) : Prop :=
  s.ctx.samplingPriorityLocked = true ∨ ∀ v, decided tr s op = some v → v = some p

/-- Every metric there is was set from the priority `p`. -/
def MetricsAre (p : SamplingPriority) (s : State) : Prop :=
  ∀ x v, s.metric x = some v → v = p.toInt

theorem PriorityIs.kept {p : SamplingPriority} {s t : State} {op : Op} (hp : PriorityIs p s)
    (hm : MetricsAre p s) (hc : AsksOnlyFor tr p s op) (ht : Step tr s op t) :
    MetricsAre p t ∧ PriorityIs p t := by
  have hsame : SameMetrics s t → t.ctx.samplingPriority = some p →
      MetricsAre p t ∧ PriorityIs p t := by
    intro h hpt
    refine ⟨fun x v hv => hm x v (by rw [← h.metric]; exact hv), hpt, ?_, ?_⟩
    · rw [writtenPriorities, h.written]; exact hp.written
    · rw [h.propagated]; exact hp.propagated
  rcases step_cases ht with ⟨v, hv, hd⟩ | ⟨-, hs | rfl | ⟨x, cut, hcl⟩⟩
  · refine hsame hd.toSameMetrics ?_
    cases hl : s.ctx.samplingPriorityLocked with
    | true => rw [hd.locked hl (by rw [hp.samplingPriority]; rfl), hp.samplingPriority]
    | false => rw [hd.unlocked hl, (hc.resolve_left (by simp [hl])) v hv]
  · exact hsame hs.toSameMetrics (hs.samplingPriority.trans hp.samplingPriority)
  · obtain ⟨h1, -, h3, h4, h5⟩ := inject_spec s
    refine ⟨fun x v hv => hm x v (by rw [← h3]; exact hv), h1.trans hp.samplingPriority, ?_, ?_⟩
    · rw [writtenPriorities, h4]; exact hp.written
    · intro q hq
      rw [h5, List.mem_append, List.mem_singleton] at hq
      rcases hq with hq | rfl
      · exact hp.propagated q hq
      · exact hp.samplingPriority
  · have hmt : MetricsAre p t := by
      intro y v hv
      rcases hcl.metric_cases hv with hv | ⟨q, hq, rfl⟩
      · exact hm y v hv
      · rw [hp.samplingPriority] at hq; cases hq; rfl
    refine ⟨hmt, hcl.samplingPriority.trans hp.samplingPriority, fun v hv => ?_, ?_⟩
    · rcases hcl.writtenPriorities_subset hv with hv | ⟨y, hy⟩
      · exact hp.written v hv
      · exact hmt y v hy
    · rw [hcl.propagated]; exact hp.propagated

/-- Asked for another priority, an unlocked trace takes it. -/
theorem PriorityIs.lost {p : SamplingPriority} {s : State} {op : Op}
    (hc : ¬AsksOnlyFor tr p s op) : ∃ t, Step tr s op t ∧ ¬PriorityIs p t := by
  obtain ⟨hl, hv⟩ := not_or.1 hc
  obtain ⟨v, hv⟩ := not_forall.1 hv
  obtain ⟨hv, hne⟩ := Classical.not_imp.1 hv
  have hd := after_of_decided hv
  refine ⟨_, rfl, fun hp => hne ?_⟩
  rw [← hd.unlocked (by simpa using hl), hp.samplingPriority]

/-- The trace that takes over a propagated priority is created unlocked, and `AddSpan`
leaves it so: the priority stays exactly if nothing asks for another one before a lock. -/
theorem extracted_priority_stays (tr : Tracer) (c : SpanContext) (p : SamplingPriority)
    (hc : c.traceContext = none) (hp : c.samplingPriority = some p)
    (heap : SpanRef → Span) (hheap : ∀ x, (heap x).tags.samplingPriorityMetric = none)
    (serviceName : Option Text) (root : SpanRef) (later : List Op) :
    ∃ ctx, createTraceContext (some (.spanContext c)) = .inr ctx ∧
      let ops := startSpanOps tr (some (.spanContext c)) serviceName root ++ later
      (∃ t, Runs tr (.new ctx heap) ops t) ∧
      (Lib.EachState (Step tr) (PriorityIs p) (.new ctx heap) ops ↔
        Lib.EachStep (Step tr) (AsksOnlyFor tr p) (.new ctx heap) ops) := by
  refine ⟨.new (some p), by simp [createTraceContext, hc, hp],
    runs_total tr _ _, ?_⟩
  have hm : MetricsAre p (.new (.new (some p)) heap) := by
    intro x v hv
    rw [metric, new, hheap] at hv
    cases hv
  refine Lib.eachState_iff_eachStep (I := fun _ => MetricsAre p) ?_ ?_ hm ⟨rfl, ?_, ?_⟩
  · intro _ op _ s t _ hm hs hop ht
    exact hs.kept hm hop ht
  · intro _ op _ s _ _ _ hop
    exact PriorityIs.lost hop
  · intro v hv; cases hv
  · intro q hq; cases hq

/-- A propagated `AutoKeep`, as header extraction hands it to `StartSpan`. -/
def keptContext : SpanContext := ⟨none, none, some .autoKeep, none⟩

def plainTracer : Tracer where
  settings := ⟨false, 500, [], none, none⟩
  maxArrayLength := longestArray
  four_le := four_le_longestArray
  sampler := none
  defaultServiceName := text "app"
  doubleTryParse _ := none

/-- Once the priority was propagated further, the `manual.drop` tag is ignored. -/
theorem extracted_priority_stays_injected :
    Lib.EachState (Step plainTracer) (PriorityIs .autoKeep)
      (.new (.new (some .autoKeep)) fun _ => .new (some (.spanContext keptContext)) none)
      [.addSpan 0, .inject, .setTag 0 (text "manual.drop") (some (text "true"))] := by
  obtain ⟨ctx, hctx, -, h⟩ := extracted_priority_stays plainTracer keptContext .autoKeep rfl rfl
    (fun _ => .new (some (.spanContext keptContext)) none) (fun _ => rfl) none 0
    [.inject, .setTag 0 (text "manual.drop") (some (text "true"))]
  cases hctx
  refine h.2 ?_
  refine Lib.eachStep_cons.2
    ⟨.inr (by simp [decided, new, keptContext, TraceContext.new]), fun t ht => ?_⟩
  cases ht
  refine Lib.eachStep_cons.2 ⟨.inr (by simp [decided]), fun t ht => ?_⟩
  cases ht
  exact Lib.eachStep_cons.2 ⟨.inl rfl, fun t _ => Lib.eachStep_nil⟩

/-- The `manual.drop` tag on the root replaces a propagated `AutoKeep`. -/
theorem extracted_priority_replaced :
    ¬∀ (tr : Tracer) (later : List Op),
      Lib.EachState (Step tr) (PriorityIs .autoKeep)
        (.new (.new keptContext.samplingPriority)
          fun _ => .new (some (.spanContext keptContext)) none)
        (startSpanOps tr (some (.spanContext keptContext)) none 0 ++ later) := by
  intro h
  have h := h plainTracer [.setTag 0 (text "manual.drop") (some (text "true"))] _ [] _
    (List.append_nil _).symm (.cons rfl (.cons rfl (.nil _)))
  exact absurd h.samplingPriority (by decide)

/-! ## One trace, one written priority -/

/-- All spans written with the metric carry the same value. -/
def OnePriority (s : State) : Prop :=
  ∀ v ∈ s.writtenPriorities, ∀ w ∈ s.writtenPriorities, v = w

/-- The operation does not give an unlocked trace a priority other than one already
written. -/
def KeepsWritten (tr : Tracer) (s : State) (op : Op) : Prop :=
  s.ctx.samplingPriorityLocked = true ∨
    ∀ p, decided tr s op = some (some p) → ∀ w ∈ s.writtenPriorities, w = p.toInt

/-- The invariant: what was written agrees with the trace's priority if it has one, and a
metric not written yet is that of a locked priority. -/
structure WrittenAgree (s : State) : Prop where
  one : OnePriority s
  agrees : ∀ p, s.ctx.samplingPriority = some p → ∀ w ∈ s.writtenPriorities, w = p.toInt
  metric : ∀ x v, s.metric x = some v → v ∈ s.writtenPriorities ∨
    s.ctx.samplingPriorityLocked = true ∧ ∃ p, s.ctx.samplingPriority = some p ∧ v = p.toInt
  locked : s.ctx.samplingPriorityLocked = true → s.ctx.samplingPriority.isSome = true

theorem WrittenAgree.of_same {s t : State} (h : WrittenAgree s) (hs : SameMetrics s t)
    (hp : t.ctx.samplingPriority = s.ctx.samplingPriority)
    (hl : s.ctx.samplingPriorityLocked = true → t.ctx.samplingPriorityLocked = true)
    (hl' : t.ctx.samplingPriorityLocked = true →
      s.ctx.samplingPriorityLocked = true ∨ t.ctx.samplingPriority.isSome = true) :
    WrittenAgree t := by
  have hw : t.writtenPriorities = s.writtenPriorities := by
    rw [writtenPriorities, hs.written, writtenPriorities]
  refine ⟨?_, ?_, fun x v hv => ?_, fun ht => (hl' ht).elim (fun h' => ?_) id⟩
  · rw [OnePriority, hw]; exact h.one
  · rw [hp, hw]; exact h.agrees
  · rw [hw, hp]
    rw [hs.metric] at hv
    exact (h.metric x v hv).imp id fun ⟨h1, h2⟩ => ⟨hl h1, h2⟩
  · rw [hp]; exact h.locked h'

/-- A span of the chunk is written with the metric it has. -/
theorem ClosedAs.mem_writtenPriorities {s t : State} {x y : SpanRef} {cut : Cut}
    (h : ClosedAs s x cut t) (hy : y ∈ cut.spansToWrite) {v : Rat} (hv : t.metric y = some v) :
    v ∈ t.writtenPriorities := by
  rw [writtenPriorities, h.written, List.flatten_append, List.filterMap_append, List.mem_append]
  refine .inr (List.mem_filterMap.2 ⟨⟨y, t.metric y⟩, ?_, hv⟩)
  rw [asChunks, if_neg (List.ne_nil_of_mem hy)]
  simpa using hy

theorem WrittenAgree.closed {s t : State} {x : SpanRef} {cut : Cut} (h : WrittenAgree s)
    (hc : ClosedAs s x cut t) : WrittenAgree t := by
  -- a metric written now was written before or is the trace's priority
  have hnew : ∀ v ∈ t.writtenPriorities, v ∈ s.writtenPriorities ∨
      ∃ p, s.ctx.samplingPriority = some p ∧ v = p.toInt := by
    intro v hv
    rcases hc.writtenPriorities_subset hv with hv | ⟨y, hy⟩
    · exact .inl hv
    · rcases hc.metric_cases hy with hy | hy
      · exact (h.metric y v hy).imp id And.right
      · exact .inr hy
  have hagrees : ∀ p, s.ctx.samplingPriority = some p → ∀ w ∈ t.writtenPriorities, w = p.toInt := by
    intro p hp w hw
    rcases hnew w hw with hw | ⟨q, hq, rfl⟩
    · exact h.agrees p hp w hw
    · rw [hp] at hq; cases hq; rfl
  have hold : ∀ v ∈ s.writtenPriorities, v ∈ t.writtenPriorities := by
    intro v hv
    rw [writtenPriorities, hc.written, List.flatten_append, List.filterMap_append,
      List.mem_append]
    exact .inl hv
  refine ⟨fun v hv w hw => ?_, ?_, fun y v hv => ?_, fun hl => ?_⟩
  · cases hp : s.ctx.samplingPriority with
    | some p => rw [hagrees p hp v hv, hagrees p hp w hw]
    | none =>
      have hnone : ∀ u ∈ t.writtenPriorities, u ∈ s.writtenPriorities := by
        intro u hu
        rcases hnew u hu with hu | ⟨q, hq, -⟩
        · exact hu
        · rw [hp] at hq; cases hq
      exact h.one v (hnone v hv) w (hnone w hw)
  · rw [hc.samplingPriority]; exact hagrees
  · by_cases hy : y ∈ cut.spansToWrite
    · exact .inl (hc.mem_writtenPriorities hy hv)
    · rw [hc.samplingPriority, hc.locked]
      rcases hc.metric_cases hv with hv' | ⟨p, hp, rfl⟩
      · refine (h.metric y v hv').imp (hold v) fun ⟨h1, h2⟩ => ⟨?_, h2⟩
        rw [h1, Bool.true_or]
      · by_cases hr : s.ctx.rootSpan = some x
        · exact .inr ⟨by simp [hr, hp], p, hp, rfl⟩
        · rw [hc.metric, if_neg (by simp [hr, hy])] at hv
          refine (h.metric y _ hv).imp (hold _) fun ⟨h1, h2⟩ => ⟨?_, h2⟩
          rw [h1, Bool.true_or]
  · rw [hc.samplingPriority]
    rw [hc.locked, Bool.or_eq_true, Bool.and_eq_true] at hl
    exact hl.elim h.locked And.right

theorem WrittenAgree.kept {s t : State} {op : Op} (h : WrittenAgree s) (hc : KeepsWritten tr s op)
    (ht : Step tr s op t) : WrittenAgree t := by
  rcases step_cases ht with ⟨v, hv, hd⟩ | ⟨-, hs | rfl | ⟨x, cut, hcl⟩⟩
  · cases hl : s.ctx.samplingPriorityLocked with
    | true => exact h.of_same hd.toSameMetrics (hd.locked hl (h.locked hl)) hd.keeps_lock hd.lock
    | false =>
      have hw : t.writtenPriorities = s.writtenPriorities := by
        rw [writtenPriorities, hd.written, writtenPriorities]
      refine ⟨?_, fun p hp => ?_, fun x w hw' => ?_, fun hl' => ?_⟩
      · rw [OnePriority, hw]; exact h.one
      · rw [hw]
        rw [hd.unlocked hl] at hp
        exact hc.resolve_left (by simp [hl]) p (by rw [hv, hp])
      · rw [hw]
        rw [hd.metric] at hw'
        exact .inl ((h.metric x w hw').resolve_right fun h' => by rw [hl] at h'; cases h'.1)
      · exact (hd.lock hl').resolve_left (by simp [hl])
  · exact h.of_same hs.toSameMetrics hs.samplingPriority (fun h' => hs.locked.trans h')
      fun h' => .inl (hs.locked.symm.trans h')
  · obtain ⟨h1, h2, h3, h4, h5⟩ := inject_spec s
    have hw : s.inject.writtenPriorities = s.writtenPriorities := by
      rw [writtenPriorities, h4, writtenPriorities]
    refine ⟨?_, ?_, fun x v hv => ?_, fun hl => ?_⟩
    · rw [OnePriority, hw]; exact h.one
    · rw [h1, hw]; exact h.agrees
    · rw [hw, h1, h2]
      rw [h3] at hv
      refine (h.metric x v hv).imp id fun ⟨h1, h2⟩ => ⟨?_, h2⟩
      rw [h1, Bool.true_or]
    · rw [h1]
      rw [h2, Bool.or_eq_true] at hl
      exact hl.elim h.locked id
  · exact h.closed hcl

/-- A partial flush writes the metric without locking the priority. All metrics written in
a run agree if no operation changes an unlocked priority that was already written. -/
theorem one_priority_written (tr : Tracer) (ctx : TraceContext)
    (hctx : ∃ priority, ctx = .new priority) (heap : SpanRef → Span)
    (hheap : ∀ x, (heap x).tags.samplingPriorityMetric = none) (ops : List Op)
    (hops : Lib.EachStep (Step tr) (KeepsWritten tr) (.new ctx heap) ops) :
    (∃ t, Runs tr (.new ctx heap) ops t) ∧
      Lib.EachState (Step tr) OnePriority (.new ctx heap) ops := by
  obtain ⟨priority, rfl⟩ := hctx
  refine ⟨runs_total tr _ _, ?_⟩
  refine Lib.EachState.of_invariant (I := WrittenAgree) (fun s op t h hc ht => h.kept hc ht)
    (fun s h => h.one) hops ⟨?_, ?_, ?_, ?_⟩
  · intro v hv; cases hv
  · intro p _ w hw; cases hw
  · intro x v hv; rw [metric, new, hheap] at hv; cases hv
  · intro hl; cases hl

/-- A trace of spans without parent, with the priority `AutoKeep`. -/
def autoKeepTrace : State := .new (.new (some .autoKeep)) fun _ => .new none none

theorem one_priority_written_again :
    Lib.EachState (Step (flushingTracer 1)) OnePriority autoKeepTrace
      [.addSpan 0, .addSpan 1, .closeSpan 1, .setSamplingPriority (some .autoKeep),
        .closeSpan 0] := by
  refine (one_priority_written (flushingTracer 1) _ ⟨some .autoKeep, rfl⟩
    (fun _ => .new none none) (fun _ => rfl) _ ?_).2
  refine Lib.eachStep_cons.2 ⟨.inr fun _ h => (by cases h), fun t ht => ?_⟩
  cases ht
  refine Lib.eachStep_cons.2 ⟨.inr fun _ h => (by cases h), fun t ht => ?_⟩
  cases ht
  refine Lib.eachStep_cons.2 ⟨.inr fun _ h => (by cases h), fun t ht => ?_⟩
  cases ht
  refine Lib.eachStep_cons.2 ⟨.inr fun p hp w hw => ?_, fun t ht => ?_⟩
  · cases hp
    exact List.mem_singleton.1 (show w ∈ [(SamplingPriority.autoKeep.toInt : Rat)] from hw)
  cases ht
  exact Lib.eachStep_cons.2 ⟨.inr fun _ h => (by cases h), fun t _ => Lib.eachStep_nil⟩

/-- A partial chunk goes out with `AutoKeep`, the root with `UserReject`. -/
theorem two_priorities_written :
    ¬∀ (tr : Tracer) (ops : List Op),
      Lib.EachState (Step tr) OnePriority autoKeepTrace ops := by
  intro h
  have h := h (flushingTracer 1) [.addSpan 0, .addSpan 1, .closeSpan 1,
    .setTag 0 (text "manual.drop") (some (text "true")), .closeSpan 0] _ [] _
    (List.append_nil _).symm (.cons rfl (.cons rfl (.cons rfl (.cons rfl (.cons rfl (.nil _))))))
  have h : (1 : Rat) = -1 := h 1 (by decide) (-1) (by decide)
  exact absurd h (by decide)

end State

end DdTrace.Trace
