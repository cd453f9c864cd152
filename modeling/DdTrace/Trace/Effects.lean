import DdTrace.Trace.TraceContext

/-!
# What each operation of a trace touches

One lemma for each operation and part of the state: the spans a trace holds
(`SameSpans`), its sampling priority, and the sampling-priority metric on the
spans (`metric`). Later modules use these and do not unfold the operations.
-/

namespace DdTrace.Trace

open Lib Configuration

namespace ITags

@[simp] theorem samplingPriorityMetric_setTag (t : ITags) (key : Text) (v : Option Text) :
    (t.setTag key v).samplingPriorityMetric = t.samplingPriorityMetric := rfl

theorem samplingPriorityMetric_setMetric (t : ITags) (p : Rat) :
    (t.setMetric Metrics.samplingPriority (some p)).samplingPriorityMetric = some p :=
  TagStore.get_set_some t.writable p

theorem samplingPriorityMetric_setMetric_ne (t : ITags) {key : Text}
    (h : Metrics.samplingPriority ≠ key) (v : Option Rat) :
    (t.setMetric key v).samplingPriorityMetric = t.samplingPriorityMetric :=
  TagStore.get_set_ne h _ v

theorem samplingPriorityMetric_property (t : ITags) (h : t.isCommonTags = true) (v : Option Rat) :
    (t.setSamplingPriorityProperty v).samplingPriorityMetric = v := by
  obtain ⟨p, hp⟩ := Option.isSome_iff_exists.1 (t.common h)
  obtain ⟨hm, hk⟩ := TagStore.findProperty_spec hp
  simp only [samplingPriorityMetric, setSamplingPriorityProperty, TagStore.get,
    TagStore.findProperty_setProperty, hp, Option.map_some]
  simp [Property.set, t.writable p hm hk]

end ITags

namespace State

variable {tr : Tracer}

/-! ## The spans a trace holds -/

/-- The spans of one chunk. -/
def spansOf (chunk : List WrittenSpan) : List SpanRef := chunk.map (·.span)

def chunks (s : State) : List (List SpanRef) := s.written.map spansOf

def pending (s : State) : List SpanRef := s.ctx.spans.getArray

/-- `t` holds, counts and has written the same spans as `s`, and has the same root. -/
structure SameSpans (s t : State) : Prop where
  spans : t.ctx.spans = s.ctx.spans
  openSpans : t.ctx.openSpans = s.ctx.openSpans
  rootSpan : t.ctx.rootSpan = s.ctx.rootSpan
  written : t.written = s.written

theorem SameSpans.refl (s : State) : SameSpans s s := ⟨rfl, rfl, rfl, rfl⟩

theorem SameSpans.trans {s t u : State} (h1 : SameSpans s t) (h2 : SameSpans t u) :
    SameSpans s u :=
  ⟨h2.1.trans h1.1, h2.2.trans h1.2, h2.3.trans h1.3, h2.4.trans h1.4⟩

theorem sameSpans_putSamplingPriority (s : State) (x : SpanRef) (p : SamplingPriority) :
    SameSpans s (s.putSamplingPriority x p) := ⟨rfl, rfl, rfl, rfl⟩

theorem sameSpans_setSamplingPriority (s : State) (v : Option SamplingPriority) :
    SameSpans s (s.setSamplingPriority v) := by
  unfold setSamplingPriority
  split <;> exact ⟨rfl, rfl, rfl, rfl⟩

theorem sameSpans_lockSamplingPriority (s : State) : SameSpans s s.lockSamplingPriority := by
  unfold lockSamplingPriority
  split <;> exact ⟨rfl, rfl, rfl, rfl⟩

theorem sameSpans_inject (s : State) : SameSpans s s.inject :=
  (sameSpans_lockSamplingPriority s).trans ⟨rfl, rfl, rfl, rfl⟩

theorem sameSpans_enterClose (s : State) (x : SpanRef) : SameSpans s (s.enterClose x) := by
  unfold enterClose
  split
  · have h := sameSpans_lockSamplingPriority s
    dsimp only
    split
    · exact h
    · exact h.trans (sameSpans_putSamplingPriority _ _ _)
  · exact .refl s

theorem sameSpans_propagateMetadata (s : State) (chunk : List SpanRef) :
    SameSpans s (s.propagateMetadata chunk) := by
  unfold propagateMetadata
  split
  · exact .refl s
  · rename_i p _
    generalize s = u
    induction chunk generalizing u with
    | nil => exact .refl u
    | cons x xs ih => exact (sameSpans_putSamplingPriority u x p).trans (ih _)

/-- The chunks a list of spans makes: none if it is empty. -/
def asChunks (spans : List SpanRef) : List (List SpanRef) := if spans = [] then [] else [spans]

@[simp] theorem flatten_asChunks (spans : List SpanRef) : (asChunks spans).flatten = spans := by
  unfold asChunks
  split <;> simp_all

theorem writeChunk_spec (s : State) (chunk : List SpanRef) :
    (s.writeChunk chunk).ctx = s.ctx ∧
      (s.writeChunk chunk).chunks = s.chunks ++ asChunks chunk := by
  cases chunk with
  | nil => exact ⟨rfl, (List.append_nil _).symm⟩
  | cons x xs => exact ⟨rfl, by simp [writeChunk, write, chunks, spansOf, asChunks, Function.comp_def]⟩

/-! ## Tags -/

/-- The priority a tag asks for, as the cases of `Span.SetTag` decide it. -/
def tagPriority (key : Text) (value : Option Text) : Option SamplingPriority :=
  if key = Tags.origin then none
  else if key = Tags.samplingPriority then SamplingPriority.tryParse value
  else if key = Tags.forceKeep ∨ key = Tags.manualKeep then
    if value.bind toBoolean = some true then some .userKeep else none
  else if key = Tags.forceDrop ∨ key = Tags.manualDrop then
    if value.bind toBoolean = some true then some .userReject else none
  else none

/-- The sampling-priority metric a span carries. -/
def metric (s : State) (x : SpanRef) : Option Rat := (s.heap x).tags.samplingPriorityMetric

/-- `t` is `s` up to tags: nothing but span data changed, and no span's priority metric. -/
structure SameUpToTags (s t : State) : Prop where
  ctx : t.ctx = s.ctx
  written : t.written = s.written
  propagated : t.propagated = s.propagated
  metric : ∀ x, t.metric x = s.metric x

theorem SameUpToTags.refl (s : State) : SameUpToTags s s :=
  ⟨rfl, rfl, rfl, fun _ => rfl⟩

theorem sameUpToTags_setTags (s : State) (x : SpanRef) {t : ITags}
    (h : t.samplingPriorityMetric = (s.heap x).tags.samplingPriorityMetric) :
    SameUpToTags s (s.setTags x t) := by
  refine ⟨rfl, rfl, rfl, fun y => ?_⟩
  by_cases hy : y = x
  · subst hy; simpa [metric, setTags] using h
  · simp [metric, setTags, hy]

theorem sameUpToTags_setMetric (s : State) (x : SpanRef) {key : Text}
    (h : Metrics.samplingPriority ≠ key) (v : Option Rat) :
    SameUpToTags s (s.setTags x ((s.heap x).tags.setMetric key v)) :=
  sameUpToTags_setTags s x (ITags.samplingPriorityMetric_setMetric_ne _ h v)

theorem sameUpToTags_origin (s : State) (x : SpanRef) (v : Option Text) :
    SameUpToTags s
      { s with heap := Function.update s.heap x { s.heap x with origin := v } } := by
  refine ⟨rfl, rfl, rfl, fun y => ?_⟩
  by_cases hy : y = x
  · subst hy; simp [metric]
  · simp [metric, hy]

theorem setTag_of_finished {s : State} {x : SpanRef} (h : (s.heap x).isFinished = true)
    (key : Text) (value : Option Text) : s.setTag tr x key value = s := by
  simp [setTag, h]

/-- On an unfinished span, `SetTag` either assigns the priority its tag asks for or changes
nothing but the span's data. -/
theorem setTag_cases (tr : Tracer) (s : State) (x : SpanRef) (key : Text) (value : Option Text)
    (hf : (s.heap x).isFinished = false) :
    (∃ p, tagPriority key value = some p ∧
      s.setTag tr x key value = s.setSamplingPriority (some p)) ∨
    (tagPriority key value = none ∧ SameUpToTags s (s.setTag tr x key value)) := by
  have horigin := sameUpToTags_origin s x value
  unfold setTag tagPriority
  simp only [hf, Bool.false_eq_true, ↓reduceIte] at horigin ⊢
  split
  · exact .inr ⟨rfl, horigin⟩
  split
  · cases h : SamplingPriority.tryParse value with
    | some p => exact .inl ⟨p, rfl, rfl⟩
    | none => exact .inr ⟨rfl, .refl s⟩
  split
  · split
    · exact .inl ⟨_, rfl, rfl⟩
    · exact .inr ⟨rfl, .refl s⟩
  split
  · split
    · exact .inl ⟨_, rfl, rfl⟩
    · exact .inr ⟨rfl, .refl s⟩
  refine .inr ⟨rfl, ?_⟩
  split
  · split
    · exact sameUpToTags_setMetric s x (by decide) _
    · exact sameUpToTags_setMetric s x (by decide) _
    · split
      · exact sameUpToTags_setMetric s x (by decide) _
      · exact .refl s
  split
  · split
    · exact sameUpToTags_setMetric s x (by decide) _
    · exact sameUpToTags_setMetric s x (by decide) _
    · split
      · exact sameUpToTags_setMetric s x (by decide) _
      · exact .refl s
  · exact sameUpToTags_setTags s x (ITags.samplingPriorityMetric_setTag _ _ _)

theorem SameUpToTags.sameSpans {s t : State} (h : SameUpToTags s t) : SameSpans s t :=
  ⟨by rw [h.ctx], by rw [h.ctx], by rw [h.ctx], h.written⟩

theorem sameSpans_setTag (s : State) (x : SpanRef) (key : Text) (value : Option Text) :
    SameSpans s (s.setTag tr x key value) := by
  cases hf : (s.heap x).isFinished with
  | true => rw [setTag_of_finished hf]; exact .refl s
  | false =>
    rcases setTag_cases tr s x key value hf with ⟨p, -, h⟩ | ⟨-, h⟩
    · rw [h]; exact sameSpans_setSamplingPriority s _
    · exact h.sameSpans

/-! ## The sampling-priority metric -/

@[simp] theorem metric_putSamplingPriority_self (s : State) (x : SpanRef) (p : SamplingPriority) :
    (s.putSamplingPriority x p).metric x = some (p.toInt : Rat) := by
  simp only [metric, putSamplingPriority, setTags, Function.update_self]
  split
  · rename_i h
    exact ITags.samplingPriorityMetric_property _ h _
  · exact ITags.samplingPriorityMetric_setMetric _ _

theorem metric_putSamplingPriority_ne {s : State} {x y : SpanRef} (h : y ≠ x)
    (p : SamplingPriority) : (s.putSamplingPriority x p).metric y = s.metric y := by
  simp [metric, putSamplingPriority, setTags, h]

/-- Partial flush puts the priority on every span of the chunk and on no other. -/
theorem metric_propagateMetadata {s : State} {p : SamplingPriority}
    (h : s.ctx.samplingPriority = some p) (chunk : List SpanRef) (y : SpanRef) :
    (s.propagateMetadata chunk).metric y =
      if y ∈ chunk then some (p.toInt : Rat) else s.metric y := by
  simp only [propagateMetadata, h]
  clear h
  induction chunk generalizing s with
  | nil => simp
  | cons x xs ih =>
    rw [List.foldl_cons, ih]
    by_cases hy : y = x
    · subst hy; simp
    · by_cases hm : y ∈ xs
      · simp [hm]
      · simp [hm, hy, metric_putSamplingPriority_ne hy]

theorem propagateMetadata_none {s : State} (h : s.ctx.samplingPriority = none)
    (chunk : List SpanRef) : s.propagateMetadata chunk = s := by
  simp only [propagateMetadata, h]

theorem ctx_putSamplingPriority (s : State) (x : SpanRef) (p : SamplingPriority) :
    (s.putSamplingPriority x p).ctx = s.ctx := rfl

theorem ctx_propagateMetadata (s : State) (chunk : List SpanRef) :
    (s.propagateMetadata chunk).ctx = s.ctx ∧
      (s.propagateMetadata chunk).written = s.written ∧
      (s.propagateMetadata chunk).propagated = s.propagated := by
  unfold propagateMetadata
  split
  · exact ⟨rfl, rfl, rfl⟩
  · rename_i p _
    generalize s = u
    induction chunk generalizing u with
    | nil => exact ⟨rfl, rfl, rfl⟩
    | cons x xs ih =>
      obtain ⟨h1, h2, h3⟩ := ih (u.putSamplingPriority x p)
      exact ⟨h1, h2, h3⟩

/-! ## Closing a span -/

theorem lockSamplingPriority_spec (s : State) :
    s.lockSamplingPriority.ctx.samplingPriority = s.ctx.samplingPriority ∧
      s.lockSamplingPriority.ctx.samplingPriorityLocked =
        (s.ctx.samplingPriorityLocked || s.ctx.samplingPriority.isSome) ∧
      s.lockSamplingPriority.heap = s.heap ∧
      s.lockSamplingPriority.propagated = s.propagated := by
  unfold lockSamplingPriority
  split <;> simp_all

/-- The metric a span gets: the trace's priority if it has one. -/
def stamp (s : State) (y : SpanRef) : Option Rat :=
  (s.ctx.samplingPriority.map fun p => (p.toInt : Rat)).or (s.metric y)

/-- What entering `CloseSpan` does to the priority and to the metrics. -/
theorem enterClose_spec (s : State) (x : SpanRef) :
    (s.enterClose x).ctx.samplingPriority = s.ctx.samplingPriority ∧
      (s.enterClose x).ctx.samplingPriorityLocked = (s.ctx.samplingPriorityLocked ||
        decide (s.ctx.rootSpan = some x) && s.ctx.samplingPriority.isSome) ∧
      (s.enterClose x).propagated = s.propagated ∧
      ∀ y, (s.enterClose x).metric y =
        if s.ctx.rootSpan = some x ∧ y = x then s.stamp y else s.metric y := by
  obtain ⟨h1, h2, h3, h4⟩ := lockSamplingPriority_spec s
  unfold enterClose
  by_cases hr : s.ctx.rootSpan = some x
  · cases hp : s.ctx.samplingPriority with
    | none =>
      simp only [hr, ↓reduceIte, h1, hp, h2, h3, h4, metric, stamp]
      simp
    | some p =>
      simp only [hr, ↓reduceIte, h1, hp, ctx_putSamplingPriority, h2, stamp, true_and]
      refine ⟨by simp, h4, fun y => ?_⟩
      by_cases hy : y = x
      · subst hy; simp
      · rw [metric_putSamplingPriority_ne hy, if_neg hy, metric, metric, h3]
  · simp [hr]

/-- The part under the lock touches neither the priority nor any span. -/
theorem cutChunk_frame {s t : State} {x : SpanRef} {cut : Cut}
    (h : s.cutChunk tr x = some (t, cut)) :
    t.ctx.samplingPriority = s.ctx.samplingPriority ∧
      t.ctx.samplingPriorityLocked = s.ctx.samplingPriorityLocked ∧
      t.ctx.rootSpan = s.ctx.rootSpan ∧ t.heap = s.heap ∧ t.written = s.written ∧
      t.propagated = s.propagated := by
  simp only [cutChunk, Option.bind_eq_bind, Option.bind_eq_some_iff] at h
  obtain ⟨spans, -, h⟩ := h
  split at h
  · cases h; exact ⟨rfl, rfl, rfl, rfl, rfl, rfl⟩
  · split at h <;> cases h <;> exact ⟨rfl, rfl, rfl, rfl, rfl, rfl⟩

/-- `t` is `s` after `CloseSpan` of `x`, as far as priorities and metrics go, where `cut`
is what left the lock: the root and the spans of a partial chunk are stamped, then the
chunk is written. -/
structure ClosedAs (s : State) (x : SpanRef) (cut : Cut) (t : State) : Prop where
  samplingPriority : t.ctx.samplingPriority = s.ctx.samplingPriority
  locked : t.ctx.samplingPriorityLocked = (s.ctx.samplingPriorityLocked ||
    decide (s.ctx.rootSpan = some x) && s.ctx.samplingPriority.isSome)
  rootSpan : t.ctx.rootSpan = s.ctx.rootSpan
  propagated : t.propagated = s.propagated
  metric : ∀ y, t.metric y =
    if s.ctx.rootSpan = some x ∧ y = x ∨
      cut.shouldPropagateMetadata = true ∧ y ∈ cut.spansToWrite then s.stamp y else s.metric y
  written : t.written = s.written ++
    (asChunks cut.spansToWrite).map fun chunk => chunk.map fun y => ⟨y, t.metric y⟩

theorem writeChunk_frame (s : State) (chunk : List SpanRef) :
    (s.writeChunk chunk).heap = s.heap ∧ (s.writeChunk chunk).propagated = s.propagated ∧
      (s.writeChunk chunk).written = s.written ++
        (asChunks chunk).map fun chunk => chunk.map fun y => ⟨y, s.metric y⟩ := by
  cases chunk with
  | nil => exact ⟨rfl, rfl, (List.append_nil _).symm⟩
  | cons x xs => exact ⟨rfl, rfl, rfl⟩

theorem closeSpan_closedAs {s t : State} {x : SpanRef} (h : s.closeSpan tr x = some t) :
    ∃ u cut, (s.enterClose x).cutChunk tr x = some (u, cut) ∧ t.ctx = u.ctx ∧
      ClosedAs s x cut t := by
  simp only [closeSpan, Option.bind_eq_bind, Option.bind_eq_some_iff] at h
  obtain ⟨⟨u, cut⟩, hcut, h⟩ := h
  obtain ⟨e1, e2, e3, e4⟩ := enterClose_spec s x
  obtain ⟨c1, c2, c3, c4, c5, c6⟩ := cutChunk_frame hcut
  have hsame := sameSpans_enterClose s x
  refine ⟨u, cut, hcut, ?_⟩
  -- `v` is the state between the lock and the write
  obtain ⟨v, hv⟩ : ∃ v, v = if cut.shouldPropagateMetadata then
      u.propagateMetadata cut.spansToWrite else u := ⟨_, rfl⟩
  have hctx : v.ctx = u.ctx ∧ v.written = u.written ∧ v.propagated = u.propagated := by
    subst hv
    split
    · exact ctx_propagateMetadata u _
    · exact ⟨rfl, rfl, rfl⟩
  have hstamp : ∀ y, v.metric y =
      if cut.shouldPropagateMetadata = true ∧ y ∈ cut.spansToWrite then u.stamp y
      else u.metric y := by
    subst hv
    intro y
    by_cases hp : cut.shouldPropagateMetadata = true
    · cases hs : u.ctx.samplingPriority with
      | none => simp [hp, propagateMetadata_none hs, stamp, hs]
      | some p => simp [hp, metric_propagateMetadata hs, stamp, hs]
    · simp [hp]
  obtain ⟨w1, w2, w3⟩ := writeChunk_frame v cut.spansToWrite
  obtain ⟨w4, -⟩ := writeChunk_spec v cut.spansToWrite
  have hm : ∀ y, (v.writeChunk cut.spansToWrite).metric y = v.metric y := by
    intro y; rw [metric, metric, w1]
  obtain rfl : v.writeChunk cut.spansToWrite = t := by
    rw [hv]; exact Option.some.inj h
  refine ⟨w4.trans hctx.1, ?_, ?_, ?_, ?_, fun y => ?_, ?_⟩
  · rw [w4, hctx.1, c1, e1]
  · rw [w4, hctx.1, c2, e2]
  · rw [w4, hctx.1, c3, hsame.rootSpan]
  · rw [w2, hctx.2.2, c6, e3]
  · have hu : u.metric y = (s.enterClose x).metric y := by rw [metric, metric, c4]
    have hus : u.stamp y = s.stamp y := by
      simp only [stamp, c1, e1, hu, e4]
      split
      · cases s.ctx.samplingPriority <;> rfl
      · rfl
    rw [hm, hstamp, hus, hu, e4]
    by_cases hx : s.ctx.rootSpan = some x ∧ y = x
    · rw [if_pos hx, if_pos (Or.inl hx), ite_self]
    · rw [if_neg hx]
      simp only [hx, false_or]
  · rw [w3, hctx.2.1, c5, hsame.written]
    simp only [hm]

/-- A `CloseSpan` that throws leaves no chunk. -/
theorem enterClose_closedAs (s : State) (x : SpanRef) : ClosedAs s x ⟨[], false⟩ (s.enterClose x) := by
  obtain ⟨h1, h2, h3, h4⟩ := enterClose_spec s x
  have hsame := sameSpans_enterClose s x
  refine ⟨h1, h2, hsame.rootSpan, h3, fun y => ?_, ?_⟩
  · rw [h4]
    simp
  · rw [hsame.written]
    exact (List.append_nil _).symm

theorem afterClose_closedAs (tr : Tracer) (s : State) (x : SpanRef) :
    ∃ cut, ClosedAs s x cut (s.afterClose tr x) := by
  rw [afterClose]
  cases h : s.closeSpan tr x with
  | none => exact ⟨_, enterClose_closedAs s x⟩
  | some t =>
    obtain ⟨-, cut, -, -, hc⟩ := closeSpan_closedAs h
    exact ⟨cut, hc⟩

end State

end DdTrace.Trace
