import DdTrace.Trace.Priority
import Mathlib.Tactic.FinCases

/-!
# Which chunks carry the priority

A partial flush stamps every span of its chunk; a full flush stamps none, so its
chunk has the metric only through the root. The root is missing from it if an
earlier chunk took it (`LeavesRootBehind`). `ChunksKept` adds to the span
invariant where the metric is.
-/

namespace DdTrace.Trace

namespace State

variable {tr : Tracer}

/-- Every written chunk has the root with the metric on it, or the metric on all its spans. -/
def ChunksCarryPriority (s : State) : Prop :=
  ∀ p, s.ctx.samplingPriority = some p → ∀ chunk ∈ s.written,
    (∃ w ∈ chunk, s.ctx.rootSpan = some w.span ∧ w.samplingPriorityMetric = some (p.toInt : Rat)) ∨
      ∀ w ∈ chunk, w.samplingPriorityMetric = some (p.toInt : Rat)

/-- The operation closes the last open span, with room for it, of a trace whose root is neither
that span nor pending. -/
def LeavesRootBehind (tr : Tracer) (s : State) : Op → Prop
  | .closeSpan x => s.ctx.openSpans = 1 ∧ s.ctx.spans.CanAdd tr.maxArrayLength ∧
      ∀ y ∈ s.pending ++ [x], s.ctx.rootSpan ≠ some y
  | _ => False

structure ChunksKept (tr : Tracer) (ops : List Op) (s : State) : Prop where
  kept : ∃ closed, Kept tr ops closed s
  root : s.ctx.rootSpan = (addedSpans ops).head?
  /-- Only closed spans have the metric. -/
  metric : ∀ y v, s.metric y = some v → y ∈ closedSpans ops
  /-- A closed root has it. -/
  root_metric : ∀ p r, s.ctx.samplingPriority = some p → s.ctx.rootSpan = some r →
    r ∈ closedSpans ops → s.metric r = some (p.toInt : Rat)

theorem rootSpan_addSpan (tr : Tracer) (s : State) (x : SpanRef) :
    (s.addSpan tr x).ctx.rootSpan = s.ctx.rootSpan.or (some x) := by
  unfold addSpan lockSamplingPriority
  cases hr : s.ctx.rootSpan with
  | some r => exact hr
  | none =>
    dsimp only
    split
    · rfl
    · split <;> rfl

theorem metric_addSpan (s : State) (x y : SpanRef) : (s.addSpan tr x).metric y = s.metric y := by
  by_cases h : s.ctx.rootSpan = none ∧ s.ctx.samplingPriority = none
  · exact (decides_addSpan x h.1 h.2).metric y
  · exact (samePriority_addSpan tr x h).metric y

/-- Before the first `AddSpan` nothing was closed, hence every written chunk is empty. -/
theorem Kept.chunks_empty {ops : List Op} {closed : List SpanRef} {s : State}
    (h : Kept tr ops closed s) (hp : Proper ops) (ha : addedSpans ops = []) :
    closedSpans ops = [] ∧ ∀ chunk ∈ s.written, chunk = [] := by
  have hc : closedSpans ops = [] := by
    have := hp.closed_le
    rw [ha, List.length_nil] at this
    exact List.eq_nil_of_length_eq_zero (by omega)
  refine ⟨hc, fun chunk hm => ?_⟩
  have hclosed : closed = [] := List.sublist_nil.1 (hc ▸ h.sublist)
  have he := (List.append_eq_nil_iff.1 (h.conserved.trans hclosed)).1
  have := List.flatten_eq_nil_iff.1 he (spansOf chunk) (List.mem_map_of_mem hm)
  exact List.map_eq_nil_iff.1 this

theorem ChunksKept.addSpan {ops : List Op} {s : State} {x : SpanRef} (h : ChunksKept tr ops s)
    (hp : Proper (ops ++ [.addSpan x])) (hc : ChunksCarryPriority s) :
    ChunksKept tr (ops ++ [.addSpan x]) (s.addSpan tr x) ∧
      ChunksCarryPriority (s.addSpan tr x) := by
  obtain ⟨closed, hkept⟩ := h.kept
  have hk : ∃ closed, Kept tr (ops ++ [.addSpan x]) closed (s.addSpan tr x) := ⟨_, hkept.step hp⟩
  have ea : addedSpans (ops ++ [.addSpan x]) = addedSpans ops ++ [x] := by simp [addedSpans]
  have ec : closedSpans (ops ++ [.addSpan x]) = closedSpans ops := by simp [closedSpans]
  have hroot := rootSpan_addSpan tr s x
  have hw := (addSpan_spans tr s x).2.2
  cases hr : s.ctx.rootSpan with
  | none =>
    -- the first span of the trace
    have hnil : addedSpans ops = [] := by
      rw [h.root] at hr; exact List.head?_eq_none_iff.1 hr
    obtain ⟨hclosed, hempty⟩ := hkept.chunks_empty hp.of_append hnil
    refine ⟨⟨hk, ?_, fun y v hv => ?_, fun p r _ _ hmem => ?_⟩, fun p _ chunk hm => ?_⟩
    · rw [hroot, hr, ea, hnil]; rfl
    · rw [ec]; rw [metric_addSpan] at hv; exact h.metric y v hv
    · rw [ec, hclosed] at hmem; cases hmem
    · rw [hw] at hm
      exact .inr fun w hwm => by rw [hempty chunk hm] at hwm; cases hwm
  | some r =>
    have hsame := samePriority_addSpan tr (s := s) x (by simp [hr])
    have hroot' : (s.addSpan tr x).ctx.rootSpan = s.ctx.rootSpan := by rw [hroot, hr]; rfl
    refine ⟨⟨hk, ?_, fun y v hv => ?_, fun p r => ?_⟩, ?_⟩
    · rw [hroot', ea, h.root, List.head?_append, ← h.root, hr]; rfl
    · rw [ec]; rw [metric_addSpan] at hv; exact h.metric y v hv
    · rw [hsame.samplingPriority, hroot', ec, metric_addSpan]; exact h.root_metric p r
    · rw [ChunksCarryPriority, hsame.samplingPriority, hroot', hw]; exact hc

/-- What `CloseSpan` does, as one statement about the chunk it cuts. -/
theorem closeSpan_chunk (tr : Tracer) {s : State} (x : SpanRef)
    (hv : s.ctx.spans.Valid tr.maxArrayLength) (hroom : s.ctx.spans.CanAdd tr.maxArrayLength) :
    ∃ t cut, s.closeSpan tr x = some t ∧ ClosedAs s x cut t ∧
      cut.spansToWrite ++ t.pending = s.pending ++ [x] ∧
      (s.ctx.openSpans = 1 → t.pending = [] ∧ cut.shouldPropagateMetadata = false) ∧
      (s.ctx.openSpans ≠ 1 → cut.spansToWrite ≠ [] → cut.shouldPropagateMetadata = true) := by
  obtain ⟨t, ht, -⟩ := closeSpan_spec tr s x hv hroom
  obtain ⟨u, cut, hcut, hctx, hc⟩ := closeSpan_closedAs ht
  have he := sameSpans_enterClose s x
  obtain ⟨u', cut', hcut', -, -, -, h3, h4, h5, h6, -⟩ :=
    cutChunk_spec tr (s.enterClose x) x (by rw [he.spans]; exact hv) (by rw [he.spans]; exact hroom)
  cases hcut'.symm.trans hcut
  rw [he.openSpans] at h3
  refine ⟨t, cut, ht, hc, ?_, fun h1 => ?_, fun h1 => h6 (by omega)⟩
  · rw [pending, hctx, pending, ← he.spans]; exact h4
  · rw [pending, hctx]; exact h5 (by omega)

/-- The state that `CloseSpan` leaves, whether it throws or not: the chunk has spans that were
closed, a full flush has them all, and a partial one has stamped them. -/
theorem afterClose_chunk (tr : Tracer) {s : State} (x : SpanRef)
    (hv : s.ctx.spans.Valid tr.maxArrayLength) :
    ∃ cut, ClosedAs s x cut (s.afterClose tr x) ∧
      (∀ y ∈ cut.spansToWrite, y ∈ s.pending ++ [x]) ∧
      (cut.spansToWrite ≠ [] → s.ctx.spans.CanAdd tr.maxArrayLength ∧
        (s.ctx.openSpans = 1 → cut.spansToWrite = s.pending ++ [x]) ∧
        (s.ctx.openSpans ≠ 1 → cut.shouldPropagateMetadata = true)) := by
  by_cases hroom : s.ctx.spans.CanAdd tr.maxArrayLength
  · obtain ⟨t, cut, ht, hcl, hsp, hfull, hpart⟩ := closeSpan_chunk tr x hv hroom
    refine ⟨cut, by rw [afterClose, ht]; exact hcl, fun y hy => ?_, fun hne => ⟨hroom, ?_, ?_⟩⟩
    · rw [← hsp]
      exact List.mem_append_left _ hy
    · intro h1
      rw [← hsp, (hfull h1).1, List.append_nil]
    · exact fun h1 => hpart h1 hne
  · rw [afterClose, closeSpan_eq_none tr s x hv hroom]
    refine ⟨⟨[], false⟩, enterClose_closedAs s x, fun y hy => ?_, fun hne => absurd rfl hne⟩
    cases hy

theorem ChunksKept.closeSpan {ops : List Op} {s : State} {x : SpanRef}
    (h : ChunksKept tr ops s) (hc : ChunksCarryPriority s)
    (hl : s.ctx.samplingPriority = none ∨ ¬LeavesRootBehind tr s (.closeSpan x)) :
    ChunksKept tr (ops ++ [.closeSpan x]) (s.afterClose tr x) ∧
      ChunksCarryPriority (s.afterClose tr x) := by
  obtain ⟨closed, hkept⟩ := h.kept
  have hk : ∃ closed, Kept tr (ops ++ [.closeSpan x]) closed (s.afterClose tr x) :=
    ⟨_, hkept.afterClose⟩
  obtain ⟨cut, hcl, hsp, hflush⟩ := afterClose_chunk tr x hkept.valid
  generalize s.afterClose tr x = t at hk hcl ⊢
  have ea : addedSpans (ops ++ [.closeSpan x]) = addedSpans ops := by simp [addedSpans]
  have ec : closedSpans (ops ++ [.closeSpan x]) = closedSpans ops ++ [x] := by simp [closedSpans]
  -- the spans of the chunk are closed
  have hclosed : ∀ y ∈ cut.spansToWrite, y ∈ closedSpans ops ++ [x] := by
    intro y hy
    rcases List.mem_append.1 (hsp y hy) with hy | hy
    · have hmem : y ∈ closed := by
        rw [← hkept.conserved]
        exact List.mem_append_right _ hy
      exact List.mem_append_left _ (hkept.sublist.subset hmem)
    · exact List.mem_append_right _ hy
  have hmetric : ∀ y v, t.metric y = some v → y ∈ closedSpans ops ++ [x] := by
    intro y v hv
    rw [hcl.metric] at hv
    split at hv
    · rename_i hy
      rcases hy with ⟨-, rfl⟩ | ⟨-, hy⟩
      · simp
      · exact hclosed y hy
    · exact List.mem_append_left _ (h.metric y v hv)
  have hroot : ∀ p r, s.ctx.samplingPriority = some p → s.ctx.rootSpan = some r →
      r ∈ closedSpans ops ++ [x] → t.metric r = some (p.toInt : Rat) := by
    intro p r hpr hr hmem
    have hst : s.stamp r = some (p.toInt : Rat) := by rw [stamp, hpr]; rfl
    rw [hcl.metric]
    split
    · exact hst
    · rename_i hn
      rcases List.mem_append.1 hmem with hmem | hmem
      · exact h.root_metric p r hpr hr hmem
      · rw [List.mem_singleton.1 hmem] at hr
        exact absurd (.inl ⟨hr, List.mem_singleton.1 hmem⟩) hn
  refine ⟨⟨hk, ?_, ?_, ?_⟩, ?_⟩
  · rw [hcl.rootSpan, ea]; exact h.root
  · rw [ec]; exact hmetric
  · rw [hcl.samplingPriority, hcl.rootSpan, ec]; exact hroot
  · intro p hpr chunk hm
    rw [hcl.rootSpan]
    rw [hcl.samplingPriority] at hpr
    rw [hcl.written, List.mem_append] at hm
    rcases hm with hm | hm
    · exact hc p hpr chunk hm
    · obtain ⟨l, hl', rfl⟩ := List.mem_map.1 hm
      have hne : cut.spansToWrite ≠ [] := by
        intro e; rw [asChunks, if_pos e] at hl'; cases hl'
      rw [asChunks, if_neg hne, List.mem_singleton] at hl'
      subst hl'
      obtain ⟨hroom, hfull, hpart⟩ := hflush hne
      by_cases h1 : s.ctx.openSpans = 1
      · -- full flush: the root is in the chunk
        have hr : ¬∀ y ∈ s.pending ++ [x], s.ctx.rootSpan ≠ some y := by
          intro hall
          rcases hl with hl | hl
          · rw [hpr] at hl; cases hl
          · exact hl ⟨h1, hroom, hall⟩
        obtain ⟨r, hr⟩ := not_forall.1 hr
        obtain ⟨hmem, hr⟩ := Classical.not_imp.1 hr
        have hr := not_not.1 hr
        rw [← hfull h1] at hmem
        exact .inl ⟨⟨r, t.metric r⟩, List.mem_map.2 ⟨r, hmem, rfl⟩, hr,
          hroot p r hpr hr (hclosed r hmem)⟩
      · -- partial flush: all spans are stamped
        refine .inr fun w hw => ?_
        obtain ⟨y, hy, rfl⟩ := List.mem_map.1 hw
        rw [hcl.metric, if_pos (.inr ⟨hpart h1, hy⟩), stamp, hpr]
        rfl

/-- A chunk that leaves the root behind does not carry the priority. -/
theorem ChunksKept.lost {ops : List Op} {s : State} {x : SpanRef} (h : ChunksKept tr ops s)
    (hp : Proper (ops ++ [.closeSpan x])) {p : SamplingPriority}
    (hpr : s.ctx.samplingPriority = some p) (hl : LeavesRootBehind tr s (.closeSpan x)) :
    ¬ChunksCarryPriority (s.afterClose tr x) := by
  obtain ⟨h1, hroom, hall⟩ := hl
  obtain ⟨closed, hkept⟩ := h.kept
  obtain ⟨t, cut, ht, hcl, hsp, hfull, -⟩ := closeSpan_chunk tr x hkept.valid hroom
  rw [(hfull h1).1, List.append_nil] at hsp
  have hne : cut.spansToWrite ≠ [] := by rw [hsp]; simp
  rw [afterClose, ht, Option.getD_some]
  intro hc
  have hx : t.metric x = none := by
    have hroot : s.ctx.rootSpan ≠ some x := hall x (by simp)
    rw [hcl.metric, if_neg (by simp [hroot, (hfull h1).2])]
    cases hm : s.metric x with
    | none => rfl
    | some v =>
      have hnd := hp.closed_once
      rw [show closedSpans (ops ++ [.closeSpan x]) = closedSpans ops ++ [x] by
        simp [closedSpans]] at hnd
      exact absurd rfl ((List.nodup_append.1 hnd).2.2 x (h.metric x v hm) x (by simp))
  have hmem : cut.spansToWrite.map (fun y => (⟨y, t.metric y⟩ : WrittenSpan)) ∈ t.written := by
    rw [hcl.written, asChunks, if_neg hne]; simp
  rcases hc p (hcl.samplingPriority.trans hpr) _ hmem with ⟨w, hw, hr, -⟩ | hw
  · obtain ⟨y, hy, rfl⟩ := List.mem_map.1 hw
    rw [hcl.rootSpan] at hr
    exact hall y (hsp ▸ hy) hr
  · have := hw ⟨x, t.metric x⟩ (List.mem_map.2 ⟨x, by rw [hsp]; simp, rfl⟩)
    rw [hx] at this
    cases this

end State

end DdTrace.Trace
