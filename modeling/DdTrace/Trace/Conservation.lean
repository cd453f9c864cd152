import DdTrace.Trace.Effects
import Mathlib.Data.List.Perm.Basic
import Mathlib.Tactic.SplitIfs

/-!
# No span is lost or duplicated

Every closed span is in exactly one place: in a chunk handed to `Tracer.Write`
or still pending in `_spans`. `Kept` is the invariant of a run of calls that are
made one after another. A span whose `CloseSpan` throws is not closed: `closedBy` are the others,
all of them while the runtime has an array for twice as many spans.
-/

namespace DdTrace.Trace

open Lib

namespace State

variable {tr : Tracer}

theorem addSpan_spans (tr : Tracer) (s : State) (x : SpanRef) :
    (s.addSpan tr x).ctx.spans = s.ctx.spans ∧
      (s.addSpan tr x).ctx.openSpans = s.ctx.openSpans + 1 ∧
      (s.addSpan tr x).written = s.written := by
  unfold addSpan lockSamplingPriority
  split
  · exact ⟨rfl, rfl, rfl⟩
  · dsimp only
    split
    · exact ⟨rfl, rfl, rfl⟩
    · split
      · exact ⟨rfl, rfl, rfl⟩
      · exact ⟨rfl, rfl, rfl⟩

/-- With partial flush on, fewer spans are pending than the threshold. -/
def BelowThreshold (tr : Tracer) (s : State) : Prop :=
  tr.settings.partialFlushEnabled = true → 0 < tr.settings.partialFlushMinSpans →
    s.ctx.spans.count < tr.settings.partialFlushMinSpans

/-- The locked part of `CloseSpan` on a valid builder: the span joins the pending ones,
and these either stay or leave together as the chunk. -/
theorem cutChunk_spec (tr : Tracer) (s : State) (x : SpanRef)
    (hv : s.ctx.spans.Valid tr.maxArrayLength) (hroom : s.ctx.spans.CanAdd tr.maxArrayLength) :
    ∃ t cut, s.cutChunk tr x = some (t, cut) ∧ t.ctx.spans.Valid tr.maxArrayLength ∧
      t.written = s.written ∧ t.heap = s.heap ∧
      t.ctx.openSpans = s.ctx.openSpans - 1 ∧ cut.spansToWrite ++ t.pending = s.pending ++ [x] ∧
      (t.ctx.openSpans = 0 → t.pending = [] ∧ cut.shouldPropagateMetadata = false) ∧
      (t.ctx.openSpans ≠ 0 → cut.spansToWrite ≠ [] → cut.shouldPropagateMetadata = true) ∧
      BelowThreshold tr t := by
  obtain ⟨b, hb⟩ := Option.isSome_iff_exists.1 ((ArrayBuilder.add_isSome_iff hv x).2 hroom)
  obtain ⟨hbv, hba, hbc⟩ := ArrayBuilder.add_spec hv hb
  have hlen : b.getArray.length = b.count := ArrayBuilder.length_getArray hbv
  have hfits : b.getArray.length ≤ tr.maxArrayLength.1 := by
    have := hbv.count_le
    have := hbv.length_le
    omega
  simp only [cutChunk, hb, Option.bind_eq_bind, Option.bind_some]
  by_cases h0 : s.ctx.openSpans - 1 = 0
  · simp only [h0, ↓reduceIte]
    refine ⟨_, _, rfl, ArrayBuilder.valid_empty, rfl, rfl, by simp, ?_, fun _ => ⟨rfl, rfl⟩,
      fun h => absurd rfl h, fun _ hpos => hpos⟩
    simpa [pending] using hba
  · by_cases hp : shouldTriggerPartialFlush tr b = true
    · simp only [h0, ↓reduceIte, hp]
      refine ⟨_, _, rfl, ArrayBuilder.valid_withCapacity (by omega) hfits, rfl, rfl, rfl, ?_,
        fun h => absurd h h0, fun _ _ => rfl, fun _ hpos => hpos⟩
      simpa [pending] using hba
    · simp only [h0, ↓reduceIte, hp, Bool.false_eq_true]
      refine ⟨_, _, rfl, hbv, rfl, rfl, rfl, ?_, fun h => absurd h h0,
        fun _ h => absurd rfl h, fun he _ => ?_⟩
      · simpa [pending] using hba
      · simp only [shouldTriggerPartialFlush, he, Bool.true_and, decide_eq_true_eq] at hp
        exact Nat.lt_of_not_le hp

theorem cutChunk_eq_none (tr : Tracer) (s : State) (x : SpanRef)
    (hv : s.ctx.spans.Valid tr.maxArrayLength) (hroom : ¬ s.ctx.spans.CanAdd tr.maxArrayLength) :
    s.cutChunk tr x = none := by
  have hadd : s.ctx.spans.add tr.maxArrayLength x = none := by
    rw [← Option.not_isSome_iff_eq_none, ArrayBuilder.add_isSome_iff hv]
    exact hroom
  rw [cutChunk, hadd]
  rfl

/-! ## Calls run one after another -/

def addedSpans (ops : List Op) : List SpanRef :=
  ops.filterMap fun | .addSpan x => some x | _ => none

/-- The spans closed by the operations, in closing order. -/
def closedSpans (ops : List Op) : List SpanRef :=
  ops.filterMap fun | .closeSpan x => some x | _ => none

/-- Each span is added once and closed at most once, after it was added. Closing is by
`CloseSpan` itself, which `Finish` calls. -/
structure Proper (ops : List Op) : Prop where
  added_once : (addedSpans ops).Nodup
  closed_once : (closedSpans ops).Nodup
  closed_added : ∀ pre x post, ops = pre ++ .closeSpan x :: post → x ∈ addedSpans pre
  no_finish : ∀ x, .finish x ∉ ops

theorem Proper.of_append {ops l : List Op} (h : Proper (ops ++ l)) : Proper ops where
  added_once := by
    have := h.added_once
    rw [addedSpans, List.filterMap_append] at this
    exact (List.nodup_append.1 this).1
  closed_once := by
    have := h.closed_once
    rw [closedSpans, List.filterMap_append] at this
    exact (List.nodup_append.1 this).1
  closed_added pre x post e := h.closed_added pre x (post ++ l) (by rw [e]; simp)
  no_finish x hx := h.no_finish x (List.mem_append_left _ hx)

theorem Proper.nil : Proper [] :=
  ⟨.nil, .nil, fun pre _ _ e => by simp at e, fun _ h => by cases h⟩

theorem Proper.addSpan {ops : List Op} (h : Proper ops) {x : SpanRef} (hx : x ∉ addedSpans ops) :
    Proper (ops ++ [.addSpan x]) := by
  have ea : addedSpans (ops ++ [.addSpan x]) = addedSpans ops ++ [x] := by simp [addedSpans]
  have ec : closedSpans (ops ++ [.addSpan x]) = closedSpans ops := by simp [closedSpans]
  refine ⟨?_, ?_, fun pre y post e => ?_, fun y hy => ?_⟩
  · rw [ea]
    exact List.nodup_append.2 ⟨h.added_once, by simp, fun a ha b hb => by
      rintro rfl; exact hx (List.mem_singleton.1 hb ▸ ha)⟩
  · rw [ec]; exact h.closed_once
  · rcases List.append_eq_append_iff.1 e with ⟨l, rfl, hl⟩ | ⟨l, hops, hl⟩
    · cases l <;> simp at hl
    · cases l with
      | nil => simp at hl
      | cons z l =>
        obtain ⟨rfl, -⟩ := List.cons_eq_cons.1 hl
        exact h.closed_added pre y l hops
  · rcases List.mem_append.1 hy with hy | hy
    · exact h.no_finish y hy
    · cases List.mem_singleton.1 hy

theorem Proper.closeSpan {ops : List Op} (h : Proper ops) {x : SpanRef} (hx : x ∉ closedSpans ops)
    (hadd : x ∈ addedSpans ops) : Proper (ops ++ [.closeSpan x]) := by
  have ea : addedSpans (ops ++ [.closeSpan x]) = addedSpans ops := by simp [addedSpans]
  have ec : closedSpans (ops ++ [.closeSpan x]) = closedSpans ops ++ [x] := by simp [closedSpans]
  refine ⟨?_, ?_, fun pre y post e => ?_, fun y hy => ?_⟩
  · rw [ea]; exact h.added_once
  · rw [ec]
    exact List.nodup_append.2 ⟨h.closed_once, by simp, fun a ha b hb => by
      rintro rfl; exact hx (List.mem_singleton.1 hb ▸ ha)⟩
  · rcases List.append_eq_append_iff.1 e with ⟨l, rfl, hl⟩ | ⟨l, hops, hl⟩
    · cases l with
      | nil =>
        cases hl
        rw [List.append_nil]; exact hadd
      | cons z l => simp at hl
    · cases l with
      | nil =>
        cases hl
        rw [hops, List.append_nil] at hadd; exact hadd
      | cons z l =>
        obtain ⟨rfl, -⟩ := List.cons_eq_cons.1 hl
        exact h.closed_added pre y l hops
  · rcases List.mem_append.1 hy with hy | hy
    · exact h.no_finish y hy
    · cases List.mem_singleton.1 hy

theorem Proper.closed_subset {ops : List Op} (h : Proper ops) :
    closedSpans ops ⊆ addedSpans ops := by
  intro x hx
  simp only [closedSpans, List.mem_filterMap] at hx
  obtain ⟨op, hop, e⟩ := hx
  split at e <;> cases e
  obtain ⟨pre, post, rfl⟩ := List.append_of_mem hop
  rw [addedSpans, List.filterMap_append]
  exact List.mem_append_left _ (h.closed_added pre x post rfl)

theorem Proper.closed_le {ops : List Op} (h : Proper ops) :
    (closedSpans ops).length ≤ (addedSpans ops).length :=
  (List.subperm_of_subset h.closed_once h.closed_subset).length_le

/-- The span that an operation closes, unless `CloseSpan` throws. -/
def closes (tr : Tracer) (s : State) : Op → List SpanRef
  | .closeSpan x => if (s.closeSpan tr x).isSome then [x] else []
  | _ => []

/-- The spans closed by a run, in closing order. -/
def closedBy (tr : Tracer) : State → List Op → List SpanRef
  | _, [] => []
  | s, op :: ops => s.closes tr op ++ closedBy tr (s.after tr op) ops

theorem closedBy_append {s t : State} {pre : List Op} (h : Runs tr s pre t) (post : List Op) :
    closedBy tr s (pre ++ post) = closedBy tr s pre ++ closedBy tr t post := by
  induction h with
  | nil s => rfl
  | cons hstep _ ih =>
    cases hstep
    rw [List.cons_append, closedBy, ih, closedBy, List.append_assoc]

theorem closedBy_snoc {s t : State} {ops : List Op} (h : Runs tr s ops t) (op : Op) :
    closedBy tr s (ops ++ [op]) = closedBy tr s ops ++ t.closes tr op := by
  rw [closedBy_append h, closedBy, closedBy, List.append_nil]

/-- The invariant: what is written, followed by what is pending, is what was closed. -/
structure Kept (tr : Tracer) (ops : List Op) (closed : List SpanRef) (s : State) : Prop where
  valid : s.ctx.spans.Valid tr.maxArrayLength
  conserved : s.chunks.flatten ++ s.pending = closed
  sublist : closed.Sublist (closedSpans ops)
  all : 2 * (closedSpans ops).length ≤ tr.maxArrayLength.1 → closed = closedSpans ops
  open_eq : s.ctx.openSpans = (addedSpans ops).length - closed.length
  drained : s.ctx.openSpans = 0 → s.pending = []
  below : BelowThreshold tr s

variable {ops : List Op} {closed : List SpanRef}

theorem Kept.closed_le {s : State} (h : Kept tr ops closed s) (hp : Proper ops) :
    closed.length ≤ (addedSpans ops).length :=
  h.sublist.length_le.trans hp.closed_le

/-- While twice the closed spans have an array, `Add` has room. -/
theorem Kept.canAdd {s : State} (h : Kept tr ops closed s)
    (hroom : 2 * closed.length ≤ tr.maxArrayLength.1) :
    s.ctx.spans.CanAdd tr.maxArrayLength := by
  have hlen : s.pending.length = s.ctx.spans.count := ArrayBuilder.length_getArray h.valid
  have hclosed := congrArg List.length h.conserved
  rw [List.length_append] at hclosed
  exact ArrayBuilder.canAdd_of_count h.valid tr.four_le (by omega)

/-- A fresh trace: nothing open, nothing pending, nothing written. -/
structure Fresh (s : State) : Prop where
  ctx : ∃ priority, s.ctx = .new priority
  written : s.written = []

theorem Fresh.kept (tr : Tracer) {s : State} (h : Fresh s) : Kept tr [] [] s := by
  obtain ⟨⟨p, hp⟩, hw⟩ := h
  have hspans : s.ctx.spans = .empty := by rw [hp]; rfl
  refine ⟨?_, ?_, .slnil, fun _ => rfl, ?_, ?_, ?_⟩
  · rw [hspans]; exact ArrayBuilder.valid_empty
  · simp [chunks, hw, pending, hspans]
  · rw [hp]; simp [TraceContext.new, addedSpans]
  · intro _; simp [pending, hspans]
  · intro _ hpos; rw [hspans]; exact hpos

theorem Kept.of_sameSpans {op : Op} {s t : State} (h : Kept tr ops closed s)
    (hs : SameSpans s t) (ha : addedSpans [op] = []) (hc : closedSpans [op] = []) :
    Kept tr (ops ++ [op]) closed t := by
  have e1 : addedSpans (ops ++ [op]) = addedSpans ops := by
    rw [addedSpans, List.filterMap_append]; simpa [addedSpans] using ha
  have e2 : closedSpans (ops ++ [op]) = closedSpans ops := by
    rw [closedSpans, List.filterMap_append]; simpa [closedSpans] using hc
  refine ⟨?_, ?_, ?_, ?_, ?_, ?_, ?_⟩
  · rw [hs.spans]; exact h.valid
  · rw [← h.conserved, chunks, chunks, pending, pending, hs.written, hs.spans]
  · rw [e2]; exact h.sublist
  · rw [e2]; exact h.all
  · rw [e1, ← h.open_eq, hs.openSpans]
  · rw [hs.openSpans, pending, hs.spans]; exact h.drained
  · rw [BelowThreshold, hs.spans]; exact h.below

/-- `CloseSpan` on a valid builder with room does not throw: it appends to what is kept. -/
theorem closeSpan_spec (tr : Tracer) (s : State) (x : SpanRef)
    (hv : s.ctx.spans.Valid tr.maxArrayLength) (hroom : s.ctx.spans.CanAdd tr.maxArrayLength) :
    ∃ t, s.closeSpan tr x = some t ∧ t.ctx.spans.Valid tr.maxArrayLength ∧
      t.ctx.openSpans = s.ctx.openSpans - 1 ∧
      t.chunks.flatten ++ t.pending = s.chunks.flatten ++ s.pending ++ [x] ∧
      (t.ctx.openSpans = 0 → t.pending = []) ∧ BelowThreshold tr t := by
  have he := sameSpans_enterClose s x
  obtain ⟨u, cut, hcut, hu1, hu2, -, hu3, hu4, hu5, -, hu6⟩ :=
    cutChunk_spec tr (s.enterClose x) x (by rw [he.spans]; exact hv) (by rw [he.spans]; exact hroom)
  -- propagating metadata changes neither the pending nor the written spans
  obtain ⟨v, hv', hsame⟩ : ∃ v, v = (if cut.shouldPropagateMetadata then
      u.propagateMetadata cut.spansToWrite else u) ∧ SameSpans u v := by
    refine ⟨_, rfl, ?_⟩
    split
    · exact sameSpans_propagateMetadata _ _
    · exact .refl u
  obtain ⟨hw1, hw2⟩ := writeChunk_spec v cut.spansToWrite
  refine ⟨v.writeChunk cut.spansToWrite, ?_, ?_, ?_, ?_, ?_, ?_⟩
  · simp [closeSpan, hcut, hv']
  · rw [hw1, hsame.spans]; exact hu1
  · rw [hw1, hsame.openSpans, hu3, he.openSpans]
  · rw [hw2, List.flatten_append, flatten_asChunks, pending, hw1, hsame.spans, List.append_assoc]
    rw [show cut.spansToWrite ++ u.ctx.spans.getArray = _ from hu4]
    simp only [chunks, hsame.written, hu2, he.written, pending, he.spans, List.append_assoc]
  · rw [pending, hw1, hsame.spans, hsame.openSpans]; exact fun h => (hu5 h).1
  · rw [BelowThreshold, hw1, hsame.spans]; exact hu6

theorem closeSpan_eq_none (tr : Tracer) (s : State) (x : SpanRef)
    (hv : s.ctx.spans.Valid tr.maxArrayLength) (hroom : ¬ s.ctx.spans.CanAdd tr.maxArrayLength) :
    s.closeSpan tr x = none := by
  have hspans := (sameSpans_enterClose s x).spans
  rw [closeSpan, cutChunk_eq_none tr _ x (by rw [hspans]; exact hv) (by rw [hspans]; exact hroom)]
  rfl

theorem runs_total (tr : Tracer) (s : State) (ops : List Op) : ∃ t, Runs tr s ops t := by
  obtain ⟨t, ht, -⟩ := Lib.Run.total (I := fun _ : State => True)
    (fun _ _ _ => ⟨_, rfl, trivial⟩) trivial ops
  exact ⟨t, ht⟩

theorem Kept.afterClose {s : State} {x : SpanRef} (h : Kept tr ops closed s) :
    Kept tr (ops ++ [.closeSpan x]) (closed ++ s.closes tr (.closeSpan x))
      (s.afterClose tr x) := by
  have e1 : addedSpans (ops ++ [.closeSpan x]) = addedSpans ops := by simp [addedSpans]
  have e2 : closedSpans (ops ++ [.closeSpan x]) = closedSpans ops ++ [x] := by simp [closedSpans]
  by_cases hroom : s.ctx.spans.CanAdd tr.maxArrayLength
  · obtain ⟨t, ht, h1, h2, h3, h4, h5⟩ := closeSpan_spec tr s x h.valid hroom
    have hcloses : s.closes tr (.closeSpan x) = [x] := by simp [closes, ht]
    have hafter : s.afterClose tr x = t := by simp [State.afterClose, ht]
    rw [hcloses, hafter]
    refine ⟨h1, by rw [← h.conserved, h3], ?_, fun hlimit => ?_, ?_, h4, h5⟩
    · rw [e2]; exact h.sublist.append_right [x]
    · rw [e2, List.length_append, List.length_singleton] at hlimit
      rw [e2, h.all (by omega)]
    · rw [h2, h.open_eq, e1, List.length_append, List.length_singleton]
      omega
  · have hnone := closeSpan_eq_none tr s x h.valid hroom
    have hcloses : s.closes tr (.closeSpan x) = [] := by simp [closes, hnone]
    have hafter : s.afterClose tr x = s.enterClose x := by simp [State.afterClose, hnone]
    have hsame := sameSpans_enterClose s x
    rw [hcloses, hafter, List.append_nil]
    refine ⟨?_, ?_, ?_, fun hlimit => ?_, ?_, ?_, ?_⟩
    · rw [hsame.spans]; exact h.valid
    · rw [← h.conserved, chunks, chunks, pending, pending, hsame.written, hsame.spans]
    · rw [e2]; exact h.sublist.trans (List.sublist_append_left _ _)
    · have hle := h.sublist.length_le
      rw [e2, List.length_append, List.length_singleton] at hlimit
      exact absurd (h.canAdd (by omega)) hroom
    · rw [e1, ← h.open_eq, hsame.openSpans]
    · rw [hsame.openSpans, pending, hsame.spans]; exact h.drained
    · rw [BelowThreshold, hsame.spans]; exact h.below

theorem Kept.step {op : Op} {s : State} (h : Kept tr ops closed s) (hp : Proper (ops ++ [op])) :
    Kept tr (ops ++ [op]) (closed ++ s.closes tr op) (s.after tr op) := by
  cases op with
  | addSpan x =>
    obtain ⟨h1, h2, h3⟩ := addSpan_spans tr s x
    have hle := h.closed_le hp.of_append
    have e1 : addedSpans (ops ++ [.addSpan x]) = addedSpans ops ++ [x] := by simp [addedSpans]
    have e2 : closedSpans (ops ++ [.addSpan x]) = closedSpans ops := by simp [closedSpans]
    have hopen : (s.addSpan tr x).ctx.openSpans =
        (addedSpans (ops ++ [.addSpan x])).length - closed.length := by
      rw [h2, h.open_eq, e1, List.length_append, List.length_singleton]
      omega
    refine (List.append_nil closed).symm ▸ ⟨?_, ?_, ?_, ?_, hopen, fun h0 => ?_, ?_⟩
    · rw [after, h1]; exact h.valid
    · rw [← h.conserved, after, chunks, chunks, pending, pending, h1, h3]
    · rw [e2]; exact h.sublist
    · rw [e2]; exact h.all
    · rw [after, hopen, e1, List.length_append, List.length_singleton] at h0
      omega
    · rw [after, BelowThreshold, h1]; exact h.below
  | closeSpan x => exact h.afterClose
  | finish x => exact absurd (List.mem_append_right _ List.mem_cons_self) (hp.no_finish x)
  | setTag x key value =>
    refine (List.append_nil closed).symm ▸ ?_
    exact h.of_sameSpans (sameSpans_setTag _ _ _ _) rfl rfl
  | setSamplingPriority v =>
    refine (List.append_nil closed).symm ▸ ?_
    exact h.of_sameSpans (sameSpans_setSamplingPriority _ _) rfl rfl
  | inject =>
    refine (List.append_nil closed).symm ▸ ?_
    exact h.of_sameSpans (sameSpans_inject _) rfl rfl

/-- Every proper run of a fresh trace keeps the invariant. -/
theorem Kept.run (tr : Tracer) {s : State} (hs : Fresh s) (ops : List Op) (hp : Proper ops) :
    ∃ t, Runs tr s ops t ∧ Kept tr ops (closedBy tr s ops) t := by
  induction ops using List.reverseRecOn with
  | nil => exact ⟨s, .nil s, hs.kept tr⟩
  | append_singleton ops op ih =>
    obtain ⟨t, ht, hk⟩ := ih hp.of_append
    refine ⟨t.after tr op, Lib.run_snoc_iff.2 ⟨t, ht, rfl⟩, ?_⟩
    rw [closedBy_snoc ht]
    exact hk.step hp

/-- The longest array of references in the 64-bit runtime. -/
def longestArray : MaxLength := ⟨0x7FEFFFFF, by decide⟩

theorem four_le_longestArray : ArrayBuilder.defaultInitialCapacity ≤ longestArray.1 := by
  decide

/-- A tracer without sampler that flushes partially from `n` spans on. -/
def flushingTracer (n : Nat) : Tracer where
  settings := ⟨true, n, [], none, none⟩
  maxArrayLength := longestArray
  four_le := four_le_longestArray
  sampler := none
  defaultServiceName := text "app"
  doubleTryParse _ := none

/-- A new trace of spans without parent. -/
def localTrace : State := .new (.new none) fun _ => .new none none

end State

end DdTrace.Trace
