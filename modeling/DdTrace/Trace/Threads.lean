import DdTrace.Trace.Conservation

/-!
# Calls on several threads

`CloseSpan` calls that run at the same time interleave by their parts; only the
part under the lock is one step. A chunk can then be in the hands of a call that
has left the lock and not yet reached `Tracer.Write`, and two such calls can
reach it in either order. `Threads.Kept` is the invariant over all these
interleavings; `spans_conserved` puts it next to that of sequential runs.
-/

namespace DdTrace.Trace

/-- How far a `CloseSpan` call has come. -/
inductive ClosePc where
  | entering (span : SpanRef)
  | locking (span : SpanRef)
  | propagating (chunk : List SpanRef)
  | writing (chunk : List SpanRef)

/-- The span a call has not closed yet. -/
def ClosePc.waiting : ClosePc → Option SpanRef
  | .entering x | .locking x => some x
  | .propagating _ | .writing _ => none

/-- The chunk a call has cut and not written yet. -/
def ClosePc.carried : ClosePc → List (List SpanRef)
  | .entering _ | .locking _ => []
  | .propagating chunk | .writing chunk => State.asChunks chunk

/-- One trace and the `CloseSpan` calls on it that have not returned. `closed` and `cut`
record the spans and the chunks in the order the lock was taken, `thrown` the spans whose call
ended by an exception of `Add`. -/
structure Threads where
  state : State
  calls : List ClosePc
  closed : List SpanRef
  cut : List (List SpanRef)
  thrown : List SpanRef

namespace Threads

open State

variable {tr : Tracer}

inductive Event where
  /-- Some thread makes a call; all but `CloseSpan` are one step. -/
  | call (op : Op)
  /-- The `i`-th open call runs its next part. -/
  | advance (i : Nat)

def start (s : Threads) (x : SpanRef) : Threads := { s with calls := s.calls ++ [.entering x] }

def advance (tr : Tracer) (s : Threads) (i : Nat) : ClosePc → Threads
  | .entering x => { s with state := s.state.enterClose x, calls := s.calls.set i (.locking x) }
  | .locking x =>
    match s.state.cutChunk tr x with
    | none => { s with calls := s.calls.eraseIdx i, thrown := s.thrown ++ [x] }
    | some (state, cut) =>
      let pc := if cut.shouldPropagateMetadata then ClosePc.propagating cut.spansToWrite
        else .writing cut.spansToWrite
      { s with
        state := state
        calls := s.calls.set i pc
        closed := s.closed ++ [x]
        cut := s.cut ++ asChunks cut.spansToWrite }
  | .propagating chunk =>
    { s with
      state := s.state.propagateMetadata chunk
      calls := s.calls.set i (.writing chunk) }
  | .writing chunk => { s with state := s.state.writeChunk chunk, calls := s.calls.eraseIdx i }

def step (tr : Tracer) (s : Threads) : Event → Option Threads
  | .call (.closeSpan x) => some (s.start x)
  | .call (.finish x) =>
    let span := s.state.heap x
    if span.isFinished then some s
    else
      some <| start { s with
        state.heap := Function.update s.state.heap x { span with isFinished := true } } x
  | .call op => some { s with state := s.state.after tr op }
  | .advance i => s.calls[i]?.map (s.advance tr i)

abbrev Runs (tr : Tracer) (s : Threads) (es : List Event) (t : Threads) : Prop :=
  Lib.Run (Lib.stepOf (step tr)) s es t

/-- The calls made, in the order they were made. -/
def callsOf (es : List Event) : List Op :=
  es.filterMap fun | .call op => some op | .advance _ => none

def waiting (s : Threads) : List SpanRef := s.calls.filterMap ClosePc.waiting

def carried (s : Threads) : List (List SpanRef) := s.calls.flatMap ClosePc.carried

/-- In the order of the lock nothing is lost or duplicated; each chunk cut there is
written or still carried by a call; and the spans missing in `closed` are those of the calls that
have thrown or not taken the lock yet. -/
structure Kept (tr : Tracer) (ops : List Op) (s : Threads) : Prop where
  valid : s.state.ctx.spans.Valid tr.maxArrayLength
  conserved : s.cut.flatten ++ s.state.pending = s.closed
  written : (s.state.chunks ++ s.carried).Perm s.cut
  started : (s.closed ++ s.thrown ++ s.waiting).Perm (closedSpans ops)
  no_throw : 2 * (closedSpans ops).length ≤ tr.maxArrayLength.1 → s.thrown = []
  open_eq : s.state.ctx.openSpans = (addedSpans ops).length - s.closed.length
  drained : s.state.ctx.openSpans = 0 → s.state.pending = []
  below : BelowThreshold tr s.state

theorem Kept.closed_le {ops : List Op} {s : Threads} (h : Kept tr ops s) (hp : Proper ops) :
    s.closed.length ≤ (addedSpans ops).length := by
  have h1 := h.started.length_eq
  have h2 := hp.closed_le
  rw [List.length_append, List.length_append] at h1
  omega

/-! ## The parts of a call -/

/-- What the other calls hold stays the same when the `i`-th call is replaced or returns. -/
theorem calls_split {s : Threads} {i : Nat} {c : ClosePc} (hc : s.calls[i]? = some c) :
    ∃ W C, s.waiting.Perm (c.waiting.toList ++ W) ∧ s.carried.Perm (c.carried ++ C) ∧
      (∀ (t : Threads) (d : ClosePc), t.calls = s.calls.set i d →
        t.waiting.Perm (d.waiting.toList ++ W) ∧ t.carried.Perm (d.carried ++ C)) ∧
      (∀ t : Threads, t.calls = s.calls.eraseIdx i → t.waiting = W ∧ t.carried = C) := by
  obtain ⟨hi, rfl⟩ := List.getElem?_eq_some_iff.1 hc
  have hw : ∀ (d : ClosePc) (ds : List ClosePc), List.filterMap ClosePc.waiting (d :: ds) =
      d.waiting.toList ++ ds.filterMap ClosePc.waiting := by
    intro d ds
    cases h : d.waiting <;> simp [h]
  refine ⟨(s.calls.eraseIdx i).filterMap ClosePc.waiting,
    (s.calls.eraseIdx i).flatMap ClosePc.carried, ?_, ?_, fun t d e => ⟨?_, ?_⟩, fun t e => ?_⟩
  · rw [← hw]
    exact (List.getElem_cons_eraseIdx_perm hi).symm.filterMap _
  · rw [← List.flatMap_cons]
    exact (List.getElem_cons_eraseIdx_perm hi).symm.flatMap_right _
  · rw [← hw, waiting, e]
    exact (List.set_perm_cons_eraseIdx hi d).filterMap _
  · rw [← List.flatMap_cons, carried, e]
    exact (List.set_perm_cons_eraseIdx hi d).flatMap_right _
  · rw [waiting, carried, e]
    exact ⟨rfl, rfl⟩

/-- A part outside the lock that keeps the spans and what the call holds. -/
theorem Kept.of_same {ops : List Op} {s : Threads} {u : State} {i : Nat} {c d : ClosePc}
    (h : Kept tr ops s) (hc : s.calls[i]? = some c) (hs : SameSpans s.state u)
    (hw : d.waiting = c.waiting) (hk : d.carried = c.carried) :
    Kept tr ops { s with state := u, calls := s.calls.set i d } := by
  obtain ⟨W, C, hW, hC, hset, -⟩ := calls_split hc
  obtain ⟨hW', hC'⟩ := hset { s with state := u, calls := s.calls.set i d } d rfl
  rw [hw] at hW'
  rw [hk] at hC'
  refine ⟨?_, ?_, ?_, ?_, h.no_throw, ?_, ?_, ?_⟩
  · rw [hs.spans]; exact h.valid
  · rw [pending, hs.spans]; exact h.conserved
  · rw [chunks, hs.written]
    exact ((hC'.trans hC.symm).append_left _).trans h.written
  · exact ((hW'.trans hW.symm).append_left _).trans h.started
  · rw [hs.openSpans]; exact h.open_eq
  · rw [hs.openSpans, pending, hs.spans]; exact h.drained
  · rw [BelowThreshold, hs.spans]; exact h.below

/-- The part under the lock closes the span and cuts the chunk, or throws. -/
theorem Kept.locking (tr : Tracer) {ops : List Op} {s : Threads} {i : Nat} {x : SpanRef}
    (h : Kept tr ops s) (hc : s.calls[i]? = some (.locking x)) :
    Kept tr ops (s.advance tr i (.locking x)) := by
  obtain ⟨W, C, hW, hC, hset, herase⟩ := calls_split hc
  by_cases hroom : s.state.ctx.spans.CanAdd tr.maxArrayLength
  · obtain ⟨u, cut, hcut, hv, hw, -, ho, hsp, hd, -, hb⟩ :=
      cutChunk_spec tr s.state x h.valid hroom
    obtain ⟨d, hd'⟩ : ∃ d, d = if cut.shouldPropagateMetadata then
        ClosePc.propagating cut.spansToWrite else .writing cut.spansToWrite := ⟨_, rfl⟩
    have hdw : d.waiting = none := by subst hd'; split <;> rfl
    have hdc : d.carried = asChunks cut.spansToWrite := by subst hd'; split <;> rfl
    obtain ⟨t, ht⟩ : ∃ t : Threads, t = ⟨u, s.calls.set i d, s.closed ++ [x],
        s.cut ++ asChunks cut.spansToWrite, s.thrown⟩ := ⟨_, rfl⟩
    have hadvance : s.advance tr i (.locking x) = t := by simp [advance, hcut, ht, hd']
    obtain ⟨hW', hC'⟩ := hset t d (by rw [ht])
    rw [hadvance]
    subst ht
    refine ⟨hv, ?_, ?_, ?_, h.no_throw, ?_, fun h0 => (hd h0).1, hb⟩
    · show (s.cut ++ asChunks cut.spansToWrite).flatten ++ u.pending = s.closed ++ [x]
      rw [List.flatten_append, flatten_asChunks, List.append_assoc, hsp, ← List.append_assoc,
        h.conserved]
    · rw [hdc] at hC'
      have hold : (s.state.chunks ++ C).Perm s.cut := (hC.symm.append_left _).trans h.written
      have hnew : (s.state.chunks ++ (asChunks cut.spansToWrite ++ C)).Perm
          (s.cut ++ asChunks cut.spansToWrite) :=
        ((List.perm_append_comm.append_left _).trans (by rw [List.append_assoc])).trans
          (hold.append_right (asChunks cut.spansToWrite))
      rw [chunks, hw]
      exact (hC'.append_left _).trans hnew
    · rw [hdw] at hW'
      have hold : (s.closed ++ s.thrown ++ (x :: W)).Perm (closedSpans ops) :=
        (hW.symm.append_left _).trans h.started
      refine (hW'.append_left _).trans (.trans ?_ hold)
      show (s.closed ++ [x] ++ s.thrown ++ W).Perm _
      rw [List.append_assoc, List.append_assoc, List.append_assoc]
      have hmiddle : (s.thrown ++ x :: W).Perm (x :: (s.thrown ++ W)) := List.perm_middle
      exact hmiddle.symm.append_left s.closed
    · show u.ctx.openSpans = _
      rw [ho, h.open_eq, List.length_append, List.length_singleton]
      omega
  · have hadvance : s.advance tr i (.locking x) =
        { s with calls := s.calls.eraseIdx i, thrown := s.thrown ++ [x] } := by
      simp [advance, cutChunk_eq_none tr s.state x h.valid hroom]
    obtain ⟨hW', hC'⟩ := herase (s.advance tr i (.locking x)) (by rw [hadvance])
    have hold : (s.closed ++ s.thrown ++ (x :: W)).Perm (closedSpans ops) :=
      (hW.symm.append_left _).trans h.started
    rw [hadvance] at hW' hC' ⊢
    refine ⟨h.valid, h.conserved, ?_, ?_, fun hlimit => ?_, h.open_eq, h.drained, h.below⟩
    · rw [hC']
      exact (hC.symm.append_left _).trans h.written
    · rw [hW']
      show (s.closed ++ (s.thrown ++ [x]) ++ W).Perm _
      rw [List.append_assoc, List.append_assoc, List.singleton_append, ← List.append_assoc]
      exact hold
    · -- the pending spans are closed ones, so twice as many have an array
      have hlen : s.state.pending.length = s.state.ctx.spans.count :=
        ArrayBuilder.length_getArray h.valid
      have hclosed := congrArg List.length h.conserved
      have hall := hold.length_eq
      rw [List.length_append] at hclosed
      rw [List.length_append, List.length_append] at hall
      exact absurd (ArrayBuilder.canAdd_of_count h.valid tr.four_le (by omega)) hroom

/-- The last part hands the chunk to `Tracer.Write` and returns. -/
theorem Kept.writing {ops : List Op} {s : Threads} {i : Nat} {chunk : List SpanRef}
    (h : Kept tr ops s) (hc : s.calls[i]? = some (.writing chunk)) :
    Kept tr ops { s with state := s.state.writeChunk chunk, calls := s.calls.eraseIdx i } := by
  obtain ⟨W, C, hW, hC, -, herase⟩ := calls_split hc
  obtain ⟨hW', hC'⟩ := herase { s with
    state := s.state.writeChunk chunk, calls := s.calls.eraseIdx i } rfl
  obtain ⟨hctx, hch⟩ := writeChunk_spec s.state chunk
  refine ⟨?_, ?_, ?_, ?_, h.no_throw, ?_, ?_, ?_⟩
  · rw [hctx]; exact h.valid
  · rw [pending, hctx]; exact h.conserved
  · rw [hch, hC', List.append_assoc]
    exact (hC.symm.append_left _).trans h.written
  · rw [hW']
    exact (hW.symm.append_left _).trans h.started
  · rw [hctx]; exact h.open_eq
  · rw [pending, hctx]; exact h.drained
  · rw [BelowThreshold, hctx]; exact h.below

theorem Kept.advance {ops : List Op} {s t : Threads} {i : Nat} (h : Kept tr ops s)
    (ht : step tr s (.advance i) = some t) : Kept tr ops t := by
  obtain ⟨c, hc, rfl⟩ := Option.map_eq_some_iff.1 ht
  cases c with
  | entering x => exact h.of_same hc (sameSpans_enterClose _ _) rfl rfl
  | locking x => exact h.locking tr hc
  | propagating chunk => exact h.of_same hc (sameSpans_propagateMetadata _ _) rfl rfl
  | writing chunk => exact h.writing hc

/-! ## Making a call -/

theorem Kept.of_sameSpans {ops : List Op} {op : Op} {s : Threads} {u : State}
    (h : Kept tr ops s) (hs : SameSpans s.state u) (ha : addedSpans [op] = [])
    (hc : closedSpans [op] = []) : Kept tr (ops ++ [op]) { s with state := u } := by
  have e1 : addedSpans (ops ++ [op]) = addedSpans ops := by
    rw [addedSpans, List.filterMap_append]; simpa [addedSpans] using ha
  have e2 : closedSpans (ops ++ [op]) = closedSpans ops := by
    rw [closedSpans, List.filterMap_append]; simpa [closedSpans] using hc
  refine ⟨?_, ?_, ?_, ?_, ?_, ?_, ?_, ?_⟩
  · rw [hs.spans]; exact h.valid
  · rw [pending, hs.spans]; exact h.conserved
  · rw [chunks, hs.written]; exact h.written
  · rw [e2]; exact h.started
  · rw [e2]; exact h.no_throw
  · rw [e1, hs.openSpans]; exact h.open_eq
  · rw [hs.openSpans, pending, hs.spans]; exact h.drained
  · rw [BelowThreshold, hs.spans]; exact h.below

theorem Kept.call {ops : List Op} {s t : Threads} {op : Op} (h : Kept tr ops s)
    (hp : Proper (ops ++ [op])) (ht : step tr s (.call op) = some t) :
    Kept tr (ops ++ [op]) t := by
  cases op with
  | addSpan x =>
    cases ht
    obtain ⟨h1, h2, h3⟩ := addSpan_spans tr s.state x
    have hle := h.closed_le hp.of_append
    have e1 : addedSpans (ops ++ [.addSpan x]) = addedSpans ops ++ [x] := by simp [addedSpans]
    have e2 : closedSpans (ops ++ [.addSpan x]) = closedSpans ops := by simp [closedSpans]
    have hopen : (s.state.addSpan tr x).ctx.openSpans =
        (addedSpans (ops ++ [.addSpan x])).length - s.closed.length := by
      rw [h2, h.open_eq, e1, List.length_append, List.length_singleton]
      omega
    show Kept tr _ { s with state := s.state.addSpan tr x }
    refine ⟨?_, ?_, ?_, ?_, ?_, hopen, fun h0 => ?_, ?_⟩
    · rw [h1]; exact h.valid
    · rw [pending, h1]; exact h.conserved
    · rw [chunks, h3]; exact h.written
    · rw [e2]; exact h.started
    · rw [e2]; exact h.no_throw
    · rw [hopen, e1, List.length_append, List.length_singleton] at h0
      omega
    · rw [BelowThreshold, h1]; exact h.below
  | closeSpan x =>
    cases ht
    have e1 : addedSpans (ops ++ [.closeSpan x]) = addedSpans ops := by simp [addedSpans]
    have e2 : closedSpans (ops ++ [.closeSpan x]) = closedSpans ops ++ [x] := by
      simp [closedSpans]
    have hw : (s.start x).waiting = s.waiting ++ [x] := by
      simp [start, waiting, ClosePc.waiting]
    have hk : (s.start x).carried = s.carried := by simp [start, carried, ClosePc.carried]
    refine ⟨h.valid, h.conserved, ?_, ?_, fun hlimit => ?_, ?_, h.drained, h.below⟩
    · rw [hk]; exact h.written
    · rw [hw, e2, ← List.append_assoc]; exact h.started.append_right [x]
    · rw [e2, List.length_append] at hlimit
      exact h.no_throw (by omega)
    · rw [e1]; exact h.open_eq
  | finish x => exact absurd (List.mem_append_right _ List.mem_cons_self) (hp.no_finish x)
  | setTag x key value =>
    cases ht
    exact h.of_sameSpans (sameSpans_setTag _ _ _ _) rfl rfl
  | setSamplingPriority v =>
    cases ht
    exact h.of_sameSpans (sameSpans_setSamplingPriority _ _) rfl rfl
  | inject =>
    cases ht
    exact h.of_sameSpans (sameSpans_inject _) rfl rfl

/-- No call is open on a fresh trace. -/
def fresh (s : State) : Threads := ⟨s, [], [], [], []⟩

theorem kept_fresh {s : State} (hs : Fresh s) : Kept tr [] (fresh s) := by
  obtain ⟨h1, h2, -, -, h3, h4, h5⟩ := hs.kept tr
  obtain ⟨-, hw⟩ := hs
  have h2' : s.pending = [] := by simpa [chunks, hw] using h2
  refine ⟨h1, ?_, ?_, ?_, fun _ => rfl, h3, h4, h5⟩
  · simpa [fresh] using h2'
  · simp [fresh, chunks, hw, carried]
  · simp [fresh, waiting, closedSpans]

/-- Every interleaving of a proper list of calls keeps the invariant. -/
theorem Kept.run {s : State} (hs : Fresh s) (es : List Event) {t : Threads}
    (hp : Proper (callsOf es)) (ht : Runs tr (fresh s) es t) : Kept tr (callsOf es) t := by
  induction es using List.reverseRecOn generalizing t with
  | nil =>
    cases ht
    exact kept_fresh hs
  | append_singleton es e ih =>
    obtain ⟨u, hu, he⟩ := Lib.run_snoc_iff.1 ht
    have ecalls : callsOf (es ++ [e]) = callsOf es ++ callsOf [e] := by simp [callsOf]
    rw [ecalls] at hp ⊢
    have hk := ih hp.of_append hu
    cases e with
    | call op => exact hk.call hp he
    | advance i => simpa [callsOf] using hk.advance he

end Threads

namespace State

variable {tr : Tracer}

/-- Calls one after another: what was written, then what is pending, is what was closed.
Calls on several threads: the same in the order of the lock, and what was written is what
was cut there except for the chunks that open calls still carry. No `CloseSpan` throws while twice
as many spans have an array. -/
theorem spans_conserved (tr : Tracer) {s : State} (hs : Fresh s) :
    (∀ ops, Proper ops → ∃ t, Runs tr s ops t ∧
      t.chunks.flatten ++ t.pending = closedBy tr s ops ∧
      (t.chunks.flatten ++ t.pending).Nodup ∧
      (closedBy tr s ops).Sublist (closedSpans ops) ∧
      (2 * (closedSpans ops).length ≤ tr.maxArrayLength.1 →
        closedBy tr s ops = closedSpans ops) ∧
      t.ctx.openSpans = (addedSpans ops).length - (closedBy tr s ops).length ∧
      (t.ctx.openSpans = 0 → t.pending = []) ∧
      (tr.settings.partialFlushEnabled = true → 0 < tr.settings.partialFlushMinSpans →
        t.pending.length < tr.settings.partialFlushMinSpans)) ∧
    (∀ es, Proper (Threads.callsOf es) → ∀ t, Threads.Runs tr (.fresh s) es t →
      t.cut.flatten ++ t.state.pending = t.closed ∧
      t.closed.Nodup ∧
      (t.state.chunks ++ t.carried).Perm t.cut ∧
      (t.closed ++ t.thrown ++ t.waiting).Perm (closedSpans (Threads.callsOf es)) ∧
      (2 * (closedSpans (Threads.callsOf es)).length ≤ tr.maxArrayLength.1 → t.thrown = []) ∧
      (t.state.ctx.openSpans = 0 → t.state.pending = []) ∧
      (tr.settings.partialFlushEnabled = true → 0 < tr.settings.partialFlushMinSpans →
        t.state.pending.length < tr.settings.partialFlushMinSpans)) := by
  constructor
  · intro ops hp
    obtain ⟨t, ht, hk⟩ := Kept.run tr hs ops hp
    refine ⟨t, ht, hk.conserved, ?_, hk.sublist, hk.all, hk.open_eq, hk.drained, fun he hpos => ?_⟩
    · rw [hk.conserved]
      exact hk.sublist.nodup hp.closed_once
    · rw [pending, ArrayBuilder.length_getArray hk.valid]
      exact hk.below he hpos
  · intro es hp t ht
    have hk := Threads.Kept.run hs es hp ht
    refine ⟨hk.conserved, ?_, hk.written, hk.started, hk.no_throw, hk.drained, fun he hpos => ?_⟩
    · have hnodup := (List.nodup_append.1 (hk.started.nodup_iff.2 hp.closed_once)).1
      exact (List.nodup_append.1 hnodup).1
    · rw [pending, ArrayBuilder.length_getArray hk.valid]
      exact hk.below he hpos

/-- The trace is emptied and used again; span 1 leaves by a partial flush. -/
theorem spans_conserved_reused :
    ∃ t, Runs (flushingTracer 1) localTrace
      [.addSpan 0, .addSpan 1, .closeSpan 1, .closeSpan 0, .addSpan 2] t ∧
      t.chunks.flatten ++ t.pending = [1, 0] := by
  have hs : Fresh localTrace := ⟨⟨none, rfl⟩, rfl⟩
  have h0 : Proper [.addSpan 0, .addSpan 1] :=
    (Proper.nil.addSpan (x := 0) (by decide)).addSpan (x := 1) (by decide)
  have h1 : Proper [.addSpan 0, .addSpan 1, .closeSpan 1, .closeSpan 0] :=
    (h0.closeSpan (x := 1) (by decide) (by decide)).closeSpan (x := 0) (by decide) (by decide)
  have hp := h1.addSpan (x := 2) (by decide)
  obtain ⟨t, ht, hk, -, -, hall, -⟩ := (spans_conserved (flushingTracer 1) hs).1 _ hp
  exact ⟨t, ht, hk.trans (hall (by decide))⟩

/-- Spans 0 and 1 are cut in this order, and the call that closes 1 reaches `Tracer.Write`
first. -/
theorem written_out_of_order :
    ¬∀ (tr : Tracer) (es : List Threads.Event), Proper (Threads.callsOf es) →
      ∀ t, Threads.Runs tr (.fresh localTrace) es t →
        t.state.chunks.flatten ++ t.state.pending = t.closed := by
  intro h
  have h0 : Proper [.addSpan 0, .addSpan 1, .addSpan 2] :=
    ((Proper.nil.addSpan (x := 0) (by decide)).addSpan (x := 1) (by decide)).addSpan
      (x := 2) (by decide)
  have hp : Proper [.addSpan 0, .addSpan 1, .addSpan 2, .closeSpan 0, .closeSpan 1] :=
    (h0.closeSpan (x := 0) (by decide) (by decide)).closeSpan (x := 1) (by decide) (by decide)
  have h := h (flushingTracer 1) [.call (.addSpan 0), .call (.addSpan 1), .call (.addSpan 2),
    .call (.closeSpan 0), .call (.closeSpan 1), .advance 0, .advance 0, .advance 1, .advance 1,
    .advance 1, .advance 1, .advance 0, .advance 0] hp _
    (.cons rfl (.cons rfl (.cons rfl (.cons rfl (.cons rfl (.cons rfl (.cons rfl (.cons rfl
      (.cons rfl (.cons rfl (.cons rfl (.cons rfl (.cons rfl (.nil _))))))))))))))
  have h : [1, 0] = [0, 1] := h
  exact absurd h (by decide)

end State

end DdTrace.Trace
