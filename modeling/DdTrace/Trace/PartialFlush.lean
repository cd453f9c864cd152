import DdTrace.Trace.Conservation

/-!
# The threshold of partial flush

The constructor of `TracerSettings` reads the minimum number of spans and keeps it nowhere: a
positive minimum leaves the field at 0, and every span that is closed while others are open is
flushed alone.
-/

namespace DdTrace.Trace

open Lib

/-- A source of settings, `none` for those it does not have. -/
structure IConfigurationSource where
  getInt32 : Text → Option ℤ

def ConfigurationKeys.partialFlushMinSpans : Text := text "DD_TRACE_PARTIAL_FLUSH_MIN_SPANS"

/-- `PartialFlushMinSpans` after the constructor: the field is 0 until it is set. -/
def TracerSettings.partialFlushMinSpansFrom (source : Option IConfigurationSource) : ℕ :=
  let partialFlushMinSpans :=
    source.bind fun s => s.getInt32 ConfigurationKeys.partialFlushMinSpans
  if partialFlushMinSpans.getD 0 ≤ 0 then 500 else 0

namespace State

variable {tr : Tracer} {s t : State} {x : SpanRef} {op : Op}

/-- What an operation adds to the chunks. -/
def newChunks (s t : State) : List (List WrittenSpan) := t.written.drop s.written.length

/-- Each chunk written while some span is still open has `n` spans or more. -/
def ChunksReach (tr : Tracer) (n : ℤ) : Prop :=
  ∀ (heap : SpanRef → Span) (priority : Option SamplingPriority) (ops : List Op) (s t : State)
    (op : Op), Runs tr (.new (.new priority) heap) ops s → Step tr s op t →
    0 < t.ctx.openSpans → ∀ chunk ∈ newChunks s t, n ≤ chunk.length

theorem newChunks_closeSpan (h : s.closeSpan tr x = some t) :
    ∃ u cut, (s.enterClose x).cutChunk tr x = some (u, cut) ∧ t.ctx = u.ctx ∧
      newChunks s t =
        (asChunks cut.spansToWrite).map fun chunk => chunk.map fun y => ⟨y, t.metric y⟩ := by
  obtain ⟨u, cut, hcut, hctx, hclosed⟩ := closeSpan_closedAs h
  refine ⟨u, cut, hcut, hctx, ?_⟩
  rw [newChunks, hclosed.written, List.drop_left]

theorem newChunks_of_written (h : t.written = s.written) : newChunks s t = [] := by
  rw [newChunks, h, List.drop_length]

theorem pos_of_mem_newChunks {chunk : List WrittenSpan}
    (hc : chunk ∈ newChunks s (s.afterClose tr x)) : 0 < chunk.length := by
  rw [afterClose] at hc
  cases h : s.closeSpan tr x with
  | none =>
    rw [h, Option.getD_none, newChunks_of_written (sameSpans_enterClose s x).written] at hc
    cases hc
  | some t =>
    obtain ⟨_, cut, -, -, hnew⟩ := newChunks_closeSpan h
    rw [h, Option.getD_some, hnew] at hc
    obtain ⟨spans, hspans, rfl⟩ := List.mem_map.1 hc
    unfold asChunks at hspans
    split at hspans
    · cases hspans
    · obtain rfl := List.mem_singleton.1 hspans
      rw [List.length_map]
      exact List.length_pos_of_ne_nil ‹_›

/-- No chunk is empty. -/
theorem chunksReach_one : ChunksReach tr 1 := by
  rintro heap priority ops s _ op _ rfl _ chunk hc
  suffices 0 < chunk.length by omega
  cases op with
  | addSpan y =>
    rw [after, newChunks_of_written (addSpan_spans tr s y).2.2] at hc
    cases hc
  | closeSpan y => exact pos_of_mem_newChunks hc
  | finish y =>
    rw [after, finish] at hc
    split at hc
    · rw [newChunks_of_written rfl] at hc
      cases hc
    · exact pos_of_mem_newChunks (s := { s with
        heap := Function.update s.heap y { s.heap y with isFinished := true } }) hc
  | setTag y key value =>
    rw [after, newChunks_of_written (sameSpans_setTag s y key value).written] at hc
    cases hc
  | setSamplingPriority value =>
    rw [after, newChunks_of_written (sameSpans_setSamplingPriority s value).written] at hc
    cases hc
  | inject =>
    rw [after, newChunks_of_written (sameSpans_inject s).written] at hc
    cases hc

/-- A threshold of 0 is always reached. -/
theorem pending_cutChunk (henabled : tr.settings.partialFlushEnabled = true)
    (hzero : tr.settings.partialFlushMinSpans = 0) {cut : Cut}
    (h : s.cutChunk tr x = some (t, cut)) : t.pending = [] := by
  simp only [cutChunk, Option.bind_eq_bind, Option.bind_eq_some_iff] at h
  obtain ⟨spans, -, h⟩ := h
  split at h
  · obtain ⟨rfl, -⟩ := Prod.mk.inj (Option.some.inj h)
    rfl
  · have htrigger : shouldTriggerPartialFlush tr spans = true := by
      simp [shouldTriggerPartialFlush, henabled, hzero]
    rw [if_pos htrigger] at h
    obtain ⟨rfl, -⟩ := Prod.mk.inj (Option.some.inj h)
    exact ArrayBuilder.getArray_withCapacity _

/-- Of two open spans, the first to be closed is written alone. -/
theorem not_chunksReach (henabled : tr.settings.partialFlushEnabled = true)
    (hzero : tr.settings.partialFlushMinSpans = 0) {n : ℤ} (hn : 1 < n) : ¬ ChunksReach tr n := by
  intro hreach
  have hfresh : Fresh (.new (.new none) fun _ => .new none none) := ⟨⟨none, rfl⟩, rfl⟩
  obtain ⟨s, hrun, hkept⟩ := Kept.run tr hfresh [.addSpan 0, .addSpan 1]
    ((Proper.nil.addSpan (x := 0) (by simp [addedSpans])).addSpan (x := 1) (by simp [addedSpans]))
  have hpending : s.pending = [] := (List.append_eq_nil_iff.1 hkept.conserved).2
  have hopen : s.ctx.openSpans = 2 := hkept.open_eq
  have hroom := hkept.canAdd (Nat.zero_le _)
  obtain ⟨t, hclose, -, hleft, -⟩ := closeSpan_spec tr s 0 hkept.valid hroom
  obtain ⟨u, cut, hcut, hctx, hnew⟩ := newChunks_closeSpan hclose
  have hsame := sameSpans_enterClose s 0
  obtain ⟨u', cut', hcut', -, -, -, -, hspans, -⟩ :=
    cutChunk_spec tr (s.enterClose 0) 0 (by rw [hsame.spans]; exact hkept.valid)
      (by rw [hsame.spans]; exact hroom)
  obtain ⟨rfl, rfl⟩ := Prod.mk.inj (Option.some.inj (hcut'.symm.trans hcut))
  rw [pending_cutChunk henabled hzero hcut, List.append_nil, pending, hsame.spans, ← pending,
    hpending, List.nil_append] at hspans
  have hchunk : [⟨0, t.metric 0⟩] ∈ newChunks s t := by
    rw [hnew, hspans]
    exact List.mem_cons_self
  have hafter : Step tr s (.closeSpan 0) t := by rw [Step, after, afterClose, hclose]; rfl
  have hle := hreach _ none _ s t (.closeSpan 0) hrun hafter (by omega) _ hchunk
  rw [List.length_singleton] at hle
  omega

end State

/-- No positive minimum is kept; chunks have as many spans only where the minimum is 1. -/
theorem partialFlushMinSpans_lost {source : IConfigurationSource} {n : ℤ}
    (h : source.getInt32 ConfigurationKeys.partialFlushMinSpans = some n) (hn : 0 < n) :
    (TracerSettings.partialFlushMinSpansFrom (some source) : ℤ) ≠ n ∧
      ∀ tr : Tracer, tr.settings.partialFlushEnabled = true →
        tr.settings.partialFlushMinSpans = TracerSettings.partialFlushMinSpansFrom (some source) →
        (State.ChunksReach tr n ↔ n = 1) := by
  have hzero : TracerSettings.partialFlushMinSpansFrom (some source) = 0 := by
    simp only [TracerSettings.partialFlushMinSpansFrom, Option.bind_some, h, Option.getD_some]
    exact if_neg (by omega)
  rw [hzero]
  refine ⟨by omega, fun tr henabled hmin => ⟨fun hreach => ?_, ?_⟩⟩
  · by_contra hne
    exact State.not_chunksReach henabled hmin (by omega) hreach
  · rintro rfl
    exact State.chunksReach_one

theorem partialFlushMinSpans_five :
    (TracerSettings.partialFlushMinSpansFrom (some ⟨fun _ => some 5⟩) : ℤ) ≠ 5 ∧
      ¬ State.ChunksReach (State.flushingTracer 0) 5 := by
  obtain ⟨hne, hreach⟩ := @partialFlushMinSpans_lost ⟨fun _ => some 5⟩ 5 rfl (by decide)
  exact ⟨hne, fun h => absurd ((hreach (State.flushingTracer 0) rfl rfl).1 h) (by decide)⟩

/-- A minimum of 5 is lost. -/
theorem partialFlushMinSpans_not_five :
    TracerSettings.partialFlushMinSpansFrom (some ⟨fun key =>
      if key = text "DD_TRACE_PARTIAL_FLUSH_MIN_SPANS" then some 5 else none⟩) ≠ 5 := by
  decide

end DdTrace.Trace
