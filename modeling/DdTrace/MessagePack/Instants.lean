import DdTrace.MessagePack.SpanMessagePackFormatter

/-!
# The instants of a span

`Span.Finish` takes the difference of two instants, the formatter the time that the clock of the
start shows: they agree when that clock shows UTC.
-/

namespace DdTrace.MessagePack

open Lib Lib.MessagePack

namespace DateTimeOffset

/-- `finishTimestamp - StartTime`, the difference of the instants. -/
def sub (finishTimestamp startTime : DateTimeOffset) : TimeSpan :=
  ⟨.ofInt (finishTimestamp.utcTicks - startTime.utcTicks)⟩

/-- The `Duration` that `Span.Finish` sets. -/
def finish (finishTimestamp startTime : DateTimeOffset) : TimeSpan :=
  let duration := finishTimestamp.sub startTime
  if duration.ticks < 0 then ⟨0⟩ else duration

variable {s t : DateTimeOffset}

theorem ticks_sub (t s : DateTimeOffset) : (t.sub s).ticks.toInt = t.utcTicks - s.utcTicks := by
  obtain ⟨ht0, htmax⟩ := t.clock_range
  obtain ⟨hs0, hsmax⟩ := s.clock_range
  obtain ⟨ht1, ht2⟩ := t.offset_range
  obtain ⟨hs1, hs2⟩ := s.offset_range
  unfold DateTime.MaxTicks at htmax hsmax
  unfold sub utcTicks TimeSpan.TicksPerMinute
  exact Int64.toInt_ofInt_of_le (by omega) (by omega)

theorem finish_of_le (h : s.utcTicks ≤ t.utcTicks) : t.finish s = t.sub s := by
  refine if_neg fun hneg => ?_
  have hlt := Int64.lt_iff_toInt_lt.1 hneg
  rw [ticks_sub, Int64.toInt_zero] at hlt
  omega

theorem nanoseconds_sub (t s : DateTimeOffset) :
    (t.sub s).nanoseconds = t.elapsedNanoseconds - s.elapsedNanoseconds := by
  unfold TimeSpan.nanoseconds elapsedNanoseconds
  rw [ticks_sub]
  ring

/-- At one instant, clocks with different offsets give different times. -/
theorem toUnixTimeNanoseconds_inj (h : t.utcTicks = s.utcTicks) :
    t.toUnixTimeNanoseconds = s.toUnixTimeNanoseconds ↔ t.offsetMinutes = s.offsetMinutes := by
  obtain ⟨ht1, ht2⟩ := t.offset_range
  obtain ⟨hs1, hs2⟩ := s.offset_range
  have hclock : t.clockTicks - s.clockTicks = (t.offsetMinutes - s.offsetMinutes) * 600000000 := by
    unfold utcTicks TimeSpan.TicksPerMinute at h
    linarith
  rw [← Int64.toInt_inj]
  unfold toUnixTimeNanoseconds
  rw [mulNanoSecondsPerTick_toInt, mulNanoSecondsPerTick_toInt, sinceEpoch_toInt, sinceEpoch_toInt,
    Int.bmod_eq_bmod_iff_bmod_sub_eq_zero]
  have hdiff : (t.clockTicks - TimeConstants.UnixEpochInTicks) * TimeConstants.NanoSecondsPerTick -
      (s.clockTicks - TimeConstants.UnixEpochInTicks) * TimeConstants.NanoSecondsPerTick =
        (t.offsetMinutes - s.offsetMinutes) * 60000000000 := by
    unfold TimeConstants.NanoSecondsPerTick
    linarith
  rw [hdiff, Int.bmod_eq_of_le_mul_two (by omega) (by omega)]
  omega

end DateTimeOffset

namespace Span

/-- The instants that the times of a span stand for: its start, and its finish when the duration
is added. -/
def Instants (span : Span) (finishTimestamp : DateTimeOffset) (start duration : ℤ) : Prop :=
  start = span.startTime.elapsedNanoseconds ∧
    start + duration = finishTimestamp.elapsedNanoseconds

variable {span : Span} {finishTimestamp : DateTimeOffset}

/-- The times that the code computes are the instants when the clock of the start shows UTC and
neither time is too large. -/
theorem instants_iff (hfinish : span.duration = finishTimestamp.finish span.startTime)
    (hafter : span.startTime.utcTicks ≤ finishTimestamp.utcTicks) :
    span.Instants finishTimestamp span.startTime.toUnixTimeNanoseconds.toInt
        span.duration.toNanoseconds.toInt ↔
      span.startTime.offsetMinutes = 0 ∧ InInt64 span.startTime.elapsedNanoseconds ∧
        InInt64 (finishTimestamp.elapsedNanoseconds - span.startTime.elapsedNanoseconds) := by
  rw [DateTimeOffset.finish_of_le hafter] at hfinish
  have hstart := span.startTime.toUnixTimeNanoseconds_eq_iff
  have hduration := span.duration.toNanoseconds_eq_iff
  rw [hfinish, DateTimeOffset.nanoseconds_sub] at hduration
  unfold Instants
  rw [hfinish, ← and_assoc, ← hstart, ← hduration]
  constructor
  · rintro ⟨h1, h2⟩
    exact ⟨h1, by omega⟩
  · rintro ⟨h1, h2⟩
    exact ⟨h1, by omega⟩

end Span

variable (runtimeId : Text)

/-- The start and the duration in the bytes of a finished span are its instants exactly when the
clock of the start shows UTC and the times fit; spans that start at one instant have the same
start in their bytes exactly when their clocks have the same offset. -/
theorem serialize_instants_iff {span : Span} {finishTimestamp : DateTimeOffset}
    (hfinish : span.duration = finishTimestamp.finish span.startTime)
    (hafter : span.startTime.utcTicks ≤ finishTimestamp.utcTicks)
    {b b' : Buffer} (hb : b.Valid) (h : serialize runtimeId span b = some ((), b')) :
    ∃ start duration, WrittenAs b b' (.map (span.members runtimeId start duration)) ∧
      (span.Instants finishTimestamp start duration ↔ span.startTime.offsetMinutes = 0 ∧
        InInt64 span.startTime.elapsedNanoseconds ∧
        InInt64 (finishTimestamp.elapsedNanoseconds - span.startTime.elapsedNanoseconds)) ∧
      ∀ (other : Span) (c c' : Buffer) (start' duration' : ℤ), c.Valid →
        serialize runtimeId other c = some ((), c') →
        WrittenAs c c' (.map (other.members runtimeId start' duration')) →
        other.startTime.utcTicks = span.startTime.utcTicks →
        (start' = start ↔ other.startTime.offsetMinutes = span.startTime.offsetMinutes) := by
  refine ⟨_, _, serialize_writtenAs runtimeId hb h, Span.instants_iff hfinish hafter, ?_⟩
  intro other c c' start' duration' hc hother hwritten hutc
  have heq := hwritten.unique (serialize_writtenAs runtimeId hc hother)
  injection heq with heq
  rw [((other.members_inj runtimeId).1 heq).1, Int64.toInt_inj]
  exact DateTimeOffset.toUnixTimeNanoseconds_inj hutc

/-- Ten ticks after midnight, on a clock an hour ahead of UTC. -/
def afterMidnight : DateTimeOffset :=
  ⟨637450560000000010 + 60 * 600000000, 60, by decide, by decide⟩

theorem serialize_instants_midnight :
    ∃ b' start duration, serialize (text "7c9e6679") (midnight 0 (by decide)) temporaryBuffer =
        some ((), b') ∧
      WrittenAs temporaryBuffer b'
        (.map ((midnight 0 (by decide)).members (text "7c9e6679") start duration)) ∧
      (midnight 0 (by decide)).Instants afterMidnight start duration := by
  obtain ⟨b', h⟩ := serialize_succeeds (text "7c9e6679") (midnight 0 (by decide)) temporaryBuffer_valid
    (by decide)
  obtain ⟨start, duration, hwritten, hiff, -⟩ := @serialize_instants_iff (text "7c9e6679")
    (midnight 0 (by decide)) afterMidnight rfl (by decide) _ _ temporaryBuffer_valid h
  exact ⟨b', start, duration, h, hwritten, hiff.2 ⟨rfl, by decide, by decide⟩⟩

/-- Two hours ahead of UTC, the start is not the instant. -/
theorem serialize_instants_ahead :
    (midnight 120 (by decide)).duration = (⟨637450560000000010, 120, by decide, by decide⟩ :
        DateTimeOffset).finish (midnight 120 (by decide)).startTime ∧
    ∃ b', serialize (text "7c9e6679") (midnight 120 (by decide)) temporaryBuffer = some ((), b') ∧
      ∀ start duration, WrittenAs temporaryBuffer b'
          (.map ((midnight 120 (by decide)).members (text "7c9e6679") start duration)) →
        start ≠ (midnight 120 (by decide)).startTime.elapsedNanoseconds := by
  refine ⟨rfl, ?_⟩
  obtain ⟨b', h⟩ := serialize_succeeds (text "7c9e6679") (midnight 120 (by decide)) temporaryBuffer_valid
    (by decide)
  refine ⟨b', h, fun start duration hwritten => ?_⟩
  have heq := hwritten.unique (serialize_writtenAs (text "7c9e6679") temporaryBuffer_valid h)
  injection heq with heq
  rw [((midnight 120 (by decide)).members_inj (text "7c9e6679")).1 heq |>.1]
  decide

end DdTrace.MessagePack
