import DdTrace.MessagePack.MessagePackBinary
import DdTrace.Trace.TraceContext
import Mathlib.Tactic.Linarith

/-!
# SpanMessagePackFormatter

`SpanMessagePackFormatter.Serialize` and `TagsList.SerializeTo`: a span is written as one map,
whose last two members are the maps of its tags and of its metrics. `Span.members` are the
members by name. The formatter writes exactly them, with the times that `TimeExtensions`
computes and the bytes of the strings. These are the span's times when its start has no offset
and none overflows, and they spell its strings when no surrogate stands alone (`Span.ReadBy`).
-/

namespace DdTrace

open Lib

def Trace.Tags.runtimeId : Text := text "runtime-id"
def Trace.Metrics.topLevelSpan : Text := text "_dd.top_level"

namespace MessagePack

open Lib.MessagePack

/-! ## Times -/

def TimeConstants.NanoSecondsPerTick : ℤ := 100
def TimeConstants.UnixEpochInTicks : ℤ := 621355968000000000
def DateTime.MaxTicks : ℤ := 3155378975999999999
def TimeSpan.TicksPerMinute : ℤ := 600000000

/-- A date and time on the clock, and how far that clock is ahead of UTC. -/
structure DateTimeOffset where
  clockTicks : ℤ
  offsetMinutes : ℤ
  clock_range : 0 ≤ clockTicks ∧ clockTicks ≤ DateTime.MaxTicks
  offset_range : -840 ≤ offsetMinutes ∧ offsetMinutes ≤ 840

structure TimeSpan where
  ticks : Int64

namespace DateTimeOffset

/-- The property `Ticks`, of the clock. -/
def ticks (t : DateTimeOffset) : Int64 := .ofInt t.clockTicks

def utcTicks (t : DateTimeOffset) : ℤ := t.clockTicks - t.offsetMinutes * TimeSpan.TicksPerMinute

def toUnixTimeNanoseconds (t : DateTimeOffset) : Int64 :=
  (t.ticks - .ofInt TimeConstants.UnixEpochInTicks) * .ofInt TimeConstants.NanoSecondsPerTick

/-- The nanoseconds that have elapsed since 1970-01-01T00:00:00.000Z. -/
def elapsedNanoseconds (t : DateTimeOffset) : ℤ :=
  (t.utcTicks - TimeConstants.UnixEpochInTicks) * TimeConstants.NanoSecondsPerTick

end DateTimeOffset

def TimeSpan.toNanoseconds (ts : TimeSpan) : Int64 :=
  ts.ticks * .ofInt TimeConstants.NanoSecondsPerTick

def TimeSpan.nanoseconds (ts : TimeSpan) : ℤ := ts.ticks.toInt * TimeConstants.NanoSecondsPerTick

def InInt64 (n : ℤ) : Prop := -2 ^ 63 ≤ n ∧ n < 2 ^ 63

instance (n : ℤ) : Decidable (InInt64 n) := inferInstanceAs (Decidable (_ ∧ _))

theorem mulNanoSecondsPerTick_toInt (i : Int64) :
    (i * .ofInt TimeConstants.NanoSecondsPerTick).toInt =
      (i.toInt * TimeConstants.NanoSecondsPerTick).bmod (2 ^ 64) := by
  rw [Int64.toInt_mul]
  rfl

theorem DateTimeOffset.sinceEpoch_toInt (t : DateTimeOffset) :
    (t.ticks - .ofInt TimeConstants.UnixEpochInTicks).toInt =
      t.clockTicks - TimeConstants.UnixEpochInTicks := by
  obtain ⟨h0, hmax⟩ := t.clock_range
  unfold DateTime.MaxTicks at hmax
  have hticks : t.ticks.toInt = t.clockTicks := Int64.toInt_ofInt_of_le (by omega) (by omega)
  have hepoch : (Int64.ofInt TimeConstants.UnixEpochInTicks).toInt = TimeConstants.UnixEpochInTicks :=
    rfl
  rw [Int64.toInt_sub, hticks, hepoch]
  unfold TimeConstants.UnixEpochInTicks
  exact Int.bmod_eq_of_le_mul_two (by omega) (by omega)

theorem bmod_eq_iff {m n : ℤ} :
    m.bmod (2 ^ 64) = n ↔ InInt64 n ∧ (2 ^ 64 : ℤ) ∣ n - m := by
  rw [Int.bmod_eq_iff (by decide)]
  unfold InInt64
  norm_num
  omega

theorem offset_eq_zero {offset : ℤ} (hlo : -840 ≤ offset) (hhi : offset ≤ 840) :
    (2 ^ 64 : ℤ) ∣ -60000000000 * offset ↔ offset = 0 := by
  constructor
  · intro h
    have habs : |-60000000000 * offset| < 2 ^ 64 := by
      rw [abs_lt]
      constructor <;> linarith
    have hzero := Int.eq_zero_of_abs_lt_dvd h habs
    linarith
  · intro h
    rw [h, mul_zero]
    exact dvd_zero _

/-- The time that is written is the span's start only on a clock that shows UTC. -/
theorem DateTimeOffset.toUnixTimeNanoseconds_eq_iff (t : DateTimeOffset) :
    t.toUnixTimeNanoseconds.toInt = t.elapsedNanoseconds ↔
      t.offsetMinutes = 0 ∧ InInt64 t.elapsedNanoseconds := by
  obtain ⟨hlo, hhi⟩ := t.offset_range
  have hdiff : t.elapsedNanoseconds -
      (t.clockTicks - TimeConstants.UnixEpochInTicks) * TimeConstants.NanoSecondsPerTick =
        -60000000000 * t.offsetMinutes := by
    unfold elapsedNanoseconds utcTicks TimeSpan.TicksPerMinute TimeConstants.NanoSecondsPerTick
    ring
  unfold toUnixTimeNanoseconds
  rw [mulNanoSecondsPerTick_toInt, sinceEpoch_toInt, bmod_eq_iff, hdiff, offset_eq_zero hlo hhi,
    and_comm]

theorem TimeSpan.toNanoseconds_eq_iff (ts : TimeSpan) :
    ts.toNanoseconds.toInt = ts.nanoseconds ↔ InInt64 ts.nanoseconds := by
  unfold toNanoseconds
  rw [mulNanoSecondsPerTick_toInt, bmod_eq_iff, ← nanoseconds, sub_self]
  exact and_iff_left (dvd_zero _)

/-! ## Spans -/

/-- What a span reads of its parent. -/
structure ISpanContext where
  spanId : UInt64
  serviceName : Option Text

structure SpanContext where
  traceId : UInt64
  spanId : UInt64
  parent : Option ISpanContext
  serviceName : Option Text
  origin : Option Text

def SpanContext.parentId (c : SpanContext) : Option UInt64 := c.parent.map ISpanContext.spanId

/-- The lists of a `TagsList`, and the keys and values of its properties. -/
structure TagsList where
  tags : List (Option Text × Option Text)
  metrics : List (Option Text × Double)
  additionalTags : List (Text × Option Text)
  additionalMetrics : List (Text × Option Double)

structure Span where
  context : SpanContext
  operationName : Option Text
  resourceName : Option Text
  type : Option Text
  error : Bool
  startTime : DateTimeOffset
  duration : TimeSpan
  tags : TagsList

namespace Span

def serviceName (span : Span) : Option Text := span.context.serviceName

def isTopLevel (span : Span) : Bool :=
  match span.context.parent with
  | none => true
  | some parent => parent.serviceName != span.serviceName

end Span

/-! ## TagsList.SerializeTo -/

def writeTag (key value : Option Text) : Write Unit := do
  writeString key
  writeString value

def writeMetric (key : Option Text) (value : Double) : Write Unit := do
  writeString key
  writeDouble value

section

variable {α : Type} (write : Option Text → α → Write Unit)

/-- `foreach (var pair in tags)`. -/
def writePairs : List (Option Text × α) → Write Unit
  | [] => pure ()
  | (key, value) :: pairs => do
    write key value
    writePairs pairs

/-- `foreach (var property in GetAdditionalTags())`. -/
def writeProperties : List (Text × Option α) → ℕ → Write ℕ
  | [], count => pure count
  | (_, none) :: properties, count => writeProperties properties count
  | (key, some value) :: properties, count => do
    write key value
    writeProperties properties (count + 1)

end

/-- One more entry under a condition. -/
def writeIf (c : Bool) (write : Write Unit) (count : ℕ) : Write ℕ :=
  if c then do
    write
    return count + 1
  else return count

def TagsList.isOriginWritten (tags : TagsList) : Bool :=
  tags.additionalTags.any fun property => property.2.isSome && property.1 == Trace.Tags.origin

def isNullOrEmpty (s : Option Text) : Bool := s.all fun s => s == text ""

variable (runtimeId : Text)

def writeTags (span : Span) : Write Unit := do
  writeStringBytes (utf8 (text "meta"))
  writeCounted do
    writePairs writeTag span.tags.tags
    let count ← writeProperties (fun key value => writeTag key (some value)) span.tags.additionalTags
      span.tags.tags.length
    let count ← writeIf span.isTopLevel
      (do writeStringBytes (utf8 Trace.Tags.runtimeId); writeStringBytes (utf8 runtimeId)) count
    let origin := span.context.origin
    writeIf (!span.tags.isOriginWritten && !isNullOrEmpty origin)
      (do writeStringBytes (utf8 Trace.Tags.origin); writeString origin) count

def writeMetrics (span : Span) : Write Unit := do
  writeStringBytes (utf8 (text "metrics"))
  writeCounted do
    writePairs writeMetric span.tags.metrics
    let count ← writeProperties writeMetric span.tags.additionalMetrics span.tags.metrics.length
    -- the bits of 1.0
    writeIf span.isTopLevel (writeMetric Trace.Metrics.topLevelSpan 0x3FF0000000000000) count

def serializeTo (span : Span) : Write Unit := do
  writeTags runtimeId span
  writeMetrics span

/-! ## SpanMessagePackFormatter.Serialize -/

def writeParentId : Option UInt64 → Write Unit
  | none => pure ()
  | some parentId => do
    writeStringBytes (utf8 (text "parent_id"))
    writeUInt64 parentId

def writeError (error : Bool) : Write Unit :=
  if error then do
    writeStringBytes (utf8 (text "error"))
    writeByte 1
  else pure ()

def Span.memberCount (value : Span) : ℕ :=
  8 + (if value.context.parentId.isSome then 1 else 0) + (if value.error then 1 else 0) + 2

def serialize (value : Span) : Write Unit := do
  writeMapHeader value.memberCount
  writeStringBytes (utf8 (text "trace_id"))
  writeUInt64 value.context.traceId
  writeStringBytes (utf8 (text "span_id"))
  writeUInt64 value.context.spanId
  writeStringBytes (utf8 (text "name"))
  writeString value.operationName
  writeStringBytes (utf8 (text "resource"))
  writeString value.resourceName
  writeStringBytes (utf8 (text "service"))
  writeString value.serviceName
  writeStringBytes (utf8 (text "type"))
  writeString value.type
  writeStringBytes (utf8 (text "start"))
  writeInt64 value.startTime.toUnixTimeNanoseconds
  writeStringBytes (utf8 (text "duration"))
  writeInt64 value.duration.toNanoseconds
  writeParentId value.context.parentId
  writeError value.error
  serializeTo runtimeId value

/-! ## The members of a span -/

def keyValue (key : Text) : Value := .str (utf8 key)

def doubleValue (value : Double) : Value := .float 8 value.toNat

section

variable {α β : Type}

/-- The properties that have a value. -/
def propertyPairs (f : α → β) (properties : List (Text × Option α)) : List (Option Text × β) :=
  properties.filterMap fun property => property.2.map fun value => (some property.1, f value)

def pairEntries (f : α → Value) (pairs : List (Option Text × α)) : List (Value × Value) :=
  pairs.map fun pair => (stringValue pair.1, f pair.2)

def pairsRoom (r : α → ℕ) (pairs : List (Option Text × α)) : ℕ :=
  (pairs.map fun pair => stringRoom pair.1 + r pair.2).sum

end

namespace Span

def metaPairs (span : Span) : List (Option Text × Option Text) :=
  span.tags.tags ++ (propertyPairs some span.tags.additionalTags ++
    ((if span.isTopLevel then [(some Trace.Tags.runtimeId, some runtimeId)] else []) ++
      if !span.tags.isOriginWritten && !isNullOrEmpty span.context.origin then
        [(some Trace.Tags.origin, span.context.origin)] else []))

def metricsPairs (span : Span) : List (Option Text × Double) :=
  span.tags.metrics ++ (propertyPairs id span.tags.additionalMetrics ++
    if span.isTopLevel then [(some Trace.Metrics.topLevelSpan, 0x3FF0000000000000)] else [])

def parentEntries (span : Span) : List (Value × Value) :=
  match span.context.parentId with
  | none => []
  | some parentId => [(keyValue (text "parent_id"), .int parentId.toNat)]

def errorEntries (span : Span) : List (Value × Value) :=
  if span.error then [(keyValue (text "error"), .int 1)] else []

def tagEntries (span : Span) : List (Value × Value) :=
  [(keyValue (text "meta"), .map (pairEntries stringValue (span.metaPairs runtimeId))),
    (keyValue (text "metrics"), .map (pairEntries doubleValue span.metricsPairs))]

/-- The ids, names, times, error flag, tags and metrics of a span. -/
def members (span : Span) (start duration : ℤ) : List (Value × Value) :=
  (keyValue (text "trace_id"), .int span.context.traceId.toNat) ::
  (keyValue (text "span_id"), .int span.context.spanId.toNat) ::
  (keyValue (text "name"), stringValue span.operationName) ::
  (keyValue (text "resource"), stringValue span.resourceName) ::
  (keyValue (text "service"), stringValue span.serviceName) ::
  (keyValue (text "type"), stringValue span.type) ::
  (keyValue (text "start"), .int start) ::
  (keyValue (text "duration"), .int duration) ::
  (span.parentEntries ++ (span.errorEntries ++ span.tagEntries runtimeId))

/-- Enough room for the span. -/
def room (span : Span) : ℕ :=
  500 + stringRoom span.operationName + stringRoom span.resourceName + stringRoom span.serviceName +
    stringRoom span.type + pairsRoom stringRoom (span.metaPairs runtimeId) +
      pairsRoom (fun _ => 9) span.metricsPairs

end Span

/-! ## What a reader sees -/

/-- The value is the string, or stands for its absence. -/
def IsString : Value → Option Text → Prop
  | .nil, none => True
  | .str bytes, some s => Spells bytes s
  | _, _ => False

/-- A map with these keys, whose values are as described. -/
def IsMap (content : List (Option Text × (Value → Prop))) (v : Value) : Prop :=
  ∃ entries, v = .map entries ∧
    List.Forall₂ (fun entry c => IsString entry.1 c.1 ∧ c.2 entry.2) entries content

namespace Span

def parentContent (span : Span) : List (Option Text × (Value → Prop)) :=
  match span.context.parentId with
  | none => []
  | some parentId => [(some (text "parent_id"), (· = .int parentId.toNat))]

def errorContent (span : Span) : List (Option Text × (Value → Prop)) :=
  if span.error then [(some (text "error"), (· = .int 1))] else []

/-- The ids, names, times, error flag, tags and metrics that the span has. -/
def content (span : Span) : List (Option Text × (Value → Prop)) :=
  (some (text "trace_id"), (· = .int span.context.traceId.toNat)) ::
  (some (text "span_id"), (· = .int span.context.spanId.toNat)) ::
  (some (text "name"), (IsString · span.operationName)) ::
  (some (text "resource"), (IsString · span.resourceName)) ::
  (some (text "service"), (IsString · span.serviceName)) ::
  (some (text "type"), (IsString · span.type)) ::
  (some (text "start"), (· = .int span.startTime.elapsedNanoseconds)) ::
  (some (text "duration"), (· = .int span.duration.nanoseconds)) ::
  (span.parentContent ++ (span.errorContent ++
    [(some (text "meta"), IsMap ((span.metaPairs runtimeId).map fun p => (p.1, (IsString · p.2)))),
      (some (text "metrics"), IsMap (span.metricsPairs.map fun p => (p.1, (· = doubleValue p.2))))]))

/-- A reader of the value sees the span. -/
def ReadBy (span : Span) (v : Value) : Prop := IsMap (span.content runtimeId) v

/-- No string of the span has a surrogate that stands alone. -/
structure WellFormed (span : Span) : Prop where
  names : ∀ s ∈ [span.operationName, span.resourceName, span.serviceName, span.type],
    s.all isWellFormedUtf16 = true
  tags : ∀ p ∈ span.metaPairs runtimeId,
    p.1.all isWellFormedUtf16 = true ∧ p.2.all isWellFormedUtf16 = true
  metrics : ∀ p ∈ span.metricsPairs, p.1.all isWellFormedUtf16 = true

end Span

/-! ## What the formatter writes -/

/-- `w` returns `a` and writes the pairs, each with the room it needs. -/
def WritesPairs {α β : Type} (depth : ℕ) (f : α → Value) (r : α → ℕ) (w : Write β) (b : β)
    (pairs : List (Option Text × α)) : Prop :=
  WritesEntries depth w b (pairEntries f pairs) (pairsRoom r pairs)

variable {α β γ : Type} {f : α → Value} {r : α → ℕ} {depth : ℕ} {w : Write β} {g : β → Write γ}
  {b : β} {c : γ} {pairs pairs' : List (Option Text × α)}

theorem WritesPairs.pure (b : β) : WritesPairs depth f r (pure b) b [] := WritesEntries.pure b

theorem WritesPairs.bind (h : WritesPairs depth f r w b pairs)
    (h' : WritesPairs depth f r (g b) c pairs') :
    WritesPairs depth f r (w >>= g) c (pairs ++ pairs') := by
  have hboth := WritesEntries.bind h h'
  unfold WritesPairs pairEntries pairsRoom
  rwa [List.map_append, List.map_append, List.sum_append]

theorem WritesPairs.pair {wkey wvalue : Write Unit} {key : Option Text} {value : α}
    (hkey : Writes depth wkey (stringValue key) (stringRoom key))
    (hvalue : Writes depth wvalue (f value) (r value)) :
    WritesPairs depth f r (wkey >>= fun _ => wvalue) () [(key, value)] := by
  unfold WritesPairs pairsRoom
  rw [List.map_singleton, List.sum_singleton]
  exact .entry hkey hvalue

theorem writesPairs_writePairs {write : Option Text → α → Write Unit}
    (h : ∀ key value, WritesPairs depth f r (write key value) () [(key, value)])
    (pairs : List (Option Text × α)) : WritesPairs depth f r (writePairs write pairs) () pairs := by
  induction pairs with
  | nil => exact .pure ()
  | cons pair pairs ih => exact (h pair.1 pair.2).bind ih

theorem writesPairs_writeProperties {g : γ → α} {write : Option Text → γ → Write Unit}
    (h : ∀ key value, WritesPairs depth f r (write key value) () [(key, g value)])
    (properties : List (Text × Option γ)) (count : ℕ) :
    WritesPairs depth f r (writeProperties write properties count)
      (count + (propertyPairs g properties).length) (propertyPairs g properties) := by
  induction properties generalizing count with
  | nil => exact .pure count
  | cons property properties ih =>
    obtain ⟨key, value⟩ := property
    cases value with
    | none => exact ih count
    | some value =>
      have hrest := ih (count + 1)
      rw [Nat.add_assoc, Nat.add_comm 1] at hrest
      exact (h key value).bind hrest

theorem writesPairs_writeIf {w : Write Unit} {pair : Option Text × α} (condition : Bool)
    (h : WritesPairs depth f r w () [pair]) (count : ℕ) :
    WritesPairs depth f r (writeIf condition w count)
      (count + (if condition then [pair] else []).length) (if condition then [pair] else []) := by
  cases condition with
  | false => exact .pure count
  | true =>
    have hcount : WritesPairs depth f r (pure (count + 1)) (count + 1) [] := .pure _
    exact WritesPairs.bind (g := fun _ => pure (count + 1)) h hcount

theorem writes_utf8 (depth : ℕ) (s : Text) :
    Writes (depth + 1) (writeStringBytes (utf8 s)) (stringValue (some s)) (stringRoom (some s)) := by
  have hlen := length_utf8_le s
  refine Writes.mono (writes_stringBytes _) ?_
  unfold stringRoom
  dsimp only
  omega

/-- The keys of the members are short. -/
theorem writes_key (key : Text) (h : stringRoom (some key) ≤ 35) :
    Writes (depth + 1) (writeStringBytes (utf8 key)) (keyValue key) 35 :=
  Writes.mono (writes_utf8 depth key) h

theorem writesPairs_writeTag (depth : ℕ) (key value : Option Text) :
    WritesPairs (depth + 1) stringValue stringRoom (writeTag key value) () [(key, value)] :=
  .pair (writes_string key) (writes_string value)

theorem writesPairs_writeMetric (depth : ℕ) (key : Option Text) (value : Double) :
    WritesPairs (depth + 1) doubleValue (fun _ => 9) (writeMetric key value) () [(key, value)] :=
  .pair (writes_string key) (writes_double value)

/-- A member that is a map of pairs, each of which has been counted. -/
theorem WritesPairs.counted {key : Text} {w : Write ℕ} (hkey : stringRoom (some key) ≤ 35)
    (h : WritesPairs (depth + 1) f r w pairs.length pairs) :
    WritesEntries (depth + 2) (writeStringBytes (utf8 key) >>= fun _ => writeCounted w) ()
      [(keyValue key, .map (pairEntries f pairs))] (40 + pairsRoom r pairs) := by
  have hlen : (pairEntries f pairs).length = pairs.length := List.length_map _
  rw [← hlen] at h
  exact (WritesEntries.entry (writes_key key hkey) (WritesEntries.counted h)).mono (by omega)

theorem writesEntries_writeTags (span : Span) :
    WritesEntries (depth + 2) (writeTags runtimeId span) ()
      [(keyValue (text "meta"), .map (pairEntries stringValue (span.metaPairs runtimeId)))]
      (40 + pairsRoom stringRoom (span.metaPairs runtimeId)) := by
  have htags := writesPairs_writePairs (writesPairs_writeTag depth) span.tags.tags
  have hproperties := writesPairs_writeProperties (g := some)
    (fun key value => writesPairs_writeTag depth key (some value))
    span.tags.additionalTags span.tags.tags.length
  have hruntimeId := writesPairs_writeIf span.isTopLevel
    (.pair (writes_utf8 depth Trace.Tags.runtimeId) (writes_utf8 depth runtimeId))
  have horigin := writesPairs_writeIf
    (!span.tags.isOriginWritten && !isNullOrEmpty span.context.origin)
    (.pair (writes_utf8 depth Trace.Tags.origin) (writes_string span.context.origin))
  refine WritesPairs.counted (by decide) ?_
  unfold Span.metaPairs
  rw [List.length_append, List.length_append, List.length_append, ← Nat.add_assoc, ← Nat.add_assoc]
  exact .bind htags (.bind hproperties (.bind (hruntimeId _) (horigin _)))

theorem writesEntries_writeMetrics (span : Span) :
    WritesEntries (depth + 2) (writeMetrics span) ()
      [(keyValue (text "metrics"), .map (pairEntries doubleValue span.metricsPairs))]
      (40 + pairsRoom (fun _ => 9) span.metricsPairs) := by
  have hmetrics := writesPairs_writePairs (writesPairs_writeMetric depth) span.tags.metrics
  have hproperties := writesPairs_writeProperties (g := id)
    (writesPairs_writeMetric depth) span.tags.additionalMetrics span.tags.metrics.length
  have htopLevel := writesPairs_writeIf span.isTopLevel (writesPairs_writeMetric depth
    (some Trace.Metrics.topLevelSpan) 0x3FF0000000000000)
  refine WritesPairs.counted (by decide) ?_
  unfold Span.metricsPairs
  rw [List.length_append, List.length_append, ← Nat.add_assoc]
  exact .bind hmetrics (.bind hproperties (htopLevel _))

theorem writesEntries_serializeTo (depth : ℕ) (span : Span) :
    WritesEntries (depth + 2) (serializeTo runtimeId span) () (span.tagEntries runtimeId)
      (40 + pairsRoom stringRoom (span.metaPairs runtimeId) +
        (40 + pairsRoom (fun _ => 9) span.metricsPairs)) :=
  .bind (writesEntries_writeTags runtimeId span) (writesEntries_writeMetrics span)

theorem writesEntries_writeParentId (span : Span) :
    WritesEntries (depth + 1) (writeParentId span.context.parentId) () span.parentEntries 44 := by
  unfold Span.parentEntries
  cases span.context.parentId with
  | none => exact WritesEntries.mono (.pure ()) (by omega)
  | some parentId => exact .entry (writes_key (text "parent_id") (by decide)) (writes_uint64 parentId)

theorem writesEntries_writeError (span : Span) :
    WritesEntries (depth + 1) (writeError span.error) () span.errorEntries 37 := by
  unfold Span.errorEntries
  cases span.error with
  | false => exact WritesEntries.mono (.pure ()) (by omega)
  | true => exact .entry (writes_key (text "error") (by decide)) (writes_byte 1)

theorem Span.length_members (span : Span) (start duration : ℤ) :
    (span.members runtimeId start duration).length = span.memberCount := by
  unfold members memberCount parentEntries errorEntries tagEntries
  cases span.context.parentId <;> cases span.error <;> rfl

theorem Span.memberCount_le (span : Span) : span.memberCount ≤ 15 := by
  unfold memberCount
  split_ifs <;> omega

/-- The formatter writes one map, whose members are those of the span with its written times. -/
theorem writes_serialize (span : Span) :
    Writes 3 (serialize runtimeId span) (.map (span.members runtimeId
      span.startTime.toUnixTimeNanoseconds.toInt span.duration.toNanoseconds.toInt))
      (span.room runtimeId) := by
  have hcount := span.length_members runtimeId span.startTime.toUnixTimeNanoseconds.toInt
    span.duration.toNanoseconds.toInt
  have hle := span.memberCount_le
  rw [← hcount] at hle
  have htags := writesEntries_serializeTo runtimeId 0 span
  have hoptional := (writesEntries_writeParentId span).bind
    (f := fun _ => writeError span.error >>= fun _ => serializeTo runtimeId span)
    ((writesEntries_writeError span).bind (f := fun _ => serializeTo runtimeId span) htags)
  have hmembers :=
    WritesEntries.cons (writes_key (text "trace_id") (by decide)) (writes_uint64 span.context.traceId) <|
    .cons (writes_key (text "span_id") (by decide)) (writes_uint64 span.context.spanId) <|
    .cons (writes_key (text "name") (by decide)) (writes_string span.operationName) <|
    .cons (writes_key (text "resource") (by decide)) (writes_string span.resourceName) <|
    .cons (writes_key (text "service") (by decide)) (writes_string span.serviceName) <|
    .cons (writes_key (text "type") (by decide)) (writes_string span.type) <|
    .cons (writes_key (text "start") (by decide)) (writes_int64 span.startTime.toUnixTimeNanoseconds) <|
    .cons (writes_key (text "duration") (by decide)) (writes_int64 span.duration.toNanoseconds) hoptional
  unfold serialize
  rw [← hcount]
  refine Writes.mono (WritesEntries.map hmembers hle) ?_
  unfold Span.room
  omega

/-! ## The wire format of a span -/

/-- What has been written from `b` to `b'` is exactly one value. -/
def WrittenAs (b b' : Buffer) (v : Value) : Prop :=
  ∃ block, b'.written = b.written ++ block ∧ Decodes block v

theorem WrittenAs.unique {b b' : Buffer} {v v' : Value} (h : WrittenAs b b' v)
    (h' : WrittenAs b b' v') : v = v' := by
  obtain ⟨block, hwritten, hdecodes⟩ := h
  obtain ⟨block', hwritten', hdecodes'⟩ := h'
  rw [hwritten] at hwritten'
  obtain rfl := List.append_cancel_left hwritten'
  exact hdecodes.unique hdecodes'

/-- The start is on a clock that shows UTC, and neither time overflows when it is converted. -/
structure Span.TimesFit (span : Span) : Prop where
  offset : span.startTime.offsetMinutes = 0
  start : InInt64 span.startTime.elapsedNanoseconds
  duration : InInt64 span.duration.nanoseconds

theorem Span.timesFit_iff (span : Span) :
    span.TimesFit ↔ span.startTime.toUnixTimeNanoseconds.toInt = span.startTime.elapsedNanoseconds ∧
      span.duration.toNanoseconds.toInt = span.duration.nanoseconds := by
  rw [DateTimeOffset.toUnixTimeNanoseconds_eq_iff, TimeSpan.toNanoseconds_eq_iff]
  exact ⟨fun ⟨h1, h2, h3⟩ => ⟨⟨h1, h2⟩, h3⟩, fun ⟨⟨h1, h2⟩, h3⟩ => ⟨h1, h2, h3⟩⟩

theorem Span.members_inj (span : Span) {start duration start' duration' : ℤ} :
    span.members runtimeId start duration = span.members runtimeId start' duration' ↔
      start = start' ∧ duration = duration' := by
  unfold members
  simp

theorem isString_stringValue (s : Option Text) :
    IsString (stringValue s) s ↔ s.all isWellFormedUtf16 = true := by
  cases s with
  | none => exact iff_of_true trivial rfl
  | some s => exact spells_utf8

theorem isString_keyValue {key : Text} (h : isWellFormedUtf16 key = true) :
    IsString (keyValue key) (some key) := spells_utf8.2 h

theorem isMap_map {entries : List (Value × Value)} {content : List (Option Text × (Value → Prop))} :
    IsMap content (.map entries) ↔
      List.Forall₂ (fun entry c => IsString entry.1 c.1 ∧ c.2 entry.2) entries content := by
  constructor
  · rintro ⟨entries', h, hentries⟩
    obtain rfl := Value.map.inj h
    exact hentries
  · exact fun h => ⟨entries, rfl, h⟩

/-- A map of pairs is read back when their keys are well-formed and each value is. -/
theorem isMap_pairEntries {is : Value → α → Prop} {fits : α → Prop}
    (h : ∀ value, is (f value) value ↔ fits value) (pairs : List (Option Text × α)) :
    IsMap (pairs.map fun p => (p.1, (is · p.2))) (.map (pairEntries f pairs)) ↔
      ∀ p ∈ pairs, p.1.all isWellFormedUtf16 = true ∧ fits p.2 := by
  rw [isMap_map, pairEntries, List.forall₂_map_left_iff, List.forall₂_map_right_iff,
    List.forall₂_same]
  simp only [isString_stringValue, h]

/-- The members are read back when the times are the span's and its strings are well-formed. -/
theorem Span.readBy_members (span : Span) {start duration : ℤ} :
    span.ReadBy runtimeId (.map (span.members runtimeId start duration)) ↔
      (start = span.startTime.elapsedNanoseconds ∧ duration = span.duration.nanoseconds) ∧
        span.WellFormed runtimeId := by
  have hmeta := isMap_pairEntries isString_stringValue (span.metaPairs runtimeId)
  have hmetrics := @isMap_pairEntries _ doubleValue (fun v d => v = doubleValue d)
    (fun _ => True) (fun _ => iff_of_true rfl trivial) span.metricsPairs
  -- the parent's id and the error flag are there or not on both sides
  have hoptional : ∀ entries content,
      List.Forall₂ (fun entry c => IsString entry.1 c.1 ∧ c.2 entry.2)
        (span.parentEntries ++ (span.errorEntries ++ entries))
        (span.parentContent ++ (span.errorContent ++ content)) ↔
      List.Forall₂ (fun entry c => IsString entry.1 c.1 ∧ c.2 entry.2) entries content := by
    intro entries content
    unfold parentEntries parentContent errorEntries errorContent
    cases span.context.parentId <;> cases span.error <;>
      simp (disch := decide) [isString_keyValue]
  unfold ReadBy content members tagEntries
  rw [isMap_map]
  simp (disch := decide) only [List.forall₂_cons, hoptional, List.forall₂_nil_left_iff,
    isString_keyValue, isString_stringValue, hmeta, hmetrics, Value.int.injEq, true_and, and_true]
  constructor
  · rintro ⟨hname, hresource, hservice, htype, hstart, hduration, htags, hmetrics⟩
    exact ⟨⟨hstart, hduration⟩, ⟨by simp [hname, hresource, hservice, htype], htags, hmetrics⟩⟩
  · rintro ⟨⟨hstart, hduration⟩, hnames, htags, hmetrics⟩
    simp only [List.forall_mem_cons] at hnames
    exact ⟨hnames.1, hnames.2.1, hnames.2.2.1, hnames.2.2.2.1, hstart, hduration, htags, hmetrics⟩

/-- What a successful call wrote, with the times as the code computes them. -/
theorem serialize_writtenAs {span : Span} {b b' : Buffer} {u : Unit} (hb : b.Valid)
    (h : serialize runtimeId span b = some (u, b')) :
    WrittenAs b b' (.map (span.members runtimeId
      span.startTime.toUnixTimeNanoseconds.toInt span.duration.toNanoseconds.toInt)) := by
  obtain ⟨block, hemits, hencoding⟩ := writes_serialize runtimeId span
  obtain ⟨-, hb', hwritten⟩ := hemits.emits b u b' hb h
  have hlen := hb'.length_written
  have hoffset := hb'.offset_le
  have hmax := hb'.length_le
  rw [hwritten, List.length_append] at hlen
  exact ⟨block, hwritten, (hencoding (by omega)).decodes⟩

/-- A reader sees the span when its start is on a clock that shows UTC, its times do not overflow
and its strings are well-formed. -/
theorem serialize_readBy_iff {span : Span} {b b' : Buffer} {u : Unit} (hb : b.Valid)
    (h : serialize runtimeId span b = some (u, b')) :
    (∃ v, WrittenAs b b' v ∧ span.ReadBy runtimeId v) ↔
      span.TimesFit ∧ span.WellFormed runtimeId := by
  have hwritten := serialize_writtenAs runtimeId hb h
  rw [Span.timesFit_iff, ← span.readBy_members]
  constructor
  · rintro ⟨v, hv, hread⟩
    rwa [hv.unique hwritten] at hread
  · exact fun hread => ⟨_, hwritten, hread⟩

theorem serialize_succeeds (span : Span) {b : Buffer} (hb : b.Valid)
    (hroom : b.offset + span.room runtimeId ≤ ArrayMaxSize / 2) :
    ∃ b', serialize runtimeId span b = some ((), b') := by
  obtain ⟨block, hemits, -⟩ := writes_serialize runtimeId span
  obtain ⟨⟨u, b'⟩, h⟩ := Option.isSome_iff_exists.1 (hemits.succeeds b hb hroom)
  exact ⟨b', h⟩

/-- With enough room the formatter succeeds. Whenever it does, the bytes it has written are one
map: its members are those of the span, with the times that the code computes and the bytes of
the strings. A reader sees the span itself exactly when its times fit and its strings are
well-formed. -/
theorem serialize_spec (span : Span) {b : Buffer} (hb : b.Valid) :
    (b.offset + span.room runtimeId ≤ ArrayMaxSize / 2 →
      ∃ b', serialize runtimeId span b = some ((), b')) ∧
    ∀ b', serialize runtimeId span b = some ((), b') →
      WrittenAs b b' (.map (span.members runtimeId
        span.startTime.toUnixTimeNanoseconds.toInt span.duration.toNanoseconds.toInt)) ∧
      ((∃ v, WrittenAs b b' v ∧ span.ReadBy runtimeId v) ↔
        span.TimesFit ∧ span.WellFormed runtimeId) :=
  ⟨serialize_succeeds runtimeId span hb, fun _ h =>
    ⟨serialize_writtenAs runtimeId hb h, serialize_readBy_iff runtimeId hb h⟩⟩

/-- A root span of ten ticks, with the error flag and a tag, that starts at midnight on a clock
some minutes ahead of UTC. -/
def midnight (offsetMinutes : ℤ) (h : -840 ≤ offsetMinutes ∧ offsetMinutes ≤ 840) : Span where
  context := ⟨1, 2, none, some (text "shop"), none⟩
  operationName := some (text "web.request")
  resourceName := some (text "GET /")
  type := some (text "web")
  error := true
  startTime := ⟨637450560000000000, offsetMinutes, by decide, h⟩
  duration := ⟨10⟩
  tags := ⟨[(some (text "a"), some (text "b"))], [], [(text "env", none)], []⟩

/-- The array of a new writer. -/
def temporaryBuffer : Buffer := ⟨List.replicate 1024 0, 0⟩

theorem temporaryBuffer_valid : temporaryBuffer.Valid :=
  ⟨Nat.zero_le _, by rw [temporaryBuffer, List.length_replicate]; decide⟩

/-- With a clock that shows UTC, a reader sees the span. -/
theorem serialize_midnight_utc :
    ∃ b', serialize (text "7c9e6679") (midnight 0 (by decide)) temporaryBuffer = some ((), b') ∧
      ∃ v, WrittenAs temporaryBuffer b' v ∧
        (midnight 0 (by decide)).ReadBy (text "7c9e6679") v := by
  obtain ⟨hsucceeds, hwritten⟩ := serialize_spec (text "7c9e6679") (midnight 0 (by decide))
    temporaryBuffer_valid
  obtain ⟨b', h⟩ := hsucceeds (by decide)
  exact ⟨b', h, (hwritten b' h).2.2
    ⟨⟨rfl, by decide, by decide⟩, ⟨by decide, by decide, by decide⟩⟩⟩

/-- Two hours ahead of UTC, the start that is written is not the span's. -/
theorem serialize_midnight_ahead :
    ∃ b', serialize (text "7c9e6679") (midnight 120 (by decide)) temporaryBuffer = some ((), b') ∧
      ¬∃ v, WrittenAs temporaryBuffer b' v ∧
        (midnight 120 (by decide)).ReadBy (text "7c9e6679") v := by
  obtain ⟨b', h⟩ := serialize_succeeds (text "7c9e6679") (midnight 120 (by decide))
    temporaryBuffer_valid (by decide)
  refine ⟨b', h, fun hread => ?_⟩
  have hfit := ((serialize_readBy_iff (text "7c9e6679") temporaryBuffer_valid h).1 hread).1
  exact absurd hfit.offset (by decide)

end MessagePack

end DdTrace
