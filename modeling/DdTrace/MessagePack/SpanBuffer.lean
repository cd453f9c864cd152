import DdTrace.Lib.Bytes
import DdTrace.Lib.Run

/-!
# SpanBuffer

`SpanBuffer.cs` with its bytes: the traces that `TryWrite` accepts are serialized one after
the other behind a header, which `Lock` fills in. The formatter of a single span is a
parameter, that of a segment of spans is `ArraySegmentFormatter`.
-/

namespace DdTrace.MessagePack

variable {Span : Type*}

/-- `ArraySegment<Span>`, `none` where `Array` is null. -/
abbrev ArraySegment (Span : Type*) := Option (List Span)

def ArraySegment.count : ArraySegment Span → ℕ
  | none => 0
  | some spans => spans.length

/-- The size no `byte[]` exceeds. -/
def ArrayMaxSize : ℕ := 0x7FFFFFC7

def MessagePackCode.Nil : UInt8 := 0xC0
def MessagePackCode.MinFixArray : ℕ := 0x90
def MessagePackCode.Array16 : UInt8 := 0xDC
def MessagePackCode.Array32 : UInt8 := 0xDD

def MessagePackRange.MaxFixArrayCount : ℕ := 15

/-! ## The formatters -/

/-- The bytes of a span; `none` if the formatter throws. -/
structure SpanFormatter (Span : Type*) where
  serialize : Span → Option (List UInt8)
  /-- A span starts with a map header. -/
  nonempty : ∀ span, serialize span ≠ some []

def writeArrayHeader (count : ℕ) : List UInt8 :=
  if count ≤ MessagePackRange.MaxFixArrayCount then
    [UInt8.ofNat (MessagePackCode.MinFixArray ||| count)]
  else if count ≤ 65535 then MessagePackCode.Array16 :: Lib.bigEndian 2 count
  else MessagePackCode.Array32 :: Lib.bigEndian 4 count

def arrayHeader32 (count : ℕ) : List UInt8 := MessagePackCode.Array32 :: Lib.bigEndian 4 count

namespace SpanFormatter

variable (formatter : SpanFormatter Span)

def serializeSpans : List Span → Option (List UInt8)
  | [] => some []
  | span :: spans => do
    let bytes ← formatter.serialize span
    let rest ← serializeSpans spans
    return bytes ++ rest

/-- `ArraySegmentFormatter.Serialize`; what does not fit into a `byte[]` makes it throw. -/
def serializeSegment (trace : ArraySegment Span) : Option (List UInt8) :=
  match trace with
  | none => some [MessagePackCode.Nil]
  | some spans => do
    let rest ← formatter.serializeSpans spans
    let bytes := writeArrayHeader spans.length ++ rest
    if bytes.length ≤ ArrayMaxSize then some bytes else none

end SpanFormatter

/-! ## The buffer -/

def HeaderSize : ℕ := 5
def InitialBufferSize : ℕ := 64 * 1024

structure SpanBuffer where
  maxBufferSize : ℤ
  buffer : List UInt8
  locked : Bool
  offset : ℕ
  traceCount : ℤ
  spanCount : ℤ
  isFull : Bool
  deriving DecidableEq

/-- How a call ends. -/
inductive Result where
  | returned (value : Bool)
  | completed
  | threw
  deriving DecidableEq

/-- What a call cannot decide: whether `Monitor.TryEnter` gets the lock, and whether there
is memory for a new array. -/
structure Env where
  lockTaken : Bool
  memory : Bool

namespace SpanBuffer

variable (b : SpanBuffer)

/-- The constructor. -/
def new (maxBufferSize : ℤ) : Option SpanBuffer :=
  if maxBufferSize < HeaderSize then none
  else some {
    maxBufferSize
    buffer := List.replicate (min (InitialBufferSize : ℤ) maxBufferSize).toNat 0
    locked := false
    offset := HeaderSize
    traceCount := 0
    spanCount := 0
    isFull := false }

/-- `Data`, which throws if the buffer is not locked. -/
def data : Option (List UInt8) := if b.locked then some (b.buffer.take b.offset) else none

/-- The `while` loop of `EnsureCapacity`, `none` if it does not end. After 32 turns without
end the size is 0, and stays so. -/
def doubleSize (minDesiredSize maxBufferSize : ℤ) : ℕ → ℤ → Option ℤ
  | 0, _ => none
  | fuel + 1, size =>
    if size < minDesiredSize ∧ size < maxBufferSize then
      doubleSize minDesiredSize maxBufferSize fuel (Lib.int32 (size * 2))
    else some size

/-- `none` if the call does not return. -/
def ensureCapacity (minDesiredSize : ℤ) (memory : Bool) : Option (Result × SpanBuffer) :=
  if minDesiredSize ≤ b.buffer.length then some (.returned true, b)
  else if b.maxBufferSize < minDesiredSize then some (.returned false, b)
  else do
    let size ← doubleSize minDesiredSize b.maxBufferSize 33 b.buffer.length
    let size := min size b.maxBufferSize
    if (ArrayMaxSize : ℤ) < size ∨ memory = false then return (.threw, b)
    match Lib.blockCopy (b.buffer.take b.offset) (List.replicate size.toNat 0) 0 with
    | none => return (.threw, b)
    | some buffer => return (.returned true, { b with buffer })

/-- What `TryWrite` does with the serialized trace. -/
def append (bytes : List UInt8) (count : ℕ) (memory : Bool) : Option (Result × SpanBuffer) := do
  let (result, b) ← b.ensureCapacity (Lib.int32 (bytes.length + b.offset)) memory
  match result with
  | .returned true =>
    match Lib.blockCopy bytes b.buffer b.offset with
    | none => return (.threw, b)
    | some buffer =>
      return (.returned true, { b with
        buffer
        offset := b.offset + bytes.length
        traceCount := Lib.int32 (b.traceCount + 1)
        spanCount := Lib.int32 (b.spanCount + count) })
  | .returned false => return (.returned false, { b with isFull := true })
  | result => return (result, b)

def tryWrite (formatter : SpanFormatter Span) (trace : ArraySegment Span) (env : Env) :
    Option (Result × SpanBuffer) :=
  if env.lockTaken = false ∨ b.locked = true then some (.returned false, b)
  else
    match formatter.serializeSegment trace with
    | none => some (.threw, b)
    | some bytes => b.append bytes trace.count env.memory

/-- `WriteArrayHeaderForceArray32Block(ref bytes, 0, count)`, with its own `EnsureCapacity`. -/
def writeHeader (bytes : List UInt8) (count : ℤ) : List UInt8 :=
  let bytes := if bytes.length < 5 then bytes ++ List.replicate (256 - bytes.length) 0 else bytes
  arrayHeader32 (count % 2 ^ 32).toNat ++ bytes.drop 5

def lock : Result × SpanBuffer :=
  if b.locked then (.returned false, b)
  else (.returned true, { b with buffer := writeHeader b.buffer b.traceCount, locked := true })

def clear : SpanBuffer :=
  { b with offset := HeaderSize, traceCount := 0, spanCount := 0, isFull := false, locked := false }

end SpanBuffer

/-! ## Sequences of calls -/

inductive Call (Span : Type*) where
  | tryWrite (trace : ArraySegment Span) (env : Env)
  | lock
  | clear

/-- A call and how it ended. -/
abbrev Event (Span : Type*) := Call Span × Result

/-- `none` if the call does not return. -/
def SpanBuffer.call (formatter : SpanFormatter Span) (b : SpanBuffer) :
    Call Span → Option (Result × SpanBuffer)
  | .tryWrite trace env => b.tryWrite formatter trace env
  | .lock => some b.lock
  | .clear => some (.completed, b.clear)

def Step (formatter : SpanFormatter Span) (b : SpanBuffer) (e : Event Span) (b' : SpanBuffer) :
    Prop :=
  b.call formatter e.1 = some (e.2, b')

instance (formatter : SpanFormatter Span) (b : SpanBuffer) (e : Event Span) (b' : SpanBuffer) :
    Decidable (Step formatter b e b') :=
  inferInstanceAs (Decidable (_ = _))

def acceptedStep (accepted : List (ArraySegment Span)) : Event Span → List (ArraySegment Span)
  | (.tryWrite trace _, .returned true) => accepted ++ [trace]
  | (.clear, _) => []
  | _ => accepted

/-- The traces whose `TryWrite` returned true since the last `Clear`. -/
def accepted (es : List (Event Span)) : List (ArraySegment Span) := es.foldl acceptedStep []

end DdTrace.MessagePack
