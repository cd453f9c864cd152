import DdTrace.Lib.ByteStream
import DdTrace.Lib.Integers
import DdTrace.Lib.Throwing

/-!
# Responses read from a stream

`ReadResponseAsync` of `DatadogHttpClient.cs`, with its local functions on the variables they
share, and `CopyToAsync` of `StreamContent.cs` into a buffer. A character outside of a string
builder is `currentChar`; a builder is handed from function to function. `fuel` bounds the
rounds of each loop.
-/

namespace DdTrace.HttpOverStreams

open Lib Lib.Throwing

inductive HttpError where
  /-- `"Unexpected end of stream at position {streamPosition}"` -/
  | unexpectedEndOfStream (streamPosition : ℕ)
  /-- `"StreamPosition already exceeds requiredStreamPosition"` -/
  | positionExceeded
  | indexOutOfRange
  /-- `"Unexpected character {currentChar} in headers: CR must be followed by LF"` -/
  | unexpectedCharacter (currentChar : UInt16)
  /-- `"Invalid response, can't parse status code. Line was:" + potentialStatusCode` -/
  | invalidStatusCode (potentialStatusCode : Text)
  /-- `"Unable to CopyToAsync with buffer when content Length is unknown"` -/
  | lengthUnknown
  /-- `"Provided buffer was smaller {buffer.Length} than the content length {Length}"` -/
  | bufferTooSmall (bufferLength : ℕ) (length : Int64)
  /-- What `ReadAsync` throws for an offset and a count outside of the buffer. -/
  | argumentOutOfRange
  | outOfFuel
  deriving DecidableEq

def carriageReturn : UInt16 := unit '\r'
def lineFeed : UInt16 := unit '\n'

def statusCodeStart : ℕ := 9
def statusCodeEnd : ℕ := 12
def startOfReasonPhrase : ℕ := 13
def bufferSize : ℕ := 10

def contentLengthHeaderKey : Text := text "Content-Length"

/-- `Encoding.ASCII` for one byte. -/
def asciiChar (b : UInt8) : UInt16 := if b < 0x80 then .ofNat b.toNat else unit '?'

/-- The variables of `ReadResponseAsync` that its local functions share. -/
structure Reading where
  stream : ByteStream
  currentChar : UInt16
  streamPosition : ℕ

def Reading.start (responseStream : ByteStream) : Reading where
  stream := responseStream
  currentChar := 0
  streamPosition := 0

abbrev Client := Throwing HttpError Reading

def goNextChar : Client Unit := do
  let s ← get
  match s.stream.read 1 with
  | ([], _) => throw (.unexpectedEndOfStream s.streamPosition)
  | (b :: _, stream) =>
    set { s with stream, currentChar := asciiChar b, streamPosition := s.streamPosition + 1 }

/-- The loop of `SkipUntil`; `chArray` is what the last read returned. -/
def skipBytes : ℕ → ℕ → List UInt8 → Client (List UInt8)
  | 0, _, _ => throw .outOfFuel
  | fuel + 1, bytesRemaining, chArray =>
    if bytesRemaining > 0 then do
      let s ← get
      match s.stream.read (min bytesRemaining bufferSize) with
      | ([], _) => throw (.unexpectedEndOfStream s.streamPosition)
      | (b :: bytes, stream) => do
        set { s with stream }
        skipBytes fuel (bytesRemaining - (b :: bytes).length) (b :: bytes)
    else return chArray

def skipUntil (fuel requiredStreamPosition : ℕ) : Client Unit := do
  let s ← get
  if requiredStreamPosition < s.streamPosition then throw .positionExceeded
  else do
    let requiredBytes := requiredStreamPosition - s.streamPosition
    let chArray ← skipBytes fuel requiredBytes []
    match chArray.getLast? with
    | none => throw .indexOutOfRange
    | some b => modify fun s =>
      { s with currentChar := asciiChar b, streamPosition := s.streamPosition + requiredBytes }

def readUntil (stopChar : UInt16) : ℕ → Text → Client Text
  | 0, _ => throw .outOfFuel
  | fuel + 1, builder => do
    let s ← get
    if s.currentChar = stopChar then return builder
    else do
      goNextChar
      readUntil stopChar fuel (builder ++ [s.currentChar])

def isNewLine : Client Bool := do
  let s ← get
  if s.currentChar = carriageReturn then do
    goNextChar
    let s ← get
    if s.currentChar ≠ lineFeed then throw (.unexpectedCharacter s.currentChar)
    else return true
  else return false

def readUntilNewLine : ℕ → Text → Client Text
  | 0, _ => throw .outOfFuel
  | fuel + 1, builder => do
    if ← isNewLine then return builder
    else do
      let builder ← readUntil carriageReturn fuel builder
      readUntilNewLine fuel builder

/-- `while (streamPosition < statusCodeEnd)` -/
def readStatusCode : ℕ → Text → Client Text
  | 0, _ => throw .outOfFuel
  | fuel + 1, builder => do
    let s ← get
    if s.streamPosition < statusCodeEnd then do
      goNextChar
      let s ← get
      readStatusCode fuel (builder ++ [s.currentChar])
    else return builder

structure HttpHeader where
  name : Text
  value : Text
  deriving DecidableEq

/-- `HttpHeaders.GetValue` -/
def getValue (headers : List HttpHeader) (name : Text) : Option Text :=
  (headers.find? fun header => equalsIgnoreCase header.name name).map (·.value)

/-- The loop over the headers. -/
def readHeaders : ℕ → List HttpHeader → Client (List HttpHeader)
  | 0, _ => throw .outOfFuel
  | fuel + 1, headers => do
    goNextChar
    if ← isNewLine then return headers
    else do
      let builder ← readUntil (unit ':') fuel []
      let name := trim builder
      goNextChar
      let builder ← readUntilNewLine fuel []
      let value := trim builder
      readHeaders fuel (headers ++ [⟨name, value⟩])

/-- The stream is the one the response was read from. -/
structure StreamContent where
  length : Option Int64
  deriving DecidableEq

structure HttpResponse where
  statusCode : Int32
  responseMessage : Text
  headers : List HttpHeader
  content : StreamContent
  deriving DecidableEq

/-- `info` is that of the current culture. -/
def readResponseAsync (info : NumberFormatInfo) (fuel : ℕ) : Client HttpResponse := do
  skipUntil fuel statusCodeStart
  let potentialStatusCode ← readStatusCode fuel []
  match tryParseInt32 info potentialStatusCode with
  | none => throw (.invalidStatusCode potentialStatusCode)
  | some statusCode => do
    skipUntil fuel startOfReasonPhrase
    goNextChar
    let reasonPhrase ← readUntilNewLine fuel []
    let headers ← readHeaders fuel []
    let length := (getValue headers contentLengthHeaderKey).bind (tryParseInt64 info)
    return ⟨statusCode, reasonPhrase, headers, ⟨length⟩⟩

/-! ## The content -/

/-- An array; its length is an `int`. -/
structure Buffer where
  bytes : List UInt8
  length_lt : bytes.length < 2 ^ 31

/-- The buffer with `bytes` at `offset`, if they fit in there. -/
def Buffer.write (buffer : Buffer) (offset : ℕ) (bytes : List UInt8)
    (h : offset + bytes.length ≤ buffer.bytes.length) : Buffer where
  bytes := buffer.bytes.take offset ++ bytes ++ buffer.bytes.drop (offset + bytes.length)
  length_lt := by
    have := buffer.length_lt
    simp only [List.length_append, List.length_take, List.length_drop]
    omega

/-- `Stream.ReadAsync`: the buffer afterwards, and how many bytes were read into it. -/
def readAsync (buffer : Buffer) (offset : ℕ) (count : ℤ) :
    Throwing HttpError ByteStream (Buffer × ℕ) := do
  if h : 0 ≤ count ∧ offset + count ≤ buffer.bytes.length then do
    let s ← get
    set (s.read count.toNat).2
    have hfits : offset + (s.read count.toNat).1.length ≤ buffer.bytes.length := by
      have := @ByteStream.length_read_le s count.toNat
      omega
    return (buffer.write offset (s.read count.toNat).1 hfits, (s.read count.toNat).1.length)
  else throw .argumentOutOfRange

/-- The loop of `CopyToAsync`. No sum here is larger than the buffer, which is smaller than
`int.MaxValue`. -/
def copyLoop : ℕ → Buffer → ℕ → ℤ → Throwing HttpError ByteStream Buffer
  | 0, _, _, _ => throw .outOfFuel
  | fuel + 1, buffer, length, remaining => do
    let bytesToRead := min remaining (2 ^ 31 - 1)
    let (buffer, bytesRead) ← readAsync buffer length bytesToRead
    if bytesRead = 0 ∨ remaining - bytesRead ≤ 0 then return buffer
    else copyLoop fuel buffer (length + bytesRead) (remaining - bytesRead)

def StreamContent.copyToAsync (content : StreamContent) (fuel : ℕ) (buffer : Buffer) :
    Throwing HttpError ByteStream Buffer :=
  match content.length with
  | none => throw .lengthUnknown
  | some length =>
    if length.toInt > buffer.bytes.length then throw (.bufferTooSmall buffer.bytes.length length)
    else copyLoop fuel buffer 0 length.toInt

end DdTrace.HttpOverStreams
