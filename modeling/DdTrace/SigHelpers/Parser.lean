import DdTrace.Signature.Parser

/-!
# The parser of types

The functions of `sig_helpers`, as readers of the memory behind `*p_sig`: they know no end.
`**p_sig` is `deref`, and a function that returns `false` fails. Those that call
`ParseType` are given it.
-/

namespace DdTrace.SigHelpers

open Lib Lib.Reader Signature

/-- The number in the next one, two or four bytes; the cursor moves behind them. -/
def corSigUncompressData : Parser ℕ := do
  let b1 ← deref
  if b1 &&& 0x80 = 0x00 then do
    skip
    return b1.toNat
  else if b1 &&& 0xC0 = 0x80 then do
    skip
    let b2 ← deref
    skip
    return (b1 &&& 0x3F).toNat <<< 8 ||| b2.toNat
  else if b1 &&& 0xE0 = 0xC0 then do
    skip
    let b2 ← deref
    skip
    let b3 ← deref
    skip
    let b4 ← deref
    skip
    return (b1 &&& 0x1F).toNat <<< 24 ||| b2.toNat <<< 16 ||| b3.toNat <<< 8 ||| b4.toNat
  else fail

def parseNumber : Parser ℕ := corSigUncompressData

/-- Nothing asks for the token. -/
def parseTypeDefOrRefEncoded : Parser Unit := do
  let _ ← corSigUncompressData

def parseCustomMod : Parser Unit := do
  if isCustomMod (← deref) then do
    skip
    parseTypeDefOrRefEncoded
  else fail

/-- `fuel` bounds the rounds of the loop. -/
def parseOptionalCustomMods : ℕ → Parser Unit
  | 0 => outOfFuel
  | fuel + 1 => do
    if isCustomMod (← deref) then do
      parseCustomMod
      parseOptionalCustomMods fuel
    else return ()

/-- `if (**p_sig == ELEMENT_TYPE_BYREF) *p_sig += 1`, and the type. -/
def parseByRefType (parseType : Parser Unit) : Parser Unit := do
  if (← deref) = ELEMENT_TYPE_BYREF then do
    skip
    parseType
  else parseType

def parseRetType (fuel : ℕ) (parseType : Parser Unit) : Parser Unit := do
  parseOptionalCustomMods fuel
  let b ← deref
  if b = ELEMENT_TYPE_TYPEDBYREF ∨ b = ELEMENT_TYPE_VOID then skip else parseByRefType parseType

def parseParam (fuel : ℕ) (parseType : Parser Unit) : Parser Unit := do
  parseOptionalCustomMods fuel
  if (← deref) = ELEMENT_TYPE_TYPEDBYREF then skip else parseByRefType parseType

/-- The loop over the parameters still to come. -/
def parseParams (fuel : ℕ) (parseType : Parser Unit) : ℕ → Bool → Parser Unit
  | 0, _ => return ()
  | count + 1, sentinelFound => do
    let sentinelFound ← parseSentinel sentinelFound
    parseParam fuel parseType
    parseParams fuel parseType count sentinelFound

/-- No other calling convention is looked for. -/
def parseGenericCount : Parser Unit := do
  if (← deref) = IMAGE_CEE_CS_CALLCONV_GENERIC then do
    skip
    let _ ← parseNumber
  else return ()

def parseMethod (fuel : ℕ) (parseType : Parser Unit) : Parser Unit := do
  parseGenericCount
  let paramCount ← parseNumber
  parseRetType fuel parseType
  parseParams fuel parseType paramCount false

/-- A number that is not kept. -/
def parseSize : Parser Unit := do
  let _ ← parseNumber

def parseArrayShape : Parser Unit := do
  let _ ← parseNumber
  let numsizes ← parseNumber
  times parseSize numsizes
  let numsizes ← parseNumber
  times parseSize numsizes

/-- The element types that `ParseType` takes alone. -/
def isSimple (b : UInt8) : Prop :=
  b ∈ [ELEMENT_TYPE_VOID, ELEMENT_TYPE_BOOLEAN, ELEMENT_TYPE_CHAR, ELEMENT_TYPE_I1, ELEMENT_TYPE_U1,
    ELEMENT_TYPE_I2, ELEMENT_TYPE_U2, ELEMENT_TYPE_I4, ELEMENT_TYPE_U4, ELEMENT_TYPE_I8,
    ELEMENT_TYPE_U8, ELEMENT_TYPE_R4, ELEMENT_TYPE_R8, ELEMENT_TYPE_STRING, ELEMENT_TYPE_OBJECT]

instance (b : UInt8) : Decidable (isSimple b) := inferInstanceAs (Decidable (_ ∈ _))

/-- `fuel` bounds the nesting and the custom modifiers in a row. -/
def parseType : ℕ → Parser Unit
  | 0 => outOfFuel
  | fuel + 1 => do
    let corElementType ← deref
    skip
    if isSimple corElementType then return ()
    else if corElementType = ELEMENT_TYPE_PTR then do
      parseOptionalCustomMods fuel
      if (← deref) = ELEMENT_TYPE_VOID then skip else parseType fuel
    else if corElementType = ELEMENT_TYPE_VALUETYPE ∨ corElementType = ELEMENT_TYPE_CLASS then
      parseTypeDefOrRefEncoded
    else if corElementType = ELEMENT_TYPE_FNPTR then parseMethod fuel (parseType fuel)
    else if corElementType = ELEMENT_TYPE_ARRAY then do
      parseType fuel
      parseArrayShape
    else if corElementType = ELEMENT_TYPE_SZARRAY then do
      parseOptionalCustomMods fuel
      parseType fuel
    else if corElementType = ELEMENT_TYPE_GENERICINST then do
      let b ← deref
      if b ≠ ELEMENT_TYPE_VALUETYPE ∧ b ≠ ELEMENT_TYPE_CLASS then fail
      else do
        skip
        parseTypeDefOrRefEncoded
        let number ← parseNumber
        times (parseType fuel) number
    else if corElementType = ELEMENT_TYPE_VAR ∨ corElementType = ELEMENT_TYPE_MVAR then parseSize
    -- `ELEMENT_TYPE_I` and `ELEMENT_TYPE_U` are among what the `switch` has no case for
    else fail

end DdTrace.SigHelpers
