import DdTrace.Lib.Cursor

/-!
# The method signature parser

`FunctionMethodSignature::TryParse` and the functions it calls, as readers of the memory
from `pbBase` on: addresses are offsets from `pbBase`, `pbEnd` is the length of the
signature. `*pbCur` is `deref`, wherever it stands.
-/

namespace DdTrace.Signature

open Lib Lib.Reader

def ELEMENT_TYPE_VOID : UInt8 := 0x01
def ELEMENT_TYPE_BOOLEAN : UInt8 := 0x02
def ELEMENT_TYPE_CHAR : UInt8 := 0x03
def ELEMENT_TYPE_I1 : UInt8 := 0x04
def ELEMENT_TYPE_U1 : UInt8 := 0x05
def ELEMENT_TYPE_I2 : UInt8 := 0x06
def ELEMENT_TYPE_U2 : UInt8 := 0x07
def ELEMENT_TYPE_I4 : UInt8 := 0x08
def ELEMENT_TYPE_U4 : UInt8 := 0x09
def ELEMENT_TYPE_I8 : UInt8 := 0x0A
def ELEMENT_TYPE_U8 : UInt8 := 0x0B
def ELEMENT_TYPE_R4 : UInt8 := 0x0C
def ELEMENT_TYPE_R8 : UInt8 := 0x0D
def ELEMENT_TYPE_STRING : UInt8 := 0x0E
def ELEMENT_TYPE_PTR : UInt8 := 0x0F
def ELEMENT_TYPE_BYREF : UInt8 := 0x10
def ELEMENT_TYPE_VALUETYPE : UInt8 := 0x11
def ELEMENT_TYPE_CLASS : UInt8 := 0x12
def ELEMENT_TYPE_VAR : UInt8 := 0x13
def ELEMENT_TYPE_ARRAY : UInt8 := 0x14
def ELEMENT_TYPE_GENERICINST : UInt8 := 0x15
def ELEMENT_TYPE_TYPEDBYREF : UInt8 := 0x16
def ELEMENT_TYPE_I : UInt8 := 0x18
def ELEMENT_TYPE_U : UInt8 := 0x19
def ELEMENT_TYPE_FNPTR : UInt8 := 0x1B
def ELEMENT_TYPE_OBJECT : UInt8 := 0x1C
def ELEMENT_TYPE_SZARRAY : UInt8 := 0x1D
def ELEMENT_TYPE_MVAR : UInt8 := 0x1E
def ELEMENT_TYPE_CMOD_REQD : UInt8 := 0x1F
def ELEMENT_TYPE_CMOD_OPT : UInt8 := 0x20
def ELEMENT_TYPE_SENTINEL : UInt8 := 0x41

def IMAGE_CEE_CS_CALLCONV_GENERIC : UInt8 := 0x10

/-- A custom modifier follows. -/
def isCustomMod (b : UInt8) : Prop := b = ELEMENT_TYPE_CMOD_OPT ∨ b = ELEMENT_TYPE_CMOD_REQD

instance (b : UInt8) : Decidable (isCustomMod b) := inferInstanceAs (Decidable (_ ∨ _))

abbrev Parser := Reader UInt8

variable (pbEnd : ℕ)

def parseByte : Parser UInt8 := do
  let pbCur ← cursor
  if pbCur < pbEnd then do
    let out ← deref
    skip
    return out
  else fail

def parseNumber : Parser ℕ := do
  let b1 ← parseByte pbEnd
  if b1 = 0xFF then fail
  else if b1 &&& 0x80 = 0 then return b1.toNat
  else do
    let b2 ← parseByte pbEnd
    if b1 &&& 0x40 = 0 then return (b1 &&& 0x3F).toNat <<< 8 ||| b2.toNat
    else if b1 &&& 0x20 ≠ 0 then fail
    else do
      let b3 ← parseByte pbEnd
      let b4 ← parseByte pbEnd
      return (b1 &&& 0x1F).toNat <<< 24 ||| b2.toNat <<< 16 ||| b3.toNat <<< 8 ||| b4.toNat

/-- The kind of the token, and its index. -/
def parseTypeDefOrRefEncoded : Parser (UInt8 × ℕ) := do
  let encoded ← parseNumber pbEnd
  return (UInt8.ofNat (encoded &&& 3), encoded >>> 2)

/-- `fuel` bounds the nesting. -/
def parseType : ℕ → Parser Unit
  | 0 => outOfFuel
  | fuel + 1 => do
    let elemType ← parseByte pbEnd
    if elemType = ELEMENT_TYPE_PTR then fail
    else if elemType = ELEMENT_TYPE_CLASS then do
      let _ ← parseTypeDefOrRefEncoded pbEnd
    else if elemType = ELEMENT_TYPE_VALUETYPE then do
      let _ ← parseTypeDefOrRefEncoded pbEnd
    else if elemType = ELEMENT_TYPE_FNPTR then fail
    else if elemType = ELEMENT_TYPE_ARRAY then fail
    else if elemType = ELEMENT_TYPE_SZARRAY then do
      let next ← deref
      if isCustomMod next then fail else parseType fuel
    else if elemType = ELEMENT_TYPE_GENERICINST then do
      let elemType ← parseByte pbEnd
      if elemType ≠ ELEMENT_TYPE_CLASS ∧ elemType ≠ ELEMENT_TYPE_VALUETYPE then fail
      else do
        let _ ← parseTypeDefOrRefEncoded pbEnd
        let number ← parseNumber pbEnd
        times (parseType fuel) number
    else if elemType = ELEMENT_TYPE_VAR then do
      let _ ← parseNumber pbEnd
    else if elemType = ELEMENT_TYPE_MVAR then do
      let _ ← parseNumber pbEnd
    -- the simple types, and whatever else the `switch` has no case for
    else return ()

/-- `if (*pbCur == ELEMENT_TYPE_BYREF) pbCur++`, and the type. -/
def parseByRefType (fuel : ℕ) : Parser Unit := do
  if (← deref) = ELEMENT_TYPE_BYREF then do
    skip
    parseType pbEnd fuel
  else parseType pbEnd fuel

/-- What `ParseParam` and `ParseRetType` begin with: they look at the byte first. -/
def parseSupported (rest : Parser Unit) : Parser Unit := do
  if isCustomMod (← deref) then fail
  else do
    if (← cursor) ≥ pbEnd then fail
    else do
      if (← deref) = ELEMENT_TYPE_TYPEDBYREF then fail else rest

def parseParam (fuel : ℕ) : Parser Unit := parseSupported pbEnd (parseByRefType pbEnd fuel)

def parseRetType (fuel : ℕ) : Parser Unit := parseSupported pbEnd do
  if (← deref) = ELEMENT_TYPE_VOID then skip else parseByRefType pbEnd fuel

structure FunctionMethodArgument where
  offset : ℕ
  length : ℕ
  deriving DecidableEq

structure FunctionMethodSignature where
  numberOfTypeArguments : ℕ
  numberOfArguments : ℕ
  ret : FunctionMethodArgument
  params : List FunctionMethodArgument
  deriving DecidableEq

/-- What was read since the cursor stood at `pbStart`. -/
def argumentFrom (pbStart pbCur : ℕ) : FunctionMethodArgument where
  length := pbCur - pbStart
  offset := pbCur - (pbCur - pbStart)

/-- The sentinel in front of a parameter; returns `fEncounteredSentinal`. -/
def parseSentinel (encountered : Bool) : Parser Bool := do
  if (← deref) = ELEMENT_TYPE_SENTINEL then
    if encountered then fail
    else do
      skip
      return true
  else return encountered

/-- The loop over the parameters still to come. -/
def parseParams (fuel : ℕ) : ℕ → Bool → Parser (List FunctionMethodArgument)
  | 0, _ => return []
  | count + 1, encountered => do
    if (← cursor) ≥ pbEnd then fail
    else do
      let encountered ← parseSentinel encountered
      let pbParam ← cursor
      parseParam pbEnd fuel
      let pbCur ← cursor
      let params ← parseParams fuel count encountered
      return argumentFrom pbParam pbCur :: params

def parseTypeArguments (elemType : UInt8) : Parser ℕ := do
  if elemType &&& IMAGE_CEE_CS_CALLCONV_GENERIC ≠ 0 then parseNumber pbEnd else return 0

/-- With as much fuel as the signature has bytes. -/
def tryParseWith (fuel : ℕ) : Parser FunctionMethodSignature := do
  let elemType ← parseByte pbEnd
  let numberOfTypeArguments ← parseTypeArguments pbEnd elemType
  let paramCount ← parseNumber pbEnd
  let pbRet ← cursor
  parseRetType pbEnd fuel
  let pbCur ← cursor
  let params ← parseParams pbEnd fuel paramCount false
  return {
    numberOfTypeArguments
    numberOfArguments := paramCount
    ret := argumentFrom pbRet pbCur
    params }

/-- `TryParse`: a nesting cannot be deeper than the signature is long. -/
def tryParse (len : ℕ) : Parser FunctionMethodSignature := tryParseWith len len

end DdTrace.Signature
