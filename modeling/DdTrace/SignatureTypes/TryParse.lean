import DdTrace.Tokens.TypeNames

/-!
# The types of a signature as strings

`TryParseSignatureTypes`, whose strings are compared with those of the methods to replace. It
is one loop over the bytes of the signature: `appendToType` holds the brackets of arrays whose
element type is still to come, `genericArgStack` how many arguments each of the open generic
types still lacks.
-/

namespace DdTrace.SignatureTypes

open Lib Signature Tokens

def ELEMENT_TYPE_END : UInt8 := 0x00

/-- How a run ends without an answer: it returns false, or it reads behind the end of the
signature. -/
inductive Stop
  | failed
  | undefined
  deriving DecidableEq

/-! ## The metadata -/

structure TypeInfo where
  id : Token
  name : String
  deriving DecidableEq

/-- What the loop asks the metadata for. -/
structure TypeMetadata where
  getTypeInfo : Token → TypeInfo
  /-- The parent token after `GetNestedClassProps`, nil for a type that is not nested. -/
  getNestedClassProps : Token → Token
  /-- In how many types a type is nested. -/
  depth : Token → ℕ
  enclosing : ∀ {token : Token}, getNestedClassProps token ≠ mdTokenNil →
    depth (getTypeInfo (getNestedClassProps token)).id < depth token

/-- The loop over the types that a type is nested in; `fuel` bounds the nesting. -/
def nestedTypeName (metadata : TypeMetadata) : ℕ → TypeInfo → String → String
  | 0, _, ongoingTypeName => ongoingTypeName
  | fuel + 1, examinedType, ongoingTypeName =>
    if '.' ∈ examinedType.name.toList then ongoingTypeName
    else
      let potentialParentToken := metadata.getNestedClassProps examinedType.id
      if potentialParentToken = mdTokenNil then ongoingTypeName
      else
        let nestingType := metadata.getTypeInfo potentialParentToken
        nestedTypeName metadata fuel nestingType (nestingType.name ++ "+" ++ ongoingTypeName)

/-! ## The number of arguments in a name -/

def isSpace (c : Char) : Bool := c = ' ' ∨ 9 ≤ c.toNat ∧ c.toNat ≤ 13

/-- `std::stoi`, none where it throws. -/
def stoi (text : List Char) : Option ℤ :=
  let text := text.dropWhile isSpace
  let negative := text.head? = some '-'
  let text := if negative ∨ text.head? = some '+' then text.tail else text
  let digits := text.takeWhile Char.isDigit
  if digits = [] then none
  else
    let magnitude : ℤ := Nat.ofDigitChars 10 digits 0
    let value := if negative then -magnitude else magnitude
    if -2 ^ 31 ≤ value ∧ value < 2 ^ 31 then some value else none

/-- The mark of a generic type, behind which its name has the number of its parameters. -/
def tick : Char := Char.ofNat 0x60

/-- `actual_arg_count`: without a tick it reads from the start of the name. -/
def actualArgCount (typeName : String) : Option ℤ :=
  stoi (typeName.toList.reverse.takeWhile (· ≠ tick)).reverse

/-! ## The header -/

def callingConvention (data : List UInt8) : UInt8 := data.headD 0

def numberOfTypeArguments (data : List UInt8) : ℕ :=
  if data.length > 1 ∧ callingConvention data &&& IMAGE_CEE_CS_CALLCONV_GENERIC ≠ 0 then
    (data.getD 1 0).toNat
  else 0

def numberOfArguments (data : List UInt8) : ℕ :=
  if data.length > 2 ∧ callingConvention data &&& IMAGE_CEE_CS_CALLCONV_GENERIC ≠ 0 then
    (data.getD 2 0).toNat
  else if data.length > 1 then (data.getD 1 0).toNat
  else 0

/-! ## The end of a type -/

structure State where
  typeNames : List String
  currentTypeIndex : ℕ
  genericArgStack : List ℤ
  appendToType : String
  currentTypeName : String
  deriving DecidableEq

def State.append (s : State) (text : String) : State :=
  { s with currentTypeName := s.currentTypeName ++ text }

/-- A comma where the innermost generic type still lacks arguments. -/
def separator : List ℤ → String
  | top :: _ => if top > 0 then ", " else ""
  | [] => ""

def decrement : List ℤ → List ℤ
  | top :: stack => (top - 1) :: stack
  | [] => []

/-- The loop that closes the generic types with no arguments left. -/
def unwind : String → List ℤ → String × List ℤ
  | currentTypeName, [] => (currentTypeName, [])
  | currentTypeName, top :: stack =>
    if top = 0 then unwind (currentTypeName ++ ">" ++ separator stack) stack
    else (currentTypeName, top :: stack)

/-- A type that is not within a generic one has its place among the names. -/
def settle (expected : ℕ) (s : State) : Except Stop State :=
  let (currentTypeName, stack) := unwind s.currentTypeName s.genericArgStack
  if stack ≠ [] then
    .ok { s with genericArgStack := stack, currentTypeName := currentTypeName }
  else if s.currentTypeIndex ≥ expected then .error .failed
  else .ok { s with
    typeNames := s.typeNames.set s.currentTypeIndex currentTypeName
    currentTypeIndex := s.currentTypeIndex + 1
    genericArgStack := []
    currentTypeName := "" }

/-- What stands behind the `switch`, from `appendToType` on. -/
def complete (expected : ℕ) (s : State) : Except Stop State :=
  let stack := decrement s.genericArgStack
  settle expected { s with
    genericArgStack := stack
    appendToType := ""
    currentTypeName := s.currentTypeName ++ s.appendToType ++ separator stack }

/-! ## The loop -/

/-- The cases that only append a name. -/
def appendedName (elementType : UInt8) : Option String :=
  if elementType = ELEMENT_TYPE_VOID then some "System.Void"
  else if elementType = ELEMENT_TYPE_BOOLEAN then some "System.Boolean"
  else if elementType = ELEMENT_TYPE_CHAR then some "System.Char16"
  else if elementType = ELEMENT_TYPE_I1 then some "System.SByte"
  else if elementType = ELEMENT_TYPE_U1 then some "System.Byte"
  else if elementType = ELEMENT_TYPE_I2 then some "System.Int16"
  else if elementType = ELEMENT_TYPE_U2 then some "System.UInt16"
  else if elementType = ELEMENT_TYPE_I4 then some "System.Int32"
  else if elementType = ELEMENT_TYPE_U4 then some "System.UInt32"
  else if elementType = ELEMENT_TYPE_I8 then some "System.Int64"
  else if elementType = ELEMENT_TYPE_U8 then some "System.UInt64"
  else if elementType = ELEMENT_TYPE_R4 then some "System.Single"
  else if elementType = ELEMENT_TYPE_R8 then some "System.Double"
  else if elementType = ELEMENT_TYPE_STRING then some "System.String"
  else if elementType = ELEMENT_TYPE_OBJECT then some "System.Object"
  else if elementType = ELEMENT_TYPE_BYREF then some "ref"
  else none

def byteAt (data : List UInt8) (index : ℕ) : Except Stop UInt8 :=
  match data[index]? with
  | some b => .ok b
  | none => .error .undefined

/-- The token at an index and its length, which is `(ULONG)-1` where there is none. -/
def corSigUncompressToken (data : List UInt8) (index : ℕ) : Except Stop (Token × UInt32) :=
  let (tk, size) := corSigUncompressData fun i => data.getD (index + i) 0
  if index + (if size = -1 then 1 else size.toNat) ≤ data.length then
    .ok (uncompressedToken tk, size)
  else .error .undefined

/-- The inner loop of `SZARRAY`, from the index of the last one seen. -/
def szArrays (data : List UInt8) : ℕ → ℕ → String → Except Stop (ℕ × String)
  | 0, _, _ => .error .undefined
  | fuel + 1, currentIndex, appendToType => do
    let next ← byteAt data (currentIndex + 1)
    if next = ELEMENT_TYPE_SZARRAY then
      szArrays data fuel (currentIndex + 1) (appendToType ++ "[]")
    else return (currentIndex, appendToType)

section Loop

variable (metadata : TypeMetadata) (data : List UInt8) (expected : ℕ)

def retrieveTypeForSignature (currentIndex : ℕ) : Except Stop (TypeInfo × UInt32) := do
  let (typeToken, tokenLength) ← corSigUncompressToken data currentIndex
  return (metadata.getTypeInfo typeToken, tokenLength)

/-- `VALUETYPE` and `CLASS`. -/
def caseClass (currentIndex : ℕ) (s : State) : Except Stop (ℕ × State) := do
  let currentIndex := currentIndex + 1
  let (typeData, tokenLength) ← retrieveTypeForSignature metadata data currentIndex
  let ongoingTypeName :=
    nestedTypeName metadata (metadata.depth typeData.id) typeData typeData.name
  let s ← complete expected (s.append ongoingTypeName)
  return (currentIndex + (tokenLength - 1).toNat, s)

/-- `MVAR` and `VAR`: the token is read at the element type itself. -/
def caseVariable (currentIndex : ℕ) (s : State) : Except Stop (ℕ × State) := do
  let (_, tokenLength) ← corSigUncompressToken data currentIndex
  let s ← complete expected (s.append "T")
  return (currentIndex + tokenLength.toNat, s)

def caseSzArray (currentIndex : ℕ) (s : State) : Except Stop (ℕ × State) := do
  let (currentIndex, appendToType) ←
    szArrays data data.length currentIndex (s.appendToType ++ "[]")
  return (currentIndex, { s with appendToType := appendToType })

/-- The generic type is open, its arguments come next. -/
def openGeneric (typeName : String) (s : State) : Except Stop State :=
  match actualArgCount typeName with
  | none => .error .failed
  | some argCount =>
    .ok { s.append (typeName ++ "<") with
      genericArgStack := argCount :: decrement s.genericArgStack }

def caseGenericInst (currentIndex : ℕ) (s : State) : Except Stop (ℕ × State) := do
  let currentIndex := currentIndex + 2
  let (genericTypeData, tokenLength) ← retrieveTypeForSignature metadata data currentIndex
  let s ← openGeneric genericTypeData.name s
  return (currentIndex + tokenLength.toNat, s)

/-- One iteration: the index it ends at, which the loop then moves by one. -/
def iteration (currentIndex : ℕ) (s : State) : Except Stop (ℕ × State) := do
  let elementType ← byteAt data currentIndex
  match appendedName elementType with
  | some name => do
    let s ← complete expected (s.append name)
    return (currentIndex, s)
  | none =>
    if elementType = ELEMENT_TYPE_VALUETYPE ∨ elementType = ELEMENT_TYPE_CLASS then
      caseClass metadata data expected currentIndex s
    else if elementType = ELEMENT_TYPE_SZARRAY then caseSzArray data currentIndex s
    else if elementType = ELEMENT_TYPE_MVAR ∨ elementType = ELEMENT_TYPE_VAR then
      caseVariable data expected currentIndex s
    else if elementType = ELEMENT_TYPE_GENERICINST then
      caseGenericInst metadata data currentIndex s
    else if elementType = ELEMENT_TYPE_END then return (currentIndex, s)
    else do
      let s ← complete expected (s.append (toString elementType.toNat))
      return (currentIndex, s)

/-- Every iteration moves the index, so `fuel` need not exceed the size of the signature. -/
def loop : ℕ → ℕ → State → Except Stop State
  | 0, _, s => return s
  | fuel + 1, currentIndex, s =>
    if currentIndex < data.length then do
      let (currentIndex, s) ← iteration metadata data expected currentIndex s
      loop fuel (currentIndex + 1) s
    else return s

end Loop

def initialState (expected : ℕ) : State where
  typeNames := List.replicate expected ""
  currentTypeIndex := 0
  genericArgStack := []
  appendToType := ""
  currentTypeName := ""

def tryParseSignatureTypes (metadata : TypeMetadata) (data : List UInt8) :
    Except Stop (List String) := do
  let currentIndex := if numberOfTypeArguments data > 0 then 3 else 2
  let expectedNumberOfTypes := numberOfArguments data + 1
  let s ← loop metadata data expectedNumberOfTypes data.length currentIndex
    (initialState expectedNumberOfTypes)
  return s.typeNames

end DdTrace.SignatureTypes
