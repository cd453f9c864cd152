import DdTrace.Signature.RoundTrip
import DdTrace.Tokens.ModifyLocalSig

/-!
# Names of types in signatures

`GetSigTypeTokName`, the second walker over encoded types: `FunctionMethodArgument` names
with it the parameters that the parser has found. On every type that the parser takes it
ends where the parser ends, with the name of the type (`getSigTypeTokName_agrees`).
-/

namespace DdTrace.Tokens

open Lib Lib.Reader Signature

def mdtTypeDef : UInt32 := 0x02000000

def SystemBoolean : String := "System.Boolean"
def SystemChar : String := "System.Char"
def SystemSByte : String := "System.SByte"
def SystemByte : String := "System.Byte"
def SystemUInt16 : String := "System.UInt16"
def SystemInt16 : String := "System.Int16"
def SystemInt32 : String := "System.Int32"
def SystemUInt32 : String := "System.UInt32"
def SystemInt64 : String := "System.Int64"
def SystemUInt64 : String := "System.UInt64"
def SystemSingle : String := "System.Single"
def SystemDouble : String := "System.Double"
def SystemIntPtr : String := "System.IntPtr"
def SystemUIntPtr : String := "System.UIntPtr"
def SystemString : String := "System.String"
def SystemObject : String := "System.Object"

/-! ## The walker -/

/-- `pbCur += CorSigUncompressData(pbCur, &num)`. Where the number is none, it has looked at
one byte and moves by `(ULONG)-1`. -/
def uncompressData : Parser UInt32 := fun mem cur =>
  let (num, size) := corSigUncompressData fun i => mem (cur + i)
  (List.range' cur (if size = -1 then 1 else size.toNat), .ok num (cur + size.toNat))

/-- `g_tkCorEncodeToken`. -/
def tkCorEncodeToken (tk : UInt32) : UInt32 :=
  if tk &&& 3 = 0 then mdtTypeDef
  else if tk &&& 3 = 1 then mdtTypeRef
  else if tk &&& 3 = 2 then mdtTypeSpec
  else mdtBaseType

def uncompressedToken (tk : UInt32) : Token := tk >>> 2 ||| tkCorEncodeToken tk

/-- `pbCur += CorSigUncompressToken(pbCur, &token)`. -/
def uncompressToken : Parser Token := do
  let tk ← uncompressData
  return uncompressedToken tk

/-- The cases that only set `tokenName`. -/
def simpleTypeName (elemType : UInt8) : Option String :=
  if elemType = ELEMENT_TYPE_BOOLEAN then some SystemBoolean
  else if elemType = ELEMENT_TYPE_CHAR then some SystemChar
  else if elemType = ELEMENT_TYPE_I1 then some SystemSByte
  else if elemType = ELEMENT_TYPE_U1 then some SystemByte
  else if elemType = ELEMENT_TYPE_U2 then some SystemUInt16
  else if elemType = ELEMENT_TYPE_I2 then some SystemInt16
  else if elemType = ELEMENT_TYPE_I4 then some SystemInt32
  else if elemType = ELEMENT_TYPE_U4 then some SystemUInt32
  else if elemType = ELEMENT_TYPE_I8 then some SystemInt64
  else if elemType = ELEMENT_TYPE_U8 then some SystemUInt64
  else if elemType = ELEMENT_TYPE_R4 then some SystemSingle
  else if elemType = ELEMENT_TYPE_R8 then some SystemDouble
  else if elemType = ELEMENT_TYPE_I then some SystemIntPtr
  else if elemType = ELEMENT_TYPE_U then some SystemUIntPtr
  else if elemType = ELEMENT_TYPE_STRING then some SystemString
  else if elemType = ELEMENT_TYPE_OBJECT then some SystemObject
  else none

/-- The loop over the generic arguments still to come. -/
def genericArgumentNames (argument : Parser String) : ℕ → Parser String
  | 0 => return ""
  | n + 1 => do
    let name ← argument
    let rest ← genericArgumentNames argument n
    return name ++ (if n = 0 then "" else ",") ++ rest

section Walker

-- `GetTypeInfo(pImport, token).name`
variable (typeInfoName : Token → String)

/-- The `switch`; `inner` names the types inside the type. -/
def switchTypeName (inner : Parser String) : Parser String := do
  let elemType ← deref
  match simpleTypeName elemType with
  | some tokenName => do
    skip
    return tokenName
  | none =>
    if elemType = ELEMENT_TYPE_CLASS ∨ elemType = ELEMENT_TYPE_VALUETYPE then do
      skip
      let token ← uncompressToken
      return typeInfoName token
    else if elemType = ELEMENT_TYPE_SZARRAY then do
      skip
      let tokenName ← inner
      return tokenName ++ "[]"
    else if elemType = ELEMENT_TYPE_GENERICINST then do
      skip
      let tokenName ← inner
      let num ← uncompressData
      let arguments ← genericArgumentNames inner num.toNat
      return tokenName ++ "[" ++ arguments ++ "]"
    else if elemType = ELEMENT_TYPE_MVAR then do
      skip
      let num ← uncompressData
      return "!!" ++ toString num.toNat
    else if elemType = ELEMENT_TYPE_VAR then do
      skip
      let num ← uncompressData
      return "!" ++ toString num.toNat
    else return ""

/-- `fuel` bounds the nesting. -/
def getSigTypeTokName : ℕ → Parser String
  | 0 => outOfFuel
  | fuel + 1 => do
    if (← deref) = ELEMENT_TYPE_BYREF then do
      skip
      let tokenName ← switchTypeName typeInfoName (getSigTypeTokName fuel)
      return tokenName ++ "&"
    else switchTypeName typeInfoName (getSigTypeTokName fuel)

/-! ## The names of types -/

def simpleName (type : SimpleType) : String := (simpleTypeName type.elemType).getD ""

def tokenName (token : TypeDefOrRef) : String :=
  typeInfoName (uncompressedToken (UInt32.ofNat (token.index <<< 2 ||| token.table.tag)))

mutual

/-- A type as the definitions of integrations spell it. -/
def typeName : SigType → String
  | .simple type => simpleName type
  | .token _ token => tokenName typeInfoName token
  | .szArray elem => typeName elem ++ "[]"
  | .array _ _ => ""
  | .genericInst _ token args => tokenName typeInfoName token ++ "[" ++ typeNames args ++ "]"
  | .var number => "!" ++ toString number
  | .mvar number => "!!" ++ toString number

/-- The names with commas between. -/
def typeNames : List SigType → String
  | [] => ""
  | type :: types => typeName type ++ (if types.length = 0 then "" else ",") ++ typeNames types

end

def paramName (param : ParamSig) : String :=
  if param.byRef then typeName typeInfoName param.type ++ "&"
  else typeName typeInfoName param.type

end Walker

/-! ## The walk -/

variable {typeInfoName : Token → String} {mem : ℕ → UInt8} {cur cur' n pbEnd fuel : ℕ}
  {name : String} {bytes : List UInt8}

theorem length_le_of_number (h : Number bytes n) : bytes.length ≤ 4 := by
  match bytes with
  | [] => simp
  | b1 :: rest =>
    simp only [Number, uncompress] at h
    split at h
    · obtain ⟨-, rfl⟩ := Prod.mk.inj (Option.some.inj h)
      simp
    split at h
    · split at h
      · obtain ⟨-, rfl⟩ := Prod.mk.inj (Option.some.inj h)
        simp
      · cases h
    split at h
    · split at h
      · obtain ⟨-, rfl⟩ := Prod.mk.inj (Option.some.inj h)
        simp
      · cases h
    · cases h

theorem ok_uncompressData (h : Number (seg mem cur cur') n) (hle : cur ≤ cur') :
    Ok uncompressData mem cur (UInt32.ofNat n) cur' ∧ (UInt32.ofNat n).toNat = n := by
  have hread : ∀ i < (seg mem cur cur').length, mem (cur + i) = (seg mem cur cur').getD i 0 := by
    intro i hi
    rw [List.getD_eq_getElem _ _ hi]
    simp [seg]
  obtain ⟨hdata, hn⟩ := corSigUncompressData_of_number h hread
  have hlen : (seg mem cur cur').length < 2 ^ 32 := by
    have := length_le_of_number h
    omega
  constructor
  · unfold Ok uncompressData
    rw [hdata]
    simp only
    rw [toNat_size hlen, length_seg]
    congr 1
    omega
  · exact UInt32.toNat_ofNat_of_lt' (by simp only [UInt32.size]; omega)

theorem ok_uncompressToken {token : TypeDefOrRef} (henc : token.encode = some bytes)
    (hseg : seg mem cur cur' = bytes) (hle : cur ≤ cur') :
    Ok (do let token ← uncompressToken; return typeInfoName token) mem cur
      (tokenName typeInfoName token) cur' := by
  have hn := number_of_compress henc
  rw [← hseg] at hn
  simp only [uncompressToken, ok_bind, ok_pure]
  exact ⟨_, _, ⟨_, _, (ok_uncompressData hn hle).1, rfl, rfl⟩, rfl, rfl⟩

theorem simpleTypeName_elemType (type : SimpleType) :
    simpleTypeName type.elemType = some (simpleName type) := by
  cases type <;> rfl

theorem simpleTypeName_kind (kind : TypeKind) : simpleTypeName kind.elemType = none := by
  cases kind <;> rfl

/-- A type does not start with `BYREF`, so only the `switch` sees it. -/
theorem ok_getSigTypeTokName (hbyRef : mem cur ≠ ELEMENT_TYPE_BYREF) :
    Ok (getSigTypeTokName typeInfoName (fuel + 1)) mem cur name cur' ↔
      Ok (switchTypeName typeInfoName (getSigTypeTokName typeInfoName fuel)) mem cur name cur' := by
  simp only [getSigTypeTokName, ok_bind, ok_deref]
  constructor
  · rintro ⟨_, _, ⟨rfl, rfl⟩, h⟩
    rwa [if_neg hbyRef] at h
  · intro h
    refine ⟨_, _, ⟨rfl, rfl⟩, ?_⟩
    rwa [if_neg hbyRef]

theorem ok_getSigTypeTokName_byRef (hbyRef : mem cur = ELEMENT_TYPE_BYREF)
    (h : Ok (switchTypeName typeInfoName (getSigTypeTokName typeInfoName fuel)) mem (cur + 1) name
      cur') :
    Ok (getSigTypeTokName typeInfoName (fuel + 1)) mem cur (name ++ "&") cur' := by
  simp only [getSigTypeTokName, ok_bind, ok_deref]
  refine ⟨_, _, ⟨rfl, rfl⟩, ?_⟩
  rw [if_pos hbyRef]
  simp only [ok_bind, ok_skip, ok_pure]
  exact ⟨(), _, rfl, _, _, h, rfl, rfl⟩

/-! ## The cases of the `switch` -/

section Cases

variable {inner : Parser String}

theorem ok_switchTypeName_token {kind : TypeKind} {token : TypeDefOrRef}
    (henc : (SigType.token kind token).encode = some bytes) (hseg : seg mem cur cur' = bytes)
    (hle : cur ≤ cur') :
    Ok (switchTypeName typeInfoName inner) mem cur (tokenName typeInfoName token) cur' := by
  simp only [SigType.encode, Option.bind_eq_bind, Option.bind_eq_some_iff] at henc
  obtain ⟨_, htoken, ⟨⟩⟩ := henc
  obtain ⟨hlt, hcur, hrest⟩ := seg_eq_cons hseg hle
  simp only [switchTypeName, ok_bind, ok_deref]
  refine ⟨_, _, ⟨hcur, rfl⟩, ?_⟩
  rw [simpleTypeName_kind]
  show Ok (if IsClassOrValueType kind.elemType then _ else _) mem cur _ cur'
  rw [if_pos kind.isClassOrValueType, ok_bind]
  exact ⟨(), _, ok_skip.2 rfl, ok_uncompressToken htoken hrest hlt⟩

theorem ok_switchTypeName_szArray (hcur : mem cur = ELEMENT_TYPE_SZARRAY)
    (h : Ok inner mem (cur + 1) name cur') :
    Ok (switchTypeName typeInfoName inner) mem cur (name ++ "[]") cur' := by
  simp only [switchTypeName, ok_bind, ok_deref]
  refine ⟨_, _, ⟨hcur, rfl⟩, ?_⟩
  show Ok (do skip; let tokenName ← inner; return tokenName ++ "[]") mem cur _ cur'
  simp only [ok_bind, ok_skip, ok_pure]
  exact ⟨(), _, rfl, _, _, h, rfl, rfl⟩

theorem ok_switchTypeName_genericInst {c₁ c₂ : ℕ} {names : String}
    (hcur : mem cur = ELEMENT_TYPE_GENERICINST) (hname : Ok inner mem (cur + 1) name c₁)
    (hnum : Number (seg mem c₁ c₂) n) (hle : c₁ ≤ c₂)
    (hargs : Ok (genericArgumentNames inner n) mem c₂ names cur') :
    Ok (switchTypeName typeInfoName inner) mem cur (name ++ "[" ++ names ++ "]") cur' := by
  obtain ⟨hdata, hval⟩ := ok_uncompressData hnum hle
  simp only [switchTypeName, ok_bind, ok_deref]
  refine ⟨_, _, ⟨hcur, rfl⟩, ?_⟩
  show Ok (do
    skip
    let tokenName ← inner
    let num ← uncompressData
    let arguments ← genericArgumentNames inner num.toNat
    return tokenName ++ "[" ++ arguments ++ "]") mem cur _ cur'
  simp only [ok_bind, ok_skip, ok_pure]
  refine ⟨(), _, rfl, _, _, hname, _, _, hdata, _, _, ?_, rfl, rfl⟩
  rwa [hval]

/-- `VAR` and `MVAR`, behind their element type. -/
theorem ok_numbered {mark : String} (h : Number (seg mem (cur + 1) cur') n) (hlt : cur < cur') :
    Ok (do skip; let num ← uncompressData; return mark ++ toString num.toNat) mem cur
      (mark ++ toString n) cur' := by
  obtain ⟨hdata, hval⟩ := ok_uncompressData h hlt
  simp only [ok_bind, ok_skip, ok_pure]
  refine ⟨(), _, rfl, _, _, hdata, ?_, rfl⟩
  rw [hval]

theorem ok_switchTypeName_var (hcur : mem cur = ELEMENT_TYPE_VAR)
    (h : Number (seg mem (cur + 1) cur') n) (hlt : cur < cur') :
    Ok (switchTypeName typeInfoName inner) mem cur ("!" ++ toString n) cur' := by
  simp only [switchTypeName, ok_bind, ok_deref]
  exact ⟨_, _, ⟨hcur, rfl⟩, ok_numbered h hlt⟩

theorem ok_switchTypeName_mvar (hcur : mem cur = ELEMENT_TYPE_MVAR)
    (h : Number (seg mem (cur + 1) cur') n) (hlt : cur < cur') :
    Ok (switchTypeName typeInfoName inner) mem cur ("!!" ++ toString n) cur' := by
  simp only [switchTypeName, ok_bind, ok_deref]
  exact ⟨_, _, ⟨hcur, rfl⟩, ok_numbered h hlt⟩

end Cases

/-! ## Agreement -/

/-- A nested type: no type starts with `BYREF`. -/
theorem ok_nested {type : SigType} (henc : type.encode = some bytes)
    (hseg : seg mem cur cur' = bytes) (hle : cur ≤ cur')
    (h : Ok (switchTypeName typeInfoName (getSigTypeTokName typeInfoName fuel)) mem cur name cur') :
    Ok (getSigTypeTokName typeInfoName (fuel + 1)) mem cur name cur' := by
  obtain ⟨b, rest, rfl, -, hnot⟩ := SigType.starts henc
  obtain ⟨-, rfl, -⟩ := seg_eq_cons hseg hle
  simp only [List.mem_cons, not_or] at hnot
  exact (ok_getSigTypeTokName hnot.2.1).2 h

mutual

/-- On the encoding of a type the `switch` moves to its end and names it. -/
theorem ok_switchTypeName : ∀ {type : SigType} {bytes : List UInt8} {cur cur' fuel : ℕ},
    type.hasArray = false → type.encode = some bytes → seg mem cur cur' = bytes → cur ≤ cur' →
    cur' - cur ≤ fuel →
    Ok (switchTypeName typeInfoName (getSigTypeTokName typeInfoName fuel)) mem cur
      (typeName typeInfoName type) cur'
  | .simple type, _, cur, cur', _, _, henc, hseg, hle, _ => by
    obtain rfl := Option.some.inj henc
    obtain ⟨hlt, hcur, hnil⟩ := seg_eq_cons hseg hle
    obtain rfl := seg_eq_nil hnil hlt
    simp only [switchTypeName, ok_bind, ok_deref]
    refine ⟨_, _, ⟨hcur, rfl⟩, ?_⟩
    rw [simpleTypeName_elemType]
    simp only [ok_bind, ok_skip, ok_pure]
    exact ⟨(), _, rfl, by rw [typeName], rfl⟩
  | .token kind token, _, cur, cur', _, _, henc, hseg, hle, _ => by
    rw [typeName]
    exact ok_switchTypeName_token henc hseg hle
  | .szArray elem, _, cur, cur', fuel, harray, henc, hseg, hle, hfuel => by
    simp only [SigType.encode, Option.bind_eq_bind, Option.bind_eq_some_iff] at henc
    obtain ⟨_, helem, ⟨⟩⟩ := henc
    rw [SigType.hasArray] at harray
    obtain ⟨hlt, hcur, hrest⟩ := seg_eq_cons hseg hle
    obtain ⟨fuel, rfl⟩ := Nat.exists_eq_add_of_lt (show 0 < fuel by omega)
    rw [typeName]
    apply ok_switchTypeName_szArray hcur
    exact ok_nested helem hrest hlt (ok_switchTypeName harray helem hrest hlt (by omega))
  | .array _ _, _, _, _, _, harray, _, _, _, _ => by cases harray
  | .genericInst kind token args, _, cur, cur', fuel, harray, henc, hseg, hle, hfuel => by
    simp only [SigType.encode, Option.bind_eq_bind, Option.bind_eq_some_iff] at henc
    obtain ⟨tokenBytes, htoken, number, hnumber, pieces, hargs, ⟨⟩⟩ := henc
    rw [SigType.hasArray] at harray
    obtain ⟨hlt, hcur, hrest⟩ := seg_eq_cons hseg hle
    rw [← List.cons_append] at hrest
    obtain ⟨hle1, hkind, hrest1⟩ := seg_eq_append hrest hlt
    obtain ⟨hle2, hnum, hrest2⟩ := seg_eq_append hrest1 hle1
    have hn := number_of_compress hnumber
    rw [← hnum] at hn
    have henc : (SigType.token kind token).encode = some (kind.elemType :: tokenBytes) := by
      rw [SigType.encode, htoken]
      rfl
    obtain ⟨fuel, rfl⟩ := Nat.exists_eq_add_of_lt (show 0 < fuel by omega)
    rw [typeName]
    have hswitch : Ok (switchTypeName typeInfoName (getSigTypeTokName typeInfoName (0 + fuel)))
        mem (cur + 1) (tokenName typeInfoName token) _ :=
      ok_switchTypeName_token henc hkind (Nat.le_add_right ..)
    have hname := ok_nested henc hkind (Nat.le_add_right ..) hswitch
    refine ok_switchTypeName_genericInst hcur hname hn (Nat.le_add_right ..) ?_
    rw [List.length_cons] at hle1 hle2 ⊢
    exact ok_genericArgumentNames harray hargs hrest2 hle2 (by omega)
  | .var number, _, cur, cur', _, _, henc, hseg, hle, _ => by
    simp only [SigType.encode, Option.bind_eq_bind, Option.bind_eq_some_iff] at henc
    obtain ⟨_, hnumber, ⟨⟩⟩ := henc
    obtain ⟨hlt, hcur, hrest⟩ := seg_eq_cons hseg hle
    rw [typeName]
    exact ok_switchTypeName_var hcur (hrest ▸ number_of_compress hnumber) hlt
  | .mvar number, _, cur, cur', _, _, henc, hseg, hle, _ => by
    simp only [SigType.encode, Option.bind_eq_bind, Option.bind_eq_some_iff] at henc
    obtain ⟨_, hnumber, ⟨⟩⟩ := henc
    obtain ⟨hlt, hcur, hrest⟩ := seg_eq_cons hseg hle
    rw [typeName]
    exact ok_switchTypeName_mvar hcur (hrest ▸ number_of_compress hnumber) hlt

theorem ok_genericArgumentNames : ∀ {types : List SigType} {pieces : List (List UInt8)}
    {cur cur' fuel : ℕ}, haveArray types = false → encodeTypes types = some pieces →
    seg mem cur cur' = pieces.flatten → cur ≤ cur' → cur' - cur ≤ fuel →
    Ok (genericArgumentNames (getSigTypeTokName typeInfoName (fuel + 1)) types.length) mem cur
      (typeNames typeInfoName types) cur'
  | [], _, _, _, _, _, henc, hseg, hle, _ => by
    obtain rfl := Option.some.inj henc
    obtain rfl := seg_eq_nil hseg hle
    rw [typeNames]
    exact ok_pure.2 ⟨rfl, rfl⟩
  | type :: types, _, cur, cur', fuel, harray, henc, hseg, hle, hfuel => by
    simp only [encodeTypes, Option.bind_eq_bind, Option.bind_eq_some_iff] at henc
    obtain ⟨bytes, htype, pieces, htypes, ⟨⟩⟩ := henc
    rw [haveArray, Bool.or_eq_false_iff] at harray
    obtain ⟨hle1, hfirst, hrest⟩ := seg_eq_append hseg hle
    rw [typeNames, List.length_cons, genericArgumentNames]
    simp only [ok_bind, ok_pure]
    refine ⟨_, _, ok_nested htype hfirst (Nat.le_add_right ..) ?_, _, _, ?_, rfl, rfl⟩
    · exact ok_switchTypeName harray.1 htype hfirst (Nat.le_add_right ..) (by omega)
    · exact ok_genericArgumentNames harray.2 htypes hrest hle1 (by omega)

end

/-- On every parameter whose type has no `ARRAY` in it both walkers move from its first byte
to its end, and `GetSigTypeTokName` names it; without `BYREF`, `ParseType` alone does. -/
theorem getSigTypeTokName_agrees {param : ParamSig} (harray : param.type.hasArray = false)
    (henc : param.encode = some bytes) (hmem : seg mem cur (cur + bytes.length) = bytes)
    (hend : cur + bytes.length ≤ pbEnd) (hfuel : pbEnd - cur < fuel) :
    Ok (getSigTypeTokName typeInfoName fuel) mem cur (paramName typeInfoName param)
      (cur + bytes.length) ∧
    Ok (parseParam pbEnd fuel) mem cur () (cur + bytes.length) ∧
    (param.byRef = false → Ok (parseType pbEnd fuel) mem cur () (cur + bytes.length)) := by
  obtain ⟨hparam, -⟩ := paramBytes_of_encode harray henc
  have hpos := List.length_pos_iff.2 hparam.ne_nil
  refine ⟨?_, (ok_parseParam hfuel).2 ⟨by omega, hend, by rwa [hmem]⟩, fun hbyRef => ?_⟩
  · obtain ⟨fuel, rfl⟩ := Nat.exists_eq_add_of_lt (show 0 < fuel by omega)
    simp only [ParamSig.encode, Option.bind_eq_bind, Option.bind_eq_some_iff] at henc
    obtain ⟨type, htype, henc⟩ := henc
    obtain rfl := Option.some.inj henc
    cases hbyRef : param.byRef with
    | true =>
      simp only [hbyRef, if_true, paramName] at *
      obtain ⟨hlt, hcur, hrest⟩ := seg_eq_cons hmem (by omega)
      refine ok_getSigTypeTokName_byRef hcur (ok_switchTypeName harray htype hrest hlt ?_)
      omega
    | false =>
      simp only [hbyRef, paramName] at *
      exact ok_nested htype hmem (by omega) (ok_switchTypeName harray htype hmem (by omega) (by omega))
  · simp only [ParamSig.encode, hbyRef, Option.bind_eq_bind, Option.bind_eq_some_iff] at henc
    obtain ⟨type, htype, henc⟩ := henc
    obtain rfl := Option.some.inj henc
    refine (ok_parseType hfuel).2 ⟨by omega, hend, ?_⟩
    rw [hmem]
    exact typeBytes_of_encode harray htype

/-- `ref List<string>`. -/
theorem getSigTypeTokName_agrees_genericInst :
    Ok (getSigTypeTokName (fun _ => "List") 8)
      (fun i => [0x10, 0x15, 0x12, 0x84, 0xB1, 1, 0x0E].getD i 0) 0 "List[System.String]&" 7 ∧
    Ok (parseParam 7 8) (fun i => [0x10, 0x15, 0x12, 0x84, 0xB1, 1, 0x0E].getD i 0) 0 () 7 := by
  have henc : ParamSig.encode ⟨true, .genericInst .class ⟨.typeRef, 300⟩ [.simple .string]⟩ =
      some [0x10, 0x15, 0x12, 0x84, 0xB1, 1, 0x0E] := by decide
  have hagree : Ok (getSigTypeTokName (fun _ => "List") 8)
      (fun i => [0x10, 0x15, 0x12, 0x84, 0xB1, 1, 0x0E].getD i 0) 0 _ _ ∧ _ :=
    getSigTypeTokName_agrees (by decide) henc (by decide) (show _ ≤ 7 by decide) (by decide)
  exact ⟨hagree.1, hagree.2.1⟩

/-- Both walkers move over the encoding of `param` to the same place. -/
def WalkersAgree (typeInfoName : Token → String) (param : ParamSig) : Prop :=
  ∀ (mem : ℕ → UInt8) (bytes : List UInt8), param.encode = some bytes →
    seg mem 0 bytes.length = bytes → ∃ name cur,
    Ok (getSigTypeTokName typeInfoName (bytes.length + 1)) mem 0 name cur ∧
    Ok (parseType bytes.length (bytes.length + 1)) mem 0 () cur

/-- `int[,]`, where `ParseType` fails and `GetSigTypeTokName` does not move, and `ref int`,
where `ParseType` takes `BYREF` for a type. -/
theorem walkers_disagree :
    ¬ WalkersAgree (fun _ => "") ⟨false, .array (.simple .i4) ⟨2, [], []⟩⟩ ∧
    ¬ WalkersAgree (fun _ => "") ⟨true, .simple .i4⟩ := by
  constructor
  · intro h
    obtain ⟨_, _, -, hok⟩ := h (fun i => [0x14, 8, 2, 0, 0].getD i 0) [0x14, 8, 2, 0, 0]
      (by decide) (by decide)
    have hfail : (parseType 5 6 (fun i => [0x14, 8, 2, 0, 0].getD i 0) 0).2 = .failed := by decide
    cases hok.symm.trans hfail
  · intro h
    obtain ⟨_, cur, hname, hok⟩ := h (fun i => [0x10, 8].getD i 0) [0x10, 8] (by decide) (by decide)
    have h1 : Ok (parseType 2 3) (fun i => [0x10, 8].getD i 0) 0 () 1 := by
      show (parseType 2 3 (fun i => [0x10, 8].getD i 0) 0).2 = _
      decide
    have h2 : Ok (getSigTypeTokName (fun _ => "") 3) (fun i => [0x10, 8].getD i 0) 0
        "System.Int32&" 2 := by
      show (getSigTypeTokName (fun _ => "") 3 (fun i => [0x10, 8].getD i 0) 0).2 = _
      decide
    have heq := (hok.unique h1).2.symm.trans (hname.unique h2).2
    exact absurd heq (by decide)

end DdTrace.Tokens
