import DdTrace.SigHelpers.Grammar
import DdTrace.Signature.RoundTrip

/-!
# The parser of types on encoded types

`TypeSig` are the types in the comments of `ParseType`, with the method signatures and the
array shapes in them, and `encode` their encoding, none where a number is too large for one.
-/

namespace DdTrace.SigHelpers

open Lib Lib.Reader Signature

structure CustomMod where
  required : Bool
  type : TypeDefOrRef
  deriving DecidableEq

def CustomMod.encode (mod : CustomMod) : Option (List UInt8) := do
  let token ← mod.type.encode
  return (if mod.required then ELEMENT_TYPE_CMOD_REQD else ELEMENT_TYPE_CMOD_OPT) :: token

def encodeMods (mods : List CustomMod) : Option (List UInt8) := do
  return (← mods.mapM CustomMod.encode).flatten

inductive CallKind
  | default
  | vararg
  | generic (genParamCount : ℕ)
  deriving DecidableEq

structure CallConv where
  hasThis : Bool
  explicitThis : Bool
  kind : CallKind
  deriving DecidableEq

/-- `DEFAULT` is 0 and `VARARG` 5. -/
def CallKind.code : CallKind → UInt8
  | default => 0x00
  | vararg => 0x05
  | generic _ => IMAGE_CEE_CS_CALLCONV_GENERIC

/-- `HASTHIS` is 0x20 and `EXPLICITTHIS` 0x40. -/
def CallConv.encode (conv : CallConv) : Option (List UInt8) := do
  let byte := conv.kind.code ||| (if conv.hasThis then 0x20 else 0) |||
    (if conv.explicitThis then 0x40 else 0)
  match conv.kind with
  | .generic genParamCount => return byte :: (← compress genParamCount)
  | _ => return [byte]

mutual

inductive TypeSig
  | simple (type : SimpleType)
  | token (kind : TypeKind) (token : TypeDefOrRef)
  | ptrVoid (mods : List CustomMod)
  | ptr (mods : List CustomMod) (type : TypeSig)
  | fnPtr (conv : CallConv) (ret : RetSig) (params varArgs : List ParamSig)
  | array (elem : TypeSig) (shape : ArrayShape)
  | szArray (mods : List CustomMod) (elem : TypeSig)
  | genericInst (kind : TypeKind) (token : TypeDefOrRef) (args : List TypeSig)
  | var (number : ℕ)
  | mvar (number : ℕ)

inductive ParamSig
  | typedByRef (mods : List CustomMod)
  | type (mods : List CustomMod) (byRef : Bool) (type : TypeSig)

inductive RetSig
  | void (mods : List CustomMod)
  | value (param : ParamSig)

end

/-- The sentinel in front of the variable arguments. -/
def sentinelOf (varArgs : List ParamSig) : List UInt8 :=
  if varArgs.isEmpty then [] else [ELEMENT_TYPE_SENTINEL]

def byRefOf (byRef : Bool) : List UInt8 := if byRef then [ELEMENT_TYPE_BYREF] else []

mutual

def TypeSig.encode : TypeSig → Option (List UInt8)
  | .simple type => some [type.elemType]
  | .token kind token => do
    return kind.elemType :: (← token.encode)
  | .ptrVoid mods => do
    return ELEMENT_TYPE_PTR :: ((← encodeMods mods) ++ [ELEMENT_TYPE_VOID])
  | .ptr mods type => do
    return ELEMENT_TYPE_PTR :: ((← encodeMods mods) ++ (← type.encode))
  | .fnPtr conv ret params varArgs => do
    let conv ← conv.encode
    let paramCount ← compress (params.length + varArgs.length)
    let ret ← ret.encode
    let params ← encodeParams params
    let more ← encodeParams varArgs
    return ELEMENT_TYPE_FNPTR ::
      (conv ++ (paramCount ++ (ret ++ (params ++ (sentinelOf varArgs ++ more)))))
  | .array elem shape => do
    return ELEMENT_TYPE_ARRAY :: ((← elem.encode) ++ (← shape.encode))
  | .szArray mods elem => do
    return ELEMENT_TYPE_SZARRAY :: ((← encodeMods mods) ++ (← elem.encode))
  | .genericInst kind token args => do
    let token ← token.encode
    let number ← compress args.length
    let args ← encodeTypes args
    return ELEMENT_TYPE_GENERICINST :: kind.elemType :: (token ++ (number ++ args))
  | .var number => do
    return ELEMENT_TYPE_VAR :: (← compress number)
  | .mvar number => do
    return ELEMENT_TYPE_MVAR :: (← compress number)

def encodeTypes : List TypeSig → Option (List UInt8)
  | [] => some []
  | type :: types => do
    return (← type.encode) ++ (← encodeTypes types)

def ParamSig.encode : ParamSig → Option (List UInt8)
  | .typedByRef mods => do
    return (← encodeMods mods) ++ [ELEMENT_TYPE_TYPEDBYREF]
  | .type mods byRef type => do
    return (← encodeMods mods) ++ (byRefOf byRef ++ (← type.encode))

def encodeParams : List ParamSig → Option (List UInt8)
  | [] => some []
  | param :: params => do
    return (← param.encode) ++ (← encodeParams params)

def RetSig.encode : RetSig → Option (List UInt8)
  | .void mods => do
    return (← encodeMods mods) ++ [ELEMENT_TYPE_VOID]
  | .value param => param.encode

end

mutual

/-- There is an `I` or a `U` in the type. -/
def TypeSig.hasNative : TypeSig → Bool
  | .simple type => type = .i || type = .u
  | .token _ _ | .ptrVoid _ | .var _ | .mvar _ => false
  | .ptr _ type => type.hasNative
  | .fnPtr _ ret params varArgs => ret.hasNative || (paramsNative params || paramsNative varArgs)
  | .array elem _ => elem.hasNative
  | .szArray _ elem => elem.hasNative
  | .genericInst _ _ args => typesNative args

def typesNative : List TypeSig → Bool
  | [] => false
  | type :: types => type.hasNative || typesNative types

def ParamSig.hasNative : ParamSig → Bool
  | .typedByRef _ => false
  | .type _ _ type => type.hasNative

def paramsNative : List ParamSig → Bool
  | [] => false
  | param :: params => param.hasNative || paramsNative params

def RetSig.hasNative : RetSig → Bool
  | .void _ => false
  | .value param => param.hasNative

end

/-- The calling convention is `GENERIC` and nothing else. -/
def CallConv.isGeneric (conv : CallConv) : Bool :=
  match conv.kind with
  | .generic _ => !conv.hasThis && !conv.explicitThis
  | _ => false

mutual

/-- Every function pointer in the type is `GENERIC` and nothing else. -/
def TypeSig.genericPointers : TypeSig → Bool
  | .simple _ | .token _ _ | .ptrVoid _ | .var _ | .mvar _ => true
  | .ptr _ type => type.genericPointers
  | .fnPtr conv ret params varArgs => conv.isGeneric && (ret.genericPointers &&
    (paramsGenericPointers params && paramsGenericPointers varArgs))
  | .array elem _ => elem.genericPointers
  | .szArray _ elem => elem.genericPointers
  | .genericInst _ _ args => typesGenericPointers args

def typesGenericPointers : List TypeSig → Bool
  | [] => true
  | type :: types => type.genericPointers && typesGenericPointers types

def ParamSig.genericPointers : ParamSig → Bool
  | .typedByRef _ => true
  | .type _ _ type => type.genericPointers

def paramsGenericPointers : List ParamSig → Bool
  | [] => true
  | param :: params => param.genericPointers && paramsGenericPointers params

def RetSig.genericPointers : RetSig → Bool
  | .void _ => true
  | .value param => param.genericPointers

end

/-! ## The parts -/

variable {bytes : List UInt8} {fuel : ℕ}

theorem mods_of_encode {mods : List CustomMod} (h : encodeMods mods = some bytes) : Mods bytes := by
  simp only [encodeMods, Option.bind_eq_bind, Option.bind_eq_some_iff] at h
  obtain ⟨pieces, hpieces, ⟨⟩⟩ := h
  induction mods generalizing pieces with
  | nil =>
    obtain rfl := Option.some.inj hpieces
    exact .nil
  | cons mod mods ih =>
    simp only [List.mapM_cons, Option.bind_eq_bind, Option.bind_eq_some_iff] at hpieces
    obtain ⟨piece, hmod, pieces, hmods, ⟨⟩⟩ := hpieces
    simp only [CustomMod.encode, Option.bind_eq_bind, Option.bind_eq_some_iff] at hmod
    obtain ⟨token, htoken, ⟨⟩⟩ := hmod
    refine .cons ?_ (number_of_compress htoken) (ih pieces hmods)
    cases mod.required
    · exact .inl rfl
    · exact .inr rfl

theorem number_of_compressSigned {i : ℤ} (h : compressSigned i = some bytes) :
    ∃ n, Number bytes n := by
  obtain ⟨n, hn⟩ := @uncompress_compressSigned _ [] _ h
  rw [List.append_nil] at hn
  exact ⟨n, hn⟩

theorem numbers_of_encode {α : Type} {encode : α → Option (List UInt8)} {numbers : List α}
    (hencode : ∀ x bytes, encode x = some bytes → ∃ n, Number bytes n)
    (h : encodeNumbers encode numbers = some bytes) :
    ∃ (count : List UInt8) (pieces : List (List UInt8)), bytes = count ++ pieces.flatten ∧
      Number count pieces.length ∧ ∀ piece ∈ pieces, ∃ n, Number piece n := by
  simp only [encodeNumbers, Option.bind_eq_bind, Option.bind_eq_some_iff] at h
  obtain ⟨count, hcount, pieces, hpieces, ⟨⟩⟩ := h
  have hall : pieces.length = numbers.length ∧ ∀ piece ∈ pieces, ∃ n, Number piece n := by
    clear hcount
    induction numbers generalizing pieces with
    | nil =>
      obtain rfl := Option.some.inj hpieces
      exact ⟨rfl, by simp⟩
    | cons number numbers ih =>
      simp only [List.mapM_cons, Option.bind_eq_bind, Option.bind_eq_some_iff] at hpieces
      obtain ⟨piece, hpiece, pieces, hrest, ⟨⟩⟩ := hpieces
      obtain ⟨hlen, hall⟩ := ih pieces hrest
      exact ⟨congrArg Nat.succ hlen, List.forall_mem_cons.2 ⟨hencode number piece hpiece, hall⟩⟩
  refine ⟨count, pieces, rfl, ?_, hall.2⟩
  rw [hall.1]
  exact number_of_compress hcount

theorem shapeBytes_of_encode {shape : ArrayShape} (h : shape.encode = some bytes) :
    ShapeBytes bytes := by
  simp only [ArrayShape.encode, Option.bind_eq_bind, Option.bind_eq_some_iff] at h
  obtain ⟨rank, hrank, sizes, hsizes, bounds, hbounds, ⟨⟩⟩ := h
  obtain ⟨count, pieces, rfl, hcount, hpieces⟩ :=
    numbers_of_encode (fun _ _ h => ⟨_, number_of_compress h⟩) hsizes
  obtain ⟨count', pieces', rfl, hcount', hpieces'⟩ :=
    numbers_of_encode (fun _ _ h => number_of_compressSigned h) hbounds
  rw [List.append_assoc, List.append_assoc]
  exact .mk (number_of_compress hrank) hcount hpieces hcount' hpieces'

theorem CallConv.encode_of_isGeneric {conv : CallConv} (hgeneric : conv.isGeneric = true)
    (h : conv.encode = some bytes) :
    ∃ generics n, bytes = IMAGE_CEE_CS_CALLCONV_GENERIC :: generics ∧ Number generics n := by
  obtain ⟨hasThis, explicitThis, kind⟩ := conv
  cases kind with
  | default | vararg => cases hgeneric
  | generic n =>
    simp only [CallConv.isGeneric, Bool.and_eq_true, Bool.not_eq_true'] at hgeneric
    obtain ⟨rfl, rfl⟩ := hgeneric
    simp only [CallConv.encode, Option.bind_eq_bind, Option.bind_eq_some_iff] at h
    obtain ⟨generics, hgenerics, ⟨⟩⟩ := h
    have hbyte : IMAGE_CEE_CS_CALLCONV_GENERIC ||| 0 ||| 0 = IMAGE_CEE_CS_CALLCONV_GENERIC := by decide
    exact ⟨generics, n, congrArg (· :: generics) hbyte, number_of_compress hgenerics⟩

theorem SimpleType.isSimple_iff (type : SimpleType) :
    isSimple type.elemType ↔ ¬ (type = .i ∨ type = .u) := by
  cases type <;> decide

theorem hasNative_simple {type : SimpleType} :
    (TypeSig.simple type).hasNative = false ↔ ¬ (type = .i ∨ type = .u) := by
  simp [TypeSig.hasNative]

theorem TypeSig.begins {type : TypeSig} (h : type.encode = some bytes) :
    ∃ b rest, bytes = b :: rest ∧ Begins b := by
  cases type with
  | simple type =>
    obtain rfl := Option.some.inj h
    exact ⟨_, _, rfl, by cases type <;> decide⟩
  | token kind token =>
    simp only [TypeSig.encode, Option.bind_eq_bind, Option.bind_eq_some_iff] at h
    obtain ⟨_, -, ⟨⟩⟩ := h
    exact ⟨_, _, rfl, begins_of_classOrValueType kind.isClassOrValueType⟩
  | ptrVoid mods | var number | mvar number =>
    simp only [TypeSig.encode, Option.bind_eq_bind, Option.bind_eq_some_iff] at h
    obtain ⟨_, -, ⟨⟩⟩ := h
    exact ⟨_, _, rfl, by decide⟩
  | ptr _ _ | array _ _ | szArray _ _ =>
    simp only [TypeSig.encode, Option.bind_eq_bind, Option.bind_eq_some_iff] at h
    obtain ⟨_, -, _, -, ⟨⟩⟩ := h
    exact ⟨_, _, rfl, by decide⟩
  | genericInst kind token args =>
    simp only [TypeSig.encode, Option.bind_eq_bind, Option.bind_eq_some_iff] at h
    obtain ⟨_, -, _, -, _, -, ⟨⟩⟩ := h
    exact ⟨_, _, rfl, by decide⟩
  | fnPtr conv ret params varArgs =>
    simp only [TypeSig.encode, Option.bind_eq_bind, Option.bind_eq_some_iff] at h
    obtain ⟨_, -, _, -, _, -, _, -, _, -, ⟨⟩⟩ := h
    exact ⟨_, _, rfl, by decide⟩

/-- Nothing that a parameter begins with is the sentinel. -/
theorem ParamSig.head {param : ParamSig} (h : param.encode = some bytes) :
    ∃ b rest, bytes = b :: rest ∧ b ≠ ELEMENT_TYPE_SENTINEL := by
  have hmods : ∀ {mods : List CustomMod} {piece rest : List UInt8} {b : UInt8},
      encodeMods mods = some piece → b ≠ ELEMENT_TYPE_SENTINEL →
      ∃ b' rest', piece ++ b :: rest = b' :: rest' ∧ b' ≠ ELEMENT_TYPE_SENTINEL := by
    intro mods piece rest b h hb
    cases mods_of_encode h with
    | nil => exact ⟨b, rest, rfl, hb⟩
    | cons hmod _ _ => exact ⟨_, _, rfl, by rcases hmod with rfl | rfl <;> decide⟩
  cases param with
  | typedByRef mods =>
    simp only [ParamSig.encode, Option.bind_eq_bind, Option.bind_eq_some_iff] at h
    obtain ⟨piece, hpiece, ⟨⟩⟩ := h
    exact hmods hpiece (by decide)
  | type mods byRef type =>
    simp only [ParamSig.encode, Option.bind_eq_bind, Option.bind_eq_some_iff] at h
    obtain ⟨piece, hpiece, t, ht, ⟨⟩⟩ := h
    cases byRef with
    | true => exact hmods hpiece (by decide)
    | false =>
      obtain ⟨b, rest, rfl, -, hb⟩ := TypeSig.begins ht
      exact hmods hpiece fun hs => hb (by rw [hs]; decide)

/-! ## The whole -/

theorem ParamSig.takes {mods : List CustomMod} {byRef : Bool} {type : TypeSig}
    {good : Prop} (h : (ParamSig.type mods byRef type).encode = some bytes)
    (hle : bytes.length ≤ fuel)
    (ht : ∀ {piece : List UInt8} {k : ℕ}, type.encode = some piece → piece.length ≤ k + 1 →
      Takes good (parseType (k + 1)) piece ()) :
    Takes good (parseParam fuel (parseType fuel)) bytes () := by
  simp only [ParamSig.encode, Option.bind_eq_bind, Option.bind_eq_some_iff] at h
  obtain ⟨piece, hpiece, t, htype, ⟨⟩⟩ := h
  have hmods := mods_of_encode hpiece
  obtain ⟨b, rest, rfl, hb⟩ := TypeSig.begins htype
  simp only [List.length_append, List.length_cons] at hle
  obtain ⟨k, rfl⟩ := Nat.exists_eq_add_of_lt (by omega : piece.length < fuel)
  have htake := @ht (b :: rest) (piece.length + k) htype (by rw [List.length_cons]; omega)
  cases byRef with
  | true => exact takes_parseParam_byRef hmods (by omega) htake
  | false => exact takes_parseParam hmods (by omega) hb htake

mutual

/-- Where every function pointer is `GENERIC`, nothing but an `I` or a `U` fails. -/
theorem takes_encode : ∀ {type : TypeSig} {bytes : List UInt8} {fuel : ℕ},
    type.genericPointers = true → type.encode = some bytes → bytes.length ≤ fuel + 1 →
    Takes (type.hasNative = false) (parseType (fuel + 1)) bytes ()
  | .simple type, _, fuel, _, h, _ => by
    obtain rfl := Option.some.inj h
    by_cases hnative : type = .i ∨ type = .u
    · have htake : Takes False (parseType (fuel + 1)) [type.elemType] () := by
        refine takes_native ?_
        rcases hnative with rfl | rfl
        · exact .inl rfl
        · exact .inr rfl
      exact htake.congr (iff_of_false id (mt hasNative_simple.1 (not_not.2 hnative)))
    · have htake := @takes_simple fuel _ ((SimpleType.isSimple_iff type).2 hnative)
      exact htake.congr (iff_of_true trivial (hasNative_simple.2 hnative))
  | .token kind token, _, _, _, h, _ => by
    simp only [TypeSig.encode, Option.bind_eq_bind, Option.bind_eq_some_iff] at h
    obtain ⟨_, htoken, ⟨⟩⟩ := h
    exact (takes_token kind.isClassOrValueType (number_of_compress htoken)).congr (by simp [TypeSig.hasNative])
  | .ptrVoid mods, _, fuel, _, h, hle => by
    simp only [TypeSig.encode, Option.bind_eq_bind, Option.bind_eq_some_iff] at h
    obtain ⟨piece, hpiece, ⟨⟩⟩ := h
    simp only [List.length_cons, List.length_append] at hle
    obtain ⟨k, rfl⟩ := Nat.exists_eq_add_of_lt (by omega : piece.length < fuel)
    have htake := takes_ptr (mods_of_encode hpiece) (by omega) (by decide)
      (@takes_simple (piece.length + k) ELEMENT_TYPE_VOID (by decide))
    exact htake.congr (by simp [TypeSig.hasNative])
  | .ptr mods type, _, fuel, hg, h, hle => by
    simp only [TypeSig.encode, Option.bind_eq_bind, Option.bind_eq_some_iff] at h
    obtain ⟨piece, hpiece, t, ht, ⟨⟩⟩ := h
    rw [TypeSig.genericPointers] at hg
    obtain ⟨b, rest, rfl, hb⟩ := TypeSig.begins ht
    simp only [List.length_cons, List.length_append] at hle
    obtain ⟨k, rfl⟩ := Nat.exists_eq_add_of_lt (by omega : piece.length < fuel)
    have htake := @takes_encode _ _ (piece.length + k) hg ht (by rw [List.length_cons]; omega)
    exact takes_ptr (mods_of_encode hpiece) (by omega) hb.1 htake
  | .fnPtr conv ret params varArgs, _, fuel, hg, h, hle => by
    simp only [TypeSig.encode, Option.bind_eq_bind, Option.bind_eq_some_iff] at h
    obtain ⟨_, hconv, count, hcount, r, hret, ps, hparams, vs, hvarArgs, ⟨⟩⟩ := h
    simp only [TypeSig.genericPointers, Bool.and_eq_true] at hg
    obtain ⟨hconv', hg1, hg2, hg3⟩ := hg
    obtain ⟨generics, n, rfl, hgenerics⟩ := CallConv.encode_of_isGeneric hconv' hconv
    simp only [List.length_cons, List.length_append] at hle
    have htake1 := @takes_encodeRet _ _ fuel hg1 hret (by omega)
    have htake3 := @takes_encodeVarArgs _ _ fuel hg3 hvarArgs (by omega)
    have htake2 := @takes_encodeParams _ _ _ fuel _ false _ hg2 hparams (by omega) htake3
    have htake := takes_fnPtr (takes_parseMethod hgenerics (number_of_compress hcount) htake1
      fun _ => htake2)
    exact htake.congr (by simp only [TypeSig.hasNative, Bool.or_eq_false_iff])
  | .array elem shape, _, fuel, hg, h, hle => by
    simp only [TypeSig.encode, Option.bind_eq_bind, Option.bind_eq_some_iff] at h
    obtain ⟨t, ht, s, hs, ⟨⟩⟩ := h
    rw [TypeSig.genericPointers] at hg
    obtain ⟨b, rest, rfl, hb⟩ := TypeSig.begins ht
    simp only [List.length_cons, List.length_append] at hle
    obtain ⟨k, rfl⟩ := Nat.exists_eq_add_of_lt (by omega : 0 < fuel)
    have htake := @takes_encode _ _ (0 + k) hg ht (by rw [List.length_cons]; omega)
    exact takes_array htake (shapeBytes_of_encode hs)
  | .szArray mods elem, _, fuel, hg, h, hle => by
    simp only [TypeSig.encode, Option.bind_eq_bind, Option.bind_eq_some_iff] at h
    obtain ⟨piece, hpiece, t, ht, ⟨⟩⟩ := h
    rw [TypeSig.genericPointers] at hg
    obtain ⟨b, rest, rfl, hb⟩ := TypeSig.begins ht
    simp only [List.length_cons, List.length_append] at hle
    obtain ⟨k, rfl⟩ := Nat.exists_eq_add_of_lt (by omega : piece.length < fuel)
    have htake := @takes_encode _ _ (piece.length + k) hg ht (by rw [List.length_cons]; omega)
    exact takes_szArray (mods_of_encode hpiece) (by omega) hb.1 htake
  | .genericInst kind token args, _, fuel, hg, h, hle => by
    simp only [TypeSig.encode, Option.bind_eq_bind, Option.bind_eq_some_iff] at h
    obtain ⟨tk, htoken, number, hnumber, as, hargs, ⟨⟩⟩ := h
    rw [TypeSig.genericPointers] at hg
    simp only [List.length_cons, List.length_append] at hle
    have htake := @takes_encodeTypes _ _ fuel hg hargs (by omega)
    exact takes_genericInst kind.isClassOrValueType (number_of_compress htoken)
      (number_of_compress hnumber) htake
  | .var number, _, _, _, h, _ => by
    simp only [TypeSig.encode, Option.bind_eq_bind, Option.bind_eq_some_iff] at h
    obtain ⟨_, hnumber, ⟨⟩⟩ := h
    exact (takes_variable (.inl rfl) (number_of_compress hnumber)).congr (by simp [TypeSig.hasNative])
  | .mvar number, _, _, _, h, _ => by
    simp only [TypeSig.encode, Option.bind_eq_bind, Option.bind_eq_some_iff] at h
    obtain ⟨_, hnumber, ⟨⟩⟩ := h
    exact (takes_variable (.inr rfl) (number_of_compress hnumber)).congr (by simp [TypeSig.hasNative])

theorem takes_encodeTypes : ∀ {types : List TypeSig} {bytes : List UInt8} {fuel : ℕ},
    typesGenericPointers types = true → encodeTypes types = some bytes → bytes.length ≤ fuel →
    Takes (typesNative types = false) (times (parseType fuel) types.length) bytes ()
  | [], _, _, _, h, _ => by
    obtain rfl := Option.some.inj h
    exact takes_pure.congr (by simp [typesNative])
  | type :: types, _, fuel, hg, h, hle => by
    simp only [encodeTypes, Option.bind_eq_bind, Option.bind_eq_some_iff] at h
    obtain ⟨t, ht, ts, hts, ⟨⟩⟩ := h
    rw [typesGenericPointers, Bool.and_eq_true] at hg
    rw [List.length_append] at hle
    have hpos : 0 < t.length := by
      obtain ⟨b, rest, rfl, -⟩ := TypeSig.begins ht
      exact Nat.succ_pos _
    obtain ⟨k, rfl⟩ := Nat.exists_eq_add_of_lt (by omega : 0 < fuel)
    have htake := @takes_encode _ _ (0 + k) hg.1 ht (by omega)
    have htakes := @takes_encodeTypes _ _ (0 + k + 1) hg.2 hts (by omega)
    exact (Takes.bind (f := fun _ => times _ types.length) htake fun _ => htakes).congr (by simp only [typesNative, Bool.or_eq_false_iff])

theorem takes_encodeParam : ∀ {param : ParamSig} {bytes : List UInt8} {fuel : ℕ},
    param.genericPointers = true → param.encode = some bytes → bytes.length ≤ fuel →
    Takes (param.hasNative = false) (parseParam fuel (parseType fuel)) bytes ()
  | .typedByRef mods, _, fuel, _, h, hle => by
    simp only [ParamSig.encode, Option.bind_eq_bind, Option.bind_eq_some_iff] at h
    obtain ⟨piece, hpiece, ⟨⟩⟩ := h
    rw [List.length_append, List.length_singleton] at hle
    exact (takes_parseParam_typedByRef (mods_of_encode hpiece) (by omega)).congr
      (by simp [ParamSig.hasNative])
  | .type mods byRef type, _, _, hg, h, hle =>
    ParamSig.takes h hle fun htype hlen => takes_encode hg htype hlen

theorem takes_encodeParams : ∀ {params : List ParamSig} {bytes rest : List UInt8} {fuel n : ℕ}
    {e : Bool} {good : Prop}, paramsGenericPointers params = true →
    encodeParams params = some bytes → bytes.length ≤ fuel →
    Takes good (parseParams fuel (parseType fuel) n e) rest () →
    Takes (paramsNative params = false ∧ good)
      (parseParams fuel (parseType fuel) (params.length + n) e) (bytes ++ rest) ()
  | [], _, _, _, n, _, _, _, h, _, hrest => by
    obtain rfl := Option.some.inj h
    rw [List.length_nil, Nat.zero_add]
    exact hrest.congr (by simp [paramsNative])
  | param :: params, _, _, fuel, n, e, good, hg, h, hle, hrest => by
    simp only [encodeParams, Option.bind_eq_bind, Option.bind_eq_some_iff] at h
    obtain ⟨p, hparam, ps, hparams, ⟨⟩⟩ := h
    rw [paramsGenericPointers, Bool.and_eq_true] at hg
    rw [List.length_append] at hle
    have htake := @takes_encodeParam _ _ fuel hg.1 hparam (by omega)
    have htakes := @takes_encodeParams _ _ _ fuel _ _ _ hg.2 hparams (by omega) hrest
    obtain ⟨b, l, rfl, hb⟩ := ParamSig.head hparam
    rw [List.length_cons, Nat.add_right_comm, List.append_assoc]
    refine (takes_params_cons hb htake fun _ => htakes).congr ?_
    rw [paramsNative, Bool.or_eq_false_iff, and_assoc]

/-- The variable arguments, with the sentinel in front of them. -/
theorem takes_encodeVarArgs : ∀ {varArgs : List ParamSig} {bytes : List UInt8} {fuel : ℕ},
    paramsGenericPointers varArgs = true → encodeParams varArgs = some bytes →
    bytes.length ≤ fuel →
    Takes (paramsNative varArgs = false) (parseParams fuel (parseType fuel) varArgs.length false)
      (sentinelOf varArgs ++ bytes) ()
  | [], _, _, _, h, _ => by
    obtain rfl := Option.some.inj h
    exact takes_pure.congr (by simp [paramsNative])
  | param :: params, _, fuel, hg, h, hle => by
    simp only [encodeParams, Option.bind_eq_bind, Option.bind_eq_some_iff] at h
    obtain ⟨p, hparam, ps, hparams, ⟨⟩⟩ := h
    rw [paramsGenericPointers, Bool.and_eq_true] at hg
    rw [List.length_append] at hle
    have htake := @takes_encodeParam _ _ fuel hg.1 hparam (by omega)
    have htakes := @takes_encodeParams _ _ _ fuel 0 true _ hg.2 hparams (by omega)
      takes_pure
    rw [List.append_nil] at htakes
    refine (takes_params_sentinel htake fun _ => htakes).congr ?_
    rw [paramsNative, Bool.or_eq_false_iff, and_true]

theorem takes_encodeRet : ∀ {ret : RetSig} {bytes : List UInt8} {fuel : ℕ},
    ret.genericPointers = true → ret.encode = some bytes → bytes.length ≤ fuel →
    Takes (ret.hasNative = false) (parseParam fuel (parseType fuel)) bytes ()
  | .void mods, _, fuel, _, h, hle => by
    simp only [RetSig.encode, Option.bind_eq_bind, Option.bind_eq_some_iff] at h
    obtain ⟨piece, hpiece, ⟨⟩⟩ := h
    rw [List.length_append, List.length_singleton] at hle
    obtain ⟨k, rfl⟩ := Nat.exists_eq_add_of_lt (by omega : piece.length < fuel)
    have htake := takes_parseParam (mods_of_encode hpiece) (by omega : piece.length < piece.length + k + 1)
      (by decide) (@takes_simple (piece.length + k) ELEMENT_TYPE_VOID (by decide))
    exact htake.congr (by simp [RetSig.hasNative])
  | .value param, _, _, hg, h, hle => takes_encodeParam hg h hle

end

theorem consumes_iff_of_genericPointers {type : TypeSig} (hg : type.genericPointers = true)
    (h : type.encode = some bytes) : Consumes bytes ↔ type.hasNative = false := by
  have hpos : 0 < bytes.length := by
    obtain ⟨b, rest, rfl, -⟩ := TypeSig.begins h
    exact Nat.succ_pos _
  have htake : ∀ fuel, bytes.length ≤ fuel →
      Takes (type.hasNative = false) (parseType fuel) bytes () := by
    intro fuel hle
    obtain ⟨k, rfl⟩ := Nat.exists_eq_add_of_lt (by omega : 0 < fuel)
    exact takes_encode hg h (by omega)
  constructor
  · intro hc
    have hseg : seg (fun i => bytes.getD i 0) 0 (0 + bytes.length) = bytes := by
      rw [Nat.zero_add]
      exact seg_eq_of_getD fun _ _ => rfl
    exact ((htake _ le_rfl _ 0 hseg () _).1 (hc _ 0 hseg _ le_rfl)).1
  · intro hnative mem cur hseg fuel hle
    exact (htake fuel hle mem cur hseg () _).2 ⟨hnative, rfl, rfl⟩

/-- The encoding of a type is consumed exactly where it is also a type of the smaller grammar;
where all function pointers are `GENERIC`, that is where there is no `I` and no `U`. -/
theorem consumes_encoding_iff {type : TypeSig} (h : type.encode = some bytes) :
    (Consumes bytes ↔ TypeBytes bytes) ∧
      (type.genericPointers = true → (Consumes bytes ↔ type.hasNative = false)) :=
  ⟨consumes_iff, fun hg => consumes_iff_of_genericPointers hg h⟩

/-- A pointer to `ref T[] F<T>(int modopt(..)*, .., (List<T>, typedref))`. -/
def genericPointer : TypeSig :=
  .fnPtr ⟨false, false, .generic 1⟩ (.value (.type [] true (.szArray [] (.mvar 0))))
    [.type [] false (.ptr [⟨false, ⟨.typeRef, 300⟩⟩] (.simple .i4))]
    [.type [] false (.genericInst .class ⟨.typeDef, 5⟩ [.mvar 0]), .typedByRef []]

theorem genericPointer_consumed :
    genericPointer.encode = some [0x1B, 0x10, 1, 3, 0x10, 0x1D, 0x1E, 0, 0x0F, 0x20, 0x84, 0xB1, 8,
      0x41, 0x15, 0x12, 20, 1, 0x1E, 0, 0x16] ∧
    Consumes [0x1B, 0x10, 1, 3, 0x10, 0x1D, 0x1E, 0, 0x0F, 0x20, 0x84, 0xB1, 8, 0x41, 0x15, 0x12,
      20, 1, 0x1E, 0, 0x16] :=
  ⟨by decide, ((@consumes_encoding_iff _ genericPointer (by decide)).2 rfl).2 rfl⟩

/-- A pointer to `static void F()`. -/
def defaultPointer : TypeSig := .fnPtr ⟨false, false, .default⟩ (.void []) [] []

theorem not_consumed : ((TypeSig.simple .i).encode = some [0x18] ∧ ¬ Consumes [0x18]) ∧
    defaultPointer.encode = some [0x1B, 0, 0, 1] ∧ ¬ Consumes [0x1B, 0, 0, 1] := by
  refine ⟨⟨by decide, fun h => ?_⟩, by decide, fun h => ?_⟩
  · have hok := h (fun _ => 0x18) 0 rfl 1 le_rfl
    have hfail : (parseType 1 (fun _ => 0x18) 0).2 = .failed := by decide
    cases hok.symm.trans hfail
  · have hok := h (fun i => [0x1B, 0, 0, 1].getD i 0) 0 (by decide) 4 le_rfl
    have hfail : (parseType 4 (fun i => [0x1B, 0, 0, 1].getD i 0) 0).2 = .failed := by decide
    cases hok.symm.trans hfail

/-- `VARARG` before four parameters is read as five parameters, and there are five types. -/
example : Consumes [0x1B, 5, 4, 8, 8, 8, 8, 8] := by
  have hint : ParamBytes [8] := .type .nil (.simple (by decide))
  refine consumes_iff.2 (.fnPtr (@MethodBytes.plain [5] [4] [8, 8, 8, 8, 8] 5 (by decide) rfl
    (.type .nil (.simple (by decide))) ?_))
  exact .cons hint (.cons hint (.cons hint (.cons hint (.cons hint .nil))))

end DdTrace.SigHelpers
