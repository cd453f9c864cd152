import DdTrace.Signature.Grammar

/-!
# The parser on encoded signatures

`MethodSig` is the grammar in the comments of the parser and `encode` its encoding, none
where a number is too large for one. The parser takes every signature without an `ARRAY` in
it apart into its parts.
-/

namespace DdTrace.Signature

open Lib Lib.Reader

inductive SimpleType
  | boolean | char | i1 | u1 | i2 | u2 | i4 | u4 | i8 | u8 | r4 | r8 | i | u | string | object
  deriving DecidableEq

def SimpleType.elemType : SimpleType → UInt8
  | boolean => ELEMENT_TYPE_BOOLEAN
  | char => ELEMENT_TYPE_CHAR
  | i1 => ELEMENT_TYPE_I1
  | u1 => ELEMENT_TYPE_U1
  | i2 => ELEMENT_TYPE_I2
  | u2 => ELEMENT_TYPE_U2
  | i4 => ELEMENT_TYPE_I4
  | u4 => ELEMENT_TYPE_U4
  | i8 => ELEMENT_TYPE_I8
  | u8 => ELEMENT_TYPE_U8
  | r4 => ELEMENT_TYPE_R4
  | r8 => ELEMENT_TYPE_R8
  | i => ELEMENT_TYPE_I
  | u => ELEMENT_TYPE_U
  | string => ELEMENT_TYPE_STRING
  | object => ELEMENT_TYPE_OBJECT

inductive TypeKind
  | «class» | valueType
  deriving DecidableEq

def TypeKind.elemType : TypeKind → UInt8
  | «class» => ELEMENT_TYPE_CLASS
  | valueType => ELEMENT_TYPE_VALUETYPE

inductive TypeTable
  | typeDef | typeRef | typeSpec
  deriving DecidableEq

def TypeTable.tag : TypeTable → ℕ
  | typeDef => 0
  | typeRef => 1
  | typeSpec => 2

structure TypeDefOrRef where
  table : TypeTable
  index : ℕ
  deriving DecidableEq

def TypeDefOrRef.encode (token : TypeDefOrRef) : Option (List UInt8) :=
  compress (token.index <<< 2 ||| token.table.tag)

/-- A number of numbers, and the numbers. -/
def encodeNumbers {α : Type} (encode : α → Option (List UInt8)) (numbers : List α) :
    Option (List UInt8) := do
  let count ← compress numbers.length
  let bytes ← numbers.mapM encode
  return count ++ bytes.flatten

structure ArrayShape where
  rank : ℕ
  sizes : List ℕ
  loBounds : List ℤ
  deriving DecidableEq

def ArrayShape.encode (shape : ArrayShape) : Option (List UInt8) := do
  let rank ← compress shape.rank
  let sizes ← encodeNumbers compress shape.sizes
  let loBounds ← encodeNumbers compressSigned shape.loBounds
  return rank ++ sizes ++ loBounds

inductive SigType
  | simple (type : SimpleType)
  | token (kind : TypeKind) (token : TypeDefOrRef)
  | szArray (elem : SigType)
  | array (elem : SigType) (shape : ArrayShape)
  | genericInst (kind : TypeKind) (token : TypeDefOrRef) (args : List SigType)
  | var (number : ℕ)
  | mvar (number : ℕ)

mutual

def SigType.encode : SigType → Option (List UInt8)
  | .simple type => some [type.elemType]
  | .token kind token => do
    return kind.elemType :: (← token.encode)
  | .szArray elem => do
    return ELEMENT_TYPE_SZARRAY :: (← elem.encode)
  | .array elem shape => do
    return ELEMENT_TYPE_ARRAY :: ((← elem.encode) ++ (← shape.encode))
  | .genericInst kind token args => do
    let token ← token.encode
    let number ← compress args.length
    let args ← encodeTypes args
    return ELEMENT_TYPE_GENERICINST :: kind.elemType :: (token ++ (number ++ args.flatten))
  | .var number => do
    return ELEMENT_TYPE_VAR :: (← compress number)
  | .mvar number => do
    return ELEMENT_TYPE_MVAR :: (← compress number)

def encodeTypes : List SigType → Option (List (List UInt8))
  | [] => some []
  | type :: types => do
    return (← type.encode) :: (← encodeTypes types)

end

mutual

/-- There is an `ARRAY` in the type. -/
def SigType.hasArray : SigType → Bool
  | .simple _ | .token _ _ | .var _ | .mvar _ => false
  | .szArray elem => elem.hasArray
  | .array _ _ => true
  | .genericInst _ _ args => haveArray args

def haveArray : List SigType → Bool
  | [] => false
  | type :: types => type.hasArray || haveArray types

end

structure ParamSig where
  byRef : Bool
  type : SigType

def ParamSig.encode (param : ParamSig) : Option (List UInt8) := do
  let type ← param.type.encode
  return if param.byRef then ELEMENT_TYPE_BYREF :: type else type

inductive RetSig
  | void
  | value (param : ParamSig)

def RetSig.encode : RetSig → Option (List UInt8)
  | void => some [ELEMENT_TYPE_VOID]
  | value param => param.encode

def RetSig.hasArray : RetSig → Bool
  | void => false
  | value param => param.type.hasArray

/-- The calling convention says whether there are type arguments. -/
structure MethodSig where
  convention : UInt8
  typeArguments : Option ℕ
  generic : typeArguments.isSome ↔ convention &&& IMAGE_CEE_CS_CALLCONV_GENERIC ≠ 0
  ret : RetSig
  params : List ParamSig

def encodeTypeArguments : Option ℕ → Option (List UInt8)
  | none => some []
  | some number => compress number

def MethodSig.encode (sig : MethodSig) : Option (List UInt8) := do
  let typeArguments ← encodeTypeArguments sig.typeArguments
  let count ← compress sig.params.length
  let ret ← sig.ret.encode
  let params ← sig.params.mapM ParamSig.encode
  return sig.convention :: (typeArguments ++ (count ++ (ret ++ params.flatten)))

def MethodSig.hasArray (sig : MethodSig) : Bool :=
  sig.ret.hasArray || sig.params.any fun param => param.type.hasArray

variable {bytes : List UInt8} {mem : ℕ → UInt8}

theorem SimpleType.alone (type : SimpleType) : Alone type.elemType := by
  cases type <;> decide

theorem TypeKind.isClassOrValueType (kind : TypeKind) : IsClassOrValueType kind.elemType := by
  cases kind <;> decide

/-- The bytes that no type starts with, of those the parser looks for before one. -/
def Starts (b : UInt8) : Prop :=
  ¬ isCustomMod b ∧ b ∉ [ELEMENT_TYPE_TYPEDBYREF, ELEMENT_TYPE_BYREF, ELEMENT_TYPE_VOID,
    ELEMENT_TYPE_SENTINEL]

instance (b : UInt8) : Decidable (Starts b) := inferInstanceAs (Decidable (_ ∧ _))

theorem SigType.starts {type : SigType} (h : type.encode = some bytes) :
    ∃ b rest, bytes = b :: rest ∧ Starts b := by
  cases type with
  | simple type =>
    obtain rfl := Option.some.inj h
    exact ⟨_, _, rfl, by cases type <;> decide⟩
  | token kind token =>
    simp only [SigType.encode, Option.bind_eq_bind, Option.bind_eq_some_iff] at h
    obtain ⟨_, -, ⟨⟩⟩ := h
    exact ⟨_, _, rfl, by cases kind <;> decide⟩
  | szArray elem =>
    simp only [SigType.encode, Option.bind_eq_bind, Option.bind_eq_some_iff] at h
    obtain ⟨_, -, ⟨⟩⟩ := h
    exact ⟨_, _, rfl, by decide⟩
  | array elem shape =>
    simp only [SigType.encode, Option.bind_eq_bind, Option.bind_eq_some_iff] at h
    obtain ⟨_, -, _, -, ⟨⟩⟩ := h
    exact ⟨_, _, rfl, by decide⟩
  | genericInst kind token args =>
    simp only [SigType.encode, Option.bind_eq_bind, Option.bind_eq_some_iff] at h
    obtain ⟨_, -, _, -, _, -, ⟨⟩⟩ := h
    exact ⟨_, _, rfl, by decide⟩
  | var number =>
    simp only [SigType.encode, Option.bind_eq_bind, Option.bind_eq_some_iff] at h
    obtain ⟨_, -, ⟨⟩⟩ := h
    exact ⟨_, _, rfl, by decide⟩
  | mvar number =>
    simp only [SigType.encode, Option.bind_eq_bind, Option.bind_eq_some_iff] at h
    obtain ⟨_, -, ⟨⟩⟩ := h
    exact ⟨_, _, rfl, by decide⟩

mutual

/-- The encoding of a type without an `ARRAY` is one type for the parser. -/
theorem typeBytes_of_encode : ∀ {type : SigType} {bytes : List UInt8}, type.hasArray = false →
    type.encode = some bytes → TypeBytes bytes
  | .simple type, _, _, h => by
    obtain rfl := Option.some.inj h
    exact .alone type.alone
  | .token kind token, _, _, h => by
    simp only [SigType.encode, Option.bind_eq_bind, Option.bind_eq_some_iff] at h
    obtain ⟨_, htoken, ⟨⟩⟩ := h
    exact .token kind.isClassOrValueType (number_of_compress htoken)
  | .szArray elem, _, harray, h => by
    simp only [SigType.encode, Option.bind_eq_bind, Option.bind_eq_some_iff] at h
    obtain ⟨_, helem, ⟨⟩⟩ := h
    rw [SigType.hasArray] at harray
    have hbytes := typeBytes_of_encode harray helem
    obtain ⟨b, rest, rfl, hstarts⟩ := SigType.starts helem
    exact .szArray hstarts.1 hbytes
  | .array _ _, _, harray, _ => by cases harray
  | .genericInst kind token args, _, harray, h => by
    simp only [SigType.encode, Option.bind_eq_bind, Option.bind_eq_some_iff] at h
    obtain ⟨_, htoken, number, hnumber, pieces, hargs, ⟨⟩⟩ := h
    obtain ⟨hlen, hpieces⟩ := typeBytes_of_encodeTypes harray hargs
    rw [← hlen] at hnumber
    exact .genericInst kind.isClassOrValueType (number_of_compress htoken)
      (number_of_compress hnumber) hpieces
  | .var number, _, _, h => by
    simp only [SigType.encode, Option.bind_eq_bind, Option.bind_eq_some_iff] at h
    obtain ⟨_, hnumber, ⟨⟩⟩ := h
    exact .variable (.inl rfl) (number_of_compress hnumber)
  | .mvar number, _, _, h => by
    simp only [SigType.encode, Option.bind_eq_bind, Option.bind_eq_some_iff] at h
    obtain ⟨_, hnumber, ⟨⟩⟩ := h
    exact .variable (.inr rfl) (number_of_compress hnumber)

theorem typeBytes_of_encodeTypes : ∀ {types : List SigType} {pieces : List (List UInt8)},
    haveArray types = false → encodeTypes types = some pieces →
    pieces.length = types.length ∧ ∀ bytes ∈ pieces, TypeBytes bytes
  | [], _, _, h => by
    obtain rfl := Option.some.inj h
    exact ⟨rfl, by simp⟩
  | type :: types, _, harray, h => by
    simp only [encodeTypes, Option.bind_eq_bind, Option.bind_eq_some_iff] at h
    obtain ⟨bytes, htype, pieces, htypes, ⟨⟩⟩ := h
    rw [haveArray, Bool.or_eq_false_iff] at harray
    obtain ⟨hlen, hpieces⟩ := typeBytes_of_encodeTypes harray.2 htypes
    refine ⟨congrArg Nat.succ hlen, List.forall_mem_cons.2 ⟨?_, hpieces⟩⟩
    exact typeBytes_of_encode harray.1 htype

end

theorem paramBytes_of_encode {param : ParamSig} (harray : param.type.hasArray = false)
    (h : param.encode = some bytes) :
    ParamBytes bytes ∧ bytes.head? ≠ some ELEMENT_TYPE_SENTINEL ∧
      bytes.head? ≠ some ELEMENT_TYPE_VOID := by
  simp only [ParamSig.encode, Option.bind_eq_bind, Option.bind_eq_some_iff] at h
  obtain ⟨type, htype, h⟩ := h
  obtain rfl := Option.some.inj h
  have hbytes := typeBytes_of_encode harray htype
  split
  · refine ⟨⟨by decide, by decide, ?_⟩, ?_, ?_⟩
    · rwa [ByRefBytes, if_pos rfl]
    · exact fun h => absurd (Option.some.inj h) (by decide)
    · exact fun h => absurd (Option.some.inj h) (by decide)
  · obtain ⟨b, rest, rfl, hmod, hnot⟩ := SigType.starts htype
    simp only [List.mem_cons, List.not_mem_nil, or_false, not_or] at hnot
    obtain ⟨htyped, hbyRef, hvoid, hsentinel⟩ := hnot
    refine ⟨⟨hmod, htyped, ?_⟩, ?_, ?_⟩
    · rwa [ByRefBytes, if_neg hbyRef]
    · exact fun h => hsentinel (Option.some.inj h)
    · exact fun h => hvoid (Option.some.inj h)

theorem retBytes_of_encode {ret : RetSig} (harray : ret.hasArray = false) (h : ret.encode = some bytes) :
    RetBytes bytes := by
  cases ret with
  | void =>
    obtain rfl := Option.some.inj h
    rw [RetBytes, if_pos rfl]
  | value param =>
    obtain ⟨hbytes, -, hvoid⟩ := paramBytes_of_encode harray h
    obtain ⟨b, rest, rfl⟩ := List.exists_cons_of_ne_nil hbytes.ne_nil
    rw [RetBytes, if_neg]
    · exact hbytes
    · exact fun h => hvoid (congrArg some h)

/-! ## The slices -/

/-- The bytes of an argument. -/
def FunctionMethodArgument.slice (mem : ℕ → UInt8) (arg : FunctionMethodArgument) : List UInt8 :=
  seg mem arg.offset (arg.offset + arg.length)

/-- The arguments lie one behind the other, from `start` to `stop`. -/
def Consecutive : ℕ → List FunctionMethodArgument → ℕ → Prop
  | start, [], stop => start = stop
  | start, arg :: args, stop => arg.offset = start ∧ Consecutive (start + arg.length) args stop

/-- Where the pieces lie that start at `offset`. -/
def argumentsAt : ℕ → List (List UInt8) → List FunctionMethodArgument
  | _, [] => []
  | offset, piece :: pieces => ⟨offset, piece.length⟩ :: argumentsAt (offset + piece.length) pieces

variable {offset : ℕ} {pieces : List (List UInt8)}

theorem consecutive_argumentsAt :
    Consecutive offset (argumentsAt offset pieces) (offset + pieces.flatten.length) := by
  induction pieces generalizing offset with
  | nil => rfl
  | cons piece pieces ih =>
    rw [List.flatten_cons, List.length_append, ← Nat.add_assoc]
    exact ⟨rfl, ih⟩

theorem slice_argumentsAt (h : seg mem offset (offset + pieces.flatten.length) = pieces.flatten) :
    (argumentsAt offset pieces).map (·.slice mem) = pieces := by
  induction pieces generalizing offset with
  | nil => rfl
  | cons piece pieces ih =>
    rw [List.flatten_cons, List.length_append, ← Nat.add_assoc] at h
    obtain ⟨-, hpiece, hrest⟩ := seg_eq_append h (by omega)
    rw [argumentsAt, List.map_cons, ih hrest]
    exact congrArg (· :: pieces) hpiece

theorem paramsBytes_of_encode {params : List ParamSig} {e : Bool}
    (harray : ∀ param ∈ params, param.type.hasArray = false)
    (h : params.mapM ParamSig.encode = some pieces) :
    ParamsBytes e params.length offset pieces.flatten (argumentsAt offset pieces) := by
  induction params generalizing offset pieces with
  | nil =>
    obtain rfl := Option.some.inj h
    exact .done
  | cons param params ih =>
    simp only [List.mapM_cons, Option.bind_eq_bind, Option.bind_eq_some_iff] at h
    obtain ⟨piece, hparam, pieces, hparams, ⟨⟩⟩ := h
    obtain ⟨hpiece, hsentinel, -⟩ :=
      paramBytes_of_encode (harray param List.mem_cons_self) hparam
    exact .param hsentinel hpiece
      (ih (fun param hmem => harray param (List.mem_cons_of_mem _ hmem)) hparams)

/-- The parser succeeds on the encoding of `sig`, reports its counts, and cuts the rest of it
into the encodings of its return type and of its parameters. -/
def RoundTrip (sig : MethodSig) : Prop :=
  ∀ (mem : ℕ → UInt8) (bytes : List UInt8), sig.encode = some bytes →
    seg mem 0 bytes.length = bytes →
    ∃ result : FunctionMethodSignature, Ok (tryParse bytes.length) mem 0 result bytes.length ∧
      result.numberOfTypeArguments = sig.typeArguments.getD 0 ∧
      result.numberOfArguments = sig.params.length ∧
      sig.ret.encode = some (result.ret.slice mem) ∧
      sig.params.mapM ParamSig.encode = some (result.params.map (·.slice mem)) ∧
      Consecutive result.ret.offset (result.ret :: result.params) bytes.length

theorem typeArguments_of_encode {sig : MethodSig}
    (h : encodeTypeArguments sig.typeArguments = some bytes) :
    TypeArguments sig.convention bytes (sig.typeArguments.getD 0) := by
  have hgeneric := sig.generic
  rcases htype : sig.typeArguments with _ | number
  · rw [htype] at h hgeneric
    obtain rfl := Option.some.inj h
    rw [TypeArguments, if_neg (mt hgeneric.2 (by decide))]
    exact ⟨rfl, rfl⟩
  · rw [htype] at h hgeneric
    rw [TypeArguments, if_pos (hgeneric.1 rfl)]
    exact number_of_compress h

theorem roundTrip_of_not_hasArray (sig : MethodSig) (harray : sig.hasArray = false) :
    RoundTrip sig := by
  intro mem bytes h hmem
  simp only [MethodSig.encode, Option.bind_eq_bind, Option.bind_eq_some_iff] at h
  obtain ⟨typeArguments, htype, count, hcount, ret, hret, pieces, hparams, ⟨⟩⟩ := h
  rw [MethodSig.hasArray, Bool.or_eq_false_iff, List.any_eq_false] at harray
  have hg := typeArguments_of_encode htype
  have hn := number_of_compress hcount
  have hok := SignatureBytes.mk hg hn (retBytes_of_encode harray.1 hret)
    (paramsBytes_of_encode (fun param hparam => by simpa using harray.2 param hparam) hparams)
  obtain ⟨-, -, -, -, hle2, hseg⟩ := ok_header hg hn hmem le_rfl
  obtain ⟨hle3, hslice, hrest⟩ := seg_eq_append hseg hle2
  have hend : (sig.convention :: (typeArguments ++ (count ++ (ret ++ pieces.flatten)))).length =
      1 + typeArguments.length + count.length + ret.length + pieces.flatten.length := by
    simp only [List.length_cons, List.length_append]
    omega
  refine ⟨_, ok_tryParse.2 ⟨le_rfl, hmem.symm ▸ hok⟩, rfl, rfl, ?_, ?_, rfl, ?_⟩
  · rw [FunctionMethodArgument.slice, hslice]
    exact hret
  · rw [hend] at hrest
    rw [slice_argumentsAt hrest]
    exact hparams
  · rw [hend]
    exact consecutive_argumentsAt

/-- `void M(int[,])`. -/
def arraySig : MethodSig where
  convention := 0
  typeArguments := none
  generic := by decide
  ret := .void
  params := [⟨false, .array (.simple .i4) ⟨2, [], []⟩⟩]

theorem arraySig_fails : ¬ ∀ sig : MethodSig, RoundTrip sig := by
  intro h
  obtain ⟨result, hok, -⟩ := h arraySig (fun i => [0, 1, 1, 0x14, 8, 2, 0, 0].getD i 0)
    [0, 1, 1, 0x14, 8, 2, 0, 0] (by decide) (by decide)
  have hfail : (tryParse 8 (fun i => [0, 1, 1, 0x14, 8, 2, 0, 0].getD i 0) 0).2 = .failed := by decide
  cases hok.symm.trans hfail

/-- `instance T M<T>(ref T[], List<string>)`. -/
def genericSig : MethodSig where
  convention := 0x30
  typeArguments := some 1
  generic := by decide
  ret := .value ⟨false, .mvar 0⟩
  params := [⟨true, .szArray (.mvar 0)⟩,
    ⟨false, .genericInst .class ⟨.typeRef, 300⟩ [.simple .string]⟩]

theorem genericSig_roundTrip :
    genericSig.encode = some [0x30, 1, 2, 0x1E, 0, 0x10, 0x1D, 0x1E, 0, 0x15, 0x12, 0x84, 0xB1, 1,
      0x0E] ∧ RoundTrip genericSig :=
  ⟨by decide, roundTrip_of_not_hasArray genericSig (by decide)⟩

end DdTrace.Signature
