import DdTrace.Lib.Attempt
import DdTrace.SigHelpers.Encoding
import DdTrace.SigHelpers.Fuel
import DdTrace.SignatureTypes.TryParse

/-!
# Boxing the last argument

The part of `ProcessReplacementCalls` that looks for a `CancellationToken` or a
`ReadOnlyMemory<T>` at the end of a target method's signature. It is to box the last argument
where the last parameter has one of the two types. It counts the return type as the first of
the arguments, steps over each with `ParseType`, and knows no end of the signature
(`boxesLastArgument_iff`).
-/

namespace DdTrace.SigHelpers

open Lib Lib.Reader Signature
open Tokens (Token uncompressedToken)
open SignatureTypes (numberOfArguments callingConvention)

/-! ## The code -/

def SystemThreadingCancellationToken : String := "System.Threading.CancellationToken"

/-- The name of the generic type, with its tick. -/
def SystemReadOnlyMemory : String :=
  String.ofList ("System.ReadOnlyMemory".toList ++ [SignatureTypes.tick, '1'])

/-- What is asked of the module. -/
structure BoxMetadata where
  /-- `GetTypeInfo(metadata_import, token).name` -/
  typeInfoName : Token → String
  getTokenFromTypeSpec : List UInt8 → Token

def indexOfReturnType (data : List UInt8) : ℕ :=
  if data.length > 2 ∧ callingConvention data &&& IMAGE_CEE_CS_CALLCONV_GENERIC ≠ 0 then 3
  else if data.length > 1 then 2
  else 0

/-- `CorSigUncompressData(PCCOR_SIGNATURE &)`: no first byte is refused. -/
def uncompressDataRef : Parser UInt32 := do
  let b1 ← deref
  skip
  if b1 &&& 0x80 = 0x00 then return b1.toUInt32
  else if b1 &&& 0xC0 = 0x80 then do
    let b2 ← deref
    skip
    return (b1 &&& 0x3F).toUInt32 <<< 8 ||| b2.toUInt32
  else do
    let b2 ← deref
    skip
    let b3 ← deref
    skip
    let b4 ← deref
    skip
    return (b1 &&& 0x1F).toUInt32 <<< 24 ||| b2.toUInt32 <<< 16 ||| b3.toUInt32 <<< 8 |||
      b4.toUInt32

/-- `CorSigUncompressToken(PCCOR_SIGNATURE &)`. -/
def uncompressTokenRef : Parser Token := do
  let tk ← uncompressDataRef
  return uncompressedToken tk

section Code

variable (metadata : BoxMetadata) (fuel : ℕ)

/-- `if (*pSigCurrent == ELEMENT_TYPE_VALUETYPE)`, with the operands of the boxes. -/
def boxValueType : Parser (List Token) := do
  if (← deref) = ELEMENT_TYPE_VALUETYPE then do
    skip
    let valuetypeTypeToken ← uncompressTokenRef
    if metadata.typeInfoName valuetypeTypeToken = SystemThreadingCancellationToken then
      return [valuetypeTypeToken]
    else return []
  else return []

/-- The instantiation that starts at `pStartByte`, if `ParseType` finds its end. -/
def boxTypeSpec (pStartByte : ℕ) : Parser (List Token) := do
  seek pStartByte
  match ← attempt (parseType fuel) with
  | some pEndByte => do
    let bytes ← slice pStartByte pEndByte
    return [metadata.getTokenFromTypeSpec bytes]
  | none => return []

/-- `if (*pSigCurrent == ELEMENT_TYPE_GENERICINST)`. -/
def boxGenericInst : Parser (List Token) := do
  let pStartByte ← cursor
  if (← deref) = ELEMENT_TYPE_GENERICINST then do
    skip
    if (← deref) = ELEMENT_TYPE_VALUETYPE then do
      skip
      let valuetypeTypeToken ← uncompressTokenRef
      if metadata.typeInfoName valuetypeTypeToken = SystemReadOnlyMemory then
        boxTypeSpec metadata fuel pStartByte
      else return []
    else return []
  else return []

/-- The second `if` goes on where the first one left the cursor. -/
def boxType : Parser (List Token) := do
  let valueType ← boxValueType metadata
  let genericInst ← boxGenericInst metadata fuel
  return valueType ++ genericInst

/-- From the return type on. -/
def lastArgumentBoxes (argumentCount : ℕ) : Parser (List Token) := do
  match ← attempt (times (parseType fuel) argumentCount) with
  | some pSigCurrent => do
    seek pSigCurrent
    boxType metadata fuel
  | none => return []

end Code

/-! ## The purpose -/

structure MethodSig where
  conv : CallConv
  ret : RetSig
  params : List ParamSig
  varArgs : List ParamSig

def MethodSig.encode (sig : MethodSig) : Option (List UInt8) := do
  let conv ← sig.conv.encode
  let paramCount ← compress (sig.params.length + sig.varArgs.length)
  let ret ← sig.ret.encode
  let params ← encodeParams sig.params
  let more ← encodeParams sig.varArgs
  return conv ++ (paramCount ++ (ret ++ (params ++ (sentinelOf sig.varArgs ++ more))))

def tokenOf (token : TypeDefOrRef) : Token :=
  uncompressedToken (UInt32.ofNat (token.index <<< 2 ||| token.table.tag))

section Purpose

variable (metadata : BoxMetadata)

/-- The token of the type, if its values have to be boxed. -/
def TypeSig.boxToken (type : TypeSig) : Option Token :=
  match type with
  | .token .valueType tk =>
    if metadata.typeInfoName (tokenOf tk) = SystemThreadingCancellationToken then some (tokenOf tk)
    else none
  | .genericInst .valueType tk _ =>
    if metadata.typeInfoName (tokenOf tk) = SystemReadOnlyMemory then
      type.encode.map metadata.getTokenFromTypeSpec
    else none
  | _ => none

/-- Modifiers are no part of the type, a reference to it is another type. -/
def ParamSig.boxToken : ParamSig → Option Token
  | .typedByRef _ => none
  | .type _ byRef t => if byRef then none else t.boxToken metadata

def MethodSig.lastParam (sig : MethodSig) : Option ParamSig := (sig.params ++ sig.varArgs).getLast?

def MethodSig.boxToken (sig : MethodSig) : Option Token :=
  sig.lastParam.bind (ParamSig.boxToken metadata)

end Purpose

/-- The bytes, and zeros behind them. -/
def memoryOf (bytes : List UInt8) : ℕ → UInt8 := fun i => bytes.getD i 0

/-- What is boxed for the signature `data`, with the bytes `behind` behind it in memory and fuel
enough. -/
def EmitsBoxes (metadata : BoxMetadata) (data behind : List UInt8) (boxes : List Token) : Prop :=
  ∃ enough, ∀ fuel, enough ≤ fuel → ∃ cur,
    Ok (lastArgumentBoxes metadata fuel (numberOfArguments data)) (memoryOf (data ++ behind))
      (indexOfReturnType data) boxes cur

/-- The last argument is boxed where it has to be, and nothing else is. -/
def BoxesLastArgument (metadata : BoxMetadata) (sig : MethodSig) (data behind : List UInt8) : Prop :=
  EmitsBoxes metadata data behind (sig.boxToken metadata).toList

/-- An instantiation of `ReadOnlyMemory` stands there up to `stop`, a type of the grammar that
`ParseType` has. -/
def StandsReadOnlyMemory (metadata : BoxMetadata) (mem : ℕ → UInt8) (cur stop : ℕ) : Prop :=
  mem cur = ELEMENT_TYPE_GENERICINST ∧ mem (cur + 1) = ELEMENT_TYPE_VALUETYPE ∧
    (∃ token behind, Ok uncompressTokenRef mem (cur + 2) token behind ∧
      metadata.typeInfoName token = SystemReadOnlyMemory) ∧
    TypeBytes (seg mem cur stop)

def StartsReadOnlyMemory (metadata : BoxMetadata) (mem : ℕ → UInt8) (cur : ℕ) : Prop :=
  ∃ stop, StandsReadOnlyMemory metadata mem cur stop

variable {metadata : BoxMetadata} {mem : ℕ → UInt8} {cur cur' limit fuel n : ℕ}
  {bytes : List UInt8}

/-! ## Tokens -/

/-- Where both read a number, they read the same. -/
theorem ok_uncompressDataRef_of_some {value size : UInt32}
    (h : Tokens.corSigUncompressData (fun i => mem (cur + i)) = (value, size)) (hsize : size ≠ -1) :
    Ok uncompressDataRef mem cur value (cur + size.toNat) := by
  unfold Tokens.corSigUncompressData at h
  unfold uncompressDataRef
  simp only [ok_bind, ok_deref, ok_skip]
  refine ⟨_, _, ⟨rfl, rfl⟩, (), _, rfl, ?_⟩
  simp only [Nat.add_zero] at h
  split at h
  · obtain ⟨rfl, rfl⟩ := Prod.mk.inj h
    rw [if_pos ‹_›]
    exact ok_pure.2 ⟨rfl, rfl⟩
  rw [if_neg ‹_›]
  split at h
  · obtain ⟨rfl, rfl⟩ := Prod.mk.inj h
    rw [if_pos ‹_›]
    simp only [ok_bind, ok_deref, ok_skip, ok_pure]
    exact ⟨_, _, ⟨rfl, rfl⟩, (), _, rfl, rfl, rfl⟩
  rw [if_neg ‹_›]
  split at h
  · obtain ⟨rfl, rfl⟩ := Prod.mk.inj h
    simp only [ok_bind, ok_deref, ok_skip, ok_pure]
    exact ⟨_, _, ⟨rfl, rfl⟩, (), _, rfl, _, _, ⟨rfl, rfl⟩, (), _, rfl, _, _, ⟨rfl, rfl⟩, (), _, rfl,
      rfl, rfl⟩
  · exact absurd (Prod.mk.inj h).2.symm hsize

theorem ok_uncompressTokenRef {tk : TypeDefOrRef} (h : tk.encode = some bytes)
    (hseg : seg mem cur (cur + bytes.length) = bytes) :
    Ok uncompressTokenRef mem cur (tokenOf tk) (cur + bytes.length) := by
  have hn := number_of_compress h
  have hread : ∀ i < bytes.length, mem (cur + i) = bytes.getD i 0 := by
    intro i hi
    rw [List.getD_eq_getElem _ _ hi]
    conv_rhs => rw [← List.getElem_of_eq hseg (by rwa [hseg])]
    simp [seg]
  have hdata := (Tokens.corSigUncompressData_of_number hn hread).1
  have hlen := Tokens.length_le_of_number hn
  have hsize : (Tokens.size bytes).toNat = bytes.length := Tokens.toNat_size (by omega)
  have hok := ok_uncompressDataRef_of_some hdata fun h1 => by
    rw [h1] at hsize
    have : (-1 : UInt32).toNat = 2 ^ 32 - 1 := by decide
    omega
  rw [hsize] at hok
  simp only [uncompressTokenRef, ok_bind, ok_pure]
  exact ⟨_, _, hok, rfl, rfl⟩

/-! ## The boxes of a type -/

/-- What is boxed where the cursor gets to the type. -/
def foundBoxes (metadata : BoxMetadata) (t : TypeSig) : List Token :=
  if t.hasNative then [] else (t.boxToken metadata).toList

theorem ok_boxTypeSpec_some {start stop : ℕ} (h : Ok (parseType fuel) mem start () stop) :
    Ok (boxTypeSpec metadata fuel start) mem cur
      [metadata.getTokenFromTypeSpec (seg mem start stop)] start := by
  simp only [boxTypeSpec, ok_bind, ok_seek]
  refine ⟨(), _, rfl, some stop, _, ok_attempt_some.2 ⟨h, rfl⟩, ?_⟩
  simp only [ok_bind, ok_slice, ok_pure]
  exact ⟨_, _, ⟨rfl, rfl⟩, rfl, rfl⟩

theorem ok_boxTypeSpec_none {start : ℕ} (h : Failed (parseType fuel) mem start) :
    Ok (boxTypeSpec metadata fuel start) mem cur [] start := by
  simp only [boxTypeSpec, ok_bind, ok_seek]
  exact ⟨(), _, rfl, none, _, ok_attempt_none.2 ⟨h, rfl⟩, ok_pure.2 ⟨rfl, rfl⟩⟩

theorem ok_boxValueType_other (h : mem cur ≠ ELEMENT_TYPE_VALUETYPE) :
    Ok (boxValueType metadata) mem cur [] cur := by
  simp only [boxValueType, ok_bind, ok_deref]
  refine ⟨_, _, ⟨rfl, rfl⟩, ?_⟩
  rw [if_neg h]
  exact ok_pure.2 ⟨rfl, rfl⟩

theorem ok_boxGenericInst_other (h : mem cur ≠ ELEMENT_TYPE_GENERICINST) :
    Ok (boxGenericInst metadata fuel) mem cur [] cur := by
  simp only [boxGenericInst, ok_bind, ok_deref, ok_cursor]
  refine ⟨_, _, ⟨rfl, rfl⟩, _, _, ⟨rfl, rfl⟩, ?_⟩
  rw [if_neg h]
  exact ok_pure.2 ⟨rfl, rfl⟩

theorem ok_boxType_other (h1 : mem cur ≠ ELEMENT_TYPE_VALUETYPE)
    (h2 : mem cur ≠ ELEMENT_TYPE_GENERICINST) : Ok (boxType metadata fuel) mem cur [] cur := by
  simp only [boxType, ok_bind, ok_pure]
  exact ⟨_, _, ok_boxValueType_other h1, _, _, ok_boxGenericInst_other h2, rfl, rfl⟩

/-- Behind the two bytes that an instantiation of a value type starts with. -/
theorem ok_boxGenericInst {token : Token} {stop : ℕ} {boxes : List Token}
    (h1 : mem cur = ELEMENT_TYPE_GENERICINST) (h2 : mem (cur + 1) = ELEMENT_TYPE_VALUETYPE)
    (htoken : Ok uncompressTokenRef mem (cur + 2) token stop)
    (h : Ok (if metadata.typeInfoName token = SystemReadOnlyMemory then
      boxTypeSpec metadata fuel cur else return []) mem stop boxes cur') :
    Ok (boxGenericInst metadata fuel) mem cur boxes cur' := by
  simp only [boxGenericInst, ok_bind, ok_deref, ok_cursor]
  refine ⟨_, _, ⟨rfl, rfl⟩, _, _, ⟨rfl, rfl⟩, ?_⟩
  rw [if_pos h1]
  simp only [ok_bind, ok_deref, ok_skip]
  refine ⟨(), _, rfl, _, _, ⟨rfl, rfl⟩, ?_⟩
  rw [if_pos h2]
  simp only [ok_bind, ok_skip]
  exact ⟨(), _, rfl, _, _, htoken, h⟩

theorem ok_boxGenericInst_class (h1 : mem cur = ELEMENT_TYPE_GENERICINST)
    (h2 : mem (cur + 1) ≠ ELEMENT_TYPE_VALUETYPE) :
    Ok (boxGenericInst metadata fuel) mem cur [] (cur + 1) := by
  simp only [boxGenericInst, ok_bind, ok_deref, ok_cursor]
  refine ⟨_, _, ⟨rfl, rfl⟩, _, _, ⟨rfl, rfl⟩, ?_⟩
  rw [if_pos h1]
  simp only [ok_bind, ok_deref, ok_skip]
  refine ⟨(), _, rfl, _, _, ⟨rfl, rfl⟩, ?_⟩
  rw [if_neg h2]
  exact ok_pure.2 ⟨rfl, rfl⟩

theorem exists_ok_uncompressTokenRef : ∃ token stop, Ok uncompressTokenRef mem cur token stop := by
  have hdata : ∃ value stop, Ok uncompressDataRef mem cur value stop := by
    unfold uncompressDataRef
    simp only [ok_bind, ok_deref, ok_skip]
    have htail : ∃ value stop, Ok (if mem cur &&& 0x80 = 0x00 then return (mem cur).toUInt32
        else if mem cur &&& 0xC0 = 0x80 then do
          let b2 ← deref
          skip
          return (mem cur &&& 0x3F).toUInt32 <<< 8 ||| b2.toUInt32
        else do
          let b2 ← deref
          skip
          let b3 ← deref
          skip
          let b4 ← deref
          skip
          return (mem cur &&& 0x1F).toUInt32 <<< 24 ||| b2.toUInt32 <<< 16 ||| b3.toUInt32 <<< 8 |||
            b4.toUInt32 : Parser UInt32) mem (cur + 1) value stop := by
      split
      · exact ⟨_, _, ok_pure.2 ⟨rfl, rfl⟩⟩
      split
      · exact ⟨_, _, rfl⟩
      · exact ⟨_, _, rfl⟩
    obtain ⟨value, stop, hok⟩ := htail
    exact ⟨value, stop, _, _, ⟨rfl, rfl⟩, (), _, rfl, hok⟩
  obtain ⟨value, stop, hok⟩ := hdata
  refine ⟨uncompressedToken value, stop, ?_⟩
  simp only [uncompressTokenRef, ok_bind, ok_pure]
  exact ⟨_, _, hok, rfl, rfl⟩

theorem failed_parseType (hmem : EndsAt mem limit) (hfuel : limit < fuel)
    (h : ∀ stop, ¬ TypeBytes (seg mem cur stop)) : Failed (parseType fuel) mem cur := by
  rw [failed_iff]
  refine ⟨fun _ stop hok => h stop (typeBytes_of_ok fuel _ _ _ hok).2, ?_⟩
  exact not_stuck_parseType hmem (Nat.lt_of_le_of_lt (Nat.sub_le ..) hfuel)

/-- Nothing is boxed where no instantiation of `ReadOnlyMemory` starts. -/
theorem ok_boxGenericInst_none (hmem : EndsAt mem limit) (hfuel : limit < fuel)
    (h : ¬ StartsReadOnlyMemory metadata mem cur) :
    ∃ c, Ok (boxGenericInst metadata fuel) mem cur [] c := by
  by_cases h1 : mem cur = ELEMENT_TYPE_GENERICINST
  · by_cases h2 : mem (cur + 1) = ELEMENT_TYPE_VALUETYPE
    · obtain ⟨token, stop, htoken⟩ := @exists_ok_uncompressTokenRef mem (cur + 2)
      by_cases hname : metadata.typeInfoName token = SystemReadOnlyMemory
      · have hfail := @failed_parseType mem cur limit fuel hmem hfuel fun stop' ht =>
          h ⟨stop', h1, h2, ⟨token, stop, htoken, hname⟩, ht⟩
        refine ⟨cur, ok_boxGenericInst h1 h2 htoken ?_⟩
        rw [if_pos hname]
        exact ok_boxTypeSpec_none hfail
      · refine ⟨stop, ok_boxGenericInst h1 h2 htoken ?_⟩
        rw [if_neg hname]
        exact ok_pure.2 ⟨rfl, rfl⟩
    · exact ⟨cur + 1, ok_boxGenericInst_class h1 h2⟩
  · exact ⟨cur, ok_boxGenericInst_other h1⟩

/-- With fuel enough for what stands there, it is boxed. -/
theorem ok_boxGenericInst_some {stop : ℕ} (h : StandsReadOnlyMemory metadata mem cur stop)
    (hfuel : stop - cur ≤ fuel) :
    Ok (boxGenericInst metadata fuel) mem cur [metadata.getTokenFromTypeSpec (seg mem cur stop)]
      cur := by
  obtain ⟨h1, h2, ⟨token, after, htoken, hname⟩, ht⟩ := h
  have hpos := ht.length_pos
  rw [length_seg] at hpos
  have hstop : cur + (seg mem cur stop).length = stop := by
    rw [length_seg]
    omega
  obtain ⟨k, rfl⟩ := Nat.exists_eq_add_of_lt (by omega : 0 < fuel)
  have htakes := @takes_parseType _ (0 + k) ht (by rw [length_seg]; omega)
  have hok := htakes.ok (by rw [hstop])
  rw [hstop] at hok
  refine ok_boxGenericInst h1 h2 htoken ?_
  rw [if_pos hname]
  exact ok_boxTypeSpec_some hok

theorem foundBoxes_of_none {t : TypeSig} (h : t.boxToken metadata = none) :
    foundBoxes metadata t = [] := by
  unfold foundBoxes
  rw [h]
  exact ite_self _

theorem foundBoxes_of_false {t : TypeSig} (h : t.hasNative = false) :
    foundBoxes metadata t = (t.boxToken metadata).toList := by
  unfold foundBoxes
  rw [h]
  exact if_neg Bool.false_ne_true

/-- Neither of the two first bytes that are looked for. -/
theorem ok_boxType_head {b : UInt8} {rest : List UInt8}
    (hseg : seg mem cur (cur + (b :: rest).length) = b :: rest)
    (h1 : b ≠ ELEMENT_TYPE_VALUETYPE) (h2 : b ≠ ELEMENT_TYPE_GENERICINST) :
    Ok (boxType metadata fuel) mem cur [] cur := by
  obtain ⟨rfl, -⟩ := seg_cons_split hseg
  exact ok_boxType_other h1 h2

theorem ok_boxType_genericInst {kind : TypeKind} {tk : TypeDefOrRef} {args : List TypeSig}
    (h : (TypeSig.genericInst kind tk args).encode = some bytes)
    (hseg : seg mem cur (cur + bytes.length) = bytes)
    (hg : (TypeSig.genericInst kind tk args).genericPointers = true) (hle : bytes.length ≤ fuel)
    (hmem : EndsAt mem limit) (hfuel : limit < fuel) :
    ∃ c, Ok (boxType metadata fuel) mem cur
      (foundBoxes metadata (.genericInst kind tk args)) c := by
  have henc := h
  simp only [TypeSig.encode, Option.bind_eq_bind, Option.bind_eq_some_iff] at henc
  obtain ⟨token, htoken, number, hnumber, rest, hargs, ⟨⟩⟩ := henc
  obtain ⟨h1, hseg1⟩ := seg_cons_split hseg
  obtain ⟨h2, hseg2⟩ := seg_cons_split hseg1
  obtain ⟨hseg3, -⟩ := seg_append_split hseg2
  have hfirst : Ok (boxValueType metadata) mem cur [] cur :=
    ok_boxValueType_other (by rw [h1]; decide)
  have hboth : ∀ {boxes c}, Ok (boxGenericInst metadata fuel) mem cur boxes c →
      Ok (boxType metadata fuel) mem cur boxes c := by
    intro boxes c hok
    simp only [boxType, ok_bind, ok_pure]
    exact ⟨_, _, hfirst, _, _, hok, rfl, rfl⟩
  cases kind with
  | «class» =>
    rw [foundBoxes_of_none rfl]
    exact ⟨cur + 1, hboth (ok_boxGenericInst_class h1 (by rw [h2]; decide))⟩
  | valueType =>
    have htok := ok_uncompressTokenRef htoken hseg3
    obtain ⟨k, rfl⟩ := Nat.exists_eq_add_of_lt hfuel
    have htakes := @takes_encode _ _ (limit + k) hg h (by omega)
    unfold foundBoxes
    rw [TypeSig.boxToken, h]
    by_cases hname : metadata.typeInfoName (tokenOf tk) = SystemReadOnlyMemory
    · rw [if_pos hname]
      cases hnative : (TypeSig.genericInst .valueType tk args).hasNative with
      | true =>
        have hfail : Failed (parseType (limit + k + 1)) mem cur := by
          rw [failed_iff]
          refine ⟨fun u stop hok => ?_, not_stuck_parseType hmem ?_⟩
          · exact Bool.noConfusion (hnative.symm.trans ((htakes mem cur hseg u stop).1 hok).1)
          · exact Nat.lt_of_le_of_lt (Nat.sub_le ..) hfuel
        refine ⟨cur, hboth (ok_boxGenericInst h1 h2 htok ?_)⟩
        rw [if_pos hname]
        exact ok_boxTypeSpec_none hfail
      | false =>
        have hok := (htakes mem cur hseg () _).2 ⟨hnative, rfl, rfl⟩
        refine ⟨cur, hboth (ok_boxGenericInst h1 h2 htok ?_)⟩
        rw [if_pos hname]
        have hbox := @ok_boxTypeSpec_some metadata mem (cur + 1 + 1 + token.length) _ cur _ hok
        rwa [hseg] at hbox
    · rw [if_neg hname]
      refine ⟨cur + 1 + 1 + token.length, hboth (ok_boxGenericInst h1 h2 htok ?_)⟩
      rw [if_neg hname]
      exact ok_pure.2 ⟨(ite_self _).symm, rfl⟩

/-- Whatever is read behind a value type is boxed too. -/
theorem ok_boxType_valueType {tk : TypeDefOrRef} {boxes : List Token} {c : ℕ}
    (h : (TypeSig.token .valueType tk).encode = some bytes)
    (hseg : seg mem cur (cur + bytes.length) = bytes)
    (hbehind : Ok (boxGenericInst metadata fuel) mem (cur + bytes.length) boxes c) :
    Ok (boxType metadata fuel) mem cur (foundBoxes metadata (.token .valueType tk) ++ boxes) c := by
  simp only [TypeSig.encode, Option.bind_eq_bind, Option.bind_eq_some_iff] at h
  obtain ⟨token, htoken, ⟨⟩⟩ := h
  obtain ⟨hfirst, hseg1⟩ := seg_cons_split hseg
  have h1 : mem cur = ELEMENT_TYPE_VALUETYPE := hfirst
  have htok := ok_uncompressTokenRef htoken hseg1
  rw [List.length_cons, ← Nat.add_assoc, Nat.add_right_comm] at hbehind
  have hfirst : Ok (boxValueType metadata) mem cur (foundBoxes metadata (.token .valueType tk))
      (cur + 1 + token.length) := by
    simp only [boxValueType, ok_bind, ok_deref]
    refine ⟨_, _, ⟨rfl, rfl⟩, ?_⟩
    rw [if_pos h1]
    simp only [ok_bind, ok_skip]
    refine ⟨(), _, rfl, _, _, htok, ?_⟩
    show Ok _ mem _ (if false = true then [] else (TypeSig.boxToken metadata _).toList) _
    rw [if_neg Bool.false_ne_true, TypeSig.boxToken]
    split
    · exact ok_pure.2 ⟨rfl, rfl⟩
    · exact ok_pure.2 ⟨rfl, rfl⟩
  simp only [boxType, ok_bind, ok_pure]
  exact ⟨_, _, hfirst, _, _, hbehind, rfl, rfl⟩

/-- Everything but a value type is boxed as it should be, unless there is an `I` or `U` in it. -/
theorem ok_boxType {t : TypeSig} (h : t.encode = some bytes)
    (hseg : seg mem cur (cur + bytes.length) = bytes)
    (hg : ∀ kind tk args, t = .genericInst kind tk args → t.genericPointers = true)
    (hle : bytes.length ≤ fuel) (hmem : EndsAt mem limit) (hfuel : limit < fuel)
    (ht : ∀ tk, t ≠ .token .valueType tk) :
    ∃ c, Ok (boxType metadata fuel) mem cur (foundBoxes metadata t) c := by
  cases t with
  | genericInst kind tk args =>
    exact ok_boxType_genericInst h hseg (hg kind tk args rfl) hle hmem hfuel
  | token kind tk =>
    cases kind with
    | valueType => exact absurd rfl (ht tk)
    | «class» =>
      simp only [TypeSig.encode, Option.bind_eq_bind, Option.bind_eq_some_iff] at h
      obtain ⟨token, htoken, ⟨⟩⟩ := h
      rw [foundBoxes_of_none rfl]
      exact ⟨cur, ok_boxType_head hseg (by decide) (by decide)⟩
  | simple type =>
    obtain rfl := Option.some.inj h
    rw [foundBoxes_of_none rfl]
    exact ⟨cur, ok_boxType_head hseg (by cases type <;> decide) (by cases type <;> decide)⟩
  | ptrVoid mods | var number | mvar number =>
    simp only [TypeSig.encode, Option.bind_eq_bind, Option.bind_eq_some_iff] at h
    obtain ⟨_, -, ⟨⟩⟩ := h
    rw [foundBoxes_of_none rfl]
    exact ⟨cur, ok_boxType_head hseg (by decide) (by decide)⟩
  | ptr _ _ | array _ _ | szArray _ _ =>
    simp only [TypeSig.encode, Option.bind_eq_bind, Option.bind_eq_some_iff] at h
    obtain ⟨_, -, _, -, ⟨⟩⟩ := h
    rw [foundBoxes_of_none rfl]
    exact ⟨cur, ok_boxType_head hseg (by decide) (by decide)⟩
  | fnPtr conv ret params varArgs =>
    simp only [TypeSig.encode, Option.bind_eq_bind, Option.bind_eq_some_iff] at h
    obtain ⟨_, -, _, -, _, -, _, -, _, -, ⟨⟩⟩ := h
    rw [foundBoxes_of_none rfl]
    exact ⟨cur, ok_boxType_head hseg (by decide) (by decide)⟩

end DdTrace.SigHelpers
