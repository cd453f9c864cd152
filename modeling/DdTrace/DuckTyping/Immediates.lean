import DdTrace.DuckTyping.MethodIlHelper
import DdTrace.Native.ImportIL
import Mathlib.Tactic.IntervalCases

/-!
# The bytes of immediates

The helpers of `ILHelpersExtensions.cs` that load a constant or access an argument or a local, and
their siblings of `IntegrationMapper.cs`, by the bytes that their one `Emit` puts in the stream.
`Emit(OpCode, int)` writes four bytes for the operand, also behind an opcode that takes one.
-/

namespace DdTrace.DuckTyping

open DdTrace.Lib DdTrace.Native

variable {first withOperand opcode n : ℕ} {code : List UInt8} {arg value : Int32}

/-! ### ILGenerator -/

/-- `Emit(OpCode)`, for an opcode of one byte. -/
def ilEmit (opcode : OPCODE) : List UInt8 := [UInt8.ofNat opcode]

/-- `Emit(OpCode, int)`, for an opcode of one byte. -/
def ilEmitInt (opcode : OPCODE) (arg : Int32) : List UInt8 :=
  UInt8.ofNat opcode :: littleEndian 4 arg.toUInt32.toNat

/-! ### ILHelpersExtensions.cs -/

namespace ILHelpersExtensions

/-- The `switch` of the helpers: four forms in a row for the first indices, and one that takes
the index as its operand. -/
def writeIndex (first withOperand : OPCODE) (index : Int32) : List UInt8 :=
  if 0 ≤ index ∧ index ≤ 3 then ilEmit (first + index.toNatClampNeg)
  else ilEmitInt withOperand index

def writeLoadArgument (index : Int32) (isStatic : Bool) : List UInt8 :=
  let index := if isStatic then index else index + 1
  writeIndex CEE_LDARG_0 CEE_LDARG_S index

/-- The overload for an `ILGenerator` has the same body. -/
def writeLoadLocal (index : Int32) : List UInt8 := writeIndex CEE_LDLOC_0 CEE_LDLOC_S index

def writeStoreLocal (index : Int32) : List UInt8 := writeIndex CEE_STLOC_0 CEE_STLOC_S index

/-- `Ldc_I4_M1` to `Ldc_I4_8` lie in a row. -/
def writeInt (value : Int32) : List UInt8 :=
  if -1 ≤ value ∧ value ≤ 8 then ilEmit (CEE_LDC_I4_0 + value.toInt).toNat
  else if -128 ≤ value ∧ value ≤ 127 then ilEmitInt CEE_LDC_I4_S value
  else ilEmitInt CEE_LDC_I4 value

end ILHelpersExtensions

/-! ### IntegrationMapper.cs -/

namespace IntegrationMapper

def writeIntValue (value : Int32) : List UInt8 :=
  if 0 ≤ value ∧ value ≤ 8 then ilEmit (CEE_LDC_I4_0 + value.toInt).toNat
  else ilEmitInt CEE_LDC_I4 value

def writeLoadArgument (index : Int32) (isStatic : Bool) : List UInt8 :=
  ILHelpersExtensions.writeLoadArgument index isStatic

end IntegrationMapper

/-! ### What an instruction does with its immediate -/

inductive Immediate where
  | constant (value : Int32)
  | loadArgument (index : ℕ)
  | loadLocal (index : ℕ)
  | storeLocal (index : ℕ)
  deriving DecidableEq

def immediate (i : ILInstr) : Option Immediate :=
  let op := i.opcode
  let arg := i.operand.bits
  if CEE_LDARG_0 ≤ op ∧ op ≤ CEE_LDARG_3 then some (.loadArgument (op - CEE_LDARG_0))
  else if op = CEE_LDARG_S ∨ op = CEE_LDARG then some (.loadArgument arg)
  else if CEE_LDLOC_0 ≤ op ∧ op ≤ CEE_LDLOC_3 then some (.loadLocal (op - CEE_LDLOC_0))
  else if op = CEE_LDLOC_S ∨ op = CEE_LDLOC then some (.loadLocal arg)
  else if CEE_STLOC_0 ≤ op ∧ op ≤ CEE_STLOC_3 then some (.storeLocal (op - CEE_STLOC_0))
  else if op = CEE_STLOC_S ∨ op = CEE_STLOC then some (.storeLocal arg)
  else if CEE_LDC_I4_M1 ≤ op ∧ op ≤ CEE_LDC_I4_8 then
    some (.constant (.ofInt (op - CEE_LDC_I4_0)))
  -- the operand is a signed byte
  else if op = CEE_LDC_I4_S then some (.constant (UInt8.ofNat arg).toInt8.toInt32)
  else if op = CEE_LDC_I4 then some (.constant (UInt32.ofNat arg).toInt32)
  else none

/-- Wherever the bytes stand in a stream, they are one instruction, with this immediate. -/
def DecodesTo (code : List UInt8) (m : Immediate) : Prop :=
  ∃ i, immediate i = some m ∧ ∀ codeSize rest,
    importIL codeSize (code ++ rest) = (importIL codeSize rest).map (i :: ·)

/-- So too, but with nothing or `nop`s behind the instruction. -/
def DecodesUpToNops (code : List UInt8) (m : Immediate) : Prop :=
  ∃ i n, immediate i = some m ∧ ∀ codeSize rest,
    importIL codeSize (code ++ rest) =
      (importIL codeSize rest).map (i :: List.replicate n ⟨CEE_NOP, .arg 0⟩ ++ ·)

theorem DecodesTo.upToNops {m : Immediate} (h : DecodesTo code m) : DecodesUpToNops code m := by
  obtain ⟨i, hi, himport⟩ := h
  exact ⟨i, 0, hi, himport⟩

/-! ### The forms -/

theorem toNat_ofNat_opcode (hlt : opcode < CEE_PREFIX7) : (UInt8.ofNat opcode).toNat = opcode := by
  have : opcode < 0xF8 := hlt
  rw [UInt8.toNat_ofNat']
  omega

/-- An opcode without an operand. -/
theorem decodesTo_ilEmit {m : Immediate} (hlt : opcode < CEE_PREFIX7)
    (hflags : s_OpCodeFlags opcode = .none) (hm : immediate ⟨opcode, .arg 0⟩ = some m) :
    DecodesTo (ilEmit opcode) m := by
  have hbyte := toNat_ofNat_opcode hlt
  refine ⟨⟨opcode, .arg 0⟩, hm, fun codeSize rest => ?_⟩
  have hinstr := @importInstr_none codeSize (UInt8.ofNat opcode) rest
    (by rwa [hbyte]) (by rwa [hbyte])
  rw [hbyte] at hinstr
  exact importIL_of_ok hinstr

/-- An opcode with an operand of four bytes. -/
theorem decodesTo_ilEmitInt {m : Immediate} (hlt : opcode < CEE_PREFIX7)
    (hflags : s_OpCodeFlags opcode = .arg32)
    (hm : immediate ⟨opcode, .arg arg.toUInt32.toNat⟩ = some m) :
    DecodesTo (ilEmitInt opcode arg) m := by
  have hbyte := toNat_ofNat_opcode hlt
  refine ⟨_, hm, fun codeSize rest => ?_⟩
  have hinstr := @importInstr_arg32 codeSize (UInt8.ofNat opcode) rest _
    (by rwa [hbyte]) (by rwa [hbyte]) arg.toUInt32.toNat_lt
  rw [hbyte] at hinstr
  exact importIL_of_ok hinstr

/-- The four bytes behind an opcode that takes one: it takes the lowest. -/
theorem importIL_ilEmitInt {codeSize : ℕ} (hlt : opcode < CEE_PREFIX7)
    (hflags : s_OpCodeFlags opcode = .arg8) :
    importIL codeSize (ilEmitInt opcode arg) =
      (importIL codeSize (littleEndian 3 (arg.toUInt32.toNat / 256))).map
        (⟨opcode, .arg (arg.toUInt32.toNat % 256)⟩ :: ·) := by
  have hbyte := toNat_ofNat_opcode hlt
  have hinstr := @importInstr_arg8 codeSize (UInt8.ofNat opcode)
    (littleEndian 3 (arg.toUInt32.toNat / 256)) (UInt8.ofNat arg.toUInt32.toNat)
    (by rwa [hbyte]) (by rwa [hbyte])
  rw [hbyte, UInt8.toNat_ofNat'] at hinstr
  exact importIL_of_ok hinstr

/-- The three bytes that are left are not nothing. -/
theorem not_decodesTo_ilEmitInt {m : Immediate} (hlt : opcode < CEE_PREFIX7)
    (hflags : s_OpCodeFlags opcode = .arg8) : ¬ DecodesTo (ilEmitInt opcode arg) m := by
  rintro ⟨i, -, himport⟩
  have hcode := himport 0 []
  rw [List.append_nil, importIL_ilEmitInt hlt hflags, importIL_nil] at hcode
  cases hrest : importIL 0 (littleEndian 3 (arg.toUInt32.toNat / 256)) with
  | error hr =>
    rw [hrest] at hcode
    cases hcode
  | ok is =>
    rw [hrest] at hcode
    simp only [Except.map, Except.ok.injEq, List.cons.injEq] at hcode
    exact importIL_ne_nil (List.cons_ne_nil _ _) hrest hcode.2

/-- It is right when the operand fits into its byte: then the other three are zero. -/
theorem upToNops_ilEmitInt_iff {m : Immediate} (hlt : opcode < CEE_PREFIX7)
    (hflags : s_OpCodeFlags opcode = .arg8) :
    DecodesUpToNops (ilEmitInt opcode arg) m ↔
      arg.toUInt32.toNat < 256 ∧ immediate ⟨opcode, .arg arg.toUInt32.toNat⟩ = some m := by
  have harg := arg.toUInt32.toNat_lt
  constructor
  · rintro ⟨i, n, hi, himport⟩
    have hcode := himport 0 []
    rw [List.append_nil, importIL_ilEmitInt hlt hflags, importIL_nil] at hcode
    cases hrest : importIL 0 (littleEndian 3 (arg.toUInt32.toNat / 256)) with
    | error hr =>
      rw [hrest] at hcode
      cases hcode
    | ok is =>
      rw [hrest] at hcode
      simp only [Except.map, List.append_nil, Except.ok.injEq, List.cons.injEq] at hcode
      obtain ⟨rfl, rfl⟩ := hcode
      have hzero := eq_zero_of_importIL_nop hrest fun i hi => by rw [List.eq_of_mem_replicate hi]
      have hrest : ofLittleEndian (littleEndian 3 (arg.toUInt32.toNat / 256)) = 0 := by
        rw [List.eq_replicate_of_mem hzero, length_littleEndian]
        rfl
      rw [ofLittleEndian_littleEndian (by omega)] at hrest
      have hfits : arg.toUInt32.toNat < 256 := by omega
      rw [Nat.mod_eq_of_lt hfits] at hi
      exact ⟨hfits, hi⟩
  · rintro ⟨hfits, hi⟩
    refine ⟨_, 3, hi, fun codeSize rest => ?_⟩
    have hbyte := toNat_ofNat_opcode hlt
    have hcode : ilEmitInt opcode arg ++ rest =
        UInt8.ofNat opcode :: UInt8.ofNat arg.toUInt32.toNat :: 0 :: 0 :: 0 :: rest := by
      have hzero : arg.toUInt32.toNat / 256 = 0 := by omega
      rw [ilEmitInt, littleEndian, hzero]
      rfl
    have hnop : ∀ il, importIL codeSize (0 :: il) =
        (importIL codeSize il).map (⟨CEE_NOP, .arg 0⟩ :: ·) :=
      fun il => importIL_of_ok (importInstr_none (by decide) (by decide))
    have hinstr := @importInstr_arg8 codeSize (UInt8.ofNat opcode) (0 :: 0 :: 0 :: rest)
      (UInt8.ofNat arg.toUInt32.toNat) (by rwa [hbyte]) (by rwa [hbyte])
    rw [hbyte, UInt8.toNat_ofNat', Nat.mod_eq_of_lt hfits] at hinstr
    rw [hcode, importIL_of_ok hinstr, hnop, hnop, hnop]
    cases importIL codeSize rest <;> rfl

/-! ### The indices -/

/-- What the five opcodes of a helper are. -/
structure Forms (first withOperand : OPCODE) (m : ℕ → Immediate) : Prop where
  short : ∀ n ≤ 3, first + n < CEE_PREFIX7 ∧ s_OpCodeFlags (first + n) = .none ∧
    immediate ⟨first + n, .arg 0⟩ = some (m n)
  long : withOperand < CEE_PREFIX7 ∧ s_OpCodeFlags withOperand = .arg8
  operand : ∀ n, immediate ⟨withOperand, .arg n⟩ = some (m n)

theorem forms_ldarg : Forms CEE_LDARG_0 CEE_LDARG_S .loadArgument where
  short n hn := by interval_cases n <;> decide
  long := by decide
  operand _ := rfl

theorem forms_ldloc : Forms CEE_LDLOC_0 CEE_LDLOC_S .loadLocal where
  short n hn := by interval_cases n <;> decide
  long := by decide
  operand _ := rfl

theorem forms_stloc : Forms CEE_STLOC_0 CEE_STLOC_S .storeLocal where
  short n hn := by interval_cases n <;> decide
  long := by decide
  operand _ := rfl

open ILHelpersExtensions

section Indices

variable {m : ℕ → Immediate}

theorem writeIndex_of_le (hn : n ≤ 3) :
    writeIndex first withOperand (.ofNat n) = ilEmit (first + n) := by
  interval_cases n <;> rfl

theorem writeIndex_of_lt (hn : 3 < n) (hlt : n < 2 ^ 31) :
    writeIndex first withOperand (.ofNat n) = ilEmitInt withOperand (.ofNat n) := by
  refine if_neg fun ⟨_, hle⟩ => ?_
  rw [Int32.le_iff_toInt_le, Int32.toInt_ofNat_of_lt hlt] at hle
  have hle : (n : ℤ) ≤ 3 := hle
  omega

theorem Forms.decodesTo_of_le (F : Forms first withOperand m) (hn : n ≤ 3) :
    DecodesTo (writeIndex first withOperand (.ofNat n)) (m n) := by
  obtain ⟨hlt, hflags, hm⟩ := F.short n hn
  rw [writeIndex_of_le hn]
  exact decodesTo_ilEmit hlt hflags hm

theorem Forms.decodesTo_iff (F : Forms first withOperand m) (hlt : n < 2 ^ 31) :
    DecodesTo (writeIndex first withOperand (.ofNat n)) (m n) ↔ n ≤ 3 := by
  refine ⟨fun h => ?_, F.decodesTo_of_le⟩
  by_contra hn
  rw [writeIndex_of_lt (Nat.lt_of_not_le hn) hlt] at h
  exact not_decodesTo_ilEmitInt F.long.1 F.long.2 h

theorem Forms.upToNops_iff (F : Forms first withOperand m) (hlt : n < 2 ^ 31) :
    DecodesUpToNops (writeIndex first withOperand (.ofNat n)) (m n) ↔ n < 256 := by
  by_cases hn : n ≤ 3
  · exact iff_of_true (F.decodesTo_of_le hn).upToNops (by omega)
  · have hnat : (Int32.ofNat n).toUInt32.toNat = n := by
      rw [Int32.toUInt32_ofNat', UInt32.toNat_ofNat_of_lt' (by simp only [UInt32.size]; omega)]
    rw [writeIndex_of_lt (Nat.lt_of_not_le hn) hlt, upToNops_ilEmitInt_iff F.long.1 F.long.2,
      hnat, F.operand n]
    exact and_iff_left rfl

end Indices

/-- The argument with the instance counted. -/
def argumentIndex (index : ℕ) (isStatic : Bool) : ℕ := if isStatic then index else index + 1

theorem writeLoadArgument_eq {index : ℕ} {isStatic : Bool} :
    writeLoadArgument (.ofNat index) isStatic =
      writeIndex CEE_LDARG_0 CEE_LDARG_S (.ofNat (argumentIndex index isStatic)) := by
  cases isStatic with
  | true => rfl
  | false =>
    show writeIndex CEE_LDARG_0 CEE_LDARG_S (.ofNat index + 1) =
      writeIndex CEE_LDARG_0 CEE_LDARG_S (.ofNat (index + 1))
    rw [Int32.ofNat_add]
    rfl

theorem argumentIndex_lt {index : ℕ} (h : index ≤ 65535) (isStatic : Bool) :
    argumentIndex index isStatic < 2 ^ 31 := by
  unfold argumentIndex
  split <;> omega

/-! ### The constants -/

theorem toInt_eq_bmod : value.toInt = (value.toUInt32.toNat : ℤ).bmod (2 ^ 32) := by
  show value.toBitVec.toInt = (value.toBitVec.toNat : ℤ).bmod (2 ^ 32)
  exact BitVec.toInt_eq_toNat_bmod _

/-- No negative value has four bytes that make a number below 256. -/
theorem toNat_toUInt32_eq (h : value.toUInt32.toNat < 256) :
    value.toInt = value.toUInt32.toNat := by
  have hmod := @toInt_eq_bmod value
  rw [Int.bmod_def] at hmod
  split at hmod <;> omega

theorem toNat_toUInt32_lt (h0 : 0 ≤ value.toInt) (h : value.toInt < 256) :
    value.toUInt32.toNat < 256 := by
  have hmod := @toInt_eq_bmod value
  have := value.toUInt32.toNat_lt
  rw [Int.bmod_def] at hmod
  split at hmod <;> omega

/-- `Ldc_I4_S` loads a value of a signed byte from its byte. -/
theorem immediate_ldcI4S (h0 : 0 ≤ value.toInt) (h : value.toInt ≤ 127) :
    immediate ⟨CEE_LDC_I4_S, .arg value.toUInt32.toNat⟩ = some (.constant value) := by
  have hnat := toNat_toUInt32_eq (toNat_toUInt32_lt h0 (by omega))
  have hbyte : (UInt8.ofNat value.toUInt32.toNat).toInt8.toInt32 = value := by
    apply Int32.toInt_inj.1
    have hbmod : (UInt8.ofNat value.toUInt32.toNat).toInt8.toInt =
        ((UInt8.ofNat value.toUInt32.toNat).toNat : ℤ).bmod (2 ^ 8) :=
      BitVec.toInt_eq_toNat_bmod _
    rw [Int8.toInt_toInt32, hbmod, UInt8.toNat_ofNat', Int.bmod_def]
    split <;> omega
  exact congrArg (fun value => some (Immediate.constant value)) hbyte

theorem immediate_ldcI4 :
    immediate ⟨CEE_LDC_I4, .arg value.toUInt32.toNat⟩ = some (.constant value) := by
  show some (Immediate.constant (UInt32.ofNat value.toUInt32.toNat).toInt32) = _
  rw [UInt32.ofNat_toNat, Int32.toInt32_toUInt32]

/-- The opcodes of the small constants. -/
theorem decodesTo_small (h0 : -1 ≤ value.toInt) (h : value.toInt ≤ 8) :
    DecodesTo (ilEmit (CEE_LDC_I4_0 + value.toInt).toNat) (.constant value) := by
  have hvalue : value = .ofInt value.toInt := (Int32.ofInt_toInt value).symm
  generalize value.toInt = i at h0 h hvalue
  subst hvalue
  interval_cases i <;> exact decodesTo_ilEmit (by decide) (by decide) (by decide)

theorem writeInt_decodesTo_iff : DecodesTo (writeInt value) (.constant value) ↔
    -1 ≤ value ∧ value ≤ 8 ∨ value < -128 ∨ 127 < value := by
  rw [writeInt]
  by_cases hsmall : -1 ≤ value ∧ value ≤ 8
  · rw [if_pos hsmall]
    refine iff_of_true (decodesTo_small ?_ ?_) (.inl hsmall)
    · exact Int32.le_iff_toInt_le.1 hsmall.1
    · exact Int32.le_iff_toInt_le.1 hsmall.2
  · rw [if_neg hsmall, or_iff_right hsmall]
    by_cases hbyte : -128 ≤ value ∧ value ≤ 127
    · rw [if_pos hbyte]
      refine iff_of_false (not_decodesTo_ilEmitInt (by decide) (by decide)) ?_
      rintro (hlow | hhigh)
      · exact absurd hbyte.1 (Int32.not_le.2 hlow)
      · exact absurd hbyte.2 (Int32.not_le.2 hhigh)
    · rw [if_neg hbyte]
      refine iff_of_true (decodesTo_ilEmitInt (by decide) (by decide) immediate_ldcI4) ?_
      by_cases hlow : -128 ≤ value
      · exact .inr (Int32.not_le.1 fun hhigh => hbyte ⟨hlow, hhigh⟩)
      · exact .inl (Int32.not_le.1 hlow)

/-- With the `nop`s let pass, what goes wrong are the negative values of a byte. -/
theorem writeInt_upToNops_iff : DecodesUpToNops (writeInt value) (.constant value) ↔
    ¬ (-128 ≤ value ∧ value < -1) := by
  by_cases hdecodes : -1 ≤ value ∧ value ≤ 8 ∨ value < -128 ∨ 127 < value
  · refine iff_of_true (writeInt_decodesTo_iff.2 hdecodes).upToNops fun ⟨hlow, hhigh⟩ => ?_
    simp only [Int32.le_iff_toInt_le, Int32.lt_iff_toInt_lt, Int32.reduceToInt] at *
    omega
  · have hrange : ¬ (-1 ≤ value ∧ value ≤ 8) ∧ (-128 ≤ value ∧ value ≤ 127) := by
      simp only [Int32.le_iff_toInt_le, Int32.lt_iff_toInt_lt, Int32.reduceToInt] at *
      omega
    rw [writeInt, if_neg hrange.1, if_pos hrange.2,
      upToNops_ilEmitInt_iff (by decide) (by decide)]
    simp only [Int32.le_iff_toInt_le, Int32.lt_iff_toInt_lt, Int32.reduceToInt] at *
    constructor
    · rintro ⟨hfits, -⟩
      have := toNat_toUInt32_eq hfits
      omega
    · intro h
      exact ⟨toNat_toUInt32_lt (by omega) (by omega), immediate_ldcI4S (by omega) (by omega)⟩

/-- The sibling that has no short form with an operand loads every constant. -/
theorem writeIntValue_decodesTo (value : Int32) :
    DecodesTo (IntegrationMapper.writeIntValue value) (.constant value) := by
  rw [IntegrationMapper.writeIntValue]
  split
  · next h =>
    simp only [Int32.le_iff_toInt_le, Int32.reduceToInt] at h
    exact decodesTo_small (by omega) h.2
  · exact decodesTo_ilEmitInt (by decide) (by decide) immediate_ldcI4

/-! ### What the bytes decode to -/

/-- The bytes are one instruction with the immediate where the form has none of the operands of
a byte. -/
theorem immediates_decode_iff (value : Int32) (index : ℕ) (isStatic : Bool) :
    (DecodesTo (writeInt value) (.constant value) ↔
      -1 ≤ value ∧ value ≤ 8 ∨ value < -128 ∨ 127 < value) ∧
    (index ≤ 65535 →
      (DecodesTo (writeLoadArgument (.ofNat index) isStatic)
        (.loadArgument (argumentIndex index isStatic)) ↔ argumentIndex index isStatic ≤ 3) ∧
      (DecodesTo (writeLoadLocal (.ofNat index)) (.loadLocal index) ↔ index ≤ 3) ∧
      (DecodesTo (writeStoreLocal (.ofNat index)) (.storeLocal index) ↔ index ≤ 3)) := by
  refine ⟨writeInt_decodesTo_iff, fun hindex => ⟨?_, forms_ldloc.decodesTo_iff (by omega),
    forms_stloc.decodesTo_iff (by omega)⟩⟩
  rw [writeLoadArgument_eq]
  exact forms_ldarg.decodesTo_iff (argumentIndex_lt hindex isStatic)

/-- With the `nop`s let pass: an index has to fit into the byte. -/
theorem indices_upToNops_iff {index : ℕ} (hindex : index ≤ 65535) :
    (∀ isStatic, DecodesUpToNops (writeLoadArgument (.ofNat index) isStatic)
      (.loadArgument (argumentIndex index isStatic)) ↔ argumentIndex index isStatic < 256) ∧
    (DecodesUpToNops (writeLoadLocal (.ofNat index)) (.loadLocal index) ↔ index < 256) ∧
    (DecodesUpToNops (writeStoreLocal (.ofNat index)) (.storeLocal index) ↔ index < 256) := by
  refine ⟨fun isStatic => ?_, forms_ldloc.upToNops_iff (by omega),
    forms_stloc.upToNops_iff (by omega)⟩
  rw [writeLoadArgument_eq]
  exact forms_ldarg.upToNops_iff (argumentIndex_lt hindex isStatic)

/-- `effect` gives the operations of `Emitter.writeLoadArgument` an effect where their bytes, the
`nop`s let pass, have it. -/
theorem effect_writeLoadArgument_iff {Typ : Type} {index : ℕ} {isStatic : Bool}
    {s : List StackValue} (hindex : index ≤ 65535) :
    effect (if argumentIndex index isStatic ≤ 3 then
        (.ldarg (argumentIndex index isStatic) : OpCode Typ)
      else .ldargS (argumentIndex index isStatic)) s =
        some (.argument (argumentIndex index isStatic) :: s) ↔
      DecodesUpToNops (writeLoadArgument (.ofNat index) isStatic)
        (.loadArgument (argumentIndex index isStatic)) := by
  rw [(indices_upToNops_iff hindex).1 isStatic]
  by_cases hshort : argumentIndex index isStatic ≤ 3
  · rw [if_pos hshort]
    exact iff_of_true rfl (by omega)
  · rw [if_neg hshort, effect]
    split
    · exact iff_of_true rfl ‹_›
    · exact iff_of_false nofun ‹_›

/-- Argument 4 comes with three `nop`s, argument 256 is argument 0 and a `break`, and -2 is
followed by three opcodes that do not exist. -/
theorem immediates_not_decoded :
    ¬ DecodesTo (writeLoadArgument 4 true) (.loadArgument 4) ∧
    ¬ DecodesUpToNops (writeLoadArgument 256 true) (.loadArgument 256) ∧
    ¬ DecodesUpToNops (writeInt (-2)) (.constant (-2)) := by
  refine ⟨fun h => ?_, fun h => ?_, fun h => ?_⟩
  · exact absurd ((forms_ldarg.decodesTo_iff (n := 4) (by decide)).1 h) (by decide)
  · exact absurd ((forms_ldarg.upToNops_iff (n := 256) (by decide)).1 h) (by decide)
  · exact writeInt_upToNops_iff.1 h (by decide)

end DdTrace.DuckTyping
