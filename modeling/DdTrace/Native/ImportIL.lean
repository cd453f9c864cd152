import DdTrace.Lib.Bytes
import DdTrace.Native.Export

/-!
# `ILRewriter::ImportIL`

The loop that decodes the code of a method body, instruction by instruction. What is left of the
code stands for `pIL + offset`, so the offset is `codeSize` less its length; the targets of the
branches stay the offsets that the second loop looks up.
-/

namespace DdTrace.Native

open DdTrace.Lib

variable {codeSize opcode : ℕ} {b : UInt8} {il rest : List UInt8} {is : List ILInstr}

/-- The opcode at the front; `CEE_PREFIX1` says that another byte follows. -/
def importOpcode : List UInt8 → Except HRESULT (OPCODE × List UInt8)
  | [] => .error COR_E_INVALIDPROGRAM
  | b :: il =>
    if b.toNat = CEE_PREFIX1 then
      match il with
      | [] => .error COR_E_INVALIDPROGRAM
      | b :: il => .ok (0x100 + b.toNat, il)
    else .ok (b.toNat, il)

/-- The targets of a `switch`, from `base` on. -/
def importTargets (base : ℕ) : ℕ → List UInt8 → Except HRESULT (List ILInstr × List UInt8)
  | 0, il => .ok ([], il)
  | nTargets + 1, il =>
    if il.length < 4 then .error COR_E_INVALIDPROGRAM
    else
      (importTargets base nTargets (il.drop 4)).map fun (is, rest) =>
        (⟨CEE_SWITCH_ARG, .arg ((base + ofLittleEndian (il.take 4)) % 2 ^ 32)⟩ :: is, rest)

/-- A distance of so many bits, from `base` on. -/
def branchTarget (base bits distance : ℕ) : ℕ :=
  ((base + (distance : ℤ).bmod (2 ^ bits)) % 2 ^ 32).toNat

/-- The operand of an instruction, and what is left behind it. -/
def importOperand (codeSize : ℕ) (opcode : OPCODE) (il : List UInt8) :
    Except HRESULT (List ILInstr × List UInt8) :=
  let flags := s_OpCodeFlags opcode
  let arg := ofLittleEndian (il.take flags.size)
  let offset := codeSize - il.length
  if il.length < flags.size then .error COR_E_INVALIDPROGRAM
  else
    match flags with
    | .none => .ok ([⟨opcode, .arg 0⟩], il)
    | .arg8 | .arg16 | .arg32 | .arg64 => .ok ([⟨opcode, .arg arg⟩], il.drop flags.size)
    | .branchTarget8 => .ok ([⟨opcode, .arg (branchTarget (offset + 1) 8 arg)⟩], il.drop 1)
    | .branchTarget32 => .ok ([⟨opcode, .arg (branchTarget (offset + 4) 32 arg)⟩], il.drop 4)
    | .switch =>
      if il.length < 4 then .error COR_E_INVALIDPROGRAM
      else
        let nTargets := ofLittleEndian (il.take 4)
        (importTargets (offset + 4 + nTargets * 4) nTargets (il.drop 4)).map fun (is, rest) =>
          (⟨opcode, .arg nTargets⟩ :: is, rest)

/-- One round of the loop. -/
def importInstr (codeSize : ℕ) (il : List UInt8) : Except HRESULT (List ILInstr × List UInt8) :=
  match importOpcode il with
  | .error hr => .error hr
  | .ok (opcode, il) =>
    if CEE_PREFIX7 ≤ opcode ∧ opcode ≤ CEE_PREFIX2 then .error COR_E_INVALIDPROGRAM
    else if CEE_COUNT ≤ opcode then .error COR_E_INVALIDPROGRAM
    else importOperand codeSize opcode il

theorem length_importOpcode_lt (h : importOpcode il = .ok (opcode, rest)) :
    rest.length < il.length := by
  cases il with
  | nil => cases h
  | cons b il =>
    unfold importOpcode at h
    dsimp only at h
    by_cases hprefix : b.toNat = CEE_PREFIX1
    · rw [if_pos hprefix] at h
      cases il with
      | nil => cases h
      | cons c il =>
        cases h
        simp only [List.length_cons]
        omega
    · rw [if_neg hprefix] at h
      cases h
      exact Nat.lt_succ_self _

theorem length_importTargets_le {base nTargets : ℕ}
    (h : importTargets base nTargets il = .ok (is, rest)) : rest.length ≤ il.length := by
  induction nTargets generalizing il is with
  | zero =>
    cases h
    exact le_rfl
  | succ nTargets ih =>
    rw [importTargets] at h
    split at h
    · cases h
    · cases hrest : importTargets base nTargets (il.drop 4) with
      | error hr => simp [hrest, Except.map] at h
      | ok r =>
        obtain ⟨is', rest'⟩ := r
        simp only [hrest, Except.map, Except.ok.injEq, Prod.mk.injEq] at h
        obtain ⟨-, rfl⟩ := h
        exact (ih hrest).trans (List.length_drop ▸ Nat.sub_le _ _)

/-- An operand makes an instruction of its opcode, and the code gets no longer. -/
theorem importOperand_ok (h : importOperand codeSize opcode il = .ok (is, rest)) :
    (∃ i ∈ is, i.opcode = opcode) ∧ rest.length ≤ il.length := by
  have hdrop : ∀ n, (il.drop n).length ≤ il.length :=
    fun n => List.length_drop ▸ Nat.sub_le _ _
  simp only [importOperand] at h
  split at h
  · cases h
  · split at h
    case h_1 =>
      cases h
      exact ⟨⟨_, List.mem_cons_self, rfl⟩, le_rfl⟩
    case h_8 =>
      split at h
      · cases h
      · revert h
        cases htargets : importTargets _ _ (il.drop 4) with
        | error hr => exact fun h => nomatch h
        | ok r =>
          rintro ⟨⟩
          exact ⟨⟨_, List.mem_cons_self, rfl⟩,
            (length_importTargets_le htargets).trans (hdrop 4)⟩
    all_goals
      cases h
      exact ⟨⟨_, List.mem_cons_self, rfl⟩, hdrop _⟩

theorem importInstr_ok (h : importInstr codeSize il = .ok (is, rest)) :
    is ≠ [] ∧ rest.length < il.length := by
  rw [importInstr] at h
  cases hopcode : importOpcode il with
  | error hr =>
    rw [hopcode] at h
    cases h
  | ok r =>
    obtain ⟨opcode, operand⟩ := r
    rw [hopcode] at h
    dsimp only at h
    split at h
    · cases h
    · split at h
      · cases h
      · obtain ⟨⟨i, hi, -⟩, hle⟩ := importOperand_ok h
        exact ⟨List.ne_nil_of_mem hi, hle.trans_lt (length_importOpcode_lt hopcode)⟩

/-- The loop. -/
def importIL (codeSize : ℕ) (il : List UInt8) : Except HRESULT (List ILInstr) :=
  if il = [] then .ok []
  else
    match _h : importInstr codeSize il with
    | .error hr => .error hr
    | .ok (is, rest) => (importIL codeSize rest).map (is ++ ·)
termination_by il.length
decreasing_by exact (importInstr_ok _h).2

theorem importIL_nil : importIL codeSize [] = .ok [] := by
  rw [importIL, if_pos rfl]

theorem importIL_of_ok (h : importInstr codeSize il = .ok (is, rest)) :
    importIL codeSize il = (importIL codeSize rest).map (is ++ ·) := by
  have hne : il ≠ [] := by
    rintro rfl
    cases h
  rw [importIL, if_neg hne]
  split
  · next hr herror => exact absurd (herror.symm.trans h) nofun
  · next is' rest' hok =>
    cases hok.symm.trans h
    rfl

/-- Code that is imported is nothing but the instructions made of it. -/
theorem importIL_ne_nil (hne : il ≠ []) (h : importIL codeSize il = .ok is) : is ≠ [] := by
  rw [importIL, if_neg hne] at h
  split at h
  · cases h
  · next is' rest hok =>
    cases hrest : importIL codeSize rest with
    | error hr =>
      rw [hrest] at h
      cases h
    | ok is'' =>
      rw [hrest] at h
      cases h
      exact fun h => (importInstr_ok hok).1 (List.append_eq_nil_iff.1 h).1

/-! ## The opcodes of one byte -/

theorem importInstr_cons (hlt : b.toNat < CEE_PREFIX7) :
    importInstr codeSize (b :: il) = importOperand codeSize b.toNat il := by
  have hprefix : ¬ b.toNat = 0xFE := by
    have : b.toNat < 0xF8 := hlt
    omega
  have hcount : ¬ CEE_COUNT ≤ b.toNat := by
    have : b.toNat < 0xF8 := hlt
    show ¬ 0x126 ≤ b.toNat
    omega
  have hopcode : importOpcode (b :: il) = .ok (b.toNat, il) := by
    unfold importOpcode
    exact if_neg hprefix
  rw [importInstr, hopcode]
  dsimp only
  rw [if_neg fun h => absurd h.1 (Nat.not_le_of_lt hlt), if_neg hcount]

theorem importInstr_none (hlt : b.toNat < CEE_PREFIX7)
    (hflags : s_OpCodeFlags b.toNat = .none) :
    importInstr codeSize (b :: il) = .ok ([⟨b.toNat, .arg 0⟩], il) := by
  rw [importInstr_cons hlt, importOperand, hflags]
  exact if_neg (Nat.not_lt_zero _)

theorem importInstr_arg8 {arg : UInt8} (hlt : b.toNat < CEE_PREFIX7)
    (hflags : s_OpCodeFlags b.toNat = .arg8) :
    importInstr codeSize (b :: arg :: il) = .ok ([⟨b.toNat, .arg arg.toNat⟩], il) := by
  rw [importInstr_cons hlt, importOperand, hflags]
  have hsize : ¬ (arg :: il).length < 1 := Nat.not_lt_of_le (Nat.succ_le_succ (Nat.zero_le _))
  exact if_neg hsize

theorem importInstr_arg32 {arg : ℕ} (hlt : b.toNat < CEE_PREFIX7)
    (hflags : s_OpCodeFlags b.toNat = .arg32) (harg : arg < 2 ^ 32) :
    importInstr codeSize (b :: (littleEndian 4 arg ++ il)) =
      .ok ([⟨b.toNat, .arg arg⟩], il) := by
  have hsize : ¬ (littleEndian 4 arg ++ il).length < 4 := by
    rw [List.length_append, length_littleEndian]
    omega
  have htake : (littleEndian 4 arg ++ il).take 4 = littleEndian 4 arg :=
    List.take_left' length_littleEndian
  rw [importInstr_cons hlt, importOperand, hflags]
  refine (if_neg hsize).trans ?_
  dsimp only [OpCodeFlags.size]
  rw [htake, ofLittleEndian_littleEndian harg, List.drop_left' length_littleEndian]

/-! ## `nop` -/

/-- A round that makes nothing but `nop`s takes a zero. -/
theorem importInstr_nop (h : importInstr codeSize (b :: il) = .ok (is, rest))
    (hnop : ∀ i ∈ is, i.opcode = CEE_NOP) : b = 0 ∧ rest = il := by
  rw [importInstr] at h
  cases hopcode : importOpcode (b :: il) with
  | error hr =>
    rw [hopcode] at h
    cases h
  | ok r =>
    obtain ⟨opcode, operand⟩ := r
    rw [hopcode] at h
    dsimp only at h
    split at h
    · cases h
    · split at h
      · cases h
      · obtain ⟨i, hi, hopcode'⟩ := (importOperand_ok h).1
        obtain rfl : opcode = CEE_NOP := hopcode'.symm.trans (hnop i hi)
        cases h
        unfold importOpcode at hopcode
        dsimp only at hopcode
        by_cases hprefix : b.toNat = CEE_PREFIX1
        · rw [if_pos hprefix] at hopcode
          cases il with
          | nil => cases hopcode
          | cons c il =>
            simp only [Except.ok.injEq, Prod.mk.injEq] at hopcode
            have hzero : 0x100 + c.toNat = 0 := hopcode.1
            omega
        · rw [if_neg hprefix] at hopcode
          simp only [Except.ok.injEq, Prod.mk.injEq] at hopcode
          exact ⟨UInt8.toNat_inj.1 hopcode.1, hopcode.2.symm⟩

theorem eq_zero_of_importIL_nop (h : importIL codeSize il = .ok is)
    (hnop : ∀ i ∈ is, i.opcode = CEE_NOP) : ∀ b ∈ il, b = 0 := by
  induction il generalizing is with
  | nil => exact fun b hb => nomatch hb
  | cons b il ih =>
    rw [importIL, if_neg (List.cons_ne_nil _ _)] at h
    split at h
    · cases h
    · next is₁ rest hok =>
      cases hrest : importIL codeSize rest with
      | error hr =>
        rw [hrest] at h
        cases h
      | ok is₂ =>
        rw [hrest] at h
        cases h
        obtain ⟨hzero, rfl⟩ := importInstr_nop hok
          fun i hi => hnop i (List.mem_append_left _ hi)
        exact List.forall_mem_cons.2
          ⟨hzero, ih hrest fun i hi => hnop i (List.mem_append_right _ hi)⟩

end DdTrace.Native
