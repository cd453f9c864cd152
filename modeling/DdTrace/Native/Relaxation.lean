import DdTrace.Native.Export

/-!
# Branch relaxation

The loop of `Export` expands a short branch on each pass but the last, so it ends. Its offsets
are 32 bits wide, and so is the bound `m_nInstrs * 10` that they are compared with: the loop
ends with the sums of the sizes for all lists of a number of instructions exactly when ten times
that number is less than `2 ^ 32`.
-/

namespace DdTrace.Native

/-! ## Sizes -/

theorem operandBytes_le (op : OPCODE) : operandBytes op ≤ 8 := by
  unfold operandBytes
  cases s_OpCodeFlags op <;> decide

/-- The opcodes with eight bytes behind them are one byte long. -/
theorem instrSize_le (op : ℕ) : instrSize op ≤ 9 := by
  have hoperand := operandBytes_le op
  have hbytes : opcodeBytes op ≤ 2 := by
    unfold opcodeBytes
    split
    · split <;> decide
    · decide
  by_cases h : operandBytes op = 8
  · have hwide : inRanges (inlineI8 ++ inlineR) op := by
      by_contra hnot
      unfold operandBytes s_OpCodeFlags at h
      rw [if_neg hnot] at h
      revert h
      repeat' split
      all_goals simp_all [OpCodeFlags.size]
    have hlt : op ≤ 0x23 := by
      simp only [inRanges, inlineI8, inlineR, List.cons_append, List.nil_append, List.any_cons,
        List.any_nil, Bool.or_false, Bool.or_eq_true, Bool.and_eq_true, decide_eq_true_eq] at hwide
      rcases hwide with ⟨-, hle⟩ | ⟨-, hle⟩
      · exact le_trans hle (by decide)
      · exact hle
    have hone : opcodeBytes op ≤ 1 := by
      unfold opcodeBytes
      rw [if_neg (show ¬ 0x100 ≤ op by omega)]
      split <;> decide
    unfold instrSize
    omega
  · unfold instrSize
    omega

/-! ## The delta -/

namespace ILRewriter

theorem fitsInt8_iff {d : Int32} : fitsInt8 d ↔ -128 ≤ d.toInt ∧ d.toInt ≤ 127 := by
  rw [fitsInt8, beq_iff_eq, ← Int32.toInt_inj, Int8.toInt_toInt32, Int32.toInt_toInt8]
  have hle := Int32.le_toInt d
  have hlt := Int32.toInt_lt d
  rw [Int.bmod_def]
  omega

theorem toInt_sub {x y : UInt32} :
    (x - y).toInt32.toInt = ((x.toNat : ℤ) - y.toNat).bmod (2 ^ 32) := by
  rw [← Int32.toInt_toBitVec, UInt32.toBitVec_toInt32, UInt32.toBitVec_sub, BitVec.toInt_sub,
    BitVec.toInt_eq_toNat_bmod, BitVec.toInt_eq_toNat_bmod, Int.sub_bmod_bmod, Int.bmod_sub_bmod]
  rfl

/-- Below `2 ^ 32 - 128` no large distance looks like a small one. -/
theorem fits_of_fitsInt8 {x y : UInt32} {n : ℕ} (hn : n < 2 ^ 32 - 128) (hx : x.toNat ≤ n)
    (hy : y.toNat ≤ n) (h : fitsInt8 (x - y).toInt32) :
    -128 ≤ (x.toNat : ℤ) - y.toNat ∧ (x.toNat : ℤ) - y.toNat ≤ 127 := by
  rw [fitsInt8_iff, toInt_sub, Int.bmod_def] at h
  omega

/-! ## The offsets of a pass -/

variable {r r' : ILRewriter} {s s' : Offsets} {p q : InstrPtr} {ps pre post : List InstrPtr}
  {m_offset m_offset' : InstrPtr → UInt32}

/-- The sum of the sizes. -/
def codeSize (r : ILRewriter) (ps : List InstrPtr) : ℕ :=
  (ps.map fun p => instrSize (r.opcodeAt p)).sum

@[simp] theorem codeSize_nil : r.codeSize [] = 0 := rfl

@[simp] theorem codeSize_cons : r.codeSize (p :: ps) = instrSize (r.opcodeAt p) + r.codeSize ps :=
  rfl

theorem codeSize_le : r.codeSize ps ≤ 9 * ps.length := by
  induction ps with
  | nil => exact le_rfl
  | cons p ps ih =>
    have hsize := instrSize_le (r.opcodeAt p)
    rw [codeSize_cons, List.length_cons]
    omega

theorem offset_add (o : UInt32) (m n : ℕ) :
    o + .ofNat m + .ofNat n = o + UInt32.ofNat (m + n) := by
  rw [UInt32.add_assoc, ← UInt32.ofNat_add]

theorem offset_add_nil (o : UInt32) : o + .ofNat (r.codeSize []) = o := UInt32.add_zero o

/-- A pass over opcodes does not fail where no offset reaches the bound. -/
theorem exists_produce (h : ∀ pre p post, ps = pre ++ p :: post →
    s.offset + .ofNat (r.codeSize pre) < r.maxSize ∧ r.opcodeAt p < opCodeFlagsSize) :
    ∃ s', r.produce ps s = .ok s' := by
  induction ps generalizing s with
  | nil => exact ⟨s, rfl⟩
  | cons p ps ih =>
    obtain ⟨hlt, hop⟩ := h [] p ps rfl
    rw [offset_add_nil] at hlt
    rw [produce, if_neg (UInt32.not_le.2 hlt), if_neg (Nat.not_le.2 hop)]
    refine ih fun pre q post hps => ?_
    have hq := h (p :: pre) q post (by rw [hps, List.cons_append])
    rwa [offset_add, ← codeSize_cons]

/-- What a pass leaves: the sums, as far as 32 bits hold them. -/
theorem produce_spec (h : r.produce ps s = .ok s') (hnodup : ps.Nodup) :
    (∀ pre p post, ps = pre ++ p :: post → s.offset + .ofNat (r.codeSize pre) < r.maxSize ∧
      s'.m_offset p = s.offset + .ofNat (r.codeSize pre)) ∧
    (∀ p ∉ ps, s'.m_offset p = s.m_offset p) ∧
    s'.offset = s.offset + .ofNat (r.codeSize ps) ∧
    s'.fBranch = (s.fBranch || ps.any fun p => (s_OpCodeFlags (r.opcodeAt p)).branchTarget) := by
  induction ps generalizing s with
  | nil =>
    obtain rfl := Except.ok.inj h
    exact ⟨fun pre p post hps => by simp at hps, fun _ _ => rfl, (UInt32.add_zero _).symm,
      (Bool.or_false _).symm⟩
  | cons p ps ih =>
    obtain ⟨hp, hnodup⟩ := List.nodup_cons.1 hnodup
    rw [produce] at h
    split at h
    · cases h
    rename_i hlt
    split at h
    · cases h
    obtain ⟨hall, hout, hend, hbranch⟩ := ih h hnodup
    refine ⟨fun pre q post hps => ?_, fun q hq => ?_, ?_, ?_⟩
    · cases pre with
      | nil =>
        obtain ⟨rfl, rfl⟩ := List.cons.inj hps
        rw [offset_add_nil]
        exact ⟨UInt32.not_le.1 hlt, (hout p hp).trans (Function.update_self ..)⟩
      | cons p' pre =>
        obtain ⟨rfl, hrest⟩ := List.cons.inj hps
        obtain ⟨hlt, hq⟩ := hall pre q post hrest
        rw [offset_add, ← codeSize_cons] at hlt hq
        exact ⟨hlt, hq⟩
    · obtain ⟨hne, hq⟩ := not_or.1 (List.mem_cons.not.1 hq)
      exact (hout q hq).trans (Function.update_of_ne hne ..)
    · rw [hend, offset_add, ← codeSize_cons]
    · rw [hbranch, List.any_cons, Bool.or_assoc]

/-! ## The lists -/

/-- What `ImportIL` and the rewriters keep: the instructions are new ones, each of them in the
list once, and have an opcode. -/
structure Laid (r : ILRewriter) : Prop extends r.WellFormed where
  length_le : r.il.length ≤ r.nInstrs
  opcode : ∀ p ∈ r.il, r.opcodeAt p < opCodeFlagsSize

def IsOpcode (op : OPCODE) : Prop := op < CEE_COUNT ∨ op = CEE_SWITCH_ARG

/-- The lists that `ImportIL` and the rewriters build. `ImportIL` too creates its instructions,
puts each of them in front of `m_IL`, and sets the targets at the end. -/
inductive Built : ILRewriter → Prop
  | empty {r : ILRewriter} (hil : r.il = []) (hn : r.nInstrs = 0) : Built r
  | insertBefore {r : ILRewriter} {pWhere : InstrPtr} {i : ILInstr} (h : Built r)
      (hwhere : pWhere ∈ m_IL :: r.il) (hop : IsOpcode i.opcode) :
      Built ((r.newILInstr i).insertBefore pWhere r.newPtr)
  | insertAfter {r : ILRewriter} {pWhere : InstrPtr} {i : ILInstr} (h : Built r)
      (hwhere : pWhere ∈ m_IL :: r.il) (hop : IsOpcode i.opcode) :
      Built ((r.newILInstr i).insertAfter pWhere r.newPtr)
  | setInstr {r : ILRewriter} {p : InstrPtr} {i : ILInstr} (h : Built r) (hp : p ∈ r.il)
      (hop : IsOpcode i.opcode) : Built (r.setInstr p i)
  | setTkLocalVarSig {r : ILRewriter} {sig : Token} (h : Built r) : Built (r.setTkLocalVarSig sig)
  | setEHClause {r : ILRewriter} {eh : List EHClause} (h : Built r) : Built (r.setEHClause eh)

theorem lt_opCodeFlagsSize {op : OPCODE} (h : IsOpcode op) : op < opCodeFlagsSize := by
  rcases h with h | rfl
  · exact lt_trans h (by decide)
  · exact Nat.lt_succ_self _

theorem Laid.notMem_newPtr (h : r.Laid) : r.newPtr ∉ r.il := fun hp =>
  Nat.not_succ_le_self _ (h.le _ hp)

/-- A new instruction that stands somewhere in the list. -/
theorem Laid.of_perm {i : ILInstr} (h : r.Laid) (hop : IsOpcode i.opcode)
    (hil : r'.il.Perm (r.newPtr :: r.il)) (hn : r'.nInstrs = r.nInstrs + 1)
    (hinstr : r'.instr = Function.update r.instr r.newPtr i) : r'.Laid where
  nodup := hil.nodup_iff.2 (List.nodup_cons.2 ⟨h.notMem_newPtr, h.nodup⟩)
  pos p hp := by
    rcases List.mem_cons.1 (hil.subset hp) with rfl | hp
    · exact Nat.succ_pos _
    · exact h.pos p hp
  le p hp := by
    rw [hn]
    rcases List.mem_cons.1 (hil.subset hp) with rfl | hp
    · exact le_rfl
    · exact le_trans (h.le p hp) (Nat.le_succ _)
  length_le := by
    rw [hil.length_eq, hn]
    exact Nat.succ_le_succ h.length_le
  opcode p hp := by
    rw [opcodeAt, hinstr]
    rcases List.mem_cons.1 (hil.subset hp) with rfl | hp
    · rw [Function.update_self]
      exact lt_opCodeFlagsSize hop
    · have hne : p ≠ r.newPtr := fun heq => h.notMem_newPtr (heq ▸ hp)
      rw [Function.update_of_ne hne]
      exact h.opcode p hp

theorem instr_setInstr {i : ILInstr} : (r.setInstr p i).instr = Function.update r.instr p i := rfl

theorem Built.laid (h : r.Built) : r.Laid := by
  induction h with
  | @empty r hil hn =>
    refine ⟨⟨?_, ?_, ?_⟩, ?_, ?_⟩ <;> rw [hil]
    · exact List.nodup_nil
    · exact nofun
    · exact nofun
    · exact Nat.zero_le _
    · exact nofun
  | insertBefore _ _ hop ih => exact ih.of_perm hop Lib.insertBefore_perm rfl rfl
  | insertAfter _ _ hop ih => exact ih.of_perm hop (Lib.insertAfter_perm ih.nodup) rfl rfl
  | @setInstr r p i _ _ hop ih =>
    refine ⟨⟨ih.nodup, ih.pos, ih.le⟩, ih.length_le, fun q hq => ?_⟩
    by_cases heq : q = p
    · rw [opcodeAt, heq, instr_setInstr, Function.update_self]
      exact lt_opCodeFlagsSize hop
    · rw [opcodeAt, instr_setInstr, Function.update_of_ne heq]
      exact ih.opcode q hq
  | setTkLocalVarSig _ ih => exact ⟨⟨ih.nodup, ih.pos, ih.le⟩, ih.length_le, ih.opcode⟩
  | setEHClause _ ih => exact ⟨⟨ih.nodup, ih.pos, ih.le⟩, ih.length_le, ih.opcode⟩

theorem codeSize_append : r.codeSize (pre ++ post) = r.codeSize pre + r.codeSize post := by
  rw [codeSize, List.map_append, List.sum_append]
  rfl

/-- A list that is too short for its offsets to wrap. -/
structure Small (r : ILRewriter) : Prop extends r.Laid where
  lt : 10 * r.nInstrs < 2 ^ 32

namespace Small

variable (h : r.Small)
include h

theorem codeSize_lt : r.codeSize r.il < 2 ^ 32 - 128 := by
  have hsize := @codeSize_le r r.il
  have hlength := h.length_le
  have hlt := h.lt
  omega

theorem toNat_maxSize : r.maxSize.toNat = r.nInstrs * 10 := by
  have hlt := h.lt
  exact UInt32.toNat_ofNat_of_lt' (by simp only [UInt32.size]; omega)

theorem of_expands (hr : Expands r r') : r'.Small where
  nodup := by
    rw [hr.il]
    exact h.nodup
  pos p hp := h.pos p (hr.il ▸ hp)
  le p hp := by
    rw [hr.nInstrs]
    exact h.le p (hr.il ▸ hp)
  length_le := by
    rw [hr.il, hr.nInstrs]
    exact h.length_le
  opcode p hp := by
    rcases hr.opcode p with heq | ⟨-, hop⟩
    · rw [heq]
      exact h.opcode p (hr.il ▸ hp)
    · rcases expandBranch_ok hop with heq | ⟨-, hle⟩
      · rw [heq]
        decide
      · exact lt_of_le_of_lt hle (by decide)
  lt := by
    rw [hr.nInstrs]
    exact h.lt

end Small

/-! ## One pass -/

/-- Every offset is the sum of the sizes of the instructions before it, that of `m_IL` too. -/
def Summed (r : ILRewriter) (m_offset : InstrPtr → UInt32) : Prop :=
  ∀ pre p post, r.il ++ [m_IL] = pre ++ p :: post → (m_offset p).toNat = r.codeSize pre

/-- Nothing else has an offset yet. -/
def OnlyLaid (r : ILRewriter) (m_offset : InstrPtr → UInt32) : Prop :=
  ∀ p, p ∉ r.il ++ [m_IL] → m_offset p = 0

theorem Summed.toNat_le (h : r.Summed m_offset) (hout : r.OnlyLaid m_offset) (p : InstrPtr) :
    (m_offset p).toNat ≤ r.codeSize r.il := by
  by_cases hp : p ∈ r.il ++ [m_IL]
  · obtain ⟨pre, post, hil⟩ := List.append_of_mem hp
    rw [h pre p post hil]
    rcases List.eq_nil_or_concat post with rfl | ⟨post, last, rfl⟩
    · obtain ⟨rfl, -⟩ := List.append_inj' hil rfl
      exact le_rfl
    · rw [List.concat_eq_append, ← List.cons_append, ← List.append_assoc] at hil
      obtain ⟨hil, -⟩ := List.append_inj' hil rfl
      rw [hil, codeSize_append]
      exact Nat.le_add_right ..
  · rw [hout p hp]
    exact Nat.zero_le _

/-- A pass over a small list gives all its offsets. -/
theorem Small.exists_produce (h : r.Small) (hout : r.OnlyLaid m_offset) :
    ∃ s, r.produce r.il ⟨m_offset, 0, false⟩ = .ok s ∧
      r.Summed (Function.update s.m_offset m_IL s.offset) ∧
      r.OnlyLaid (Function.update s.m_offset m_IL s.offset) ∧
      (s.fBranch = false → ∀ p ∈ r.il, ¬ r.isShort p) := by
  have htotal := h.codeSize_lt
  have hbound : ∀ pre p post, r.il = pre ++ p :: post →
      (0 : UInt32) + .ofNat (r.codeSize pre) < r.maxSize ∧ r.opcodeAt p < opCodeFlagsSize := by
    intro pre p post hil
    refine ⟨?_, h.opcode p (hil ▸ List.mem_append_right pre List.mem_cons_self)⟩
    have hsize := @codeSize_le r pre
    have hlength := h.length_le
    have hlt := h.lt
    rw [hil, List.length_append, List.length_cons] at hlength
    rw [UInt32.zero_add, UInt32.lt_iff_toNat_lt, h.toNat_maxSize, UInt32.toNat_ofNat_of_lt']
    · omega
    · simp only [UInt32.size]
      omega
  obtain ⟨s, hs⟩ := ILRewriter.exists_produce (s := ⟨m_offset, 0, false⟩) hbound
  obtain ⟨hall, hrest, hend, hbranch⟩ := produce_spec hs h.nodup
  have htoNat : ∀ k ≤ r.codeSize r.il, ((0 : UInt32) + .ofNat k).toNat = k := by
    intro k hk
    rw [UInt32.zero_add]
    exact UInt32.toNat_ofNat_of_lt' (by simp only [UInt32.size]; omega)
  refine ⟨s, hs, fun pre p post hil => ?_, fun p hp => ?_, fun hf p hp hshort => ?_⟩
  · rcases List.eq_nil_or_concat post with rfl | ⟨post, last, rfl⟩
    · obtain ⟨rfl, hp⟩ := List.append_inj' hil rfl
      rw [← (List.cons.inj hp).1, Function.update_self, hend]
      exact htoNat _ le_rfl
    · rw [List.concat_eq_append, ← List.cons_append, ← List.append_assoc] at hil
      obtain ⟨hil, -⟩ := List.append_inj' hil rfl
      have hp : p ∈ r.il := hil ▸ List.mem_append_right pre List.mem_cons_self
      have hne : p ≠ m_IL := (h.pos p hp).ne'
      rw [Function.update_of_ne hne, (hall pre p post hil).2, htoNat]
      rw [hil, codeSize_append]
      exact Nat.le_add_right ..
  · rw [List.mem_append, List.mem_singleton, not_or] at hp
    rw [Function.update_of_ne hp.2, hrest p hp.1]
    exact hout p (by rw [List.mem_append, List.mem_singleton, not_or]; exact hp)
  · rw [hbranch, Bool.false_or, List.any_eq_false] at hf
    refine hf p hp ?_
    rw [of_decide_eq_true hshort]
    rfl

/-- Every short branch has a long form, so resolving does not fail. -/
theorem exists_resolve (m_offset : InstrPtr → UInt32) (r : ILRewriter) (fTryAgain : Bool)
    (ps : List InstrPtr) : ∃ result, resolve m_offset r fTryAgain ps = .ok result := by
  induction ps generalizing r fTryAgain with
  | nil => exact ⟨_, rfl⟩
  | cons p ps ih =>
    rw [resolve]
    split
    · rename_i hflags
      split
      · exact ih r fTryAgain
      · obtain ⟨op, hop⟩ := exists_expandBranch (decide_eq_true hflags)
        rw [hop]
        exact ih _ true
    · exact ih r fTryAgain

/-! ## The loop -/

/-- The loop has ended with a layout. -/
structure LaidOut (r : ILRewriter) (m_offset : InstrPtr → UInt32) : Prop where
  summed : r.Summed m_offset
  short : ∀ p ∈ r.il, r.isShort p →
    -128 ≤ ((m_offset (r.instr p).operand.pTarget).toNat : ℤ) - (m_offset (r.next p)).toNat ∧
      ((m_offset (r.instr p).operand.pTarget).toNat : ℤ) - (m_offset (r.next p)).toNat ≤ 127

/-- One pass of the loop, over a list with branches. -/
theorem relayout_eq {s : Offsets} {again : Bool} (hs : r.produce r.il ⟨m_offset, 0, false⟩ = .ok s)
    (hbranch : s.fBranch = true)
    (h : resolve (Function.update s.m_offset m_IL s.offset) r false r.il = .ok (r', again)) :
    r.relayout m_offset = if again then r'.relayout (Function.update s.m_offset m_IL s.offset)
      else .ok (r', Function.update s.m_offset m_IL s.offset) := by
  rw [relayout, hs]
  dsimp only
  rw [if_pos hbranch]
  split
  · rename_i herror
    rw [h] at herror
    cases herror
  · rename_i hdone
    rw [h] at hdone
    obtain ⟨rfl, rfl⟩ := Prod.mk.inj (Except.ok.inj hdone)
    rfl
  · rename_i hagain
    rw [h] at hagain
    obtain ⟨rfl, rfl⟩ := Prod.mk.inj (Except.ok.inj hagain)
    rfl

theorem relayout_of_not_branch {s : Offsets} (hs : r.produce r.il ⟨m_offset, 0, false⟩ = .ok s)
    (hbranch : s.fBranch = false) :
    r.relayout m_offset = .ok (r, Function.update s.m_offset m_IL s.offset) := by
  rw [relayout, hs]
  dsimp only
  rw [hbranch, if_neg Bool.false_ne_true]

theorem relayout_small (h : r.Small) (hout : r.OnlyLaid m_offset) :
    ∃ r' m_offset', r.relayout m_offset = .ok (r', m_offset') ∧ Expands r r' ∧
      r'.LaidOut m_offset' := by
  induction hn : r.shortBranches using Nat.strong_induction_on generalizing r m_offset with
  | _ n ih =>
    obtain ⟨s, hs, hsummed, hlaid, hshort⟩ := h.exists_produce hout
    obtain ⟨⟨r', again⟩, hresolve⟩ :=
      exists_resolve (Function.update s.m_offset m_IL s.offset) r false r.il
    obtain ⟨hexpands, hdone, -⟩ := resolve_spec hresolve
    cases hbranch : s.fBranch with
    | false =>
      exact ⟨r, _, relayout_of_not_branch hs hbranch, .refl r, hsummed,
        fun p hp hp' => absurd hp' (hshort hbranch p hp)⟩
    | true =>
      rw [relayout_eq hs hbranch hresolve]
      cases again with
      | false =>
        obtain ⟨-, rfl, hfits⟩ := hdone rfl
        exact ⟨r', _, rfl, .refl r', hsummed, fun p hp hp' => fits_of_fitsInt8 h.codeSize_lt
          (hsummed.toNat_le hlaid _) (hsummed.toNat_le hlaid _) (hfits p hp hp')⟩
      | true =>
        have hlt := resolve_lt hresolve
        have hlaid' : r'.OnlyLaid (Function.update s.m_offset m_IL s.offset) := by
          intro p hp
          rw [hexpands.il] at hp
          exact hlaid p hp
        obtain ⟨r'', m_offset', hok, hexpands', hlaidOut⟩ :=
          ih _ (hn ▸ hlt) (h.of_expands hexpands) hlaid' rfl
        exact ⟨r'', m_offset', hok, hexpands.trans hexpands', hlaidOut⟩

/-- `Export` ends its loop with a layout of the list, some of its short branches expanded. -/
def Relayouts (r : ILRewriter) : Prop :=
  ∃ r' m_offset, r.relayout (fun _ => 0) = .ok (r', m_offset) ∧ Expands r r' ∧ r'.LaidOut m_offset

theorem Built.relayouts (h : r.Built) (hlt : 10 * r.nInstrs < 2 ^ 32) : r.Relayouts :=
  relayout_small ⟨h.laid, hlt⟩ fun _ _ => rfl

/-! ## Many instructions -/

/-- `n` times `ldc.i8 0`, in front of each other. -/
def ldcI8s (n : ℕ) : ILRewriter where
  tkLocalVarSig := 0
  maxStack := 8 + n
  flags := 0
  generateTinyHeader := false
  il := List.range' 1 n
  instr := fun _ => ⟨CEE_LDC_I8, .arg 0⟩
  eh := []
  nInstrs := n

theorem built_ldcI8s (n : ℕ) : (ldcI8s n).Built := by
  induction n with
  | zero => exact .empty rfl rfl
  | succ n ih =>
    have hil : Lib.insertBefore m_IL (n + 1) (List.range' 1 n) = List.range' 1 (n + 1) := by
      have hnot : m_IL ∉ List.range' 1 n := fun h => absurd (List.mem_range'_1.1 h).1 (by decide)
      rw [Lib.insertBefore_of_notMem hnot, List.range'_concat, Nat.one_mul, Nat.add_comm]
    have hnext := Built.insertBefore (i := ⟨CEE_LDC_I8, .arg 0⟩) ih List.mem_cons_self
      (.inl (by decide))
    have heq : ((ldcI8s n).newILInstr ⟨CEE_LDC_I8, .arg 0⟩).insertBefore m_IL (ldcI8s n).newPtr =
        ldcI8s (n + 1) := by
      simp only [ILRewriter.insertBefore, adjustState, newILInstr, newPtr, ldcI8s, hil,
        Function.update_eq_self]
      rfl
    rwa [heq] at hnext

section LdcI8s

variable {n : ℕ}

theorem codeSize_ldcI8s : (ldcI8s n).codeSize ps = 9 * ps.length := by
  induction ps with
  | nil => rfl
  | cons p ps ih =>
    have hsize : instrSize ((ldcI8s n).opcodeAt p) = 9 := (by decide : instrSize CEE_LDC_I8 = 9)
    rw [codeSize_cons, ih, hsize, List.length_cons]
    omega

/-- The instructions in front of `k + 1`. -/
theorem ldcI8s_il_eq {k : ℕ} (hk : k < n) :
    (ldcI8s n).il = List.range' 1 k ++ (k + 1) :: List.range' (k + 2) (n - k - 1) := by
  obtain ⟨m, rfl⟩ := Nat.exists_eq_add_of_lt hk
  show List.range' 1 (k + m + 1) = _
  rw [Nat.add_assoc, ← List.range'_append_1, List.range'_succ, Nat.add_comm 1 k,
    show k + (m + 1) - k - 1 = m by omega]

theorem toNat_maxSize_ldcI8s : (ldcI8s n).maxSize.toNat = n * 10 % 2 ^ 32 := UInt32.toNat_ofNat'

theorem relayout_ldcI8s {s : Offsets}
    (hs : (ldcI8s n).produce (ldcI8s n).il ⟨fun _ => 0, 0, false⟩ = .ok s) :
    (ldcI8s n).relayout (fun _ => 0) =
      .ok (ldcI8s n, Function.update s.m_offset m_IL s.offset) := by
  refine relayout_of_not_branch hs ?_
  rw [(produce_spec hs (built_ldcI8s n).laid.nodup).2.2.2, Bool.false_or, List.any_eq_false]
  exact fun _ _ => (by decide : ¬ (s_OpCodeFlags CEE_LDC_I8).branchTarget)

/-- The loop goes through where each offset, as far as 32 bits hold it, is below the bound. -/
theorem exists_produce_ldcI8s (h : ∀ k < n, 9 * k % 2 ^ 32 < n * 10 % 2 ^ 32) :
    ∃ s, (ldcI8s n).produce (ldcI8s n).il ⟨fun _ => 0, 0, false⟩ = .ok s := by
  refine exists_produce fun pre p post hil => ⟨?_, (by decide : CEE_LDC_I8 < opCodeFlagsSize)⟩
  have hlength : n = pre.length + (post.length + 1) := by
    rw [← List.length_cons, ← List.length_append, ← hil]
    exact (List.length_range' ..).symm
  rw [codeSize_ldcI8s, UInt32.lt_iff_toNat_lt, toNat_maxSize_ldcI8s, UInt32.zero_add,
    UInt32.toNat_ofNat']
  exact h _ (by omega)

/-- Either an offset wraps, or the bound that has wrapped is below one. -/
theorem not_relayouts_ldcI8s (hn : 2 ^ 32 ≤ 10 * n) : ¬ (ldcI8s n).Relayouts := by
  rintro ⟨r', m_offset, hok, hexpands, hlaid⟩
  obtain ⟨k, rfl⟩ : ∃ k, n = k + 1 := ⟨n - 1, by omega⟩
  have hil := @ldcI8s_il_eq (k + 1) k (Nat.lt_succ_self k)
  cases hs : (ldcI8s (k + 1)).produce (ldcI8s (k + 1)).il ⟨fun _ => 0, 0, false⟩ with
  | error hr =>
    rw [relayout, hs] at hok
    cases hok
  | ok s =>
    rw [relayout_ldcI8s hs] at hok
    obtain ⟨rfl, rfl⟩ := Prod.mk.inj (Except.ok.inj hok)
    have hlt : (0 : UInt32) + .ofNat ((ldcI8s (k + 1)).codeSize (List.range' 1 k)) <
        (ldcI8s (k + 1)).maxSize :=
      ((produce_spec hs (built_ldcI8s _).laid.nodup).1 _ _ _ hil).1
    have hsum := hlaid.summed (List.range' 1 k) (k + 1)
      (List.range' (k + 2) (k + 1 - k - 1) ++ [m_IL]) (by rw [hil]; simp)
    have hoffset : 9 * k < 2 ^ 32 := by
      rw [codeSize_ldcI8s, List.length_range'] at hsum
      rw [← hsum]
      exact UInt32.toNat_lt _
    rw [codeSize_ldcI8s, List.length_range', UInt32.lt_iff_toNat_lt, toNat_maxSize_ldcI8s,
      UInt32.zero_add, UInt32.toNat_ofNat_of_lt' hoffset] at hlt
    have hwraps : 1 ≤ (k + 1) * 10 / 2 ^ 32 := (Nat.le_div_iff_mul_le (by decide)).2 (by omega)
    omega

end LdcI8s

/-! ## The result -/

/-- Every list of `n` instructions is laid out exactly when the bound does not wrap. -/
theorem relayouts_iff (n : ℕ) :
    (∀ r : ILRewriter, r.Built → r.nInstrs = n → r.Relayouts) ↔ 10 * n < 2 ^ 32 := by
  constructor
  · intro h
    by_contra hn
    exact not_relayouts_ldcI8s (not_lt.1 hn) (h (ldcI8s n) (built_ldcI8s n) rfl)
  · rintro hn r hr rfl
    exact hr.relayouts hn

/-- The bound is `2 ^ 32 - 2` here, so the loop does not see that an offset wraps. -/
theorem offset_wraps : (ldcI8s 858993459).Built ∧ ¬ (ldcI8s 858993459).Relayouts ∧
    ∃ m_offset, (ldcI8s 858993459).relayout (fun _ => 0) = .ok (ldcI8s 858993459, m_offset) ∧
      m_offset 858993459 = 3435973826 := by
  refine ⟨built_ldcI8s _, not_relayouts_ldcI8s (by decide), ?_⟩
  have hbound : ∀ k < 858993459, 9 * k % 2 ^ 32 < 858993459 * 10 % 2 ^ 32 := by
    intro k hk
    rcases Nat.lt_or_ge (9 * k) (2 ^ 32) with hlt | hge
    · rw [Nat.mod_eq_of_lt hlt]
      omega
    · rw [Nat.mod_eq_sub_mod hge, Nat.mod_eq_of_lt (by omega)]
      omega
  obtain ⟨s, hs⟩ := exists_produce_ldcI8s hbound
  have hil := @ldcI8s_il_eq 858993459 858993458 (by decide)
  have hlast : s.m_offset 858993459 = 0 + .ofNat ((ldcI8s 858993459).codeSize
      (List.range' 1 858993458)) :=
    ((produce_spec hs (built_ldcI8s _).laid.nodup).1 _ _ _ hil).2
  refine ⟨_, relayout_ldcI8s hs, ?_⟩
  rw [Function.update_of_ne (by decide), hlast, codeSize_ldcI8s, List.length_range']
  decide

end ILRewriter

end DdTrace.Native
