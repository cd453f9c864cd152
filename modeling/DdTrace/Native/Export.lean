import DdTrace.Native.ILRewriter

/-!
# `ILRewriter::Export`

The loop that gives every instruction its offset and expands the short branches that do not
reach their target, and the header and clauses that are written with the offsets. The bytes of
the instructions are left out: no offset depends on them.
-/

namespace DdTrace.Native

abbrev HRESULT := UInt32

def E_FAIL : HRESULT := 0x80004005
def COR_E_INDEXOUTOFRANGE : HRESULT := 0x80131508
def COR_E_INVALIDPROGRAM : HRESULT := 0x8013153A

/-! ## Sizes -/

/-- `sizeof(s_OpCodeFlags)`. -/
def opCodeFlagsSize : ℕ := CEE_SWITCH_ARG + 1

/-- `CEE_PREFIX1` stands in front of a two-byte opcode; what is not an opcode has no byte. -/
def opcodeBytes (op : OPCODE) : ℕ :=
  if op < CEE_COUNT then if 0x100 ≤ op then 2 else 1 else 0

/-- A `switch` is followed by the number of its targets; they are instructions of their own. -/
def operandBytes (op : OPCODE) : ℕ :=
  match s_OpCodeFlags op with
  | .switch => 4
  | flags => flags.size

def instrSize (op : OPCODE) : ℕ := opcodeBytes op + operandBytes op

/-! ## The offsets -/

/-- What stands in the union, whichever member it is read through. -/
def Operand.bits : Operand → ℕ
  | .arg bits => bits
  | .target instr => instr

abbrev Operand.pTarget (operand : Operand) : InstrPtr := operand.bits

/-- What the first loop keeps. -/
structure Offsets where
  m_offset : InstrPtr → UInt32
  offset : UInt32
  fBranch : Bool

namespace ILRewriter

variable (r : ILRewriter)

def opcodeAt (p : InstrPtr) : OPCODE := (r.instr p).opcode

def setInstr (p : InstrPtr) (i : ILInstr) : ILRewriter :=
  { r with instr := Function.update r.instr p i }

def setOpcode (p : InstrPtr) (op : OPCODE) : ILRewriter :=
  r.setInstr p { r.instr p with opcode := op }

/-- `m_nInstrs * 10`. -/
def maxSize : UInt32 := .ofNat (r.nInstrs * 10)

/-- The loop that produces the code. -/
def produce : List InstrPtr → Offsets → Except HRESULT Offsets
  | [], s => .ok s
  | p :: ps, s =>
    if r.maxSize ≤ s.offset then .error COR_E_INDEXOUTOFRANGE
    else if opCodeFlagsSize ≤ r.opcodeAt p then .error COR_E_INVALIDPROGRAM
    else produce ps {
      m_offset := Function.update s.m_offset p s.offset
      offset := s.offset + .ofNat (instrSize (r.opcodeAt p))
      fBranch := s.fBranch || (s_OpCodeFlags (r.opcodeAt p)).branchTarget }

/-- The opcode of the long form. -/
def expandBranch (op : OPCODE) : Except HRESULT OPCODE :=
  if op = CEE_LEAVE_S then .ok CEE_LEAVE
  else if CEE_BR_S ≤ op ∧ op ≤ CEE_BLT_UN_S then
    let op := op - CEE_BR_S + CEE_BR
    if CEE_BR ≤ op ∧ op ≤ CEE_BLT_UN then .ok op else .error COR_E_INVALIDPROGRAM
  else .error COR_E_INVALIDPROGRAM

/-- `pInstr->m_pTarget->m_offset - pInstr->m_pNext->m_offset`. -/
def delta (m_offset : InstrPtr → UInt32) (p : InstrPtr) : Int32 :=
  (m_offset (r.instr p).operand.pTarget - m_offset (r.next p)).toInt32

/-- `(INT8) delta == delta`. -/
def fitsInt8 (delta : Int32) : Bool := delta.toInt8.toInt32 == delta

/-- The loop that resolves the targets. A short branch that does not reach its target is
expanded, and everything is done again: the result says whether one was. -/
def resolve (m_offset : InstrPtr → UInt32) (r : ILRewriter) (fTryAgain : Bool) :
    List InstrPtr → Except HRESULT (ILRewriter × Bool)
  | [] => .ok (r, fTryAgain)
  | p :: ps =>
    match s_OpCodeFlags (r.opcodeAt p) with
    | .branchTarget8 =>
      if fitsInt8 (r.delta m_offset p) then resolve m_offset r fTryAgain ps
      else
        match expandBranch (r.opcodeAt p) with
        | .error hr => .error hr
        | .ok op => resolve m_offset (r.setOpcode p op) true ps
    | _ => resolve m_offset r fTryAgain ps

def isShort (r : ILRewriter) (p : InstrPtr) : Bool :=
  s_OpCodeFlags (r.opcodeAt p) = .branchTarget8

/-! ## Expanding -/

theorem isShort_iff {r : ILRewriter} {p : InstrPtr} : r.isShort p ↔
    CEE_BR_S ≤ r.opcodeAt p ∧ r.opcodeAt p ≤ CEE_BLT_UN_S ∨ r.opcodeAt p = CEE_LEAVE_S := by
  simp only [isShort, decide_eq_true_eq]
  constructor
  · intro h
    unfold s_OpCodeFlags at h
    repeat' split at h
    all_goals cases h
    rename_i hshort
    simp only [inRanges, shortInlineBrTarget, List.any_cons, List.any_nil, Bool.or_false,
      Bool.or_eq_true, Bool.and_eq_true, decide_eq_true_eq] at hshort
    rcases hshort with hbranch | ⟨hle, hge⟩
    · exact .inl hbranch
    · exact .inr (Nat.le_antisymm hge hle)
  · intro h
    have hrange : ∀ op ∈ List.range' CEE_BR_S 13 ++ [CEE_LEAVE_S],
        s_OpCodeFlags op = .branchTarget8 := by decide
    refine hrange _ (List.mem_append.2 ?_)
    rcases h with ⟨hle, hge⟩ | h
    · exact .inl (List.mem_range'_1.2 ⟨hle, Nat.lt_succ_of_le hge⟩)
    · exact .inr (List.mem_singleton.2 h)

theorem expandBranch_of_le {op : ℕ} (hle : CEE_BR_S ≤ op) (hge : op ≤ CEE_BLT_UN_S) :
    expandBranch op = .ok (op - CEE_BR_S + CEE_BR) := by
  have hne : ¬ op = CEE_LEAVE_S := fun h => absurd (h ▸ hge) (by decide)
  have hlong : CEE_BR ≤ op - CEE_BR_S + CEE_BR ∧ op - CEE_BR_S + CEE_BR ≤ CEE_BLT_UN := by
    have hle' : 0x2B ≤ op := hle
    have hge' : op ≤ 0x37 := hge
    show 0x38 ≤ op - 0x2B + 0x38 ∧ op - 0x2B + 0x38 ≤ 0x44
    omega
  rw [expandBranch, if_neg hne, if_pos ⟨hle, hge⟩]
  exact if_pos hlong

/-- Every short branch has a long form. -/
theorem exists_expandBranch {r : ILRewriter} {p : InstrPtr} (h : r.isShort p) :
    ∃ op, expandBranch (r.opcodeAt p) = .ok op := by
  rcases isShort_iff.1 h with ⟨hle, hge⟩ | hleave
  · exact ⟨_, expandBranch_of_le hle hge⟩
  · exact ⟨CEE_LEAVE, by rw [expandBranch, if_pos hleave]⟩

/-- What a short branch is expanded to is not short, and an opcode. -/
theorem expandBranch_ok {op op' : OPCODE} (h : expandBranch op = .ok op') :
    op' = CEE_LEAVE ∨ CEE_BR ≤ op' ∧ op' ≤ CEE_BLT_UN := by
  unfold expandBranch at h
  split at h
  · exact .inl (Except.ok.inj h).symm
  · split at h
    · dsimp only at h
      split at h
      · rename_i hlong
        obtain rfl := Except.ok.inj h
        exact .inr hlong
      · cases h
    · cases h

/-- `r'` is `r` with some of its short branches expanded. -/
structure Expands (r r' : ILRewriter) : Prop where
  il : r'.il = r.il
  nInstrs : r'.nInstrs = r.nInstrs
  maxStack : r'.maxStack = r.maxStack
  generateTinyHeader : r'.generateTinyHeader = r.generateTinyHeader
  operand : ∀ p, (r'.instr p).operand = (r.instr p).operand
  opcode : ∀ p, r'.opcodeAt p = r.opcodeAt p ∨
    r.isShort p ∧ expandBranch (r.opcodeAt p) = .ok (r'.opcodeAt p)

variable {r r' r'' : ILRewriter} {p q : InstrPtr} {op : OPCODE}

theorem isShort_eq_of_opcodeAt (h : r'.opcodeAt p = r.opcodeAt p) : r'.isShort p = r.isShort p := by
  rw [isShort, isShort, h]

theorem not_isShort_of_expandBranch {op : OPCODE} (h : expandBranch op = .ok (r.opcodeAt p)) :
    ¬ r.isShort p := by
  rw [isShort_iff]
  rcases expandBranch_ok h with h | ⟨hle, hge⟩
  · rw [h]
    decide
  · have hle' : 0x38 ≤ r.opcodeAt p := hle
    have hge' : r.opcodeAt p ≤ 0x44 := hge
    rintro (⟨-, hshort⟩ | hleave)
    · exact absurd (le_trans hle' hshort) (by decide)
    · rw [hleave] at hge'
      exact absurd hge' (by decide)

namespace Expands

theorem refl (r : ILRewriter) : Expands r r :=
  ⟨rfl, rfl, rfl, rfl, fun _ => rfl, fun _ => .inl rfl⟩

theorem trans (h : Expands r r') (h' : Expands r' r'') : Expands r r'' where
  il := h'.il.trans h.il
  nInstrs := h'.nInstrs.trans h.nInstrs
  maxStack := h'.maxStack.trans h.maxStack
  generateTinyHeader := h'.generateTinyHeader.trans h.generateTinyHeader
  operand p := (h'.operand p).trans (h.operand p)
  opcode p := by
    rcases h'.opcode p with heq' | ⟨hshort', hop'⟩
    · rw [heq']
      exact h.opcode p
    · rcases h.opcode p with heq | ⟨-, hop⟩
      · rw [heq] at hop'
        rw [isShort_eq_of_opcodeAt heq] at hshort'
        exact .inr ⟨hshort', hop'⟩
      · exact absurd hshort' (not_isShort_of_expandBranch hop)

theorem isShort (h : Expands r r') (hp : r'.isShort p) : r.isShort p := by
  rcases h.opcode p with heq | ⟨hshort, -⟩
  · rwa [isShort_eq_of_opcodeAt heq] at hp
  · exact hshort

end Expands

theorem instr_setOpcode : (r.setOpcode p op).instr =
    Function.update r.instr p { r.instr p with opcode := op } := rfl

theorem opcodeAt_setOpcode_self : (r.setOpcode p op).opcodeAt p = op := by
  rw [opcodeAt, instr_setOpcode, Function.update_self]

theorem opcodeAt_setOpcode_of_ne (h : q ≠ p) : (r.setOpcode p op).opcodeAt q = r.opcodeAt q := by
  rw [opcodeAt, instr_setOpcode, Function.update_of_ne h, opcodeAt]

theorem expands_setOpcode (hp : r.isShort p) (h : expandBranch (r.opcodeAt p) = .ok op) :
    Expands r (r.setOpcode p op) where
  il := rfl
  nInstrs := rfl
  maxStack := rfl
  generateTinyHeader := rfl
  operand q := by
    by_cases hq : q = p
    · rw [hq, instr_setOpcode, Function.update_self]
    · rw [instr_setOpcode, Function.update_of_ne hq]
  opcode q := by
    by_cases hq : q = p
    · rw [hq, opcodeAt_setOpcode_self]
      exact .inr ⟨hp, h⟩
    · exact .inl (opcodeAt_setOpcode_of_ne hq)

/-- The branches that are short, one of which is expanded before anything is done again. -/
def shortBranches (r : ILRewriter) : ℕ := r.il.countP r.isShort

theorem Expands.shortBranches_lt (h : Expands r r') (hp : p ∈ r.il) (hshort : r.isShort p)
    (hlong : ¬ r'.isShort p) : r'.shortBranches < r.shortBranches := by
  unfold shortBranches
  rw [h.il]
  obtain ⟨pre, post, hil⟩ := List.append_of_mem hp
  rw [hil, List.countP_append, List.countP_append, List.countP_cons_of_pos hshort,
    List.countP_cons_of_neg hlong]
  have hpre : pre.countP r'.isShort ≤ pre.countP r.isShort :=
    List.countP_mono_left fun _ _ => h.isShort
  have hpost : post.countP r'.isShort ≤ post.countP r.isShort :=
    List.countP_mono_left fun _ _ => h.isShort
  omega

/-! ## The loop -/

variable {m_offset m_offset' : InstrPtr → UInt32} {fTryAgain again : Bool} {ps : List InstrPtr}

/-- The branches that are left reach their targets, unless one has been expanded. -/
theorem resolve_spec (h : resolve m_offset r fTryAgain ps = .ok (r', again)) : Expands r r' ∧
    (again = false → fTryAgain = false ∧ r' = r ∧
      ∀ p ∈ ps, r.isShort p → fitsInt8 (r.delta m_offset p)) ∧
    (again → fTryAgain ∨ ∃ p ∈ ps, r.isShort p ∧ ¬ r'.isShort p) := by
  induction ps generalizing r fTryAgain with
  | nil =>
    obtain ⟨rfl, rfl⟩ := Prod.mk.inj (Except.ok.inj h)
    exact ⟨.refl r, fun hagain => ⟨hagain, rfl, nofun⟩, .inl⟩
  | cons p ps ih =>
    rw [resolve] at h
    split at h
    · rename_i hflags
      have hshort : r.isShort p := decide_eq_true hflags
      split at h
      · rename_i hfits
        obtain ⟨hexpands, hdone, hagain⟩ := ih h
        refine ⟨hexpands, fun hf => ?_, fun ht => ?_⟩
        · obtain ⟨hbefore, rfl, hall⟩ := hdone hf
          exact ⟨hbefore, rfl, List.forall_mem_cons.2 ⟨fun _ => hfits, hall⟩⟩
        · rcases hagain ht with hbefore | ⟨q, hq, hexpanded⟩
          · exact .inl hbefore
          · exact .inr ⟨q, List.mem_cons_of_mem p hq, hexpanded⟩
      · split at h
        · cases h
        · rename_i op hop
          have hset : Expands r (r.setOpcode p op) := expands_setOpcode hshort hop
          obtain ⟨hexpands, hdone, -⟩ := ih h
          refine ⟨hset.trans hexpands, fun hf => ?_, fun _ => ?_⟩
          · cases (hdone hf).1
          · refine .inr ⟨p, List.mem_cons_self, hshort, fun hp => ?_⟩
            rw [← @opcodeAt_setOpcode_self r p op] at hop
            exact not_isShort_of_expandBranch hop (hexpands.isShort hp)
    · rename_i hflags
      have hlong : ¬ r.isShort p := fun hp => hflags (of_decide_eq_true hp)
      obtain ⟨hexpands, hdone, hagain⟩ := ih h
      refine ⟨hexpands, fun hf => ?_, fun ht => ?_⟩
      · obtain ⟨hbefore, rfl, hall⟩ := hdone hf
        exact ⟨hbefore, rfl, List.forall_mem_cons.2 ⟨fun hp => absurd hp hlong, hall⟩⟩
      · rcases hagain ht with hbefore | ⟨q, hq, hexpanded⟩
        · exact .inl hbefore
        · exact .inr ⟨q, List.mem_cons_of_mem p hq, hexpanded⟩

/-- A pass that is not the last expands a short branch. -/
theorem resolve_lt (h : resolve m_offset r false r.il = .ok (r', true)) :
    r'.shortBranches < r.shortBranches := by
  obtain ⟨hexpands, -, hagain⟩ := resolve_spec h
  obtain ⟨p, hp, hshort, hlong⟩ := (hagain rfl).resolve_left Bool.false_ne_true
  exact hexpands.shortBranches_lt hp hshort hlong

/-- The loop from `again` on: `m_offset` of every instruction, and of `m_IL`. -/
def relayout (r : ILRewriter) (m_offset : InstrPtr → UInt32) :
    Except HRESULT (ILRewriter × (InstrPtr → UInt32)) :=
  match r.produce r.il ⟨m_offset, 0, false⟩ with
  | .error hr => .error hr
  | .ok s =>
    let m_offset := Function.update s.m_offset m_IL s.offset
    if s.fBranch then
      match _h : resolve m_offset r false r.il with
      | .error hr => .error hr
      | .ok (r', false) => .ok (r', m_offset)
      | .ok (r', true) => relayout r' m_offset
    else .ok (r, m_offset)
termination_by r.shortBranches
decreasing_by exact resolve_lt _h

theorem relayout_expands (h : r.relayout m_offset = .ok (r', m_offset')) : Expands r r' := by
  induction hn : r.shortBranches using Nat.strong_induction_on generalizing r m_offset with
  | _ n ih =>
    rw [relayout] at h
    split at h
    · cases h
    dsimp only at h
    split at h
    · split at h
      · cases h
      · rename_i hresolve
        obtain ⟨rfl, -⟩ := Prod.mk.inj (Except.ok.inj h)
        exact (resolve_spec hresolve).1
      · rename_i hresolve
        exact (resolve_spec hresolve).1.trans (ih _ (hn ▸ resolve_lt hresolve) h rfl)
    · obtain ⟨rfl, -⟩ := Prod.mk.inj (Except.ok.inj h)
      exact .refl r

/-! ## The body -/

/-- What `Export` writes of an exception clause. -/
structure ExportedClause where
  flags : ℕ
  tryOffset : UInt32
  tryLength : UInt32
  handlerOffset : UInt32
  handlerLength : UInt32
  classTokenOrFilterOffset : UInt32

inductive MethodHeader
  | tiny (codeSize : UInt32)
  | fat (flags : ℕ) (maxStack : UInt16) (codeSize : UInt32) (localVarSigTok : UInt32)

structure MethodBody where
  header : MethodHeader
  clauses : List ExportedClause

def CorILMethod_FatFormat : ℕ := 0x3
def CorILMethod_MoreSects : ℕ := 0x8

def exportClause (r : ILRewriter) (m_offset : InstrPtr → UInt32) (c : EHClause) :
    ExportedClause where
  flags := c.flags
  tryOffset := m_offset c.tryBegin
  tryLength := m_offset c.tryEnd - m_offset c.tryBegin
  handlerOffset := m_offset c.handlerBegin
  handlerLength := m_offset (r.next c.handlerEnd) - m_offset c.handlerBegin
  classTokenOrFilterOffset :=
    if c.flags &&& COR_ILEXCEPTION_CLAUSE_FILTER = 0 then .ofNat c.classTokenOrFilter.bits
    else m_offset c.classTokenOrFilter.bits

/-- A method with a tiny header has a stack of 8. -/
def MethodHeader.maxStack : MethodHeader → ℕ
  | .tiny _ => 8
  | .fat _ maxStack _ _ => maxStack.toNat

/-- The body that is given to `SetILFunctionBody`. The header has 16 bits for `MaxStack`. -/
def export_ (r : ILRewriter) : Except HRESULT MethodBody := do
  let (r, m_offset) ← r.relayout fun _ => 0
  let codeSize := m_offset m_IL
  if r.generateTinyHeader then
    if 64 ≤ codeSize then .error E_FAIL else .ok ⟨.tiny codeSize, []⟩
  else
    let flags := r.flags ||| (if r.eh.isEmpty then 0 else CorILMethod_MoreSects) |||
      CorILMethod_FatFormat
    .ok ⟨.fat flags (.ofNat r.maxStack) codeSize (.ofNat r.tkLocalVarSig),
      r.eh.map (r.exportClause m_offset)⟩

end ILRewriter

end DdTrace.Native
