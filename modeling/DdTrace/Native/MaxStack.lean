import DdTrace.Native.Relaxation
import Mathlib.Algebra.BigOperators.Group.List.Basic

/-!
# `MaxStack`

The rewriter adds what each instruction pushes to the imported `MaxStack`, those of the imported
body too, and the header that `Export` writes has 16 bits for the sum. So the field is kept up
exactly when no carry leaves these bits.
-/

namespace DdTrace.Native

/-- What `Import` reads: the header, which a tiny one stands for with a stack of 8, and the
instructions. -/
structure ImportedMethod where
  localVarSigTok : Token
  maxStack : UInt16
  flags : ℕ
  code : List ILInstr
  eh : List EHClause

def CorILMethod_InitLocals : ℕ := 0x10

/-- What is done to the list after its import, the targets of its branches included. -/
inductive Edit
  | insertBefore (pWhere : InstrPtr) (i : ILInstr)
  | insertAfter (pWhere : InstrPtr) (i : ILInstr)
  | setInstr (p : InstrPtr) (i : ILInstr)
  | setTkLocalVarSig (tkLocalVarSig : Token)
  | setEHClause (eh : List EHClause)

/-- The sum of `k_rgnStackPushes`. -/
def pushes (is : List ILInstr) : ℕ := (is.map fun i => k_rgnStackPushes i.opcode).sum

/-- The instruction that is inserted. -/
def Edit.inserted : Edit → List ILInstr
  | .insertBefore _ i | .insertAfter _ i => [i]
  | _ => []

namespace ILRewriter

/-- Every instruction is put in front of `m_IL`. -/
def import_ (m : ImportedMethod) : ILRewriter :=
  { tkLocalVarSig := m.localVarSigTok
    maxStack := m.maxStack.toNat
    flags := m.flags &&& CorILMethod_InitLocals
    generateTinyHeader := false
    il := []
    instr := fun _ => ⟨CEE_NOP, .arg 0⟩
    eh := m.eh
    nInstrs := 0 : ILRewriter }.emitAll m_IL m.code

def edit (r : ILRewriter) : Edit → ILRewriter
  | .insertBefore pWhere i => (r.newILInstr i).insertBefore pWhere r.newPtr
  | .insertAfter pWhere i => (r.newILInstr i).insertAfter pWhere r.newPtr
  | .setInstr p i => r.setInstr p i
  | .setTkLocalVarSig tkLocalVarSig => r.setTkLocalVarSig tkLocalVarSig
  | .setEHClause eh => r.setEHClause eh

def editAll (r : ILRewriter) (edits : List Edit) : ILRewriter := edits.foldl edit r

/-! ## What the rewriter adds -/

variable {r : ILRewriter} {pos : InstrPtr} {i : ILInstr} {is : List ILInstr} {e : Edit}
  {edits : List Edit} {m : ImportedMethod}

theorem pushes_cons : pushes (i :: is) = k_rgnStackPushes i.opcode + pushes is := rfl

theorem pushes_append {js : List ILInstr} : pushes (is ++ js) = pushes is + pushes js := by
  rw [pushes, List.map_append, List.sum_append]
  rfl

theorem maxStack_adjustState_newILInstr {il : List InstrPtr} :
    ({ r.newILInstr i with il := il }.adjustState r.newPtr).maxStack =
      r.maxStack + k_rgnStackPushes i.opcode := by
  show r.maxStack + k_rgnStackPushes (Function.update r.instr r.newPtr i r.newPtr).opcode = _
  rw [Function.update_self]

theorem maxStack_emitAll : (r.emitAll pos is).maxStack = r.maxStack + pushes is := by
  induction is generalizing r with
  | nil => rfl
  | cons i is ih =>
    rw [emitAll, ih, pushes_cons, ← Nat.add_assoc]
    exact congrArg (· + pushes is) maxStack_adjustState_newILInstr

theorem maxStack_edit : (r.edit e).maxStack = r.maxStack + pushes e.inserted := by
  cases e with
  | insertBefore pWhere i => exact maxStack_adjustState_newILInstr
  | insertAfter pWhere i => exact maxStack_adjustState_newILInstr
  | setInstr p i => rfl
  | setTkLocalVarSig tkLocalVarSig => rfl
  | setEHClause eh => rfl

theorem maxStack_editAll :
    (r.editAll edits).maxStack = r.maxStack + pushes (edits.flatMap Edit.inserted) := by
  induction edits generalizing r with
  | nil => rfl
  | cons e edits ih =>
    rw [List.flatMap_cons, pushes_append, ← Nat.add_assoc, ← maxStack_edit]
    exact ih

theorem maxStack_import : (import_ m).maxStack = m.maxStack.toNat + pushes m.code :=
  maxStack_emitAll

/-! ## The header -/

theorem generateTinyHeader_emitAll :
    (r.emitAll pos is).generateTinyHeader = r.generateTinyHeader := by
  induction is generalizing r with
  | nil => rfl
  | cons i is ih => exact ih

/-- An imported method gets a fat header. -/
theorem generateTinyHeader_editAll (h : r.generateTinyHeader = false) :
    (r.editAll edits).generateTinyHeader = false := by
  induction edits generalizing r with
  | nil => exact h
  | cons e edits ih =>
    refine ih ?_
    cases e with
    | setTkLocalVarSig tkLocalVarSig => rfl
    | insertBefore pWhere i => exact h
    | insertAfter pWhere i => exact h
    | setInstr p i => exact h
    | setEHClause eh => exact h

theorem maxStack_export {b : MethodBody} (h : r.export_ = .ok b)
    (hfat : r.generateTinyHeader = false) : b.header.maxStack = r.maxStack % 2 ^ 16 := by
  unfold export_ at h
  cases hrelayout : r.relayout fun _ => 0 with
  | error hr =>
    rw [hrelayout] at h
    cases h
  | ok result =>
    obtain ⟨r', m_offset⟩ := result
    have hexpands := relayout_expands hrelayout
    rw [hrelayout] at h
    change (if r'.generateTinyHeader then _ else _) = _ at h
    rw [hexpands.generateTinyHeader, hfat, if_neg Bool.false_ne_true] at h
    obtain rfl := Except.ok.inj h
    rw [← hexpands.maxStack]
    exact UInt16.toNat_ofNat'

theorem exists_export (h : r.Built) (hlt : 10 * r.nInstrs < 2 ^ 32)
    (hfat : r.generateTinyHeader = false) : ∃ b, r.export_ = .ok b := by
  obtain ⟨r', m_offset, hrelayout, hexpands, -⟩ := h.relayouts hlt
  rw [export_, hrelayout]
  change ∃ b, (if r'.generateTinyHeader then _ else _) = _
  rw [hexpands.generateTinyHeader, hfat, if_neg Bool.false_ne_true]
  exact ⟨_, rfl⟩

theorem Built.emitAll (h : r.Built) (hops : ∀ i ∈ is, IsOpcode i.opcode) :
    (r.emitAll m_IL is).Built := by
  induction is generalizing r with
  | nil => exact h
  | cons i is ih =>
    obtain ⟨hop, hops⟩ := List.forall_mem_cons.1 hops
    exact ih (.insertBefore h List.mem_cons_self hop) hops

/-- A method that is short enough is exported as it is imported. -/
theorem exists_export_import (hops : ∀ i ∈ m.code, IsOpcode i.opcode)
    (hlt : 10 * m.code.length < 2 ^ 32) : ∃ b, ((import_ m).editAll []).export_ = .ok b := by
  refine exists_export (.emitAll (.empty rfl rfl) hops) ?_ generateTinyHeader_emitAll
  show 10 * (import_ m).nInstrs < 2 ^ 32
  rw [import_, emitAll_nInstrs, Nat.zero_add]
  exact hlt

/-! ## The result -/

/-- The header's `MaxStack` is at least the imported one and what the inserted instructions push
exactly when neither sum is carried out of 16 bits. -/
theorem maxStack_kept_iff {b : MethodBody} (h : ((import_ m).editAll edits).export_ = .ok b) :
    m.maxStack.toNat ≤ b.header.maxStack ∧
      pushes (edits.flatMap Edit.inserted) ≤ b.header.maxStack ↔
    m.maxStack.toNat + (pushes m.code + pushes (edits.flatMap Edit.inserted)) % 2 ^ 16 < 2 ^ 16 ∧
      (m.maxStack.toNat + pushes m.code) % 2 ^ 16 + pushes (edits.flatMap Edit.inserted) <
        2 ^ 16 := by
  have hfat : (import_ m).generateTinyHeader = false := generateTinyHeader_emitAll
  rw [maxStack_export h (generateTinyHeader_editAll hfat), maxStack_editAll, maxStack_import]
  have hmaxStack := UInt16.toNat_lt m.maxStack
  omega

/-- `n` times `ldnull`, each of them popped, in a method with a stack of 8. -/
def ldnulls (n : ℕ) : ImportedMethod where
  localVarSigTok := 0
  maxStack := 8
  flags := 0
  code := (List.replicate n [⟨CEE_LDNULL, .arg 0⟩, ⟨CEE_POP, .arg 0⟩]).flatten ++
    [⟨CEE_RET, .arg 0⟩]
  eh := []

theorem pushes_ldnulls (n : ℕ) : pushes (ldnulls n).code = n := by
  rw [ldnulls, pushes_append, pushes, List.map_flatten, List.map_replicate, List.sum_flatten,
    List.map_replicate, List.sum_replicate]
  exact Nat.mul_one n

theorem isOpcode_ldnulls (n : ℕ) : ∀ i ∈ (ldnulls n).code, IsOpcode i.opcode := by
  intro i hi
  have hpairs : ∀ is ∈ List.replicate n [⟨CEE_LDNULL, .arg 0⟩, (⟨CEE_POP, .arg 0⟩ : ILInstr)],
      ∀ i ∈ is, IsOpcode i.opcode := by
    intro is his i hi
    rw [List.eq_of_mem_replicate his] at hi
    rcases List.mem_pair.1 hi with rfl | rfl
    · exact .inl (by decide)
    · exact .inl (by decide)
  rcases List.mem_append.1 hi with hi | hi
  · obtain ⟨is, his, hi⟩ := List.mem_flatten.1 hi
    exact hpairs is his i hi
  · rw [List.mem_singleton.1 hi]
    exact .inl (by decide)

theorem exists_export_ldnulls {n : ℕ} (hlt : 20 * n + 10 < 2 ^ 32) :
    ∃ b, ((import_ (ldnulls n)).editAll []).export_ = .ok b := by
  refine exists_export_import (isOpcode_ldnulls n) ?_
  rw [ldnulls, List.length_append, List.length_flatten, List.map_replicate, List.sum_replicate]
  show 10 * (n * 2 + 1) < 2 ^ 32
  omega

/-- A push in front of the first instruction, and its pop behind it. -/
def aroundFirst : List Edit :=
  [.insertBefore 1 ⟨CEE_LDNULL, .arg 0⟩, .insertAfter 1 ⟨CEE_POP, .arg 0⟩]

theorem exists_export_aroundFirst :
    ∃ b, ((import_ (ldnulls 3)).editAll aroundFirst).export_ = .ok b := by
  have himported : (import_ (ldnulls 3)).Built :=
    .emitAll (.empty rfl rfl) (isOpcode_ldnulls 3)
  have hbuilt : ((import_ (ldnulls 3)).editAll aroundFirst).Built :=
    .insertAfter (.insertBefore himported (by decide) (.inl (by decide))) (by decide)
      (.inl (by decide))
  exact exists_export hbuilt (by decide) (generateTinyHeader_editAll generateTinyHeader_emitAll)

theorem maxStack_kept_three :
    ∃ b, ((import_ (ldnulls 3)).editAll aroundFirst).export_ = .ok b ∧
      8 ≤ b.header.maxStack ∧ 1 ≤ b.header.maxStack := by
  obtain ⟨b, h⟩ := exists_export_aroundFirst
  exact ⟨b, h, (maxStack_kept_iff h).2 ⟨by decide, by decide⟩⟩

/-- The pushes of the body itself already leave nothing of a stack of 8. -/
theorem maxStack_lost : ∃ b, ((import_ (ldnulls 65528)).editAll []).export_ = .ok b ∧
    (ldnulls 65528).maxStack = 8 ∧ b.header.maxStack = 0 := by
  obtain ⟨b, h⟩ := exists_export_ldnulls (n := 65528) (by decide)
  refine ⟨b, h, rfl, ?_⟩
  rw [maxStack_export h (generateTinyHeader_editAll generateTinyHeader_emitAll), maxStack_editAll,
    maxStack_import, pushes_ldnulls]
  rfl

end ILRewriter

end DdTrace.Native
