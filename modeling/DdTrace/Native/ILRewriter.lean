import DdTrace.Lib.Insertion
import DdTrace.Native.Opcode
import Mathlib.Data.List.Range
import Mathlib.Logic.Function.Basic

/-!
# The rewriter's instruction list

`ILRewriter` holds the instructions of a method body in a ring through `m_IL`: `il` are the
addresses from `m_IL.m_pNext` to `m_IL.m_pPrev`, `instr` what stands at an address. New
instructions get fresh addresses, so they are numbered as `m_nInstrs` counts them, and 0 is
`&m_IL`. Branch targets and exception clauses refer to instructions by address.
-/

namespace DdTrace.Native

/-- An `ILInstr*`. -/
abbrev InstrPtr := ℕ

/-- `&m_IL`, which also stands for the end of the code. -/
def m_IL : InstrPtr := 0

abbrev Token := ℕ

/-- The unions of `ILInstr` and `EHClause`. -/
inductive Operand where
  | arg (bits : ℕ)
  | target (instr : InstrPtr)
  deriving DecidableEq

structure ILInstr where
  opcode : OPCODE
  operand : Operand := .arg 0
  deriving DecidableEq

def COR_ILEXCEPTION_CLAUSE_NONE : ℕ := 0
def COR_ILEXCEPTION_CLAUSE_FILTER : ℕ := 1
def COR_ILEXCEPTION_CLAUSE_FINALLY : ℕ := 2

/-- `tryEnd` is exclusive, `handlerEnd` the last instruction inside the handler. -/
structure EHClause where
  flags : ℕ
  tryBegin : InstrPtr
  tryEnd : InstrPtr
  handlerBegin : InstrPtr
  handlerEnd : InstrPtr
  classTokenOrFilter : Operand
  deriving DecidableEq

structure ILRewriter where
  tkLocalVarSig : Token
  maxStack : ℕ
  flags : ℕ
  generateTinyHeader : Bool
  il : List InstrPtr
  instr : InstrPtr → ILInstr
  eh : List EHClause
  nInstrs : ℕ

namespace ILRewriter

/-- `pInstr->m_pNext`. -/
def next (r : ILRewriter) (p : InstrPtr) : InstrPtr :=
  if p = m_IL then r.il.headD m_IL else r.il.getD (r.il.idxOf p + 1) m_IL

/-- `pInstr->m_pPrev`. -/
def prev (r : ILRewriter) (p : InstrPtr) : InstrPtr :=
  if r.il.idxOf p = 0 then m_IL else r.il.getD (r.il.idxOf p - 1) m_IL

/-- The address that `NewILInstr` returns. -/
def newPtr (r : ILRewriter) : InstrPtr := r.nInstrs + 1

/-- `NewILInstr`, and the opcode and operand the caller sets. -/
def newILInstr (r : ILRewriter) (i : ILInstr) : ILRewriter :=
  { r with nInstrs := r.nInstrs + 1, instr := Function.update r.instr r.newPtr i }

def adjustState (r : ILRewriter) (newInstr : InstrPtr) : ILRewriter :=
  { r with maxStack := r.maxStack + k_rgnStackPushes (r.instr newInstr).opcode }

def insertBefore (r : ILRewriter) (pWhere pWhat : InstrPtr) : ILRewriter :=
  { r with il := Lib.insertBefore pWhere pWhat r.il }.adjustState pWhat

def insertAfter (r : ILRewriter) (pWhere pWhat : InstrPtr) : ILRewriter :=
  { r with il := Lib.insertAfter pWhere pWhat r.il }.adjustState pWhat

def setTarget (r : ILRewriter) (p target : InstrPtr) : ILRewriter :=
  { r with instr := Function.update r.instr p { r.instr p with operand := .target target } }

def setTkLocalVarSig (r : ILRewriter) (tkLocalVarSig : Token) : ILRewriter :=
  { r with tkLocalVarSig := tkLocalVarSig, generateTinyHeader := false }

def setEHClause (r : ILRewriter) (eh : List EHClause) : ILRewriter := { r with eh := eh }

/-- A new instruction before `pos`, as every `ILRewriterWrapper` function emits it. -/
def emit (r : ILRewriter) (pos : InstrPtr) (i : ILInstr) : ILRewriter :=
  (r.newILInstr i).insertBefore pos r.newPtr

def emitAll (r : ILRewriter) (pos : InstrPtr) : List ILInstr → ILRewriter
  | [] => r
  | i :: is => (r.emit pos i).emitAll pos is

/-- The list holds distinct addresses that `NewILInstr` has returned. -/
structure WellFormed (r : ILRewriter) : Prop where
  nodup : r.il.Nodup
  pos : ∀ p : ℕ, p ∈ r.il → 0 < p
  le : ∀ p : ℕ, p ∈ r.il → p ≤ r.nInstrs

/-! ## Emitting -/

variable {r : ILRewriter} {p pos : ℕ} {i : ILInstr} {is : List ILInstr} {pre post : List ℕ}

@[simp] theorem emit_nInstrs : (r.emit pos i).nInstrs = r.nInstrs + 1 := rfl
@[simp] theorem emit_eh : (r.emit pos i).eh = r.eh := rfl
@[simp] theorem emit_instr :
    (r.emit pos i).instr = Function.update r.instr (r.nInstrs + 1) i := rfl
@[simp] theorem emit_il :
    (r.emit pos i).il = Lib.insertBefore pos (r.nInstrs + 1) r.il := rfl

@[simp] theorem emitAll_nInstrs : (r.emitAll pos is).nInstrs = r.nInstrs + is.length := by
  induction is generalizing r with
  | nil => rfl
  | cons i is ih => rw [emitAll, ih, emit_nInstrs, List.length_cons]; omega

@[simp] theorem emitAll_eh : (r.emitAll pos is).eh = r.eh := by
  induction is generalizing r with
  | nil => rfl
  | cons i is ih => rw [emitAll, ih, emit_eh]

theorem emitAll_il (hpre : pos ∉ pre) (hpos : pos ≤ r.nInstrs) (h : r.il = pre ++ pos :: post) :
    (r.emitAll pos is).il = pre ++ List.range' (r.nInstrs + 1) is.length ++ pos :: post := by
  induction is generalizing r pre with
  | nil => simpa [emitAll] using h
  | cons i is ih =>
    have hne : pos ≠ r.nInstrs + 1 := by omega
    have hil : (r.emit pos i).il = (pre ++ [r.nInstrs + 1]) ++ pos :: post := by
      rw [emit_il, h, Lib.insertBefore_append hpre]
      simp
    rw [emitAll, ih (by simp [hpre, hne]) (by simp; omega) hil]
    simp [List.range'_succ]

theorem emitAll_instr_le (hp : p ≤ r.nInstrs) : (r.emitAll pos is).instr p = r.instr p := by
  induction is generalizing r with
  | nil => rfl
  | cons i is ih =>
    rw [emitAll, ih (by simp; omega), emit_instr,
      Function.update_of_ne (show p ≠ r.nInstrs + 1 by omega)]

/-- `is` stand at the addresses from `a` on. -/
def CodeAt (r : ILRewriter) (a : ℕ) (is : List ILInstr) : Prop :=
  ∀ j i, is[j]? = some i → r.instr (a + j) = i

theorem emitAll_codeAt : (r.emitAll pos is).CodeAt (r.nInstrs + 1) is := by
  induction is generalizing r with
  | nil => intro j i hi; simp at hi
  | cons i is ih =>
    intro j i' hi
    cases j with
    | zero =>
      obtain rfl : i = i' := by simpa using hi
      rw [emitAll, Nat.add_zero, emitAll_instr_le (by simp), emit_instr, Function.update_self]
    | succ j =>
      have := @ih (r.emit pos i) j i' (by simpa using hi)
      rwa [emit_nInstrs, Nat.add_right_comm, Nat.add_assoc] at this

theorem emitAll_append {is js : List ILInstr} :
    r.emitAll pos (is ++ js) = (r.emitAll pos is).emitAll pos js := by
  induction is generalizing r with
  | nil => rfl
  | cons i is ih => exact ih

theorem emit_eq : r.emit pos i = r.emitAll pos [i] := rfl

@[simp] theorem setTkLocalVarSig_nInstrs {sig : Token} :
    (r.setTkLocalVarSig sig).nInstrs = r.nInstrs := rfl
@[simp] theorem setTkLocalVarSig_il {sig : Token} : (r.setTkLocalVarSig sig).il = r.il := rfl
@[simp] theorem setTkLocalVarSig_eh {sig : Token} : (r.setTkLocalVarSig sig).eh = r.eh := rfl
@[simp] theorem setTkLocalVarSig_instr {sig : Token} :
    (r.setTkLocalVarSig sig).instr = r.instr := rfl

@[simp] theorem setTarget_il : (r.setTarget p pos).il = r.il := rfl
@[simp] theorem setTarget_eh : (r.setTarget p pos).eh = r.eh := rfl
@[simp] theorem setTarget_nInstrs : (r.setTarget p pos).nInstrs = r.nInstrs := rfl

theorem setTarget_instr_of_ne {q : ℕ} (h : q ≠ p) : (r.setTarget p pos).instr q = r.instr q :=
  Function.update_of_ne h _ _

theorem setTarget_instr_self : (r.setTarget p pos).instr p = ⟨(r.instr p).opcode, .target pos⟩ :=
  Function.update_self ..

namespace CodeAt

variable {a : ℕ} {js : List ILInstr}

theorem head (h : r.CodeAt a (i :: is)) : r.instr a = i := h 0 i rfl

theorem append_left (h : r.CodeAt a (is ++ js)) : r.CodeAt a is := fun j i hi =>
  h j i (by rw [List.getElem?_append_left (List.getElem?_eq_some_iff.1 hi).1]; exact hi)

theorem append_right (h : r.CodeAt a (is ++ js)) : r.CodeAt (a + is.length) js := by
  intro j i hi
  rw [Nat.add_assoc]
  exact h _ i (by rw [List.getElem?_append_right (by omega)]; simpa using hi)

end CodeAt

end ILRewriter

end DdTrace.Native
