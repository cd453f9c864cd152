import Mathlib.Data.List.Basic

/-!
# Stack code with forward branches

Code is a list of instructions over any operations `Op`, each of which changes the stack (top
first) or is stuck. `EveryPath Q code s`: from the stack `s` no path through the code is stuck,
and every path that reaches its end does so with a stack of which `Q` holds. A `Block` leaves one
stack, whichever path is taken.
-/

namespace DdTrace.Lib

inductive Instr (Op : Type)
  | op (o : Op)
  | mark (label : ℕ)
  | br (label : ℕ)
  | brtrue (label : ℕ)
  | throw
  deriving DecidableEq, Repr

variable {Op V : Type}

/-- The code after the next mark of the label. -/
def fromMark (label : ℕ) : List (Instr Op) → Option (List (Instr Op))
  | [] => none
  | .mark l :: code => if l = label then some code else fromMark label code
  | _ :: code => fromMark label code

@[simp] theorem fromMark_mark (label : ℕ) (code : List (Instr Op)) :
    fromMark label (.mark label :: code) = some code := if_pos rfl

theorem fromMark_mark_of_ne {label l : ℕ} (h : l ≠ label) (code : List (Instr Op)) :
    fromMark label (.mark l :: code) = fromMark label code := if_neg h

@[simp] theorem fromMark_op (label : ℕ) (o : Op) (code : List (Instr Op)) :
    fromMark label (.op o :: code) = fromMark label code := rfl

@[simp] theorem fromMark_br (label l : ℕ) (code : List (Instr Op)) :
    fromMark label (.br l :: code) = fromMark label code := rfl

@[simp] theorem fromMark_throw (label : ℕ) (code : List (Instr Op)) :
    fromMark label (.throw :: code) = fromMark label code := rfl

inductive EveryPath (effect : Op → List V → Option (List V)) (Q : List V → Prop) :
    List (Instr Op) → List V → Prop
  | nil {s : List V} : Q s → EveryPath effect Q [] s
  | op {o : Op} {code : List (Instr Op)} {s s' : List V} :
      effect o s = some s' → EveryPath effect Q code s' → EveryPath effect Q (.op o :: code) s
  | mark {label : ℕ} {code : List (Instr Op)} {s : List V} :
      EveryPath effect Q code s → EveryPath effect Q (.mark label :: code) s
  | br {label : ℕ} {code rest : List (Instr Op)} {s : List V} :
      fromMark label code = some rest → EveryPath effect Q rest s →
      EveryPath effect Q (.br label :: code) s
  | brtrue {label : ℕ} {code rest : List (Instr Op)} {v : V} {s : List V} :
      fromMark label code = some rest → EveryPath effect Q rest s → EveryPath effect Q code s →
      EveryPath effect Q (.brtrue label :: code) (v :: s)
  | throw {code : List (Instr Op)} {s : List V} : EveryPath effect Q (.throw :: code) s

variable {effect : Op → List V → Option (List V)} {Q : List V → Prop}
  {code code' rest : List (Instr Op)} {s pre mid post : List V} {label : ℕ}

namespace EveryPath

@[simp] theorem nil_iff : EveryPath effect Q [] s ↔ Q s := by
  constructor
  · rintro ⟨h⟩
    exact h
  · exact .nil

theorem op_iff {o : Op} {s' : List V} (h : effect o s = some s') :
    EveryPath effect Q (.op o :: code) s ↔ EveryPath effect Q code s' := by
  constructor
  · rintro (_ | ⟨h', hcode⟩)
    rw [h] at h'
    cases h'
    exact hcode
  · exact .op h

theorem not_op {o : Op} (h : effect o s = none) : ¬ EveryPath effect Q (.op o :: code) s := by
  rintro (_ | ⟨h', -⟩)
  rw [h] at h'
  cases h'

theorem mark_iff : EveryPath effect Q (.mark label :: code) s ↔ EveryPath effect Q code s := by
  constructor
  · rintro ⟨⟩
    assumption
  · exact .mark

theorem br_iff (h : fromMark label code = some rest) :
    EveryPath effect Q (.br label :: code) s ↔ EveryPath effect Q rest s := by
  constructor
  · rintro (_ | _ | _ | ⟨h', hrest⟩)
    rw [h] at h'
    cases h'
    exact hrest
  · exact .br h

theorem brtrue_iff {v : V} (h : fromMark label code = some rest) :
    EveryPath effect Q (.brtrue label :: code) (v :: s) ↔
      EveryPath effect Q rest s ∧ EveryPath effect Q code s := by
  constructor
  · rintro (_ | _ | _ | _ | ⟨h', hrest, hcode⟩)
    rw [h] at h'
    cases h'
    exact ⟨hrest, hcode⟩
  · rintro ⟨hrest, hcode⟩
    exact .brtrue h hrest hcode

end EveryPath

/-- From the stack `pre` the code leaves the stack `post`, where `ok` holds, and is stuck on some
path where it does not. What lies below is untouched. -/
def Block (effect : Op → List V → Option (List V)) (ok : Prop) (code : List (Instr Op))
    (pre post : List V) : Prop :=
  ∀ Q rest s, EveryPath effect Q (code ++ rest) (pre ++ s) ↔
    ok ∧ EveryPath effect Q rest (post ++ s)

namespace Block

variable {ok ok' : Prop}

theorem nil : Block effect True [] s s := by
  intro Q rest s'
  simp

theorem append (h : Block effect ok code pre mid) (h' : Block effect ok' code' mid post) :
    Block effect (ok ∧ ok') (code ++ code') pre post := by
  intro Q rest s
  rw [List.append_assoc, h, h', and_assoc]

/-- The same block over more of the stack. -/
theorem frame (h : Block effect ok code pre post) (t : List V) :
    Block effect ok code (pre ++ t) (post ++ t) := by
  intro Q rest s
  rw [List.append_assoc, List.append_assoc, h]

theorem congr (h : Block effect ok code pre post) (hok : ok ↔ ok') :
    Block effect ok' code pre post := by
  intro Q rest s
  rw [h, hok]

theorem op {o : Op} (h : ∀ s, effect o (pre ++ s) = some (post ++ s)) :
    Block effect True [.op o] pre post := by
  intro Q rest s
  rw [List.singleton_append, EveryPath.op_iff (h s), true_and]

/-- An operation whose operand may not be encodable. -/
theorem op_if {o : Op} {p : Prop} [Decidable p]
    (h : ∀ s, effect o (pre ++ s) = if p then some (post ++ s) else none) :
    Block effect p [.op o] pre post := by
  intro Q rest s
  by_cases hp : p
  · rw [List.singleton_append, EveryPath.op_iff ((h s).trans (if_pos hp))]
    exact (and_iff_right hp).symm
  · exact iff_of_false (EveryPath.not_op ((h s).trans (if_neg hp))) fun h => hp h.1

/-- A whole piece of code, run from the empty stack. -/
theorem everyPath_iff (h : Block effect ok code [] post) :
    EveryPath effect Q code [] ↔ ok ∧ Q post := by
  simpa using h Q [] []

end Block

end DdTrace.Lib
