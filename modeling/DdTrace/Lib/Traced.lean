import Mathlib.Data.List.Basic

/-!
# Computations that log what they do

`Traced τ α` is what a computation logs and what it returns: nothing, if it stops early. What
it logged before it stopped stays logged. `Logs m p` is taken apart statement by statement.
-/

namespace DdTrace.Lib

structure Traced (τ α : Type) where
  events : List τ
  result : Option α

namespace Traced

variable {τ α β : Type}

instance : Monad (Traced τ) where
  pure a := ⟨[], some a⟩
  bind m f :=
    match m.result with
    | some a => ⟨m.events ++ (f a).events, (f a).result⟩
    | none => ⟨m.events, none⟩

def log (e : τ) : Traced τ Unit := ⟨[e], some ()⟩

/-- Return early, without a value. -/
def stop : Traced τ α := ⟨[], none⟩

/-- Return early unless there is a value. -/
def orStop (value : Option α) : Traced τ α := ⟨[], value⟩

/-- An event that satisfies `p` is logged. -/
def Logs (m : Traced τ α) (p : τ → Prop) : Prop := ∃ e ∈ m.events, p e

/-! ## What is returned -/

@[simp] theorem result_pure (a : α) : (pure a : Traced τ α).result = some a := rfl
@[simp] theorem result_log (e : τ) : (log e).result = some () := rfl
@[simp] theorem result_stop : (stop : Traced τ α).result = none := rfl
@[simp] theorem result_orStop (value : Option α) : (orStop value : Traced τ α).result = value := rfl

@[simp] theorem result_bind (m : Traced τ α) (f : α → Traced τ β) :
    (m >>= f).result = m.result.bind fun a => (f a).result := by
  show (match m.result with
    | some a => (⟨m.events ++ (f a).events, (f a).result⟩ : Traced τ β)
    | none => ⟨m.events, none⟩).result = _
  cases m.result <;> rfl

/-! ## What is logged -/

variable {p : τ → Prop}

@[simp] theorem logs_pure (a : α) : ¬ Logs (pure a : Traced τ α) p := by
  rintro ⟨e, he, -⟩
  cases he

@[simp] theorem logs_stop : ¬ Logs (stop : Traced τ α) p := by
  rintro ⟨e, he, -⟩
  cases he

@[simp] theorem logs_orStop (value : Option α) : ¬ Logs (orStop value : Traced τ α) p := by
  rintro ⟨e, he, -⟩
  cases he

@[simp] theorem logs_log (e : τ) : Logs (log e) p ↔ p e := by
  simp [Logs, log]

theorem logs_bind (m : Traced τ α) (f : α → Traced τ β) :
    Logs (m >>= f) p ↔ Logs m p ∨ ∃ a, m.result = some a ∧ Logs (f a) p := by
  show (∃ e ∈ (match m.result with
    | some a => (⟨m.events ++ (f a).events, (f a).result⟩ : Traced τ β)
    | none => ⟨m.events, none⟩).events, p e) ↔ _
  cases hm : m.result with
  | none => simp [Logs]
  | some a => simp [Logs, or_and_right, exists_or]

/-- Where `m` returns `a`, so much of what follows is logged. -/
theorem logs_bind_of_some {m : Traced τ α} {f : α → Traced τ β} {a : α} (h : m.result = some a) :
    Logs (m >>= f) p ↔ Logs m p ∨ Logs (f a) p := by
  rw [logs_bind, h]
  simp

theorem logs_bind_of_none {m : Traced τ α} {f : α → Traced τ β} (h : m.result = none) :
    Logs (m >>= f) p ↔ Logs m p := by
  rw [logs_bind, h]
  simp

end Traced

end DdTrace.Lib
