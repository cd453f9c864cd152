import Mathlib.Logic.Function.Basic

/-!
# A manual-reset event and the calls that set it

A call publishes something for a consumer and then makes sure that the event is set: it sets
the event, or tests it first and sets it if it is unset. The consumer resets it. While nobody
resets the event, a call that has returned leaves it set (`Announced`); a reset keeps this
while no call has returned (`announced_reset`).
-/

namespace DdTrace.Lib

/-- How far a call has come. -/
inductive Signaller where
  | notStarted
  | publishing
  /-- About to test the event. -/
  | testing
  /-- About to set the event. -/
  | setting
  | completed
  deriving DecidableEq

namespace Signaller

/-- The call has published, and has its test or its set still ahead. -/
def InFlight (pc : Signaller) : Prop := pc = testing ∨ pc = setting

/-- The call has published. -/
def Published (pc : Signaller) : Prop := pc.InFlight ∨ pc = completed

instance (pc : Signaller) : Decidable pc.InFlight := inferInstanceAs (Decidable (_ ∨ _))

theorem inFlight_testing : InFlight testing := .inl rfl
theorem inFlight_setting : InFlight setting := .inr rfl

theorem Published.inFlight {pc : Signaller} (h : pc.Published) (hc : pc ≠ completed) :
    pc.InFlight :=
  h.resolve_right hc

theorem InFlight.not_completed {pc : Signaller} (h : pc.InFlight) : pc ≠ completed := by
  rcases h with rfl | rfl
  · decide
  · decide

end Signaller

variable {κ : Type*} [DecidableEq κ]

structure Signal (κ : Type*) where
  isSet : Bool
  call : κ → Signaller

namespace Signal

def setCall (s : Signal κ) (k : κ) (pc : Signaller) : Signal κ :=
  { s with call := Function.update s.call k pc }

/-- `if (!IsSet)`. -/
def test (s : Signal κ) (k : κ) : Option (Signal κ) :=
  match s.call k with
  | .testing => some (s.setCall k (if s.isSet then .completed else .setting))
  | _ => none

def set (s : Signal κ) (k : κ) : Option (Signal κ) :=
  match s.call k with
  | .setting => some (setCall { s with isSet := true } k .completed)
  | _ => none

omit [DecidableEq κ] in
def reset (s : Signal κ) : Signal κ := { s with isSet := false }

/-- While the event is unset, no call of `P` has completed. -/
def Announced (P : κ → Prop) (s : Signal κ) : Prop :=
  s.isSet = false → ∀ k, P k → s.call k ≠ .completed

variable {s s' : Signal κ} {P Q : κ → Prop} {k j : κ} {pc : Signaller}

@[simp] theorem setCall_isSet : (s.setCall k pc).isSet = s.isSet := rfl
@[simp] theorem setCall_call_self : (s.setCall k pc).call k = pc := Function.update_self ..
@[simp] theorem setCall_call_of_ne (h : j ≠ k) : (s.setCall k pc).call j = s.call j :=
  Function.update_of_ne h ..

theorem test_eq_some (h : s.test k = some s') : s.call k = .testing ∧
    s' = s.setCall k (if s.isSet then .completed else .setting) := by
  unfold test at h
  split at h
  · exact ⟨‹_›, (Option.some.inj h).symm⟩
  · cases h

theorem set_eq_some (h : s.set k = some s') : s.call k = .setting ∧
    s' = setCall { s with isSet := true } k .completed := by
  unfold set at h
  split at h
  · exact ⟨‹_›, (Option.some.inj h).symm⟩
  · cases h

omit [DecidableEq κ] in
theorem announced_of_none (h : ∀ k, ¬ P k) : s.Announced P := fun _ k hk => absurd hk (h k)

/-- A call may publish, as long as its test or set is ahead. -/
theorem Announced.setCall (h : s.Announced P) (hk : Q k → pc ≠ .completed)
    (hQ : ∀ j, j ≠ k → Q j → P j) : (s.setCall k pc).Announced Q := by
  intro hset j hj
  by_cases hjk : j = k
  · subst hjk
    rw [setCall_call_self]
    exact hk hj
  · rw [setCall_call_of_ne hjk]
    exact h hset j (hQ j hjk hj)

theorem Announced.test (h : s.Announced P) (hs : s.test k = some s') : s'.Announced P := by
  obtain ⟨-, rfl⟩ := test_eq_some hs
  intro hset j hj
  rw [setCall_isSet] at hset
  by_cases hjk : j = k
  · subst hjk
    rw [setCall_call_self, hset]
    decide
  · rw [setCall_call_of_ne hjk]
    exact h hset j hj

theorem Announced.set (hs : s.set k = some s') : s'.Announced P := by
  obtain ⟨-, rfl⟩ := set_eq_some hs
  intro hset
  cases hset

omit [DecidableEq κ] in
theorem announced_reset : s.reset.Announced P ↔ ∀ k, P k → s.call k ≠ .completed :=
  ⟨fun h => h rfl, fun h _ => h⟩

/-- A test completes the call or leads it to its set. -/
theorem call_test {p : Signaller → Prop} (hs : s.test k = some s') (hset : p .setting)
    (hdone : p .completed) (h : p (s.call j)) : p (s'.call j) := by
  obtain ⟨-, rfl⟩ := test_eq_some hs
  by_cases hjk : j = k
  · subst hjk
    rw [setCall_call_self]
    split
    · exact hdone
    · exact hset
  · rwa [setCall_call_of_ne hjk]

theorem call_set {p : Signaller → Prop} (hs : s.set k = some s') (hdone : p .completed)
    (h : p (s.call j)) : p (s'.call j) := by
  obtain ⟨-, rfl⟩ := set_eq_some hs
  by_cases hjk : j = k
  · subst hjk
    rwa [setCall_call_self]
  · rwa [setCall_call_of_ne hjk]

end Signal

end DdTrace.Lib
