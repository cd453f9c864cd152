import Mathlib.Data.List.Basic
import Mathlib.Data.List.TakeWhile
import Mathlib.Tactic.Common

/-!
# Leftmost matches of literals

Regular expressions of alternatives, each a literal with `(.*)` behind it and perhaps an anchor:
a `^` or a `$` binds the alternative it is written in and no other. The first position at which
one of them matches counts, and there the first alternative. `(.*)` takes the rest of the line.
-/

namespace DdTrace.Lib

/-- `literal(.*)`, `^literal(.*)` or `literal(.*)$`. -/
structure LineAlternative (α : Type) where
  caret : Bool
  literal : List α
  dollar : Bool

section Leftmost

variable {α : Type} [DecidableEq α] (newline : α)

/-- What `(.*)` takes, behind the literal. A `$` holds at the end of the input and before a line
break that ends it. -/
def LineAlternative.matchAt (a : LineAlternative α) (atStart : Bool) (s : List α) :
    Option (List α) :=
  if a.caret && !atStart then none
  else
    match s.dropPrefix? a.literal with
    | none => none
    | some rest =>
      let tail := rest.dropWhile (· ≠ newline)
      if a.dollar = false ∨ tail = [] ∨ tail = [newline] then some (rest.takeWhile (· ≠ newline))
      else none

/-- The first alternative that matches at a position, by its number. -/
def firstAt (atStart : Bool) (s : List α) : ℕ → List (LineAlternative α) → Option (ℕ × List α)
  | _, [] => none
  | k, a :: as =>
    match a.matchAt newline atStart s with
    | some group => some (k, group)
    | none => firstAt atStart s (k + 1) as

/-- The first position with a match; groups are counted from 1. -/
def leftmost (as : List (LineAlternative α)) : Bool → List α → Option (ℕ × List α)
  | atStart, [] => firstAt newline atStart [] 1 as
  | atStart, c :: s =>
    match firstAt newline atStart (c :: s) 1 as with
    | some found => some found
    | none => leftmost as false s

variable {newline} {a : LineAlternative α} {as : List (LineAlternative α)} {atStart : Bool}
  {s s' group rest : List α} {k n : ℕ}

theorem dropPrefix?_eq_some {p : List α} : s.dropPrefix? p = some rest ↔ s = p ++ rest := by
  rw [List.dropPrefix?_eq_some_iff]
  constructor
  · rintro ⟨p', rfl, hp⟩
    rw [beq_iff_eq.1 hp]
  · rintro rfl
    exact ⟨p, rfl, beq_self_eq_true p⟩

theorem LineAlternative.matchAt_eq_some (h : a.matchAt newline atStart s = some group) :
    (a.caret = true → atStart = true) ∧
      ∃ tail, s = a.literal ++ (group ++ tail) ∧ newline ∉ group ∧
        (tail = [] ∨ ∃ t, tail = newline :: t) := by
  unfold LineAlternative.matchAt at h
  split at h
  · cases h
  rename_i hcaret
  refine ⟨fun hc => by simpa [hc] using hcaret, ?_⟩
  split at h
  · cases h
  rename_i rest hrest
  simp only at h
  split at h
  · obtain rfl := Option.some.inj h
    refine ⟨rest.dropWhile (· ≠ newline), ?_, fun hmem => ?_, ?_⟩
    · rw [List.takeWhile_append_dropWhile, ← dropPrefix?_eq_some, hrest]
    · simpa using List.mem_takeWhile_imp hmem
    · cases htail : rest.dropWhile (· ≠ newline) with
      | nil => exact .inl rfl
      | cons c t =>
        have hc := List.head?_dropWhile_not (· ≠ newline) rest
        rw [htail] at hc
        exact .inr ⟨t, by simpa using hc⟩
  · cases h

/-- On one line an alternative matches wherever its literal stands. -/
theorem LineAlternative.matchAt_of_notMem (hs : newline ∉ s) :
    a.matchAt newline atStart s =
      if a.caret && !atStart then none else s.dropPrefix? a.literal := by
  unfold LineAlternative.matchAt
  split
  · rfl
  cases hrest : s.dropPrefix? a.literal with
  | none => rfl
  | some rest =>
    have hnot : ∀ c ∈ rest, c ≠ newline := by
      rintro c hc rfl
      rw [dropPrefix?_eq_some.1 hrest] at hs
      exact hs (List.mem_append_right _ hc)
    have htail : rest.dropWhile (· ≠ newline) = [] :=
      List.dropWhile_eq_nil_iff.2 fun c hc => by simpa using hnot c hc
    have hgroup : rest.takeWhile (· ≠ newline) = rest :=
      List.takeWhile_eq_self_iff.2 fun c hc => by simpa using hnot c hc
    simp only [htail, hgroup, true_or, or_true, if_true]

theorem firstAt_eq_some (h : firstAt newline atStart s n as = some (k, group)) :
    ∃ i a, k = n + i ∧ as[i]? = some a ∧ a.matchAt newline atStart s = some group := by
  induction as generalizing n with
  | nil => cases h
  | cons a as ih =>
    rw [firstAt] at h
    split at h
    · rename_i group' hmatch
      obtain ⟨rfl, rfl⟩ := Prod.mk.inj (Option.some.inj h)
      exact ⟨0, a, rfl, rfl, hmatch⟩
    · obtain ⟨i, a', rfl, hi, hmatch⟩ := ih h
      exact ⟨i + 1, a', by omega, hi, hmatch⟩

theorem firstAt_eq_none :
    firstAt newline atStart s n as = none ↔ ∀ a ∈ as, a.matchAt newline atStart s = none := by
  induction as generalizing n with
  | nil => simp [firstAt]
  | cons a as ih =>
    rw [firstAt, List.forall_mem_cons]
    split
    · rename_i group hmatch
      simp [hmatch]
    · rename_i hmatch
      rw [ih]
      exact (and_iff_right hmatch).symm

/-- A match stands behind a part of the input; at its start only if that part is empty. -/
theorem leftmost_eq_some (h : leftmost newline as atStart s = some (k, group)) :
    (firstAt newline atStart s 1 as = some (k, group)) ∨
      firstAt newline atStart s 1 as = none ∧
        ∃ c front s', s = c :: (front ++ s') ∧ firstAt newline false s' 1 as = some (k, group) := by
  induction s generalizing atStart with
  | nil => exact .inl h
  | cons c s ih =>
    rw [leftmost] at h
    split at h
    · rename_i hfirst
      exact .inl (hfirst.trans h)
    · rename_i hfirst
      refine .inr ⟨hfirst, c, ?_⟩
      rcases ih h with hmatch | ⟨-, d, front, s', rfl, hmatch⟩
      · exact ⟨[], s, rfl, hmatch⟩
      · exact ⟨d :: front, s', rfl, hmatch⟩

theorem leftmost_of_firstAt (h : firstAt newline atStart s 1 as = some (k, group)) :
    leftmost newline as atStart s = some (k, group) := by
  cases s with
  | nil => exact h
  | cons c s => rw [leftmost, h]

/-- What a match takes is shorter than the input. -/
theorem length_of_firstAt (hne : ∀ a ∈ as, a.literal ≠ [])
    (h : firstAt newline atStart s n as = some (k, group)) : group.length < s.length := by
  obtain ⟨i, a, -, hi, hmatch⟩ := firstAt_eq_some h
  obtain ⟨-, tail, rfl, -, -⟩ := LineAlternative.matchAt_eq_some hmatch
  have hpos := List.length_pos_iff.2 (hne a (List.mem_of_getElem? hi))
  simp only [List.length_append]
  omega

theorem length_of_leftmost (hne : ∀ a ∈ as, a.literal ≠ [])
    (h : leftmost newline as atStart s = some (k, group)) : group.length < s.length := by
  rcases leftmost_eq_some h with hfirst | ⟨-, c, front, s', rfl, hfirst⟩
  · exact length_of_firstAt hne hfirst
  · have hlt := length_of_firstAt hne hfirst
    simp only [List.length_cons, List.length_append]
    omega

theorem newline_notMem_of_leftmost (h : leftmost newline as atStart s = some (k, group)) :
    newline ∉ group := by
  have hfirst : ∀ {atStart : Bool} {s : List α},
      firstAt newline atStart s 1 as = some (k, group) → newline ∉ group := by
    intro atStart s h
    obtain ⟨i, a, -, -, hmatch⟩ := firstAt_eq_some h
    obtain ⟨-, tail, -, hnot, -⟩ := LineAlternative.matchAt_eq_some hmatch
    exact hnot
  rcases leftmost_eq_some h with h | ⟨-, c, front, s', -, h⟩
  · exact hfirst h
  · exact hfirst h

end Leftmost

end DdTrace.Lib
