import Mathlib.Data.List.Flatten
import Mathlib.Data.List.Nodup
import Mathlib.Logic.Function.Basic

/-!
# Ledgers

Items lie in accounts, and each item that has been given lies in one account, once (`Once`).
A new item may be put into an account, and items may be moved from one account to another
(`Moved`). In a choice of accounts together an item then occurs once or not at all
(`Once.count_eq_one_iff`).
-/

namespace DdTrace.Lib

variable {ι α : Type*} {acc acc' : ι → List α} {given : α → Prop} {i j : ι} {a : α}

structure Once (given : α → Prop) (acc : ι → List α) : Prop where
  nodup : ∀ i, (acc i).Nodup
  unique : ∀ i j a, a ∈ acc i → a ∈ acc j → i = j
  given : ∀ a, given a ↔ ∃ i, a ∈ acc i

section Rules

variable [DecidableEq ι]

/-- The items `xs` go from the account `i` to the account `j`. -/
inductive Moved (acc : ι → List α) : (ι → List α) → Prop where
  | stay : Moved acc acc
  | move (i j : ι) (xs ys : List α) (hij : i ≠ j) (hi : acc i = xs ++ ys) :
      Moved acc (Function.update (Function.update acc j (acc j ++ xs)) i ys)

theorem Moved.of_eq (h : acc' = acc) : Moved acc acc' := h ▸ .stay

/-- An item may come anywhere into an account that it is new to. -/
theorem Once.deposit (h : Once given acc) (ha : ¬ given a) :
    Once (fun x => given x ∨ x = a) (Function.update acc i (acc i ++ [a])) := by
  have hnew : ∀ k, a ∉ acc k := fun k hk => ha ((h.given a).2 ⟨k, hk⟩)
  have hmem : ∀ k x, x ∈ Function.update acc i (acc i ++ [a]) k ↔ x ∈ acc k ∨ k = i ∧ x = a := by
    intro k x
    by_cases hk : k = i
    · subst hk
      simp
    · simp [hk]
  constructor
  · intro k
    by_cases hk : k = i
    · subst hk
      rw [Function.update_self]
      exact (h.nodup k).append (List.nodup_singleton a) (by simpa using hnew k)
    · rw [Function.update_of_ne hk]
      exact h.nodup k
  · intro k l x hk hl
    rcases (hmem k x).1 hk, (hmem l x).1 hl with ⟨hk | ⟨hki, hx⟩, hl | ⟨hli, hx'⟩⟩
    · exact h.unique k l x hk hl
    · exact absurd (hx' ▸ hk) (hnew k)
    · exact absurd (hx ▸ hl) (hnew l)
    · exact hki.trans hli.symm
  · intro x
    simp only [hmem, h.given x, exists_or, exists_eq_left]

theorem Once.move {xs ys : List α} (h : Once given acc) (hij : i ≠ j) (hi : acc i = xs ++ ys) :
    Once given (Function.update (Function.update acc j (acc j ++ xs)) i ys) := by
  have hnodup := h.nodup i
  rw [hi] at hnodup
  obtain ⟨hxs, hys, hdisjoint⟩ := List.nodup_append'.1 hnodup
  have hfrom : ∀ x, x ∈ acc i ↔ x ∈ xs ∨ x ∈ ys := fun x => by rw [hi, List.mem_append]
  have hmem : ∀ k x, x ∈ Function.update (Function.update acc j (acc j ++ xs)) i ys k ↔
      k = i ∧ x ∈ ys ∨ k ≠ i ∧ (x ∈ acc k ∨ k = j ∧ x ∈ xs) := by
    intro k x
    by_cases hk : k = i
    · subst hk
      simp
    · by_cases hkj : k = j
      · subst hkj
        simp [hk]
      · simp [hk, hkj]
  constructor
  · intro k
    by_cases hk : k = i
    · subst hk
      rwa [Function.update_self]
    · rw [Function.update_of_ne hk]
      by_cases hkj : k = j
      · subst hkj
        rw [Function.update_self]
        refine (h.nodup k).append hxs fun x hx hx' => ?_
        exact hij (h.unique i k x ((hfrom x).2 (.inl hx')) hx)
      · rw [Function.update_of_ne hkj]
        exact h.nodup k
  · -- the account of an item changes from `i` to `j`, or not at all
    have hwas : ∀ k x, (k = i ∧ x ∈ ys ∨ k ≠ i ∧ (x ∈ acc k ∨ k = j ∧ x ∈ xs)) →
        k = j ∧ x ∈ xs ∨ x ∉ xs ∧ x ∈ acc k := by
      rintro k x (⟨rfl, hx⟩ | ⟨hk, hx | ⟨rfl, hx⟩⟩)
      · exact .inr ⟨fun hx' => hdisjoint hx' hx, (hfrom x).2 (.inr hx)⟩
      · exact .inr ⟨fun hx' => hk (h.unique k i x hx ((hfrom x).2 (.inl hx'))), hx⟩
      · exact .inl ⟨rfl, hx⟩
    intro k l x hk hl
    rcases hwas k x ((hmem k x).1 hk) with ⟨rfl, hx⟩ | ⟨hx, hk⟩
    · rcases hwas l x ((hmem l x).1 hl) with ⟨rfl, -⟩ | ⟨hx', -⟩
      · rfl
      · exact absurd hx hx'
    · rcases hwas l x ((hmem l x).1 hl) with ⟨-, hx'⟩ | ⟨-, hl⟩
      · exact absurd hx' hx
      · exact h.unique k l x hk hl
  · intro x
    rw [h.given x]
    constructor
    · rintro ⟨k, hk⟩
      by_cases hki : k = i
      · subst hki
        rcases (hfrom x).1 hk with hx | hx
        · exact ⟨j, (hmem j x).2 (.inr ⟨hij.symm, .inr ⟨rfl, hx⟩⟩)⟩
        · exact ⟨k, (hmem k x).2 (.inl ⟨rfl, hx⟩)⟩
      · exact ⟨k, (hmem k x).2 (.inr ⟨hki, .inl hk⟩)⟩
    · rintro ⟨k, hk⟩
      rcases (hmem k x).1 hk with ⟨rfl, hx⟩ | ⟨-, hx | ⟨-, hx⟩⟩
      · exact ⟨k, (hfrom x).2 (.inr hx)⟩
      · exact ⟨k, hx⟩
      · exact ⟨i, (hfrom x).2 (.inl hx)⟩

theorem Once.moved (h : Once given acc) (hm : Moved acc acc') : Once given acc' := by
  cases hm with
  | stay => exact h
  | move i j xs ys hij hi => exact h.move hij hi

end Rules

/-! ## Counting -/

theorem Once.nodup_flatMap {is : List ι} (h : Once given acc) (his : is.Nodup) :
    (is.flatMap acc).Nodup := by
  refine List.nodup_flatMap.2 ⟨fun i _ => h.nodup i, his.imp fun hij x hx hx' => ?_⟩
  exact hij (h.unique _ _ x hx hx')

theorem Once.count_eq_one_iff [DecidableEq α] (h : Once given acc) {is : List ι}
    (his : is.Nodup) (a : α) : (is.flatMap acc).count a = 1 ↔ ∃ i ∈ is, a ∈ acc i := by
  have hmem : (∃ i ∈ is, a ∈ acc i) ↔ a ∈ is.flatMap acc := by simp
  rw [hmem]
  constructor
  · intro hc
    apply List.count_pos_iff.1
    omega
  · exact List.count_eq_one_of_mem (h.nodup_flatMap his)

end DdTrace.Lib
