import Mathlib.Algebra.Order.Ring.Nat
import Mathlib.Data.List.Basic
import Mathlib.Tactic.Ring

/-!
# Numerals in the order of words

A `DigitSystem` gives some elements of an ordered type values below a base, in the same order.
`number` is the number that a word of digits denotes, its highest digit first. Words of one
length are ordered as their numbers; a longer word stands in front of a shorter one exactly
when its first digits denote a smaller number (`lt_iff_number_lt`).
-/

namespace DdTrace.Lib

structure DigitSystem (α : Type*) [LT α] where
  base : ℕ
  value : α → ℕ
  isDigit : α → Prop
  value_lt : ∀ {a}, isDigit a → value a < base
  value_inj : ∀ {a b}, isDigit a → isDigit b → value a = value b → a = b
  lt_iff : ∀ {a b}, isDigit a → isDigit b → (a < b ↔ value a < value b)

namespace DigitSystem

variable {α : Type*} [LT α] (S : DigitSystem α) {xs ys zs : List α}

def number (digits : List α) : ℕ := digits.foldl (fun n d => S.base * n + S.value d) 0

theorem foldl_eq (digits : List α) (n : ℕ) :
    digits.foldl (fun n d => S.base * n + S.value d) n
      = S.base ^ digits.length * n + S.number digits := by
  induction digits generalizing n with
  | nil => simp [number]
  | cons d digits ih =>
    rw [number, List.foldl_cons, List.foldl_cons, ih, ih (S.base * 0 + S.value d),
      List.length_cons]
    ring

theorem number_append (xs ys : List α) :
    S.number (xs ++ ys) = S.base ^ ys.length * S.number xs + S.number ys := by
  rw [number, List.foldl_append, foldl_eq]
  rfl

theorem number_cons (d : α) (digits : List α) :
    S.number (d :: digits) = S.base ^ digits.length * S.value d + S.number digits := by
  rw [number, List.foldl_cons, foldl_eq, Nat.mul_zero, Nat.zero_add]

variable {S}

theorem number_lt (h : ∀ d ∈ xs, S.isDigit d) : S.number xs < S.base ^ xs.length := by
  induction xs with
  | nil => exact Nat.one_pos
  | cons d xs ih =>
    have hd := S.value_lt (h d List.mem_cons_self)
    have hxs := ih fun e he => h e (List.mem_cons_of_mem d he)
    rw [number_cons, List.length_cons]
    calc S.base ^ xs.length * S.value d + S.number xs
        < S.base ^ xs.length * S.value d + S.base ^ xs.length := by omega
      _ = S.base ^ xs.length * (S.value d + 1) := by ring
      _ ≤ S.base ^ xs.length * S.base := Nat.mul_le_mul_left _ hd
      _ = S.base ^ (xs.length + 1) := by ring

theorem number_append_div (xs : List α) (h : ∀ d ∈ ys, S.isDigit d) :
    S.number (xs ++ ys) / S.base ^ ys.length = S.number xs := by
  have hlt := number_lt h
  rw [number_append, Nat.mul_add_div (by omega), Nat.div_eq_of_lt hlt, Nat.add_zero]

/-- Words whose first digits are as many as those of another stand in front of it exactly when
these denote a smaller number. -/
theorem append_lt_iff (hlen : ys.length = xs.length) (hys : ∀ d ∈ ys, S.isDigit d)
    (hxs : ∀ d ∈ xs, S.isDigit d) : ys ++ zs < xs ↔ S.number ys < S.number xs := by
  induction ys generalizing xs with
  | nil =>
    obtain rfl := List.length_eq_zero_iff.1 hlen.symm
    simp
  | cons y ys ih =>
    cases xs with
    | nil => cases hlen
    | cons x xs =>
      have hlen : ys.length = xs.length := Nat.succ.inj hlen
      have hy := hys y List.mem_cons_self
      have hx := hxs x List.mem_cons_self
      have hys : ∀ d ∈ ys, S.isDigit d := fun d hd => hys d (List.mem_cons_of_mem y hd)
      have hxs : ∀ d ∈ xs, S.isDigit d := fun d hd => hxs d (List.mem_cons_of_mem x hd)
      have hylt := number_lt hys
      have hxlt := number_lt hxs
      rw [List.cons_append, List.cons_lt_cons_iff, ih hlen hys hxs, S.lt_iff hy hx, number_cons,
        number_cons, hlen]
      rw [hlen] at hylt
      rcases Nat.lt_trichotomy (S.value y) (S.value x) with h | h | h
      · have hmul := Nat.mul_le_mul_left (S.base ^ xs.length) (Nat.succ_le_of_lt h)
        rw [Nat.mul_succ] at hmul
        exact iff_of_true (.inl h) (by omega)
      · obtain rfl := S.value_inj hy hx h
        simp
      · have hmul := Nat.mul_le_mul_left (S.base ^ xs.length) (Nat.succ_le_of_lt h)
        rw [Nat.mul_succ] at hmul
        refine iff_of_false ?_ (by omega)
        rintro (h' | ⟨rfl, -⟩)
        · omega
        · omega

theorem lt_iff_number_lt (hlen : xs.length ≤ ys.length) (hys : ∀ d ∈ ys, S.isDigit d)
    (hxs : ∀ d ∈ xs, S.isDigit d) :
    ys < xs ↔ S.number ys / S.base ^ (ys.length - xs.length) < S.number xs := by
  obtain ⟨front, back, rfl, hfront⟩ : ∃ front back, ys = front ++ back ∧ front.length = xs.length :=
    ⟨ys.take xs.length, ys.drop xs.length, (List.take_append_drop ..).symm, by
      rw [List.length_take]
      omega⟩
  rw [List.forall_mem_append] at hys
  have hback : (front ++ back).length - xs.length = back.length := by
    rw [List.length_append]
    omega
  rw [append_lt_iff hfront hys.1 hxs, hback, number_append_div _ hys.2]

end DigitSystem

end DdTrace.Lib
