import Mathlib.Data.Int.Log
import Mathlib.Data.Rat.Floor
import Mathlib.Tactic.Linarith
import Mathlib.Tactic.FieldSimp
import Mathlib.Tactic.Ring

/-!
# Binary rounding to nearest, ties to even

`roundTo p x` is `x` rounded to a significand of one bit before and `p` bits after the binary
point, the exponent unbounded. On numbers that are not negative it is monotone and it is exact
at powers of two.
-/

namespace DdTrace.Lib

def roundHalfEven (x : ℚ) : ℤ :=
  if x - ⌊x⌋ < 1 / 2 then ⌊x⌋
  else if 1 / 2 < x - ⌊x⌋ then ⌊x⌋ + 1
  else if ⌊x⌋ % 2 = 0 then ⌊x⌋
  else ⌊x⌋ + 1

def roundTo (p : ℕ) (x : ℚ) : ℚ :=
  (roundHalfEven (x / 2 ^ (Int.log 2 |x| - p)) : ℚ) * 2 ^ (Int.log 2 |x| - p)

theorem roundHalfEven_intCast (n : ℤ) : roundHalfEven n = n := by
  simp [roundHalfEven]

theorem floor_le_roundHalfEven (x : ℚ) : ⌊x⌋ ≤ roundHalfEven x := by
  unfold roundHalfEven
  split_ifs <;> omega

theorem roundHalfEven_le_floor (x : ℚ) : roundHalfEven x ≤ ⌊x⌋ + 1 := by
  unfold roundHalfEven
  split_ifs <;> omega

theorem roundHalfEven_mono {x y : ℚ} (h : x ≤ y) : roundHalfEven x ≤ roundHalfEven y := by
  obtain hlt | heq := (Int.floor_le_floor h).lt_or_eq
  · have h1 := roundHalfEven_le_floor x
    have h2 := floor_le_roundHalfEven y
    omega
  · unfold roundHalfEven
    rw [← heq]
    have hsub : x - ⌊x⌋ ≤ y - ⌊x⌋ := by linarith
    split_ifs <;> first | omega | (exfalso; linarith)

variable {p : ℕ} {x y : ℚ}

theorem two_zpow_pos (k : ℤ) : (0 : ℚ) < 2 ^ k := zpow_pos (by norm_num) k

/-- A number with few enough bits is not changed. -/
theorem roundTo_exact {n : ℤ} (h : x = n * 2 ^ (Int.log 2 |x| - p)) : roundTo p x = x := by
  have hn : x / 2 ^ (Int.log 2 |x| - (p : ℤ)) = n := by
    rw [div_eq_iff (two_zpow_pos _).ne']
    exact h
  unfold roundTo
  rw [hn, roundHalfEven_intCast]
  exact h.symm

theorem two_zpow_split (k : ℤ) (p : ℕ) : (2 : ℚ) ^ k = ((2 ^ p : ℤ) : ℚ) * 2 ^ (k - p) := by
  have h : (((2 ^ p : ℤ)) : ℚ) = 2 ^ (p : ℤ) := by
    rw [zpow_natCast]
    norm_cast
  rw [h, ← zpow_add₀ (by norm_num)]
  congr 1
  omega

theorem roundTo_two_zpow (p : ℕ) (k : ℤ) : roundTo p (2 ^ k) = 2 ^ k := by
  refine roundTo_exact (n := 2 ^ p) ?_
  rw [abs_of_pos (two_zpow_pos k), show Int.log 2 ((2 : ℚ) ^ k) = k from
    Int.log_zpow (b := 2) (by norm_num) k]
  exact two_zpow_split k p

theorem roundTo_neg_two_zpow (p : ℕ) (k : ℤ) : roundTo p (-2 ^ k) = -2 ^ k := by
  refine roundTo_exact (n := -2 ^ p) ?_
  rw [abs_neg, abs_of_pos (two_zpow_pos k), show Int.log 2 ((2 : ℚ) ^ k) = k from
    Int.log_zpow (b := 2) (by norm_num) k, two_zpow_split k p]
  push_cast
  ring

@[simp] theorem roundTo_zero (p : ℕ) : roundTo p 0 = 0 :=
  roundTo_exact (n := 0) (by simp)

@[simp] theorem roundTo_one (p : ℕ) : roundTo p 1 = 1 := by
  simpa using roundTo_two_zpow p 0

theorem roundTo_nonneg (p : ℕ) (h : 0 ≤ x) : 0 ≤ roundTo p x := by
  have hq : (0 : ℚ) ≤ x / 2 ^ (Int.log 2 |x| - (p : ℤ)) := div_nonneg h (two_zpow_pos _).le
  have hr : 0 ≤ roundHalfEven (x / 2 ^ (Int.log 2 |x| - (p : ℤ))) := by
    simpa using (roundHalfEven_intCast 0).symm.le.trans (roundHalfEven_mono (by simpa using hq))
  exact mul_nonneg (by exact_mod_cast hr) (two_zpow_pos _).le

/-- Natural numbers of at most `p + 1` bits are not changed. -/
theorem roundTo_natCast {n : ℕ} (h : n < 2 ^ (p + 1)) : roundTo p n = n := by
  have hlog : Nat.log 2 n ≤ p := Nat.lt_succ_iff.1 (Nat.log_lt_of_lt_pow' (by omega) h)
  obtain ⟨d, hd⟩ := Nat.exists_eq_add_of_le hlog
  refine roundTo_exact (n := n * 2 ^ d) ?_
  rw [abs_of_nonneg n.cast_nonneg, Int.log_natCast, hd]
  have he : ((Nat.log 2 n : ℤ) - (Nat.log 2 n + d : ℕ)) = -d := by push_cast; ring
  rw [he, zpow_neg, zpow_natCast]
  push_cast
  field_simp

/-- Rounding does not leave the binade, its upper end included. -/
theorem roundTo_le_zpow (p : ℕ) (h : 0 < x) : roundTo p x ≤ 2 ^ (Int.log 2 x + 1) := by
  have hle : x / 2 ^ (Int.log 2 x - (p : ℤ)) ≤ ((2 ^ (p + 1) : ℤ) : ℚ) := by
    rw [div_le_iff₀ (two_zpow_pos _)]
    have hlt : x < 2 ^ (Int.log 2 x + 1) := Int.lt_zpow_succ_log_self (b := 2) (by norm_num) x
    rw [two_zpow_split _ (p + 1)] at hlt
    have he : Int.log 2 x + 1 - ((p + 1 : ℕ) : ℤ) = Int.log 2 x - p := by push_cast; ring
    rw [he] at hlt
    exact hlt.le
  have hr := roundHalfEven_mono hle
  rw [roundHalfEven_intCast] at hr
  unfold roundTo
  rw [abs_of_pos h, two_zpow_split (Int.log 2 x + 1) (p + 1)]
  have he : Int.log 2 x + 1 - ((p + 1 : ℕ) : ℤ) = Int.log 2 x - p := by push_cast; ring
  rw [he]
  exact mul_le_mul_of_nonneg_right (by exact_mod_cast hr) (two_zpow_pos _).le

theorem zpow_le_roundTo (p : ℕ) (h : 0 < x) : 2 ^ Int.log 2 x ≤ roundTo p x := by
  have hle : ((2 ^ p : ℤ) : ℚ) ≤ x / 2 ^ (Int.log 2 x - (p : ℤ)) := by
    rw [le_div_iff₀ (two_zpow_pos _), ← two_zpow_split]
    exact Int.zpow_log_le_self (b := 2) (by norm_num) h
  have hr := roundHalfEven_mono hle
  rw [roundHalfEven_intCast] at hr
  unfold roundTo
  rw [abs_of_pos h, two_zpow_split (Int.log 2 x) p]
  exact mul_le_mul_of_nonneg_right (by exact_mod_cast hr) (two_zpow_pos _).le

theorem roundTo_mono (p : ℕ) (h0 : 0 ≤ x) (h : x ≤ y) : roundTo p x ≤ roundTo p y := by
  obtain rfl | hx := h0.eq_or_lt
  · rw [roundTo_zero]
    exact roundTo_nonneg p h
  · have hy : 0 < y := hx.trans_le h
    obtain hlt | heq := (Int.log_mono_right (b := 2) hx h).lt_or_eq
    · calc roundTo p x ≤ 2 ^ (Int.log 2 x + 1) := roundTo_le_zpow p hx
        _ ≤ 2 ^ Int.log 2 y := zpow_le_zpow_right₀ (by norm_num) hlt
        _ ≤ roundTo p y := zpow_le_roundTo p hy
    · -- in one binade both are rounded to multiples of one power of two
      unfold roundTo
      rw [abs_of_pos hx, abs_of_pos hy, heq]
      refine mul_le_mul_of_nonneg_right ?_ (two_zpow_pos _).le
      exact_mod_cast roundHalfEven_mono (div_le_div_of_nonneg_right h (two_zpow_pos _).le)

end DdTrace.Lib
