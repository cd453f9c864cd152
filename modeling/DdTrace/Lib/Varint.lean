import Mathlib.Algebra.Order.Ring.Nat

/-!
# Numbers in groups of seven bits

`varint n` is `n` in groups of seven bits, the lowest first, with the high bit set in every
byte but the last. A reader of such numbers is verified against the two equations
`varint_of_lt` and `varint_of_le`, by `varint_induction`.
-/

namespace DdTrace.Lib

variable {n k : ℕ}

def varint (n : ℕ) : List UInt8 :=
  if n < 128 then [UInt8.ofNat n] else UInt8.ofNat (n % 128 + 128) :: varint (n / 128)
termination_by n
decreasing_by omega

theorem varint_of_lt (h : n < 128) : varint n = [UInt8.ofNat n] := by
  rw [varint, if_pos h]

theorem varint_of_le (h : 128 ≤ n) :
    varint n = UInt8.ofNat (n % 128 + 128) :: varint (n / 128) := by
  rw [varint, if_neg (by omega)]

/-- The induction that follows the groups. -/
theorem varint_induction {P : ℕ → Prop} (last : ∀ n < 128, P n)
    (more : ∀ n, 128 ≤ n → P (n / 128) → P n) (n : ℕ) : P n := by
  induction n using Nat.strong_induction_on with
  | h n ih =>
    by_cases h : n < 128
    · exact last n h
    · exact more n (by omega) (ih (n / 128) (by omega))

/-- The low bits of a byte. -/
theorem low_bits_ofNat (h : n < 256) : (UInt8.ofNat n &&& 0x7F).toNat = n % 128 := by
  have hmask : (0x7F : UInt8).toNat = 2 ^ 7 - 1 := rfl
  rw [UInt8.toNat_and, hmask, Nat.and_two_pow_sub_one_eq_mod, UInt8.toNat_ofNat_of_lt' h]

end DdTrace.Lib
