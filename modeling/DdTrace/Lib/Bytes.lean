import Mathlib.Algebra.Order.Ring.Nat
import Mathlib.Tactic.Ring

/-!
# Bytes and machine integers

Lists as byte arrays: `blockCopy` overwrites a stretch. `int32` is what 32-bit signed
arithmetic makes of an integer, `bigEndian k n` and `littleEndian k n` are the `k` low bytes
of `n`.
-/

namespace DdTrace.Lib

variable {α : Type*} {src dst dst' : List α} {offset n k : ℕ}

/-- `src` copied into `dst` from `offset` on, if there is room. -/
def blockCopy (src dst : List α) (offset : ℕ) : Option (List α) :=
  if offset + src.length ≤ dst.length then
    some (dst.take offset ++ (src ++ dst.drop (offset + src.length)))
  else none

theorem blockCopy_of_le (h : offset + src.length ≤ dst.length) :
    blockCopy src dst offset = some (dst.take offset ++ (src ++ dst.drop (offset + src.length))) :=
  if_pos h

theorem blockCopy_eq_some (h : blockCopy src dst offset = some dst') :
    offset + src.length ≤ dst.length ∧
      dst' = dst.take offset ++ (src ++ dst.drop (offset + src.length)) := by
  unfold blockCopy at h
  split at h
  · exact ⟨‹_›, (Option.some.inj h).symm⟩
  · cases h

theorem lt_of_blockCopy_eq_none (h : blockCopy src dst offset = none) :
    dst.length < offset + src.length := by
  by_contra hle
  rw [blockCopy_of_le (by omega)] at h
  cases h

theorem length_of_blockCopy (h : blockCopy src dst offset = some dst') :
    dst'.length = dst.length := by
  obtain ⟨hle, rfl⟩ := blockCopy_eq_some h
  simp
  omega

theorem take_of_blockCopy (h : blockCopy src dst offset = some dst') :
    dst'.take (offset + src.length) = dst.take offset ++ src := by
  obtain ⟨hle, rfl⟩ := blockCopy_eq_some h
  have hlen : (dst.take offset).length = offset := by
    rw [List.length_take]
    omega
  rw [← List.append_assoc, List.take_left']
  simp [hlen]

/-- As many elements overwritten in the middle. -/
theorem blockCopy_append {before middle after : List α} (hlen : src.length = middle.length) :
    blockCopy src (before ++ (middle ++ after)) before.length = some (before ++ (src ++ after)) := by
  rw [blockCopy_of_le (by simp [hlen])]
  simp [hlen]

/-- What two's complement arithmetic of 32 bits leaves of `n`. -/
def int32 (n : ℤ) : ℤ := n.bmod (2 ^ 32)

theorem int32_eq {n : ℤ} (h1 : -2 ^ 31 ≤ n) (h2 : n < 2 ^ 31) : int32 n = n := by
  apply Int.bmod_eq_of_le_mul_two <;> omega

theorem int32_bounds (n : ℤ) : -2 ^ 31 ≤ int32 n ∧ int32 n < 2 ^ 31 := by
  have h1 := @Int.le_bmod n (2 ^ 32) (by decide)
  have h2 := @Int.bmod_lt n (2 ^ 32) (by decide)
  unfold int32
  omega

/-- A sum of two non-negative integers that stays positive has not overflowed. -/
theorem int32_of_pos {n : ℤ} (h0 : 0 ≤ n) (h : n < 2 ^ 32) (hpos : 0 < int32 n) : int32 n = n := by
  have hmod : n % ((2 ^ 32 : ℕ) : ℤ) = n := Int.emod_eq_of_lt h0 (by omega)
  rw [int32, Int.bmod_def, hmod] at hpos ⊢
  split at hpos
  · exact if_pos ‹_›
  · omega

def bigEndian : ℕ → ℕ → List UInt8
  | 0, _ => []
  | k + 1, n => UInt8.ofNat (n / 256 ^ k) :: bigEndian k n

def ofBigEndian (bytes : List UInt8) : ℕ := bytes.foldl (fun n b => 256 * n + b.toNat) 0

@[simp] theorem length_bigEndian : (bigEndian k n).length = k := by
  induction k with
  | zero => rfl
  | succ k ih => rw [bigEndian, List.length_cons, ih]

theorem foldl_bigEndian (m : ℕ) :
    (bigEndian k n).foldl (fun n b => 256 * n + b.toNat) m = 256 ^ k * m + n % 256 ^ k := by
  induction k generalizing m with
  | zero => simp [bigEndian, Nat.mod_one]
  | succ k ih =>
    rw [bigEndian, List.foldl_cons, ih, pow_succ, Nat.mod_mul]
    have hb : (UInt8.ofNat (n / 256 ^ k)).toNat = n / 256 ^ k % 256 := by simp
    rw [hb]
    ring

/-- The bytes of a number that has no more than these. -/
theorem ofBigEndian_bigEndian (h : n < 256 ^ k) : ofBigEndian (bigEndian k n) = n := by
  rw [ofBigEndian, foldl_bigEndian, Nat.mod_eq_of_lt h]
  simp

theorem foldl_ofBigEndian (m : ℕ) (l : List UInt8) :
    l.foldl (fun n b => 256 * n + b.toNat) m = 256 ^ l.length * m + ofBigEndian l := by
  induction l generalizing m with
  | nil => simp [ofBigEndian]
  | cons b l ih =>
    rw [ofBigEndian, List.foldl_cons, List.foldl_cons, ih, ih (256 * 0 + b.toNat), List.length_cons,
      pow_succ]
    ring

theorem ofBigEndian_cons (b : UInt8) (l : List UInt8) :
    ofBigEndian (b :: l) = 256 ^ l.length * b.toNat + ofBigEndian l := by
  rw [ofBigEndian, List.foldl_cons, foldl_ofBigEndian]
  simp

theorem ofBigEndian_lt (l : List UInt8) : ofBigEndian l < 256 ^ l.length := by
  induction l with
  | nil => simp [ofBigEndian]
  | cons b l ih =>
    have hb : b.toNat + 1 ≤ 256 := b.toNat_lt
    calc ofBigEndian (b :: l) = 256 ^ l.length * b.toNat + ofBigEndian l := ofBigEndian_cons b l
      _ < 256 ^ l.length * (b.toNat + 1) := by rw [Nat.mul_succ]; omega
      _ ≤ 256 ^ (b :: l).length := by
        rw [List.length_cons, pow_succ]
        exact Nat.mul_le_mul_left _ hb

/-- Equally many bytes that make one number are the same. -/
theorem ofBigEndian_inj {l m : List UInt8} (hlen : l.length = m.length)
    (h : ofBigEndian l = ofBigEndian m) : l = m := by
  induction l generalizing m with
  | nil => exact (List.length_eq_zero_iff.1 hlen.symm).symm
  | cons b l ih =>
    cases m with
    | nil => cases hlen
    | cons c m =>
      have hlen : l.length = m.length := Nat.succ.inj hlen
      rw [ofBigEndian_cons, ofBigEndian_cons, hlen] at h
      have hl := ofBigEndian_lt l
      have hm := ofBigEndian_lt m
      rw [hlen] at hl
      have hdiv := congrArg (· / 256 ^ m.length) h
      simp only [Nat.mul_add_div (Nat.pow_pos (n := m.length) (show 0 < 256 by omega)),
        Nat.div_eq_of_lt hl, Nat.div_eq_of_lt hm, Nat.add_zero] at hdiv
      rw [hdiv] at h
      rw [UInt8.toNat_inj.1 hdiv, ih hlen (by omega)]

def littleEndian : ℕ → ℕ → List UInt8
  | 0, _ => []
  | k + 1, n => UInt8.ofNat n :: littleEndian k (n / 256)

def ofLittleEndian (bytes : List UInt8) : ℕ := bytes.foldr (fun b n => b.toNat + 256 * n) 0

@[simp] theorem length_littleEndian : (littleEndian k n).length = k := by
  induction k generalizing n with
  | zero => rfl
  | succ k ih => rw [littleEndian, List.length_cons, ih]

theorem ofLittleEndian_littleEndian (h : n < 256 ^ k) :
    ofLittleEndian (littleEndian k n) = n := by
  induction k generalizing n with
  | zero =>
    obtain rfl : n = 0 := by omega
    rfl
  | succ k ih =>
    have hrest : n / 256 < 256 ^ k := by
      rw [pow_succ] at h
      omega
    have hbyte : (UInt8.ofNat n).toNat = n % 256 := by simp
    show (UInt8.ofNat n).toNat + 256 * ofLittleEndian (littleEndian k (n / 256)) = n
    rw [ih hrest, hbyte]
    omega

end DdTrace.Lib
