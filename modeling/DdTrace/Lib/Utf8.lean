import DdTrace.Lib.Text
import Mathlib.Data.Char
import Mathlib.Data.List.Basic
import Mathlib.Data.Nat.Notation

/-!
# UTF-16 to UTF-8

`decodeUtf16` reads code units as characters, with the replacement character for a surrogate
that stands alone, and `utf8` are the bytes of these characters. There are at least as many
bytes as code units, and as many only for ASCII (`length_utf8_eq_iff`).
-/

namespace DdTrace.Lib

def isHighSurrogate (u : UInt16) : Bool := 0xD800 ≤ u && u ≤ 0xDBFF
def isLowSurrogate (u : UInt16) : Bool := 0xDC00 ≤ u && u ≤ 0xDFFF

/-- A code unit by itself. -/
def unitChar (u : UInt16) : Char :=
  if isHighSurrogate u || isLowSurrogate u then Char.ofNat 0xFFFD else Char.ofNat u.toNat

/-- A high and a low surrogate. -/
def pairChar (u v : UInt16) : Char :=
  Char.ofNat (0x10000 + (u.toNat - 0xD800) * 0x400 + (v.toNat - 0xDC00))

def decodeUtf16 : List UInt16 → List Char
  | [] => []
  | [u] => [unitChar u]
  | u :: v :: us =>
    if isHighSurrogate u && isLowSurrogate v then pairChar u v :: decodeUtf16 us
    else unitChar u :: decodeUtf16 (v :: us)

def utf8 (s : List UInt16) : List UInt8 := (decodeUtf16 s).flatMap String.utf8EncodeChar

example : utf8 [0x63, 0x61, 0x66, 0xE9] = [0x63, 0x61, 0x66, 0xC3, 0xA9] := by decide
example : utf8 [0xD83D, 0xDE00, 0xD83D] = [0xF0, 0x9F, 0x98, 0x80, 0xEF, 0xBF, 0xBD] := by decide

variable {u v : UInt16} {s : List UInt16}

theorem toNat_ofNat {n : ℕ} (h : n.isValidChar) : (Char.ofNat n).val.toNat = n := by
  rw [Char.ofNat, dif_pos h]
  rfl

theorem surrogate_iff : (isHighSurrogate u || isLowSurrogate u) = true ↔
    0xD800 ≤ u.toNat ∧ u.toNat ≤ 0xDFFF := by
  simp only [isHighSurrogate, isLowSurrogate, Bool.or_eq_true, Bool.and_eq_true,
    decide_eq_true_eq, UInt16.le_iff_toNat_le]
  simp
  omega

theorem utf8Size_unitChar : (unitChar u).utf8Size = 1 ↔ u < 0x80 := by
  rw [Char.utf8Size_eq_one_iff, UInt32.le_iff_toNat_le, UInt16.lt_iff_toNat_lt, unitChar]
  split
  · rename_i h
    rw [surrogate_iff] at h
    rw [toNat_ofNat (by decide)]
    simp
    omega
  · rename_i h
    rw [surrogate_iff] at h
    have hlt := u.toNat_lt
    have hvalid : u.toNat.isValidChar := by
      show u.toNat < 0xD800 ∨ 0xDFFF < u.toNat ∧ u.toNat < 0x110000
      omega
    rw [toNat_ofNat hvalid]
    simp
    omega

theorem utf8Size_unitChar_le : (unitChar u).utf8Size ≤ 3 := by
  have hlt := u.toNat_lt
  have hne : (unitChar u).utf8Size ≠ 4 := by
    rw [Ne, Char.utf8Size_eq_four_iff, UInt32.lt_iff_toNat_lt, unitChar]
    split
    · decide
    · rename_i h
      rw [surrogate_iff] at h
      have hvalid : u.toNat.isValidChar := by
        show u.toNat < 0xD800 ∨ 0xDFFF < u.toNat ∧ u.toNat < 0x110000
        omega
      rw [toNat_ofNat hvalid]
      simp
      omega
  have hmax := (unitChar u).utf8Size_le_four
  omega

theorem utf8Size_pairChar (h : (isHighSurrogate u && isLowSurrogate v) = true) :
    (pairChar u v).utf8Size = 4 := by
  simp only [isHighSurrogate, isLowSurrogate, Bool.and_eq_true, decide_eq_true_eq,
    UInt16.le_iff_toNat_le] at h
  simp at h
  have hvalid : (0x10000 + (u.toNat - 0xD800) * 0x400 + (v.toNat - 0xDC00)).isValidChar := by
    show _ ∨ 0xDFFF < _ ∧ _ < 0x110000
    omega
  rw [Char.utf8Size_eq_four_iff, UInt32.lt_iff_toNat_lt, pairChar, toNat_ofNat hvalid]
  simp
  omega

/-- A character outside of ASCII has no byte of ASCII. -/
theorem le_of_mem_utf8EncodeChar {c : Char} (hc : c.utf8Size ≠ 1) :
    ∀ b ∈ String.utf8EncodeChar c, 0x80 ≤ b.toNat := by
  rw [Ne, Char.utf8Size_eq_one_iff, UInt32.le_iff_toNat_le] at hc
  have hlow : ¬ c.val.toNat ≤ 0x7F := hc
  unfold String.utf8EncodeChar
  dsimp only
  rw [if_neg hlow]
  repeat' split
  all_goals
    simp only [List.forall_mem_cons, List.not_mem_nil, false_imp_iff, implies_true, and_true,
      UInt8.toNat_ofNat']
    omega

theorem utf8EncodeChar_unitChar (hu : u < 0x80) :
    (String.utf8EncodeChar (unitChar u)).map UInt8.toNat = [u.toNat] := by
  have hlt : u.toNat < 0x80 := UInt16.lt_iff_toNat_lt.1 hu
  have hsize := utf8Size_unitChar.2 hu
  have hunit : ¬ (isHighSurrogate u || isLowSurrogate u) = true := by
    rw [surrogate_iff]
    omega
  rw [Char.utf8Size_eq_one_iff, UInt32.le_iff_toNat_le] at hsize
  have hencode : String.utf8EncodeChar (unitChar u) = [.ofNat (unitChar u).val.toNat] :=
    if_pos hsize
  rw [hencode, unitChar, if_neg hunit, toNat_ofNat (.inl (by omega)), List.map_singleton,
    UInt8.toNat_ofNat_of_lt' (by simp only [UInt8.size]; omega)]

theorem length_utf8 (s : List UInt16) :
    s.length ≤ (utf8 s).length ∧ ((utf8 s).length = s.length ↔ ∀ u ∈ s, u < 0x80) := by
  have hunit : ∀ u, 1 ≤ (unitChar u).utf8Size ∧ ((unitChar u).utf8Size = 1 ↔ u < 0x80) :=
    fun u => ⟨Char.utf8Size_pos _, utf8Size_unitChar⟩
  induction s using decodeUtf16.induct with
  | case1 => simp [utf8, decodeUtf16]
  | case2 u => simpa [utf8, decodeUtf16] using hunit u
  | case3 u v us h ih =>
    have hlen : (utf8 (u :: v :: us)).length = 4 + (utf8 us).length := by
      rw [utf8, decodeUtf16, if_pos h, List.flatMap_cons, List.length_append,
        String.length_utf8EncodeChar, utf8Size_pairChar h, utf8]
    have hhigh : ¬u < 0x80 := by
      rw [Bool.and_eq_true, isHighSurrogate, Bool.and_eq_true, decide_eq_true_eq] at h
      exact fun hlt => absurd (UInt16.le_trans h.1.1 (UInt16.le_of_lt hlt)) (by decide)
    rw [hlen, List.forall_mem_cons]
    simp only [List.length_cons, hhigh, false_and, iff_false]
    omega
  | case4 u v us h ih =>
    have hlen : (utf8 (u :: v :: us)).length
        = (unitChar u).utf8Size + (utf8 (v :: us)).length := by
      rw [utf8, decodeUtf16, if_neg h, List.flatMap_cons, List.length_append,
        String.length_utf8EncodeChar, utf8]
    obtain ⟨hpos, hone⟩ := hunit u
    rw [hlen, List.forall_mem_cons, ← hone, ← ih.2, List.length_cons]
    omega

theorem length_utf8_eq_iff : (utf8 s).length = s.length ↔ ∀ u ∈ s, u < 0x80 := (length_utf8 s).2

/-- A code unit takes three bytes at most, and a pair of surrogates four. -/
theorem length_utf8_le (s : List UInt16) : (utf8 s).length ≤ 3 * s.length := by
  have hunit : ∀ u, (unitChar u).utf8Size ≤ 3 := fun u => utf8Size_unitChar_le
  induction s using decodeUtf16.induct with
  | case1 => exact Nat.zero_le _
  | case2 u => simpa [utf8, decodeUtf16] using hunit u
  | case3 u v us h ih =>
    rw [utf8, decodeUtf16, if_pos h, List.flatMap_cons, List.length_append,
      String.length_utf8EncodeChar, utf8Size_pairChar h, ← utf8, List.length_cons, List.length_cons]
    omega
  | case4 u v us h ih =>
    have hle := hunit u
    rw [utf8, decodeUtf16, if_neg h, List.flatMap_cons, List.length_append,
      String.length_utf8EncodeChar, ← utf8, List.length_cons]
    omega

/-- The bytes do not exceed the code units only if they are as many. -/
theorem length_utf8_le_iff : (utf8 s).length ≤ s.length ↔ ∀ u ∈ s, u < 0x80 := by
  rw [← length_utf8_eq_iff]
  have := (length_utf8 s).1
  omega

end DdTrace.Lib
