import Mathlib.Data.List.Basic
import Mathlib.Data.List.TakeWhile

/-!
# Strings as UTF-16 code units

A string of the runtime is a list of code units, paired or not. `text` is the string of an
ASCII literal, `trim` is `string.Trim`.
-/

namespace DdTrace.Lib

abbrev Text := List UInt16

/-- A code unit of ASCII. -/
def unit (c : Char) : UInt16 := UInt16.ofNat c.toNat

def text (s : String) : Text := s.toList.map unit

/-- `char.IsWhiteSpace` -/
def isWhiteSpace (c : UInt16) : Bool :=
  (0x09 ≤ c && c ≤ 0x0D) || c == 0x20 || c == 0x85 || c == 0xA0 || c == 0x1680 ||
    (0x2000 ≤ c && c ≤ 0x200A) || c == 0x2028 || c == 0x2029 || c == 0x202F || c == 0x205F ||
    c == 0x3000

def toLowerAscii (c : UInt16) : UInt16 := if unit 'A' ≤ c && c ≤ unit 'Z' then c + 0x20 else c

theorem toLowerAscii_eq_self {c : UInt16} (h : c.toNat < 0x41 ∨ 0x5A < c.toNat) :
    toLowerAscii c = c := by
  rw [toLowerAscii, if_neg]
  simp only [Bool.and_eq_true, decide_eq_true_eq, UInt16.le_iff_toNat_le]
  show ¬ (0x41 ≤ c.toNat ∧ c.toNat ≤ 0x5A)
  omega

/-- `Equals` with `OrdinalIgnoreCase`, for a string of letters of ASCII. -/
def equalsIgnoreCase (s letters : Text) : Bool := s.map toLowerAscii == letters.map toLowerAscii

/-- A string of the letters has no character that neither they nor their upper case have. -/
theorem eq_false_of_equalsIgnoreCase {p : UInt16 → Bool} {s letters : Text}
    (h : equalsIgnoreCase s letters = true)
    (hupper : ∀ c, 0x41 ≤ c.toNat → c.toNat ≤ 0x5A → p c = false)
    (hletters : (letters.map toLowerAscii).any p = false) : ∀ c ∈ s, p c = false := by
  intro c hc
  by_cases hrange : 0x41 ≤ c.toNat ∧ c.toNat ≤ 0x5A
  · exact hupper c hrange.1 hrange.2
  · rw [equalsIgnoreCase, beq_iff_eq] at h
    rw [← h, List.any_eq_false] at hletters
    rw [Bool.eq_false_iff, ← toLowerAscii_eq_self (c := c) (by omega)]
    exact hletters _ (List.mem_map_of_mem hc)

def isDigit (c : UInt16) : Bool := unit '0' ≤ c && c ≤ unit '9'

theorem isDigit_iff {c : UInt16} : isDigit c = true ↔ 0x30 ≤ c.toNat ∧ c.toNat ≤ 0x39 := by
  rw [isDigit, Bool.and_eq_true, decide_eq_true_eq, decide_eq_true_eq, UInt16.le_iff_toNat_le,
    UInt16.le_iff_toNat_le]
  rfl

theorem toNat_unit {c : Char} (h : c.isDigit = true) : (unit c).toNat = c.toNat := by
  obtain ⟨hlo, hhi⟩ : 48 ≤ c.toNat ∧ c.toNat ≤ 57 := by
    simpa [Char.isDigit, UInt32.le_iff_toNat_le] using h
  rw [unit, UInt16.toNat_ofNat']
  omega

theorem isDigit_unit {c : Char} (h : c.isDigit = true) : isDigit (unit c) = true := by
  have hunit := toNat_unit h
  obtain ⟨hlo, hhi⟩ : 48 ≤ c.toNat ∧ c.toNat ≤ 57 := by
    simpa [Char.isDigit, UInt32.le_iff_toNat_le] using h
  rw [isDigit_iff]
  omega

/-- No printable character of ASCII is white space. -/
theorem isWhiteSpace_eq_false {c : UInt16} (h1 : 0x21 ≤ c.toNat) (h2 : c.toNat ≤ 0x7E) :
    isWhiteSpace c = false := by
  rw [Bool.eq_false_iff]
  intro hwhite
  simp only [isWhiteSpace, Bool.or_eq_true, Bool.and_eq_true, beq_iff_eq, decide_eq_true_eq,
    UInt16.le_iff_toNat_le, ← UInt16.toNat_inj] at hwhite
  simp at hwhite
  omega

/-- `string.IsNullOrWhiteSpace` of a string that is not null. -/
def isBlank (s : Text) : Bool := s.all isWhiteSpace

def trim (s : Text) : Text :=
  ((s.dropWhile isWhiteSpace).reverse.dropWhile isWhiteSpace).reverse

/-- Something is left of a string that is not blank. -/
theorem trim_ne_nil {s : Text} (h : ¬isBlank s) : trim s ≠ [] := by
  intro htrim
  apply h
  rw [trim, List.reverse_eq_nil_iff, List.dropWhile_eq_nil_iff] at htrim
  rw [isBlank, List.all_eq_true]
  intro c hc
  rw [← List.takeWhile_append_dropWhile (p := isWhiteSpace) (l := s), List.mem_append] at hc
  rcases hc with hc | hc
  · exact List.mem_takeWhile_imp hc
  · exact htrim c (List.mem_reverse.2 hc)

/-- A string without white space is left as it is. -/
theorem trim_of_forall {s : Text} (h : ∀ c ∈ s, isWhiteSpace c = false) : trim s = s := by
  have hdrop : ∀ {t : Text}, (∀ c ∈ t, isWhiteSpace c = false) → t.dropWhile isWhiteSpace = t := by
    intro t ht
    rw [List.dropWhile_eq_self_iff]
    intro hlen
    simp [ht _ (List.getElem_mem hlen)]
  rw [trim, hdrop h, hdrop fun c hc => h c (List.mem_reverse.1 hc), List.reverse_reverse]

theorem trim_cons {c : UInt16} (hc : isWhiteSpace c = true) (s : Text) :
    trim (c :: s) = trim s := by
  rw [trim, List.dropWhile_cons_of_pos hc, trim]

theorem trim_concat {c : UInt16} (hc : isWhiteSpace c = true) (s : Text) :
    trim (s ++ [c]) = trim s := by
  rw [trim, trim, List.dropWhile_append]
  split
  · rename_i hempty
    rw [List.isEmpty_iff.1 hempty, List.dropWhile_cons_of_pos hc, List.dropWhile_nil]
  · rw [List.reverse_append, List.reverse_singleton, List.singleton_append,
      List.dropWhile_cons_of_pos hc]

/-- A string with no white space at its ends is left as it is. -/
theorem trim_eq_self {c d : UInt16} {s : Text} (hc : isWhiteSpace c = false)
    (hd : isWhiteSpace d = false) : trim (c :: (s ++ [d])) = c :: (s ++ [d]) := by
  rw [trim, List.dropWhile_cons_of_neg (by simp [hc]), List.reverse_cons, List.reverse_append,
    List.reverse_singleton, List.singleton_append, List.cons_append,
    List.dropWhile_cons_of_neg (by simp [hd])]
  simp

end DdTrace.Lib
