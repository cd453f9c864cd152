import DdTrace.Lib.Text
import Mathlib.Algebra.Group.Int.Defs
import Mathlib.Algebra.Group.Nat.Defs

/-!
# Integers in strings

`TryParse` of the integer types with `NumberStyles.Integer`: white space, a sign of the culture,
digits of ASCII, white space, null characters. `decimal` and `decimalInt` are what the invariant
culture writes, and are read back by the cultures that have the sign they need.
-/

namespace DdTrace.Lib

/-- The number signs of a culture. A runtime may read the hyphen where the culture has another dash
for its minus. -/
structure NumberFormatInfo where
  positiveSign : Text
  negativeSign : Text
  allowHyphenDuringParsing : Bool
  deriving DecidableEq

namespace NumberFormatInfo

def invariantInfo : NumberFormatInfo := ⟨text "+", text "-", false⟩

/-- Whether there is the negative sign at the head, and what follows a sign. -/
def parseSign (info : NumberFormatInfo) (s : Text) : Bool × Text :=
  if info.allowHyphenDuringParsing = true ∧ text "-" <+: s then (true, s.drop 1)
  else if info.positiveSign ≠ [] ∧ info.positiveSign <+: s then
    (false, s.drop info.positiveSign.length)
  else if info.negativeSign ≠ [] ∧ info.negativeSign <+: s then
    (true, s.drop info.negativeSign.length)
  else (false, s)

/-- No sign of the culture begins like a number. -/
def Symbols (info : NumberFormatInfo) : Prop :=
  ∀ sign ∈ [info.positiveSign, info.negativeSign], sign.head?.any isDigit = false

theorem symbols_invariantInfo : invariantInfo.Symbols := by
  unfold Symbols
  decide

end NumberFormatInfo

/-- The white space that a number may have around it. -/
def isNumberWhite (c : UInt16) : Bool := c == 0x20 || (0x09 ≤ c && c ≤ 0x0D)

def digitsToNat (digits : Text) : ℕ :=
  digits.foldl (fun n d => 10 * n + (d.toNat - (unit '0').toNat)) 0

def parseInteger (info : NumberFormatInfo) (s : Text) : Option ℤ :=
  let (negative, rest) := info.parseSign (s.dropWhile isNumberWhite)
  let digits := rest.takeWhile isDigit
  let trailing := (rest.dropWhile isDigit).dropWhile isNumberWhite
  let n : ℕ := digitsToNat digits
  if digits ≠ [] ∧ trailing.all (· == 0) then some (if negative then -n else n) else none

/-- `int.TryParse` -/
def tryParseInt32 (info : NumberFormatInfo) (s : Text) : Option Int32 :=
  (parseInteger info s).bind fun n => if -2 ^ 31 ≤ n ∧ n < 2 ^ 31 then some (.ofInt n) else none

/-- `long.TryParse` -/
def tryParseInt64 (info : NumberFormatInfo) (s : Text) : Option Int64 :=
  (parseInteger info s).bind fun n => if -2 ^ 63 ≤ n ∧ n < 2 ^ 63 then some (.ofInt n) else none

/-- `ulong.TryParse` -/
def tryParseUInt64 (info : NumberFormatInfo) (s : Text) : Option UInt64 :=
  (parseInteger info s).bind fun n => if 0 ≤ n ∧ n < 2 ^ 64 then some (.ofNat n.toNat) else none

example : tryParseUInt64 .invariantInfo (text " +0042 ") = some 42 := by decide
example : tryParseUInt64 .invariantInfo (text "18446744073709551616") = none := by decide
example : tryParseInt32 ⟨text "+", [0x2212], true⟩ (text "-1") = some (-1) := by decide
example : tryParseInt32 ⟨text "+", [0x2212], false⟩ (text "-1") = none := by decide

/-! ### Decimal digits -/

/-- `ToString` of a number that is not negative. -/
def decimal (n : ℕ) : Text := text (toString n)

/-- `ToString` with the invariant culture. -/
def decimalInt : ℤ → Text
  | .ofNat n => decimal n
  | .negSucc n => unit '-' :: decimal (n + 1)

theorem toString_toList (n : ℕ) : (toString n).toList = Nat.toDigits 10 n := by
  rw [Nat.toString_eq_ofList_toDigits, String.toList_ofList]

theorem toString_toList_ne_nil (n : ℕ) : (toString n).toList ≠ [] := by
  rw [toString_toList]
  exact Nat.toDigits_ne_nil

theorem isDigit_of_mem_toString {n : ℕ} {c : Char} (h : c ∈ (toString n).toList) :
    c.isDigit = true := by
  rw [toString_toList] at h
  exact Nat.isDigit_of_mem_toDigits (by decide) (by decide) h

theorem ofDigitChars_toString (n : ℕ) : Nat.ofDigitChars 10 (toString n).toList 0 = n := by
  rw [toString_toList]
  exact Nat.ofDigitChars_ten_toDigits

theorem isDigit_of_mem_map_unit {cs : List Char} (h : ∀ c ∈ cs, c.isDigit = true) :
    ∀ c ∈ cs.map unit, isDigit c = true := by
  intro c hc
  obtain ⟨d, hd, rfl⟩ := List.mem_map.1 hc
  exact isDigit_unit (h d hd)

theorem isDigit_of_mem_decimal {n : ℕ} : ∀ c ∈ decimal n, isDigit c = true :=
  isDigit_of_mem_map_unit fun _ => isDigit_of_mem_toString

theorem decimal_ne_nil (n : ℕ) : decimal n ≠ [] := fun h =>
  toString_toList_ne_nil n (List.map_eq_nil_iff.1 h)

theorem digitsToNat_map_unit {cs : List Char} (h : ∀ c ∈ cs, c.isDigit = true) :
    digitsToNat (cs.map unit) = Nat.ofDigitChars 10 cs 0 := by
  rw [digitsToNat, List.foldl_map, Nat.ofDigitChars]
  generalize 0 = n
  induction cs generalizing n with
  | nil => rfl
  | cons c cs ih =>
    rw [List.foldl_cons, List.foldl_cons, toNat_unit (h c List.mem_cons_self)]
    exact ih (fun d hd => h d (List.mem_cons_of_mem c hd)) _

theorem digitsToNat_decimal (n : ℕ) : digitsToNat (decimal n) = n :=
  (digitsToNat_map_unit fun _ => isDigit_of_mem_toString).trans (ofDigitChars_toString n)

/-! ### What is read back -/

variable {info : NumberFormatInfo} {digits : Text} {n : ℤ}

theorem isNumberWhite_of_isDigit {c : UInt16} (h : isDigit c = true) : isNumberWhite c = false := by
  rw [isDigit_iff] at h
  rw [Bool.eq_false_iff]
  intro hwhite
  simp only [isNumberWhite, Bool.or_eq_true, Bool.and_eq_true, beq_iff_eq, decide_eq_true_eq,
    UInt16.le_iff_toNat_le, ← UInt16.toNat_inj] at hwhite
  simp at hwhite
  omega

/-- A number that begins with a digit has no sign. -/
theorem parseSign_digits (h : info.Symbols) {c : UInt16} {s : Text} (hc : isDigit c = true) :
    info.parseSign (c :: s) = (false, c :: s) := by
  have hno : ∀ sign : Text, sign.head?.any isDigit = false → ¬ (sign ≠ [] ∧ sign <+: c :: s) := by
    rintro sign hsign ⟨hne, t, ht⟩
    obtain ⟨d, ds, rfl⟩ := List.exists_cons_of_ne_nil hne
    obtain ⟨rfl, -⟩ := List.cons_eq_cons.1 ht
    rw [List.head?_cons, Option.any_some, hc] at hsign
    cases hsign
  have hhyphen : ¬ text "-" <+: c :: s := fun hprefix =>
    hno (text "-") (by decide) ⟨by decide, hprefix⟩
  unfold NumberFormatInfo.parseSign
  rw [if_neg fun h => hhyphen h.2, if_neg (hno _ (h _ (by simp))), if_neg (hno _ (h _ (by simp)))]

/-- Behind white space and a sign, digits alone are read as their number. -/
theorem parseDigits {s : Text} (negative : Bool) (hne : digits ≠ [])
    (hdigits : ∀ c ∈ digits, isDigit c = true)
    (h : info.parseSign (s.dropWhile isNumberWhite) = (negative, digits)) :
    parseInteger info s
      = some (if negative then -(digitsToNat digits : ℤ) else digitsToNat digits) := by
  have htake : digits.takeWhile isDigit = digits := List.takeWhile_eq_self_iff.2 hdigits
  have hdrop : digits.dropWhile isDigit = [] := List.dropWhile_eq_nil_iff.2 hdigits
  unfold parseInteger
  simp only [h, htake, hdrop]
  exact if_pos ⟨hne, rfl⟩

theorem parseInteger_digits (h : info.Symbols) (hne : digits ≠ [])
    (hdigits : ∀ c ∈ digits, isDigit c = true) :
    parseInteger info digits = some (digitsToNat digits : ℤ) := by
  obtain ⟨c, s, rfl⟩ := List.exists_cons_of_ne_nil hne
  have hc := hdigits c List.mem_cons_self
  refine parseDigits false hne hdigits ?_
  rw [List.dropWhile_cons_of_neg (by simp [isNumberWhite_of_isDigit hc])]
  exact parseSign_digits h hc

theorem parseInteger_decimal (h : info.Symbols) (n : ℕ) :
    parseInteger info (decimal n) = some (n : ℤ) := by
  rw [parseInteger_digits h (decimal_ne_nil n) isDigit_of_mem_decimal, digitsToNat_decimal]

/-- The culture reads what the invariant culture writes for the number. -/
def NumberFormatInfo.Reads (info : NumberFormatInfo) (n : ℤ) : Prop :=
  info.Symbols ∧ (0 ≤ n ∨ info = .invariantInfo ∨ info.allowHyphenDuringParsing = true)

theorem parseSign_hyphen
    (h : info = .invariantInfo ∨ info.allowHyphenDuringParsing = true) (s : Text) :
    info.parseSign (unit '-' :: s) = (true, s) := by
  have hhyphen : text "-" <+: unit '-' :: s := ⟨s, rfl⟩
  rcases h with rfl | h
  · have hplus : ¬ text "+" <+: unit '-' :: s := by
      rintro ⟨t, ht⟩
      exact absurd (List.cons_eq_cons.1 ht).1 (by decide)
    unfold NumberFormatInfo.parseSign NumberFormatInfo.invariantInfo
    rw [if_neg fun h => Bool.false_ne_true h.1, if_neg fun h => hplus h.2,
      if_pos ⟨by decide, hhyphen⟩]
    rfl
  · unfold NumberFormatInfo.parseSign
    rw [if_pos ⟨h, hhyphen⟩, List.drop_one, List.tail_cons]

theorem parseInteger_decimalInt (h : info.Reads n) : parseInteger info (decimalInt n) = some n := by
  cases n with
  | ofNat n => exact parseInteger_decimal h.1 n
  | negSucc n =>
    have hsign := h.2.resolve_left (by omega)
    rw [decimalInt, parseDigits true (decimal_ne_nil (n + 1)) isDigit_of_mem_decimal,
      digitsToNat_decimal]
    · rfl
    · rw [List.dropWhile_cons_of_neg (by decide)]
      exact parseSign_hyphen hsign _

theorem tryParseUInt64_decimal (n : UInt64) :
    tryParseUInt64 .invariantInfo (decimal n.toNat) = some n := by
  have hlt := n.toNat_lt
  rw [tryParseUInt64, parseInteger_decimal NumberFormatInfo.symbols_invariantInfo,
    Option.bind_some, if_pos (by omega), Int.toNat_natCast, UInt64.ofNat_toNat]

theorem tryParseInt32_decimalInt {n : Int32} (h : info.Reads n.toInt) :
    tryParseInt32 info (decimalInt n.toInt) = some n := by
  rw [tryParseInt32, parseInteger_decimalInt h, Option.bind_some,
    if_pos ⟨n.le_toInt, n.toInt_lt⟩, Int32.ofInt_toInt]

end DdTrace.Lib
