import DdTrace.Lib.Integers
import DdTrace.Lib.Segments
import Mathlib.Algebra.Order.Ring.Nat

/-!
# The status codes that are errors

`ParseHttpCodesToArray` reads a list of status codes and ranges of them into a table with a
place for each code below 600, and `IsErrorStatusCode` looks a code up (TracerSettings.cs).
`Denotes` says which codes an entry of the list stands for.
-/

namespace DdTrace.Configuration

open Lib

/-! ### The pattern and the numbers -/

/-- The zeros of the scripts that have decimal digits of one code unit. -/
def decimalZeros : List ℕ :=
  [0x30, 0x660, 0x6F0, 0x7C0, 0x966, 0x9E6, 0xA66, 0xAE6, 0xB66, 0xBE6, 0xC66, 0xCE6, 0xD66,
    0xDE6, 0xE50, 0xED0, 0xF20, 0x1040, 0x1090, 0x17E0, 0x1810, 0x1946, 0x19D0, 0x1A80, 0x1A90,
    0x1B50, 0x1BB0, 0x1C40, 0x1C50, 0xA620, 0xA8D0, 0xA900, 0xA9D0, 0xA9F0, 0xAA50, 0xABF0, 0xFF10]

/-- `\d`: a decimal digit of any script. -/
def isDecimalDigit (u : UInt16) : Bool :=
  decimalZeros.any fun start => start ≤ u.toNat && u.toNat ≤ start + 9

/-- `$`: the end of the text, or a newline that ends it. -/
def atEnd (s : Text) : Bool := s = [] ∨ s = [unit '\n']

/-- The rest of `^\d{3}-\d{3}$` behind its first digits. -/
def isRangeEnd : Text → Bool
  | dash :: d :: e :: f :: rest => dash = unit '-' && isDecimalDigit d && isDecimalDigit e &&
      isDecimalDigit f && atEnd rest
  | _ => false

/-- `Regex.IsMatch(s, @"^\d{3}-\d{3}$|^\d{3}$")` -/
def isMatch : Text → Bool
  | a :: b :: c :: rest => isDecimalDigit a && isDecimalDigit b && isDecimalDigit c &&
      (isRangeEnd rest || atEnd rest)
  | _ => false

inductive ParseException where
  | format
  | indexOutOfRange
  deriving DecidableEq, Repr

/-- `int.TryParse` of a text that begins with a digit of any script, too short to overflow: only
the digits of ASCII are read. -/
def tryParseInt (s : Text) : Option ℕ :=
  let digits := s.takeWhile isDigit
  let trailing := (s.dropWhile isDigit).dropWhile isNumberWhite
  if digits ≠ [] ∧ trailing.all (· = 0) then some (digitsToNat digits) else none

/-- `int.Parse(statusCodeLimitsRange[i])` -/
def parseElement (limits : List Text) (i : ℕ) : Except ParseException ℕ :=
  match limits[i]? with
  | none => .error .indexOutOfRange
  | some s => match tryParseInt s with
    | none => .error .format
    | some n => .ok n

/-! ### `ParseHttpCodesToArray` and `IsErrorStatusCode` -/

def trySetValue (httpErrorCodesArray : List Bool) (index : ℕ) : List Bool :=
  if index < httpErrorCodesArray.length then httpErrorCodesArray.set index true
  else httpErrorCodesArray

/-- The loop over a range. -/
def setRange (httpErrorCodesArray : List Bool) (startStatus endStatus : ℕ) : List Bool :=
  (List.range' startStatus (endStatus + 1 - startStatus)).foldl trySetValue httpErrorCodesArray

/-- One pass of the loop over the entries. -/
def addConfiguration (httpErrorCodesArray : List Bool) (statusConfiguration : Text) :
    Except ParseException (List Bool) := do
  if !isMatch statusConfiguration then return httpErrorCodesArray
  else match tryParseInt statusConfiguration with
    | some startStatus => return trySetValue httpErrorCodesArray startStatus
    | none =>
      let statusCodeLimitsRange := statusConfiguration.splitOn (unit '-')
      let startStatus ← parseElement statusCodeLimitsRange 0
      let endStatus ← parseElement statusCodeLimitsRange 1
      if endStatus < startStatus then return setRange httpErrorCodesArray endStatus startStatus
      else return setRange httpErrorCodesArray startStatus endStatus

/-- The comma-separated entries, without their spaces. -/
def configurationsArray (httpStatusErrorCodes : Text) : List Text :=
  (httpStatusErrorCodes.filter (· ≠ unit ' ')).splitOn (unit ',')

def parseHttpCodesToArray (httpStatusErrorCodes : Text) : Except ParseException (List Bool) :=
  (configurationsArray httpStatusErrorCodes).foldlM addConfiguration (List.replicate 600 false)

/-- `IsErrorStatusCode`, on the table for the server or the client. -/
def isErrorStatusCode (source : Option (List Bool)) (statusCode : ℤ) :
    Except ParseException Bool :=
  match source with
  | none => .ok false
  | some source =>
    if statusCode ≥ source.length then .ok false
    else if statusCode < 0 then .error .indexOutOfRange
    else .ok (source.getD statusCode.toNat false)

example : isMatch (text "401-404") = true := by decide
example : isMatch (text "40") = false := by decide
example : tryParseInt (text "401-404") = none := by decide

/-! ### What an entry stands for -/

/-- The three digits of a code. -/
def threeDigits (n : ℕ) : Text :=
  [UInt16.ofNat (48 + n / 100), UInt16.ofNat (48 + n / 10 % 10), UInt16.ofNat (48 + n % 10)]

/-- The entry is a code or a range, in either order, and stands for the codes from `low` to
`high`. A newline at its end does not count. -/
inductive Denotes : Text → ℕ → ℕ → Prop where
  | code {n : ℕ} {tail : Text} (hn : n < 1000) (htail : atEnd tail) :
      Denotes (threeDigits n ++ tail) n n
  | range {a b : ℕ} {tail : Text} (ha : a < 1000) (hb : b < 1000) (htail : atEnd tail) :
      Denotes (threeDigits a ++ unit '-' :: (threeDigits b ++ tail)) (min a b) (max a b)

def Covers (entry : Text) (statusCode : ℕ) : Prop :=
  ∃ low high, Denotes entry low high ∧ low ≤ statusCode ∧ statusCode ≤ high

variable {entry tail rest : Text} {codes : List Bool} {n a b c low high : ℕ}

theorem isDecimalDigit_of_isDigit {u : UInt16} (h : isDigit u = true) :
    isDecimalDigit u = true := by
  rw [isDigit_iff] at h
  rw [isDecimalDigit, List.any_eq_true]
  exact ⟨0x30, List.mem_cons_self, by simpa using h⟩

theorem threeDigits_isDigit (hn : n < 1000) : ∀ u ∈ threeDigits n, isDigit u = true := by
  have hdigit : ∀ k < 10, isDigit (UInt16.ofNat (48 + k)) = true := by decide
  intro u hu
  simp only [threeDigits, List.mem_cons, List.not_mem_nil, or_false] at hu
  rcases hu with rfl | rfl | rfl
  · exact hdigit _ (by omega)
  · exact hdigit _ (by omega)
  · exact hdigit _ (by omega)

theorem digitsToNat_threeDigits (hn : n < 1000) : digitsToNat (threeDigits n) = n := by
  have hzero : (unit '0').toNat = 48 := by decide
  simp [digitsToNat, threeDigits, hzero]
  omega

/-- Three digits of ASCII are those of a code. -/
theorem exists_threeDigits {d e f : UInt16} (hd : isDigit d = true) (he : isDigit e = true)
    (hf : isDigit f = true) : ∃ n < 1000, [d, e, f] = threeDigits n := by
  rw [isDigit_iff] at hd he hf
  refine ⟨100 * (d.toNat - 48) + 10 * (e.toNat - 48) + (f.toNat - 48), by omega, ?_⟩
  have hunit : ∀ (u : UInt16) (k : ℕ), 48 + k = u.toNat → UInt16.ofNat (48 + k) = u := by
    intro u k h
    rw [h, UInt16.ofNat_toNat]
  rw [threeDigits, hunit d _ (by omega), hunit e _ (by omega), hunit f _ (by omega)]

theorem atEnd_iff : atEnd tail = true ↔ tail = [] ∨ tail = [unit '\n'] := by
  rw [atEnd, decide_eq_true_iff]

theorem tryParseInt_code (hn : n < 1000) (htail : atEnd tail) :
    tryParseInt (threeDigits n ++ tail) = some n := by
  have hend : tail.takeWhile isDigit = [] ∧
      ((tail.dropWhile isDigit).dropWhile isNumberWhite).all (· = 0) = true := by
    rcases atEnd_iff.1 htail with rfl | rfl <;> decide
  rw [tryParseInt, List.takeWhile_append_of_pos (threeDigits_isDigit hn),
    List.dropWhile_append_of_pos (threeDigits_isDigit hn), hend.1, List.append_nil,
    if_pos ⟨List.cons_ne_nil _ _, hend.2⟩, digitsToNat_threeDigits hn]

theorem tryParseInt_range (ha : a < 1000) :
    tryParseInt (threeDigits a ++ unit '-' :: rest) = none := by
  have hdash : isDigit (unit '-') = false ∧ isNumberWhite (unit '-') = false := by decide
  rw [tryParseInt, List.dropWhile_append_of_pos (threeDigits_isDigit ha),
    List.dropWhile_cons_of_neg (by simp [hdash.1]), List.dropWhile_cons_of_neg (by simp [hdash.2])]
  apply if_neg
  rintro ⟨-, hall⟩
  rw [List.all_cons, Bool.and_eq_true] at hall
  exact absurd hall.1 (by decide)

theorem isMatch_code (hn : n < 1000) (htail : atEnd tail) : isMatch (threeDigits n ++ tail) := by
  have hdigits := threeDigits_isDigit hn
  simp only [threeDigits, List.forall_mem_cons] at hdigits
  obtain ⟨h1, h2, h3, -⟩ := hdigits
  simp only [threeDigits, List.cons_append, List.nil_append, isMatch,
    isDecimalDigit_of_isDigit h1, isDecimalDigit_of_isDigit h2, isDecimalDigit_of_isDigit h3,
    htail, Bool.or_true, Bool.and_self]

theorem isMatch_range (ha : a < 1000) (hb : b < 1000) (htail : atEnd tail) :
    isMatch (threeDigits a ++ unit '-' :: (threeDigits b ++ tail)) := by
  have hdigits := threeDigits_isDigit ha
  have hdigits' := threeDigits_isDigit hb
  simp only [threeDigits, List.forall_mem_cons] at hdigits hdigits'
  obtain ⟨h1, h2, h3, -⟩ := hdigits
  obtain ⟨h4, h5, h6, -⟩ := hdigits'
  simp only [threeDigits, List.cons_append, List.nil_append, isMatch, isRangeEnd,
    isDecimalDigit_of_isDigit h1, isDecimalDigit_of_isDigit h2, isDecimalDigit_of_isDigit h3,
    isDecimalDigit_of_isDigit h4, isDecimalDigit_of_isDigit h5, isDecimalDigit_of_isDigit h6,
    htail, decide_true, Bool.true_or, Bool.and_self]

theorem splitOn_range (ha : a < 1000) (hb : b < 1000) (htail : atEnd tail) :
    (threeDigits a ++ unit '-' :: (threeDigits b ++ tail)).splitOn (unit '-')
      = [threeDigits a, threeDigits b ++ tail] := by
  have hdash : ∀ {m : ℕ}, m < 1000 → unit '-' ∉ threeDigits m := by
    intro m hm hmem
    have := threeDigits_isDigit hm _ hmem
    revert this
    decide
  rw [splitOn_eq_two]
  refine ⟨hdash ha, ?_, rfl⟩
  rw [List.mem_append, not_or]
  refine ⟨hdash hb, ?_⟩
  rcases atEnd_iff.1 htail with rfl | rfl <;> decide

/-- What one entry adds to the table. -/
theorem addConfiguration_of_denotes (h : Denotes entry low high) :
    addConfiguration codes entry = .ok (setRange codes low high) := by
  cases h with
  | code hn htail =>
    rw [addConfiguration, isMatch_code hn htail, tryParseInt_code hn htail, setRange,
      Nat.add_sub_cancel_left]
    rfl
  | range ha hb htail =>
    rename_i a b tail
    have hstart : parseElement [threeDigits a, threeDigits b ++ tail] 0 = .ok a := by
      have := tryParseInt_code ha (rfl : atEnd [] = true)
      rw [List.append_nil] at this
      simp only [parseElement, List.getElem?_cons_zero, this]
    have hend : parseElement [threeDigits a, threeDigits b ++ tail] 1 = .ok b := by
      simp only [parseElement, List.getElem?_cons_succ, List.getElem?_cons_zero,
        tryParseInt_code hb htail]
    rw [addConfiguration, isMatch_range ha hb htail, tryParseInt_range ha,
      splitOn_range ha hb htail]
    simp only [hstart, hend, bind, Except.bind]
    by_cases hlt : b < a
    · rw [min_eq_right hlt.le, max_eq_left hlt.le, if_pos hlt]
      rfl
    · rw [min_eq_left (not_lt.1 hlt), max_eq_right (not_lt.1 hlt), if_neg hlt]
      rfl

theorem addConfiguration_of_not_match (h : isMatch entry = false) :
    addConfiguration codes entry = .ok codes := by
  rw [addConfiguration, h]
  rfl

theorem isMatch_of_denotes (h : Denotes entry low high) : isMatch entry = true := by
  cases h with
  | code hn htail => exact isMatch_code hn htail
  | range ha hb htail => exact isMatch_range ha hb htail

/-- An entry that is accepted stands for some codes, if its digits are those of ASCII. -/
theorem denotes_of_isMatch (h : isMatch entry = true)
    (hascii : ∀ u ∈ entry, isDecimalDigit u = true → isDigit u = true) :
    ∃ low high, Denotes entry low high := by
  unfold isMatch at h
  split at h
  · rename_i d e f rest
    simp only [Bool.and_eq_true, Bool.or_eq_true] at h
    obtain ⟨⟨⟨hd, he⟩, hf⟩, hrest⟩ := h
    obtain ⟨n, hn, hcode⟩ := exists_threeDigits (hascii d (by simp) hd) (hascii e (by simp) he)
      (hascii f (by simp) hf)
    have hentry : d :: e :: f :: rest = threeDigits n ++ rest := by rw [← hcode]; rfl
    rcases hrest with hrange | hend
    · unfold isRangeEnd at hrange
      split at hrange
      · rename_i dash d' e' f' tail
        simp only [Bool.and_eq_true, decide_eq_true_eq] at hrange
        obtain ⟨⟨⟨⟨rfl, hd'⟩, he'⟩, hf'⟩, htail⟩ := hrange
        obtain ⟨m, hm, hcode'⟩ := exists_threeDigits (hascii d' (by simp) hd')
          (hascii e' (by simp) he') (hascii f' (by simp) hf')
        have htext : d' :: e' :: f' :: tail = threeDigits m ++ tail := by rw [← hcode']; rfl
        rw [hentry, htext]
        exact ⟨_, _, .range hn hm htail⟩
      · cases hrange
    · rw [hentry]
      exact ⟨n, n, .code hn hend⟩
  · cases h

/-! ### The table -/

theorem length_trySetValue (codes : List Bool) (i : ℕ) :
    (trySetValue codes i).length = codes.length := by
  rw [trySetValue]
  split
  · exact List.length_set
  · rfl

theorem getD_trySetValue (codes : List Bool) (i c : ℕ) :
    (trySetValue codes i).getD c false = true ↔
      codes.getD c false = true ∨ c = i ∧ c < codes.length := by
  rw [trySetValue]
  split
  · rename_i hlt
    by_cases hc : c = i
    · subst hc
      simp [List.getD_eq_getElem?_getD, hlt]
    · simp [List.getD_eq_getElem?_getD, hc, List.getElem?_set_ne (Ne.symm hc)]
  · rename_i hlt
    constructor
    · exact .inl
    · rintro (h | ⟨rfl, h⟩)
      · exact h
      · exact absurd h hlt

theorem foldl_trySetValue (is : List ℕ) (codes : List Bool) :
    (is.foldl trySetValue codes).length = codes.length ∧
      ∀ c, (is.foldl trySetValue codes).getD c false = true ↔
        codes.getD c false = true ∨ c ∈ is ∧ c < codes.length := by
  induction is generalizing codes with
  | nil => simp
  | cons i is ih =>
    obtain ⟨hlen, hget⟩ := ih (trySetValue codes i)
    rw [List.foldl_cons]
    refine ⟨hlen.trans (length_trySetValue codes i), ?_⟩
    intro c
    rw [hget, getD_trySetValue, length_trySetValue, List.mem_cons, or_and_right, or_assoc]

theorem length_setRange : (setRange codes low high).length = codes.length :=
  (foldl_trySetValue _ codes).1

theorem getD_setRange : (setRange codes low high).getD c false = true ↔
    codes.getD c false = true ∨ (low ≤ c ∧ c ≤ high) ∧ c < codes.length := by
  rw [setRange, (foldl_trySetValue _ codes).2, List.mem_range'_1]
  have hmem : low ≤ c ∧ c < low + (high + 1 - low) ↔ low ≤ c ∧ c ≤ high := by omega
  rw [hmem]

/-- All that an entry can be read as covers the same codes. -/
theorem covers_iff (h : Denotes entry low high) : Covers entry c ↔ low ≤ c ∧ c ≤ high := by
  constructor
  · rintro ⟨low', high', h', hc⟩
    have hsame : setRange (List.replicate (c + 1) false) low high
        = setRange (List.replicate (c + 1) false) low' high' :=
      Except.ok.inj ((addConfiguration_of_denotes h).symm.trans (addConfiguration_of_denotes h'))
    have hget := @getD_setRange (List.replicate (c + 1) false) c low high
    rw [hsame, getD_setRange] at hget
    simpa [hc] using hget
  · exact fun hc => ⟨low, high, h, hc⟩

/-- One entry, whose digits are those of ASCII if it is accepted. -/
theorem addConfiguration_spec (codes : List Bool)
    (hascii : isMatch entry = true → ∀ u ∈ entry, isDecimalDigit u = true → isDigit u = true) :
    ∃ codes', addConfiguration codes entry = .ok codes' ∧ codes'.length = codes.length ∧
      ∀ c, codes'.getD c false = true ↔
        codes.getD c false = true ∨ c < codes.length ∧ Covers entry c := by
  cases hmatch : isMatch entry with
  | false =>
    refine ⟨codes, addConfiguration_of_not_match hmatch, rfl, ?_⟩
    intro c
    have hnot : ¬Covers entry c := by
      rintro ⟨low, high, h, -⟩
      rw [isMatch_of_denotes h] at hmatch
      cases hmatch
    simp [hnot]
  | true =>
    obtain ⟨low, high, h⟩ := denotes_of_isMatch hmatch (hascii hmatch)
    refine ⟨_, addConfiguration_of_denotes h, length_setRange, ?_⟩
    intro c
    rw [getD_setRange, covers_iff h, and_comm]

theorem foldlM_addConfiguration (entries : List Text) (codes : List Bool)
    (hascii : ∀ entry ∈ entries, isMatch entry = true →
      ∀ u ∈ entry, isDecimalDigit u = true → isDigit u = true) :
    ∃ codes', entries.foldlM addConfiguration codes = .ok codes' ∧
      codes'.length = codes.length ∧
      ∀ c, codes'.getD c false = true ↔
        codes.getD c false = true ∨ c < codes.length ∧ ∃ entry ∈ entries, Covers entry c := by
  induction entries generalizing codes with
  | nil => exact ⟨codes, rfl, rfl, by simp⟩
  | cons entry entries ih =>
    rw [List.forall_mem_cons] at hascii
    obtain ⟨codes₁, hfirst, hlen₁, hget₁⟩ := addConfiguration_spec codes hascii.1
    obtain ⟨codes₂, hrest, hlen₂, hget₂⟩ := ih codes₁ hascii.2
    refine ⟨codes₂, ?_, hlen₂.trans hlen₁, ?_⟩
    · rw [List.foldlM_cons, hfirst]
      exact hrest
    · intro c
      rw [hget₂, hget₁, hlen₁, List.exists_mem_cons_iff, and_or_left, or_assoc]

theorem getD_replicate_false (n c : ℕ) : (List.replicate n false).getD c false = false := by
  rw [List.getD_eq_getElem?_getD, List.getElem?_replicate]
  split
  · rfl
  · rfl

/-- The table has a place for each code below 600, and an entry that covers the code sets it. -/
theorem parseHttpCodesToArray_spec (httpStatusErrorCodes : Text)
    (hascii : ∀ entry ∈ configurationsArray httpStatusErrorCodes, isMatch entry = true →
      ∀ u ∈ entry, isDecimalDigit u = true → isDigit u = true) :
    ∃ codes, parseHttpCodesToArray httpStatusErrorCodes = .ok codes ∧ codes.length = 600 ∧
      ∀ c, codes.getD c false = true ↔
        c < 600 ∧ ∃ entry ∈ configurationsArray httpStatusErrorCodes, Covers entry c := by
  obtain ⟨codes, hparse, hlen, hget⟩ :=
    foldlM_addConfiguration _ (List.replicate 600 false) hascii
  rw [List.length_replicate] at hlen hget
  refine ⟨codes, hparse, hlen, ?_⟩
  intro c
  rw [hget, getD_replicate_false]
  exact or_iff_right Bool.false_ne_true

/-- If the accepted entries have no digits but those of ASCII, the list is read, and a code from
0 on is an error exactly if it is below 600 and some entry covers it. -/
theorem isErrorStatusCode_iff (httpStatusErrorCodes : Text)
    (hascii : ∀ entry ∈ configurationsArray httpStatusErrorCodes, isMatch entry = true →
      ∀ u ∈ entry, isDecimalDigit u = true → isDigit u = true) :
    ∃ codes, parseHttpCodesToArray httpStatusErrorCodes = .ok codes ∧
      ∀ c : ℕ, ∃ isError, isErrorStatusCode (some codes) c = .ok isError ∧
        (isError = true ↔
          c < 600 ∧ ∃ entry ∈ configurationsArray httpStatusErrorCodes, Covers entry c) := by
  obtain ⟨codes, hparse, hlen, hget⟩ := parseHttpCodesToArray_spec _ hascii
  refine ⟨codes, hparse, ?_⟩
  intro c
  by_cases hc : c < 600
  · have hbelow : ¬(c : ℤ) ≥ codes.length := by omega
    have hnonneg : ¬(c : ℤ) < 0 := by omega
    refine ⟨codes.getD c false, ?_, hget c⟩
    simp only [isErrorStatusCode, if_neg hbelow, if_neg hnonneg, Int.toNat_natCast]
  · have habove : (c : ℤ) ≥ codes.length := by omega
    exact ⟨false, if_pos habove, by simp [hc]⟩

/-- The digits of a range, and its dash. -/
theorem isDigit_of_mem_range :
    ∀ u ∈ text "401-404", isDecimalDigit u = true → isDigit u = true := by
  have hunits : text "401-404" = threeDigits 401 ++ unit '-' :: threeDigits 404 := by decide
  intro u hu hdecimal
  rw [hunits, List.mem_append, List.mem_cons] at hu
  rcases hu with hu | rfl | hu
  · exact threeDigits_isDigit (by omega) u hu
  · exact absurd hdecimal (by decide)
  · exact threeDigits_isDigit (by omega) u hu

theorem isErrorStatusCode_iff_one :
    ∃ codes, parseHttpCodesToArray (text "401-404") = .ok codes ∧
      ∀ c : ℕ, ∃ isError, isErrorStatusCode (some codes) c = .ok isError ∧
        (isError = true ↔
          c < 600 ∧ ∃ entry ∈ configurationsArray (text "401-404"), Covers entry c) := by
  apply isErrorStatusCode_iff
  have harray : configurationsArray (text "401-404") = [text "401-404"] := by decide
  intro entry hentry _
  rw [harray, List.mem_singleton] at hentry
  rw [hentry]
  exact isDigit_of_mem_range

/-- A code of 600 or more is not an error, though it is in the list. -/
theorem not_isErrorStatusCode_700 :
    ¬∀ (httpStatusErrorCodes : Text) (c : ℕ), c < 1000 →
      ∃ codes, parseHttpCodesToArray httpStatusErrorCodes = .ok codes ∧
        ∃ isError, isErrorStatusCode (some codes) c = .ok isError ∧
          (isError = true ↔
            ∃ entry ∈ configurationsArray httpStatusErrorCodes, Covers entry c) := by
  intro h
  obtain ⟨codes, hparse, isError, hcode, hiff⟩ := h (text "700") 700 (by omega)
  have hdenotes : Denotes (text "700") 700 700 := by
    have htext : text "700" = threeDigits 700 ++ [] := by decide
    rw [htext]
    exact .code (by omega) rfl
  have hadd : addConfiguration (List.replicate 600 false) (text "700") = .ok codes := by
    have harray : configurationsArray (text "700") = [text "700"] := by decide
    rw [parseHttpCodesToArray, harray, List.foldlM_cons] at hparse
    revert hparse
    cases addConfiguration (List.replicate 600 false) (text "700") with
    | error e => exact id
    | ok codes' => exact id
  rw [addConfiguration_of_denotes hdenotes, Except.ok.injEq] at hadd
  have hlen : codes.length = 600 := by
    rw [← hadd, length_setRange, List.length_replicate]
  have hfalse : isErrorStatusCode (some codes) (700 : ℕ) = .ok false := by
    apply if_pos
    rw [hlen]
    omega
  rw [hfalse, Except.ok.injEq] at hcode
  rw [← hcode] at hiff
  exact absurd (hiff.2 ⟨text "700", by decide, 700, 700, hdenotes, le_rfl, le_rfl⟩) (by decide)

end DdTrace.Configuration
