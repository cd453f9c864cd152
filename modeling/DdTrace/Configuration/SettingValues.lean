import DdTrace.Lib.Integers

/-!
# Integers and booleans in settings

`int.Parse` with `NumberStyles.Integer`, `bool.Parse`, and the table of `ToBoolean`
(StringExtensions.cs). An integer has no other characters than white space, signs,
digits and nulls (`isNumberCharacter_of_parseInteger`). The two readings of a boolean agree on
`true` and `false` alone (`readsBoolean_iff`).
-/

namespace DdTrace.Configuration

open Lib

/-- What reading a setting throws. -/
inductive SettingFailure where
  | format
  | overflow
  | invalidCast
  | indexOutOfRange
  | json (message : Text)
  deriving DecidableEq

/-! ### Integers -/

/-- `int.Parse` -/
def parseInt32 (info : NumberFormatInfo) (s : Text) : Except SettingFailure Int32 :=
  match parseInteger info s with
  | none => .error .format
  | some n => if -2 ^ 31 ≤ n ∧ n < 2 ^ 31 then .ok (.ofInt n) else .error .overflow

/-- The characters of a number in the invariant culture. -/
def isNumberCharacter (c : UInt16) : Bool :=
  isNumberWhite c || isDigit c || c == unit '+' || c == unit '-' || c == 0

theorem isNumberCharacter_of_parseInteger {s : Text} {n : ℤ}
    (h : parseInteger .invariantInfo s = some n) : ∀ c ∈ s, isNumberCharacter c = true := by
  have hsign : ∀ t : Text, ∀ c ∈ t, c ∈ (NumberFormatInfo.invariantInfo.parseSign t).2 ∨
      c = unit '+' ∨ c = unit '-' := by
    intro t c hc
    rw [NumberFormatInfo.parseSign, if_neg fun h => Bool.false_ne_true h.1]
    split
    · rename_i hplus
      obtain ⟨rest, rfl⟩ := hplus.2
      rcases List.mem_append.1 hc with hc | hc
      · exact .inr (.inl (List.mem_singleton.1 hc))
      · rw [List.drop_left]
        exact .inl hc
    · split
      · rename_i hminus
        obtain ⟨rest, rfl⟩ := hminus.2
        rcases List.mem_append.1 hc with hc | hc
        · exact .inr (.inr (List.mem_singleton.1 hc))
        · rw [List.drop_left]
          exact .inl hc
      · exact .inl hc
  intro c hc
  simp only [parseInteger] at h
  split at h
  · rename_i hparse
    obtain ⟨-, hnull⟩ := hparse
    simp only [isNumberCharacter, Bool.or_eq_true, beq_iff_eq]
    rw [← List.takeWhile_append_dropWhile (p := isNumberWhite) (l := s), List.mem_append] at hc
    rcases hc with hc | hc
    · exact .inl (.inl (.inl (.inl (List.mem_takeWhile_imp hc))))
    rcases hsign _ c hc with hc | hc | hc
    · rw [← List.takeWhile_append_dropWhile (p := isDigit)
        (l := (NumberFormatInfo.invariantInfo.parseSign (s.dropWhile isNumberWhite)).2),
        List.mem_append] at hc
      rcases hc with hc | hc
      · exact .inl (.inl (.inl (.inr (List.mem_takeWhile_imp hc))))
      · rw [← List.takeWhile_append_dropWhile (p := isNumberWhite) (l := List.dropWhile _ _),
          List.mem_append] at hc
        rcases hc with hc | hc
        · exact .inl (.inl (.inl (.inl (List.mem_takeWhile_imp hc))))
        · exact .inr (beq_iff_eq.1 (List.all_eq_true.1 hnull c hc))
    · exact .inl (.inl (.inr hc))
    · exact .inl (.inr hc)
  · cases h

theorem tryParseInt32_eq_some {info : NumberFormatInfo} {s : Text} {n : Int32} :
    tryParseInt32 info s = some n ↔ parseInt32 info s = .ok n := by
  rw [tryParseInt32, parseInt32]
  cases parseInteger info s with
  | none => exact iff_of_false (fun h => by cases h) (fun h => by cases h)
  | some m =>
    rw [Option.bind_some]
    dsimp only
    split
    · rw [Option.some.injEq, Except.ok.injEq]
    · exact iff_of_false (fun h => by cases h) (fun h => by cases h)

theorem isNumberCharacter_of_tryParseInt32 {s : Text} {n : Int32}
    (h : tryParseInt32 .invariantInfo s = some n) : ∀ c ∈ s, isNumberCharacter c = true := by
  rw [tryParseInt32_eq_some, parseInt32] at h
  split at h
  · cases h
  · rename_i hparse
    exact isNumberCharacter_of_parseInteger hparse

/-! ### Booleans -/

/-- `StringExtensions.ToBoolean` -/
def toBoolean (value : Text) : Option Bool :=
  match value with
  | [] => none
  | [c] =>
    if c ∈ text "TtYy1" then some true
    else if c ∈ text "FfNn0" then some false
    else none
  | _ =>
    if equalsIgnoreCase value (text "TRUE") || equalsIgnoreCase value (text "YES") then some true
    else if equalsIgnoreCase value (text "FALSE") || equalsIgnoreCase value (text "NO") then
      some false
    else none

def isWhiteSpaceOrNull (c : UInt16) : Bool := isWhiteSpace c || c == 0

def trimWhiteSpaceAndNull (value : Text) : Text :=
  ((value.dropWhile isWhiteSpaceOrNull).reverse.dropWhile isWhiteSpaceOrNull).reverse

/-- The strings that the type `bool` has for its values. -/
def ofTrueOrFalseString (value : Text) : Option Bool :=
  if equalsIgnoreCase value (text "True") then some true
  else if equalsIgnoreCase value (text "False") then some false
  else none

/-- `bool.Parse` -/
def parseBoolean (value : Text) : Except SettingFailure Bool :=
  match (ofTrueOrFalseString value).or (ofTrueOrFalseString (trimWhiteSpaceAndNull value)) with
  | some b => .ok b
  | none => .error .format

example : toBoolean (text "yeS") = some true := by decide
example : parseBoolean (text " tRue ") = .ok true := by decide
example : parseInt32 .invariantInfo (text " -12 ") = .ok (-12) := by decide

theorem isWhiteSpaceOrNull_upper (c : UInt16) (hlo : 0x41 ≤ c.toNat) (hhi : c.toNat ≤ 0x5A) :
    isWhiteSpaceOrNull c = false := by
  rw [isWhiteSpaceOrNull, isWhiteSpace_eq_false (by omega) (by omega), Bool.false_or,
    beq_eq_false_iff_ne]
  rintro rfl
  exact absurd hlo (by decide)

theorem isNumberCharacter_upper (c : UInt16) (hlo : 0x41 ≤ c.toNat) (hhi : c.toNat ≤ 0x5A) :
    isNumberCharacter c = false := by
  rw [Bool.eq_false_iff]
  intro hc
  simp only [isNumberCharacter, isNumberWhite, isDigit, Bool.or_eq_true, Bool.and_eq_true,
    beq_iff_eq, decide_eq_true_eq, UInt16.le_iff_toNat_le, ← UInt16.toNat_inj] at hc
  simp [unit] at hc
  omega

theorem toBoolean_of_one_lt {value : Text} (h : 1 < value.length) : toBoolean value =
    if equalsIgnoreCase value (text "TRUE") || equalsIgnoreCase value (text "YES") then some true
    else if equalsIgnoreCase value (text "FALSE") || equalsIgnoreCase value (text "NO") then
      some false
    else none := by
  match value, h with
  | _ :: _ :: _, _ => rfl

/-- Nothing is trimmed from what the table has. -/
theorem isWhiteSpaceOrNull_of_toBoolean {value : Text} {b : Bool} (h : toBoolean value = some b) :
    ∀ c ∈ value, isWhiteSpaceOrNull c = false := by
  have hword : ∀ letters : Text, (letters.map toLowerAscii).any isWhiteSpaceOrNull = false →
      equalsIgnoreCase value letters = true → ∀ c ∈ value, isWhiteSpaceOrNull c = false :=
    fun letters hletters heq =>
      eq_false_of_equalsIgnoreCase heq isWhiteSpaceOrNull_upper hletters
  rcases value with _ | ⟨c, _ | ⟨d, value⟩⟩
  · cases h
  · have hany : (text "TtYy1" ++ text "FfNn0").any isWhiteSpaceOrNull = false := by decide
    rw [List.forall_mem_singleton, Bool.eq_false_iff]
    apply List.any_eq_false.1 hany
    rw [List.mem_append]
    by_contra hnot
    rw [not_or] at hnot
    rw [toBoolean, if_neg hnot.1, if_neg hnot.2] at h
    cases h
  · rw [toBoolean_of_one_lt (by simp)] at h
    split at h
    · rename_i heq
      rcases Bool.or_eq_true_iff.1 heq with heq | heq
      · exact hword _ (by decide) heq
      · exact hword _ (by decide) heq
    · split at h
      · rename_i heq
        rcases Bool.or_eq_true_iff.1 heq with heq | heq
        · exact hword _ (by decide) heq
        · exact hword _ (by decide) heq
      · cases h

theorem trimWhiteSpaceAndNull_of_forall {s : Text} (h : ∀ c ∈ s, isWhiteSpaceOrNull c = false) :
    trimWhiteSpaceAndNull s = s := by
  have hdrop : ∀ t : Text, (∀ c ∈ t, isWhiteSpaceOrNull c = false) →
      t.dropWhile isWhiteSpaceOrNull = t := by
    intro t ht
    cases t with
    | nil => rfl
    | cons c t => rw [List.dropWhile_cons_of_neg (by simp [ht c List.mem_cons_self])]
  rw [trimWhiteSpaceAndNull, hdrop s h, hdrop _ fun c hc => h c (List.mem_reverse.1 hc),
    List.reverse_reverse]

/-- The string is `true` or `false`, in upper or in lower case, with nothing around it. -/
def IsTrueOrFalse (value : Text) : Prop :=
  equalsIgnoreCase value (text "true") = true ∨ equalsIgnoreCase value (text "false") = true

theorem toBoolean_of_ofTrueOrFalseString {value : Text} {b : Bool}
    (h : ofTrueOrFalseString value = some b) : toBoolean value = some b := by
  have hlong : ∀ letters : Text, 1 < letters.length → equalsIgnoreCase value letters = true →
      1 < value.length := by
    intro letters hlen heq
    rw [equalsIgnoreCase, beq_iff_eq] at heq
    have hlength := congrArg List.length heq
    rw [List.length_map, List.length_map] at hlength
    omega
  rw [ofTrueOrFalseString] at h
  split at h
  · rename_i htrue
    rw [toBoolean_of_one_lt (hlong _ (by decide) htrue)]
    cases h
    exact if_pos (Bool.or_eq_true_iff.2 (.inl htrue))
  · split at h
    · rename_i htrue hfalse
      rw [toBoolean_of_one_lt (hlong _ (by decide) hfalse)]
      cases h
      have hlower : value.map toLowerAscii = text "false" := beq_iff_eq.1 hfalse
      rw [equalsIgnoreCase, equalsIgnoreCase, equalsIgnoreCase, equalsIgnoreCase, hlower]
      rfl
    · cases h

/-- The two readings of a boolean agree on `true` and `false` alone. -/
theorem readsBoolean_iff {value : Text} :
    (∃ b, parseBoolean value = .ok b ∧ toBoolean value = some b) ↔ IsTrueOrFalse value := by
  have hiff : (∃ b, ofTrueOrFalseString value = some b) ↔ IsTrueOrFalse value := by
    rw [ofTrueOrFalseString, IsTrueOrFalse]
    show _ ↔ equalsIgnoreCase value (text "True") = true ∨
      equalsIgnoreCase value (text "False") = true
    split
    · rename_i htrue
      exact iff_of_true ⟨true, rfl⟩ (.inl htrue)
    · rename_i htrue
      rw [or_iff_right htrue]
      split
      · rename_i hfalse
        exact iff_of_true ⟨false, rfl⟩ hfalse
      · rename_i hfalse
        exact iff_of_false nofun hfalse
  rw [← hiff]
  constructor
  · rintro ⟨b, hparse, htable⟩
    rw [parseBoolean, trimWhiteSpaceAndNull_of_forall (isWhiteSpaceOrNull_of_toBoolean htable),
      Option.or_self] at hparse
    split at hparse
    · rename_i b' hb'
      exact ⟨b', hb'⟩
    · cases hparse
  · rintro ⟨b, hb⟩
    refine ⟨b, ?_, toBoolean_of_ofTrueOrFalseString hb⟩
    rw [parseBoolean, hb]
    rfl

/-- No integer is a boolean. -/
theorem not_isTrueOrFalse {value : Text} {n : Int32}
    (h : tryParseInt32 .invariantInfo value = some n) : ¬ IsTrueOrFalse value := by
  have hnumber := isNumberCharacter_of_tryParseInt32 h
  have hword : ∀ letters : Text, (letters.map toLowerAscii).any isNumberCharacter = false →
      ¬ equalsIgnoreCase value letters = true := by
    intro letters hletters heq
    have hno := eq_false_of_equalsIgnoreCase heq isNumberCharacter_upper hletters
    cases value with
    | nil => cases h
    | cons c value =>
      have hc := hnumber c List.mem_cons_self
      rw [hno c List.mem_cons_self] at hc
      cases hc
  rintro (h | h)
  · exact hword _ (by decide) h
  · exact hword _ (by decide) h

end DdTrace.Configuration
