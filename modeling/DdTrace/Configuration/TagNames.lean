import DdTrace.Configuration.KeyValues

/-!
# Normalized tag names

`TryConvertToNormalizedTagName` and `TryConvertToNormalizedHeaderTagName` (StringExtensions.cs)
differ in the characters they keep. Both take a value whose first character is a letter of
Unicode, and make it an underscore if its lower case is not one of `a` to `z`. Only the names that
keep their first letter meet the requirements, and these are fixed points.
-/

namespace DdTrace.Configuration

open Lib

/-- Either conversion, for the characters that it keeps. -/
def normalizeTagName (keeps : UInt16 → Bool) (runtime : Runtime) (value : Text) : Option Text :=
  if h : isBlank value then none
  else
    let trimmedValue := trim value
    if !runtime.isLetter (trimmedValue.head (trim_ne_nil h)) || trimmedValue.length > 200 then
      none
    else some ((runtime.toLowerInvariant trimmedValue).map fun c =>
      if keeps c then c else unit '_')

/-- The characters that a tag name keeps outside headers. -/
def isNestedTagCharacter (c : UInt16) : Bool := isTagCharacter c || c == unit '.'

def tryConvertToNormalizedTagName : Runtime → Text → Option Text :=
  normalizeTagName isNestedTagCharacter

/-! ### The runtime -/

/-- What every version of Unicode has in common. -/
structure Runtime.AgreesOnAscii (runtime : Runtime) : Prop where
  isLetter : ∀ c < 0x80, runtime.isLetter c
    = ((unit 'a' ≤ c && c ≤ unit 'z') || (unit 'A' ≤ c && c ≤ unit 'Z'))
  toLowerInvariant : ∀ s, (∀ c ∈ s, c < 0x80) → runtime.toLowerInvariant s = s.map toLowerAscii
  /-- The invariant culture maps code point by code point, within a plane. -/
  length_toLowerInvariant : ∀ s, (runtime.toLowerInvariant s).length = s.length

/-! ### Valid names -/

/-- A letter that a tag name keeps. -/
def isTagLetter (c : UInt16) : Bool := unit 'a' ≤ c && c ≤ unit 'z'

def startsWithTagLetter (s : Text) : Bool := s.head?.any isTagLetter

/-- The requirements on tags. -/
structure ValidTagName (keeps : UInt16 → Bool) (name : Text) : Prop where
  letter : startsWithTagLetter name = true
  length_le : name.length ≤ 200
  allowed : ∀ c ∈ name, keeps c = true

/-- The value is blank, does not start with a letter, or is too long. -/
def Runtime.Refuses (runtime : Runtime) (value : Text) : Prop :=
  isBlank value = true ∨ (trim value).head?.any runtime.isLetter = false ∨
    200 < (trim value).length

/-- What the conversion makes of the value, if anything, is valid and is left as it is. -/
def YieldsFixedPoint (keeps : UInt16 → Bool) (convert : Text → Option Text) (value : Text) : Prop :=
  ∀ name, convert value = some name → ValidTagName keeps name ∧ convert name = some name

/-- What the characters that either conversion keeps have in common. -/
structure TagAlphabet (keeps : UInt16 → Bool) : Prop where
  printable : ∀ c, keeps c = true → 0x21 ≤ c.toNat ∧ c.toNat ≤ 0x7E
  toLower : ∀ c, keeps c = true → toLowerAscii c = c
  letter : ∀ c, isTagLetter c = true → keeps c = true
  underscore : keeps (unit '_') = true

theorem isTagCharacter_iff {c : UInt16} : isTagCharacter c = true ↔
    (0x61 ≤ c.toNat ∧ c.toNat ≤ 0x7A) ∨ (0x30 ≤ c.toNat ∧ c.toNat ≤ 0x39) ∨ c.toNat = 0x5F ∨
      c.toNat = 0x3A ∨ c.toNat = 0x2F ∨ c.toNat = 0x2D := by
  simp only [isTagCharacter, Bool.or_eq_true, Bool.and_eq_true, decide_eq_true_eq, beq_iff_eq,
    UInt16.le_iff_toNat_le, ← UInt16.toNat_inj, or_assoc]
  rfl

theorem isTagLetter_iff {c : UInt16} :
    isTagLetter c = true ↔ 0x61 ≤ c.toNat ∧ c.toNat ≤ 0x7A := by
  simp only [isTagLetter, Bool.and_eq_true, decide_eq_true_eq, UInt16.le_iff_toNat_le]
  rfl

theorem tagAlphabet : TagAlphabet isTagCharacter where
  printable c hc := by
    have h := isTagCharacter_iff.1 hc
    omega
  toLower c hc := by
    have h := isTagCharacter_iff.1 hc
    apply toLowerAscii_eq_self
    omega
  letter c hc := isTagCharacter_iff.2 (.inl (isTagLetter_iff.1 hc))
  underscore := rfl

theorem nestedTagAlphabet : TagAlphabet isNestedTagCharacter where
  printable c hc := by
    rw [isNestedTagCharacter, Bool.or_eq_true, beq_iff_eq] at hc
    rcases hc with hc | rfl
    · exact tagAlphabet.printable c hc
    · decide
  toLower c hc := by
    rw [isNestedTagCharacter, Bool.or_eq_true, beq_iff_eq] at hc
    rcases hc with hc | rfl
    · exact tagAlphabet.toLower c hc
    · decide
  letter c hc := by
    rw [isNestedTagCharacter, tagAlphabet.letter c hc, Bool.true_or]
  underscore := rfl

/-! ### The conversion -/

variable {keeps : UInt16 → Bool} {runtime : Runtime} {value name : Text}

theorem normalizeTagName_eq_some : normalizeTagName keeps runtime value = some name ↔
    ¬ runtime.Refuses value ∧
      name = (runtime.toLowerInvariant (trim value)).map fun c =>
        if keeps c then c else unit '_' := by
  rw [normalizeTagName, Runtime.Refuses]
  split
  · rename_i hblank
    simp [hblank]
  · rename_i hblank
    have hhead : (trim value).head?.any runtime.isLetter
        = runtime.isLetter ((trim value).head (trim_ne_nil hblank)) := by
      rw [List.head?_eq_some_head (trim_ne_nil hblank), Option.any_some]
    rw [hhead]
    dsimp only
    split
    · rename_i hbad
      rw [Bool.or_eq_true, Bool.not_eq_true', decide_eq_true_eq] at hbad
      constructor
      · intro h
        cases h
      · rintro ⟨hnot, -⟩
        exact absurd (.inr hbad) hnot
    · rename_i hgood
      rw [Bool.or_eq_true, Bool.not_eq_true', decide_eq_true_eq] at hgood
      rw [Option.some_inj, or_iff_right hblank]
      exact ⟨fun h => ⟨hgood, h.symm⟩, fun h => h.2.symm⟩

/-- The first character is kept if it is a letter, and otherwise becomes none. -/
theorem startsWithTagLetter_map (halphabet : TagAlphabet keeps) (s : Text) :
    startsWithTagLetter (s.map fun c => if keeps c then c else unit '_')
      = startsWithTagLetter s := by
  cases s with
  | nil => rfl
  | cons c s =>
    show isTagLetter (if keeps c then c else unit '_') = isTagLetter c
    split
    · rfl
    · rename_i hdrop
      have hletter : isTagLetter c = false := by
        rw [Bool.eq_false_iff]
        exact fun hc => hdrop (halphabet.letter c hc)
      rw [hletter]
      rfl

/-- A valid name is a fixed point. -/
theorem normalizeTagName_of_valid (halphabet : TagAlphabet keeps) (hascii : runtime.AgreesOnAscii)
    (hname : ValidTagName keeps name) : normalizeTagName keeps runtime name = some name := by
  have hwhite : ∀ c ∈ name, isWhiteSpace c = false := by
    intro c hc
    obtain ⟨hlo, hhi⟩ := halphabet.printable c (hname.allowed c hc)
    exact isWhiteSpace_eq_false hlo hhi
  have hlt : ∀ c ∈ name, c < 0x80 := by
    intro c hc
    obtain ⟨-, hhi⟩ := halphabet.printable c (hname.allowed c hc)
    rw [UInt16.lt_iff_toNat_lt]
    show c.toNat < 128
    omega
  obtain ⟨c, s, rfl, hc⟩ : ∃ c s, name = c :: s ∧ isTagLetter c = true := by
    cases name with
    | nil => cases hname.letter
    | cons c s => exact ⟨c, s, rfl, hname.letter⟩
  rw [normalizeTagName_eq_some, trim_of_forall hwhite, hascii.toLowerInvariant _ hlt, List.map_map]
  constructor
  · rintro (hblank | hletter | hlong)
    · rw [isBlank, List.all_cons, hwhite c List.mem_cons_self] at hblank
      cases hblank
    · rw [trim_of_forall hwhite, List.head?_cons, Option.any_some,
        hascii.isLetter c (hlt c List.mem_cons_self)] at hletter
      rw [isTagLetter] at hc
      rw [hc, Bool.true_or] at hletter
      cases hletter
    · rw [trim_of_forall hwhite] at hlong
      have hlen := hname.length_le
      omega
  · have hself : ∀ d ∈ c :: s,
        ((fun c => if keeps c then c else unit '_') ∘ toLowerAscii) d = id d := by
      intro d hd
      have hkeep := hname.allowed d hd
      show (if keeps (toLowerAscii d) then toLowerAscii d else unit '_') = d
      rw [halphabet.toLower d hkeep, if_pos hkeep]
    rw [List.map_congr_left hself, List.map_id]

/-- The conversion yields a fixed point exactly from the values that it refuses and those that
start with a letter of the alphabet in lower case. -/
theorem yieldsFixedPoint_iff (halphabet : TagAlphabet keeps) (hascii : runtime.AgreesOnAscii)
    (value : Text) : YieldsFixedPoint keeps (normalizeTagName keeps runtime) value ↔
      runtime.Refuses value ∨
        startsWithTagLetter (runtime.toLowerInvariant (trim value)) = true := by
  constructor
  · intro h
    by_cases hrefuse : runtime.Refuses value
    · exact .inl hrefuse
    · obtain ⟨hvalid, -⟩ := h _ (normalizeTagName_eq_some.2 ⟨hrefuse, rfl⟩)
      have hletter := hvalid.letter
      rw [startsWithTagLetter_map halphabet] at hletter
      exact .inr hletter
  · rintro hcondition name hname
    obtain ⟨hrefuse, rfl⟩ := normalizeTagName_eq_some.1 hname
    have hvalid : ValidTagName keeps ((runtime.toLowerInvariant (trim value)).map fun c =>
        if keeps c then c else unit '_') := by
      refine ⟨?_, ?_, ?_⟩
      · rw [startsWithTagLetter_map halphabet]
        exact hcondition.resolve_left hrefuse
      · rw [List.length_map, hascii.length_toLowerInvariant]
        exact Nat.le_of_not_lt fun hlong => hrefuse (.inr (.inr hlong))
      · rw [List.forall_mem_map]
        intro c _
        split
        · assumption
        · exact halphabet.underscore
    exact ⟨hvalid, normalizeTagName_of_valid halphabet hascii hvalid⟩

/-- Both conversions yield a valid name that is left as it is exactly from the values they refuse
and those whose first letter is one of `a` to `z` in lower case. -/
theorem normalizedTagNames_iff (hascii : runtime.AgreesOnAscii) (value : Text) :
    (YieldsFixedPoint isNestedTagCharacter (tryConvertToNormalizedTagName runtime) value ↔
        runtime.Refuses value ∨
          startsWithTagLetter (runtime.toLowerInvariant (trim value)) = true) ∧
      (YieldsFixedPoint isTagCharacter (tryConvertToNormalizedHeaderTagName runtime) value ↔
        runtime.Refuses value ∨
          startsWithTagLetter (runtime.toLowerInvariant (trim value)) = true) :=
  ⟨yieldsFixedPoint_iff nestedTagAlphabet hascii value,
    yieldsFixedPoint_iff tagAlphabet hascii value⟩

/-- A runtime that knows the letters of Latin-1. -/
def latinRuntime : Runtime where
  isLetter c := ((unit 'a' ≤ c && c ≤ unit 'z') || (unit 'A' ≤ c && c ≤ unit 'Z')) ||
    (c == 0xAA || c == 0xB5 || c == 0xBA || (0xC0 ≤ c && c ≤ 0xFF && c != 0xD7 && c != 0xF7))
  toLowerInvariant s := s.map fun c =>
    if 0xC0 ≤ c && c ≤ 0xDE && c != 0xD7 then c + 0x20 else toLowerAscii c
  enumerate d := d.pairs
  enumerate_perm := asciiRuntime.enumerate_perm

theorem latinRuntime_agreesOnAscii : latinRuntime.AgreesOnAscii where
  isLetter c hc := by
    have hlt : c.toNat < 0x80 := UInt16.lt_iff_toNat_lt.1 hc
    have hlatin : (c == 0xAA || c == 0xB5 || c == 0xBA ||
        (0xC0 ≤ c && c ≤ 0xFF && c != 0xD7 && c != 0xF7)) = false := by
      simp only [Bool.or_eq_false_iff, beq_eq_false_iff_ne, ne_eq, Bool.and_eq_false_iff,
        decide_eq_false_iff_not, UInt16.le_iff_toNat_le, ← UInt16.toNat_inj]
      simp
      omega
    show (_ || _) = _
    rw [hlatin, Bool.or_false]
  toLowerInvariant s hs := by
    apply List.map_congr_left
    intro c hc
    have hlt : c.toNat < 0x80 := UInt16.lt_iff_toNat_lt.1 (hs c hc)
    rw [if_neg]
    simp only [Bool.and_eq_true, decide_eq_true_eq, UInt16.le_iff_toNat_le]
    simp
    omega
  length_toLowerInvariant s := List.length_map _

theorem normalizedTagNames_header :
    (YieldsFixedPoint isNestedTagCharacter (tryConvertToNormalizedTagName latinRuntime)
        (text " Content-Type ") ↔ latinRuntime.Refuses (text " Content-Type ") ∨
          startsWithTagLetter (latinRuntime.toLowerInvariant (trim (text " Content-Type "))) =
            true) ∧
      (YieldsFixedPoint isTagCharacter (tryConvertToNormalizedHeaderTagName latinRuntime)
        (text " Content-Type ") ↔ latinRuntime.Refuses (text " Content-Type ") ∨
          startsWithTagLetter (latinRuntime.toLowerInvariant (trim (text " Content-Type "))) =
            true) :=
  normalizedTagNames_iff latinRuntime_agreesOnAscii (text " Content-Type ")

/-- `Étage`, of which an underscore takes the place of the first letter. -/
theorem tagName_not_fixedPoint :
    (¬ ∀ runtime : Runtime, runtime.AgreesOnAscii → ∀ value,
      YieldsFixedPoint isNestedTagCharacter (tryConvertToNormalizedTagName runtime) value ∧
        YieldsFixedPoint isTagCharacter (tryConvertToNormalizedHeaderTagName runtime) value) ∧
      tryConvertToNormalizedTagName latinRuntime (0xC9 :: text "tage") = some (text "_tage") ∧
      tryConvertToNormalizedTagName latinRuntime (text "_tage") = none ∧
      tryConvertToNormalizedHeaderTagName latinRuntime (0xC9 :: text "tage")
        = some (text "_tage") ∧
      tryConvertToNormalizedHeaderTagName latinRuntime (text "_tage") = none := by
  have hname : tryConvertToNormalizedTagName latinRuntime (0xC9 :: text "tage")
      = some (text "_tage") := by decide
  have hagain : tryConvertToNormalizedTagName latinRuntime (text "_tage") = none := by decide
  refine ⟨fun h => ?_, hname, hagain, by decide, by decide⟩
  obtain ⟨hnested, -⟩ := h latinRuntime latinRuntime_agreesOnAscii (0xC9 :: text "tage")
  obtain ⟨-, hfixed⟩ := hnested (text "_tage") hname
  rw [hagain] at hfixed
  cases hfixed

end DdTrace.Configuration
