import DdTrace.Lib.Segments
import DdTrace.Lib.Tables
import DdTrace.Lib.Text

/-!
# Identifiers in the path of a URI

`GetCleanUriPath` walks over a path from one `/` to the next and writes `?` in place of every
segment that looks like an identifier (UriHelpers.cs).
-/

namespace DdTrace.Util

open Lib Lib.Tables

def isHexLetter (c : UInt16) : Bool :=
  (unit 'a' ≤ c && c ≤ unit 'f') || (unit 'A' ≤ c && c ≤ unit 'F')

/-- The loop of `IsIdentifierSegment` over the characters of the segment. -/
def scanSegment (segmentLength : ℕ) : Text → Bool → Bool
  | [], containsNumber => containsNumber
  | c :: cs, containsNumber =>
    if isDigit c then scanSegment segmentLength cs true
    else if isHexLetter c then
      if segmentLength < 16 then false else scanSegment segmentLength cs containsNumber
    else if c = unit '-' then scanSegment segmentLength cs containsNumber
    else false

def isIdentifierSegment (absolutePath : Text) (startIndex segmentLength : ℕ) : Bool :=
  if segmentLength = 0 then false
  else scanSegment segmentLength (slice absolutePath startIndex segmentLength) false

/-- `IndexOf(c, startIndex)`, with `none` for -1. -/
def indexOf (s : Text) (c : UInt16) (startIndex : ℕ) : Option ℕ :=
  ((s.drop startIndex).idxOf? c).map (startIndex + ·)

theorem indexOf_eq_some {s : Text} {c : UInt16} {startIndex index : ℕ}
    (h : indexOf s c startIndex = some index) :
    startIndex ≤ index ∧ index < s.length ∧ c ∉ slice s startIndex (index - startIndex) ∧
      s.drop startIndex = slice s startIndex (index - startIndex) ++ c :: s.drop (index + 1) := by
  obtain ⟨i, hi, rfl⟩ := Option.map_eq_some_iff.1 h
  obtain ⟨hlt, hget, hbefore⟩ := List.idxOf?_eq_some_iff.1 hi
  have hlen : startIndex + i < s.length := by
    rw [List.length_drop] at hlt
    omega
  have hsplit := List.take_append_drop i (s.drop startIndex)
  rw [List.drop_eq_getElem_cons hlt, hget, List.drop_drop] at hsplit
  rw [Nat.add_sub_cancel_left]
  refine ⟨Nat.le_add_right _ _, hlen, ?_, hsplit.symm⟩
  intro hmem
  obtain ⟨j, hj, hc⟩ := List.mem_take_iff_getElem.1 hmem
  exact hbefore j (by omega) hc

theorem indexOf_eq_none {s : Text} {c : UInt16} {startIndex : ℕ} :
    indexOf s c startIndex = none ↔ c ∉ s.drop startIndex := by
  rw [indexOf, Option.map_eq_none_iff, List.idxOf?_eq_none_iff]

/-- What is appended for a segment. -/
def appendSegment (sb absolutePath : Text) (previousIndex segmentLength : ℕ) : Text :=
  if isIdentifierSegment absolutePath previousIndex segmentLength then sb ++ [unit '?']
  else sb ++ slice absolutePath previousIndex segmentLength

/-- The `do` loop of `GetCleanUriPath`. -/
def cleanFrom (absolutePath : Text) (previousIndex : ℕ) (sb : Text) : Text :=
  match h : indexOf absolutePath (unit '/') previousIndex with
  | none =>
    appendSegment sb absolutePath previousIndex (absolutePath.length - previousIndex)
  | some index =>
    have := indexOf_eq_some h
    let sb := appendSegment sb absolutePath previousIndex (index - previousIndex)
    cleanFrom absolutePath (index + 1) (sb ++ [unit '/'])
termination_by absolutePath.length - previousIndex
decreasing_by omega

theorem cleanFrom_last {absolutePath sb : Text} {previousIndex : ℕ}
    (h : indexOf absolutePath (unit '/') previousIndex = none) :
    cleanFrom absolutePath previousIndex sb
      = appendSegment sb absolutePath previousIndex (absolutePath.length - previousIndex) := by
  rw [cleanFrom]
  split
  · rfl
  · rename_i hsome
    rw [h] at hsome
    cases hsome

theorem cleanFrom_next {absolutePath sb : Text} {previousIndex index : ℕ}
    (h : indexOf absolutePath (unit '/') previousIndex = some index) :
    cleanFrom absolutePath previousIndex sb
      = cleanFrom absolutePath (index + 1)
          (appendSegment sb absolutePath previousIndex (index - previousIndex) ++ [unit '/']) := by
  rw [cleanFrom]
  split
  · rename_i hnone
    rw [h] at hnone
    cases hnone
  · rename_i i hsome
    rw [h] at hsome
    cases hsome
    rfl

/-- `GetCleanUriPath` of a path that is not null. -/
def getCleanUriPath (absolutePath : Text) : Text :=
  if isBlank absolutePath ∨ absolutePath = [unit '/'] then absolutePath
  else cleanFrom absolutePath 0 []

/-! ### Which segments are identifiers -/

/-- Digits and dashes, at least one digit, and hex letters if the segment is not short. -/
def IsIdentifier (segment : Text) : Prop :=
  (∀ c ∈ segment, isDigit c ∨ c = unit '-' ∨ (isHexLetter c ∧ 16 ≤ segment.length)) ∧
    ∃ c ∈ segment, isDigit c

theorem all_and_any_iff (segment : Text) :
    segment.all (fun c => isDigit c || c == unit '-' ||
        (isHexLetter c && decide (16 ≤ segment.length))) = true ∧
      segment.any isDigit = true ↔ IsIdentifier segment := by
  simp [IsIdentifier, or_assoc]

instance (segment : Text) : Decidable (IsIdentifier segment) :=
  decidable_of_iff _ (all_and_any_iff segment)

example : IsIdentifier ("0123456789ABCDEF".toList.map unit) := by decide
example : ¬IsIdentifier ("0123456789ABCDE".toList.map unit) := by decide
example : ¬IsIdentifier [unit '-'] := by decide

theorem scanSegment_eq_true {segmentLength : ℕ} {cs : Text} {containsNumber : Bool} :
    scanSegment segmentLength cs containsNumber = true ↔
      (∀ c ∈ cs, isDigit c ∨ c = unit '-' ∨ (isHexLetter c ∧ 16 ≤ segmentLength)) ∧
        (containsNumber ∨ ∃ c ∈ cs, isDigit c) := by
  induction cs generalizing containsNumber with
  | nil => simp [scanSegment]
  | cons c cs ih =>
    rw [scanSegment, List.forall_mem_cons, List.exists_mem_cons_iff]
    by_cases hdigit : isDigit c = true
    · simp [hdigit, ih]
    · by_cases hhex : isHexLetter c = true
      · have hdash : c ≠ unit '-' := by
          rintro rfl
          revert hhex
          decide
        by_cases hshort : segmentLength < 16
        · simp [hdigit, hhex, hdash, hshort]
        · simp [hdigit, hhex, hdash, hshort, ih, not_lt.1 hshort]
      · by_cases hdash : c = unit '-'
        · subst hdash
          simpa [hdigit, hhex] using ih
        · simp [hdigit, hhex, hdash]

theorem isIdentifierSegment_eq {absolutePath : Text} {startIndex segmentLength : ℕ}
    (hlen : (slice absolutePath startIndex segmentLength).length = segmentLength) :
    isIdentifierSegment absolutePath startIndex segmentLength
      = decide (IsIdentifier (slice absolutePath startIndex segmentLength)) := by
  rw [Bool.eq_iff_iff, decide_eq_true_iff, IsIdentifier, hlen, isIdentifierSegment]
  split
  · -- an empty segment has no digit
    rename_i hzero
    rw [List.eq_nil_of_length_eq_zero (hlen.trans hzero)]
    simp
  · rw [scanSegment_eq_true]
    simp

/-! ### The path, segment by segment -/

def cleanSegment (segment : Text) : Text :=
  if IsIdentifier segment then [unit '?'] else segment

theorem avoidsSeparator_cleanSegment : AvoidsSeparator (unit '/') cleanSegment := by
  intro segment h
  rw [cleanSegment]
  split
  · decide
  · exact h

theorem length_cleanSegment_le (segment : Text) :
    (cleanSegment segment).length ≤ segment.length := by
  rw [cleanSegment]
  split
  · rename_i h
    obtain ⟨-, c, hc, -⟩ := h
    exact List.length_pos_of_mem hc
  · exact le_rfl

theorem cleanSegment_cleanSegment : cleanSegment ∘ cleanSegment = cleanSegment := by
  funext segment
  show cleanSegment (cleanSegment segment) = cleanSegment segment
  by_cases h : IsIdentifier segment
  · have hq : ¬IsIdentifier [unit '?'] := by decide
    rw [cleanSegment, cleanSegment, if_pos h, if_neg hq]
  · rw [cleanSegment, cleanSegment, if_neg h, if_neg h]

theorem appendSegment_eq {sb absolutePath : Text} {previousIndex segmentLength : ℕ}
    (hlen : previousIndex + segmentLength ≤ absolutePath.length) :
    appendSegment sb absolutePath previousIndex segmentLength
      = sb ++ cleanSegment (slice absolutePath previousIndex segmentLength) := by
  have hslice : (slice absolutePath previousIndex segmentLength).length = segmentLength := by
    rw [length_slice]
    omega
  rw [appendSegment, isIdentifierSegment_eq hslice, cleanSegment]
  by_cases h : IsIdentifier (slice absolutePath previousIndex segmentLength)
  · simp [h]
  · simp [h]

/-- From a position on, the loop appends the rest of the path with its segments cleaned. -/
theorem cleanFrom_eq (absolutePath : Text) (previousIndex : ℕ) (sb : Text)
    (hle : previousIndex ≤ absolutePath.length) :
    cleanFrom absolutePath previousIndex sb
      = sb ++ onSegments (unit '/') cleanSegment (absolutePath.drop previousIndex) := by
  induction previousIndex, sb using cleanFrom.induct absolutePath with
  | case1 previousIndex sb h =>
    have hslice : slice absolutePath previousIndex (absolutePath.length - previousIndex)
        = absolutePath.drop previousIndex := by
      rw [slice, List.take_of_length_le (by simp)]
    rw [cleanFrom_last h, appendSegment_eq (by omega), hslice,
      onSegments_of_not_mem (indexOf_eq_none.1 h)]
  | case2 previousIndex sb index h hindex sb' ih =>
    obtain ⟨hfrom, hlt, hnot, hdrop⟩ := hindex
    have happend : sb' =
        sb ++ cleanSegment (slice absolutePath previousIndex (index - previousIndex)) :=
      appendSegment_eq (by omega)
    rw [cleanFrom_next h, ih (by omega), happend, hdrop, onSegments_append_cons hnot]
    simp

/-- The paths that are returned at once have nothing to be replaced. -/
theorem onSegments_eq_self {absolutePath : Text}
    (h : isBlank absolutePath ∨ absolutePath = [unit '/']) :
    onSegments (unit '/') cleanSegment absolutePath = absolutePath := by
  rcases h with h | rfl
  · rw [isBlank, List.all_eq_true] at h
    have hnot : ∀ c, 0x21 ≤ c.toNat → c.toNat ≤ 0x7E → c ∉ absolutePath := by
      intro c h1 h2 hmem
      have hwhite := h c hmem
      rw [isWhiteSpace_eq_false h1 h2] at hwhite
      cases hwhite
    rw [onSegments_of_not_mem (hnot _ (by decide) (by decide)), cleanSegment, if_neg]
    rintro ⟨-, c, hc, hdigit⟩
    rw [isDigit_iff] at hdigit
    exact hnot c (by omega) (by omega) hc
  · decide

theorem getCleanUriPath_eq (absolutePath : Text) :
    getCleanUriPath absolutePath = onSegments (unit '/') cleanSegment absolutePath := by
  rw [getCleanUriPath]
  split
  · rename_i h
    exact (onSegments_eq_self h).symm
  · rw [cleanFrom_eq absolutePath 0 [] (Nat.zero_le _), List.drop_zero, List.nil_append]

/-- The cleaned path has `?` for each segment between slashes that is an identifier, and the
other segments as they were. So it has as many segments and is not longer, and cleaning it
again changes nothing. -/
theorem getCleanUriPath_segments (absolutePath : Text) :
    getCleanUriPath absolutePath =
        [unit '/'].intercalate ((absolutePath.splitOn (unit '/')).map fun segment =>
          if IsIdentifier segment then [unit '?'] else segment) ∧
      ((getCleanUriPath absolutePath).splitOn (unit '/')).length =
        (absolutePath.splitOn (unit '/')).length ∧
      (getCleanUriPath absolutePath).length ≤ absolutePath.length ∧
      getCleanUriPath (getCleanUriPath absolutePath) = getCleanUriPath absolutePath := by
  simp only [getCleanUriPath_eq]
  refine ⟨rfl, ?_, length_onSegments_le length_cleanSegment_le, ?_⟩
  · rw [splitOn_onSegments avoidsSeparator_cleanSegment, List.length_map]
  · rw [onSegments_onSegments avoidsSeparator_cleanSegment, cleanSegment_cleanSegment]

end DdTrace.Util
