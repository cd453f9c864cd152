import DdTrace.Lib.Numerals
import DdTrace.Logging.FileLogSink
import Mathlib.Data.Int.LeastGreatest

/-!
# The latest rotation index

The search returns the index of the last name, in the order of the culture, that is accepted as
the name of an index. This is the largest index exactly when every accepted name of another
index sorts in front of a name of the largest. Where names stand in the order of their digits, a
shorter index that is larger than the first digits of the largest one sorts behind it.
-/

namespace DdTrace.Logging

open DdTrace.Lib

variable {nameBase : Text} {timestamp : Timestamp} {files : List FileInfo} {m n r : Int32}

/-! ### Names of indices -/

/-- The characters of an index. -/
def indexDigits (n : ℕ) : List Char :=
  List.replicate (3 - (toString n).toList.length) '0' ++ (toString n).toList

theorem indexText_eq (n : ℕ) : indexText n = (indexDigits n).map unit := by
  rw [indexDigits, List.map_append, List.map_replicate]
  show List.replicate (3 - (text (toString n)).length) (unit '0') ++ text (toString n) = _
  rw [text, List.length_map]

theorem isDigit_of_mem_indexDigits {n : ℕ} {c : Char} (h : c ∈ indexDigits n) :
    c.isDigit = true := by
  rw [indexDigits, List.mem_append, List.mem_replicate] at h
  rcases h with ⟨-, rfl⟩ | h
  · rfl
  · exact isDigit_of_mem_toString h

theorem isDigit_of_mem_indexText {n : ℕ} : ∀ c ∈ indexText n, isDigit c = true := by
  intro c hc
  rw [indexText_eq] at hc
  obtain ⟨d, hd, rfl⟩ := List.mem_map.1 hc
  exact isDigit_unit (isDigit_of_mem_indexDigits hd)

theorem length_indexText (n : ℕ) : (indexText n).length = max 3 (toString n).toList.length := by
  rw [indexText_eq, List.length_map, indexDigits, List.length_append, List.length_replicate]
  omega

theorem length_indexText_mono {m n : ℕ} (h : m ≤ n) :
    (indexText m).length ≤ (indexText n).length := by
  have hpos : 0 < (toString n).toList.length :=
    List.length_pos_iff.2 (toString_toList_ne_nil n)
  have hn : n < 10 ^ (toString n).toList.length := by
    rw [toString_toList, ← Nat.length_toDigits_le_iff (by decide) (by rwa [← toString_toList])]
  have hm : (toString m).toList.length ≤ (toString n).toList.length := by
    rw [toString_toList m, Nat.length_toDigits_le_iff (by decide) hpos]
    omega
  rw [length_indexText, length_indexText]
  omega

theorem ofDigitChars_indexDigits (n : ℕ) : Nat.ofDigitChars 10 (indexDigits n) 0 = n := by
  rw [indexDigits, Nat.ofDigitChars_append, Nat.ofDigitChars_replicate_zero, Nat.mul_zero,
    ofDigitChars_toString]

/-- The code units of the digits. -/
def decimalDigits : DigitSystem UInt16 where
  base := 10
  value c := c.toNat - 48
  isDigit c := isDigit c = true
  value_lt h := by
    have h := isDigit_iff.1 h
    omega
  value_inj ha hb h := by
    have ha := isDigit_iff.1 ha
    have hb := isDigit_iff.1 hb
    apply UInt16.toNat_inj.1
    omega
  lt_iff ha hb := by
    have ha := isDigit_iff.1 ha
    have hb := isDigit_iff.1 hb
    rw [UInt16.lt_iff_toNat_lt]
    omega

theorem digitsToNat_indexText (n : ℕ) : digitsToNat (indexText n) = n := by
  rw [indexText_eq, digitsToNat_map_unit fun _ => isDigit_of_mem_indexDigits,
    ofDigitChars_indexDigits]

theorem number_indexText (n : ℕ) : decimalDigits.number (indexText n) = n :=
  digitsToNat_indexText n

/-- A larger index stands in front of a smaller one if its first digits do. -/
theorem indexText_lt_iff {m n : ℕ} (h : m ≤ n) : indexText n < indexText m ↔
    n / 10 ^ ((indexText n).length - (indexText m).length) < m := by
  rw [DigitSystem.lt_iff_number_lt (S := decimalDigits) (length_indexText_mono h)
    isDigit_of_mem_indexText isDigit_of_mem_indexText, number_indexText, number_indexText]
  rfl

/-- What stands in front of the index. -/
def stem (nameBase : Text) (timestamp : Timestamp) : Text :=
  nameBase ++ filenameSeparatorForTimestamp ++ timestamp.text

theorem constructFilename_of_neg (h : n < 0) :
    constructFilename nameBase timestamp n = stem nameBase timestamp ++ text ".log" := by
  rw [constructFilename, if_pos h]
  show stem nameBase timestamp ++ text "." ++ filenameExtension = _
  rw [List.append_assoc]
  rfl

theorem constructFilename_of_nonneg (h : 0 ≤ n) : constructFilename nameBase timestamp n =
    stem nameBase timestamp ++ filenameSeparatorForIndex ++ indexText n.toInt.toNat
      ++ text ".log" := by
  rw [constructFilename, if_neg (Int32.not_lt.2 h)]
  show stem nameBase timestamp ++ filenameSeparatorForIndex ++ indexText n.toInt.toNat ++ text "."
    ++ filenameExtension = _
  rw [List.append_assoc _ (text ".")]
  rfl

theorem toInt_toNat_inj (hm : 0 ≤ m) (hn : 0 ≤ n) (h : m.toInt.toNat = n.toInt.toNat) : m = n := by
  have hm : 0 ≤ m.toInt := Int32.le_iff_toInt_le.1 hm
  have hn : 0 ≤ n.toInt := Int32.le_iff_toInt_le.1 hn
  apply Int32.toInt_inj.1
  omega

theorem constructFilename_inj (hn : 0 ≤ n)
    (h : constructFilename nameBase timestamp r = constructFilename nameBase timestamp n) :
    r = n := by
  rw [constructFilename_of_nonneg hn] at h
  by_cases hr : r < 0
  · have hlen := congrArg List.length h
    have hseparator : filenameSeparatorForIndex.length = 1 := rfl
    rw [constructFilename_of_neg hr] at hlen
    simp only [List.length_append] at hlen
    omega
  · rw [constructFilename_of_nonneg (Int32.not_lt.1 hr), List.append_cancel_right_eq,
      List.append_cancel_left_eq] at h
    have hnumber := congrArg decimalDigits.number h
    rw [number_indexText, number_indexText] at hnumber
    exact toInt_toNat_inj (Int32.not_lt.1 hr) hn hnumber

/-! ### What the search accepts -/

namespace FileSystem

variable {fs : FileSystem} {s t a b : Text}

theorem map_toUpper_eq (h : fs.isSameFilename s t = true) :
    s.map fs.toUpper = t.map fs.toUpper := by
  unfold isSameFilename at h
  split at h
  · rename_i heq
    rw [heq]
  · split at h
    · exact beq_iff_eq.1 h
    · rw [beq_iff_eq.1 h]

theorem isSameFilename_self (s : Text) : fs.isSameFilename s s = true := if_pos rfl

theorem eq_of_map_toUpper (ht : ∀ c ∈ t, isCaseless c = true)
    (h : s.map fs.toUpper = t.map fs.toUpper) : s = t := by
  induction t generalizing s with
  | nil => exact List.map_eq_nil_iff.1 h
  | cons d t ih =>
    obtain ⟨c, s, rfl, hc, hs⟩ := List.map_eq_cons_iff.1 h
    rw [fs.toUpper_caseless c d (ht d List.mem_cons_self) hc,
      ih (fun e he => ht e (List.mem_cons_of_mem d he)) hs]

/-- A name that is the same as one with a caseless part has that part. -/
theorem split_caseless (hb : ∀ c ∈ b, isCaseless c = true)
    (h : s.map fs.toUpper = (a ++ b ++ t).map fs.toUpper) :
    ∃ a' t', s = a' ++ b ++ t' ∧ a'.map fs.toUpper = a.map fs.toUpper ∧
      t'.map fs.toUpper = t.map fs.toUpper := by
  rw [List.map_append, List.map_append] at h
  obtain ⟨ab, t', rfl, hab, ht⟩ := List.map_eq_append_iff.1 h
  obtain ⟨a', b', rfl, ha, hb'⟩ := List.map_eq_append_iff.1 hab
  exact ⟨a', t', by rw [eq_of_map_toUpper hb hb'], ha, ht⟩

end FileSystem

theorem getFileNameWithoutExtension_append {s e : Text} (he : unit '.' ∉ e) :
    getFileNameWithoutExtension (s ++ unit '.' :: e) = s := by
  have hdrop : (e.reverse ++ unit '.' :: s.reverse).dropWhile (· ≠ unit '.')
      = unit '.' :: s.reverse := by
    rw [List.dropWhile_append_of_pos, List.dropWhile_cons_of_neg (by simp)]
    intro c hc
    simp only [ne_eq, decide_not, Bool.not_eq_true', decide_eq_false_iff_not]
    rintro rfl
    exact he (List.mem_reverse.1 hc)
  have hreverse : (s ++ unit '.' :: e).reverse = e.reverse ++ unit '.' :: s.reverse := by simp
  rw [getFileNameWithoutExtension, if_pos (by simp), hreverse, hdrop, List.drop_one,
    List.tail_cons, List.reverse_reverse]

/-- A name of an index is spelled as it is constructed, but for the case of what stands in front
of the index and of the extension. -/
theorem FileSystem.spelled_of_same {fs : FileSystem} {s : Text} (hn : 0 ≤ n)
    (h : fs.isSameFilename s (constructFilename nameBase timestamp n) = true) :
    ∃ front d extension, isDigit d = true ∧ unit '.' ∉ extension ∧
      s = front ++ [d] ++ filenameSeparatorForIndex ++ indexText n.toInt.toNat
        ++ unit '.' :: extension := by
  obtain ⟨ds, d, hd⟩ := List.eq_nil_or_concat timestamp.text |>.resolve_left timestamp.text_ne_nil
  have hdigit : isDigit d = true := timestamp.text_digits d (by simp [hd])
  have hform : constructFilename nameBase timestamp n = (nameBase ++ filenameSeparatorForTimestamp ++
      ds) ++ (d :: unit '_' :: (indexText n.toInt.toNat ++ [unit '.'])) ++ filenameExtension := by
    rw [constructFilename_of_nonneg hn, stem, hd]
    simp [filenameSeparatorForIndex, filenameExtension, text]
  have hcaseless : ∀ c ∈ d :: unit '_' :: (indexText n.toInt.toNat ++ [unit '.']),
      isCaseless c = true := by
    have hall : ∀ c ∈ d :: indexText n.toInt.toNat, isCaseless c = true := by
      intro c hc
      have hc : isDigit c = true := by
        rcases List.mem_cons.1 hc with rfl | hc
        · exact hdigit
        · exact isDigit_of_mem_indexText c hc
      rw [isCaseless, hc, Bool.true_or, Bool.true_or]
    rw [List.forall_mem_cons] at hall
    rw [List.forall_mem_cons, List.forall_mem_cons, List.forall_mem_append,
      List.forall_mem_singleton]
    exact ⟨hall.1, by decide, hall.2, by decide⟩
  have hupper := map_toUpper_eq h
  rw [hform] at hupper
  obtain ⟨front, extension, rfl, -, hextension⟩ := split_caseless hcaseless hupper
  refine ⟨front, d, extension, hdigit, ?_, by simp [filenameSeparatorForIndex, text]⟩
  intro hmem
  have hmem := List.mem_map_of_mem (f := fs.toUpper) hmem
  rw [hextension] at hmem
  obtain ⟨c, hc, heq⟩ := List.mem_map.1 hmem
  rw [fs.toUpper_caseless c _ (by decide) heq] at hc
  revert hc
  decide

namespace Platform

variable {P : Platform}

theorem tryParseInt32_indexText {n : ℕ} (h : n < 2 ^ 31) :
    tryParseInt32 P.numbers (indexText n) = some (Int32.ofInt n) := by
  have hne : indexText n ≠ [] := List.ne_nil_of_length_pos (by rw [length_indexText]; omega)
  rw [tryParseInt32, parseInteger_digits P.numbers_symbols hne isDigit_of_mem_indexText,
    digitsToNat_indexText, Option.bind_some, if_pos (by omega)]

theorem rotationIndexOf_eq_some_iff {s : Text} :
    P.rotationIndexOf nameBase timestamp s = some r ↔
      ∃ pos, P.lastIndexOf (getFileNameWithoutExtension s) filenameSeparatorForIndex = some pos ∧
        3 ≤ (getFileNameWithoutExtension s).length ∧
        pos < (getFileNameWithoutExtension s).length ∧
        pos + 3 ≤ (getFileNameWithoutExtension s).length ∧
        tryParseInt32 P.numbers ((getFileNameWithoutExtension s).drop (pos + 1)) = some r ∧
        P.isSameFilename s (constructFilename nameBase timestamp r) = true := by
  have hformat : filenameIndexFormat.length = 3 := rfl
  simp only [rotationIndexOf, hformat, Option.bind_eq_bind, Option.bind_eq_some_iff,
    Option.guard_eq_some', Option.pure_def, Option.some.injEq]
  constructor
  · rintro ⟨-, hlen, pos, hpos, -, hlt, -, hle, r', hparse, -, hsame, rfl⟩
    exact ⟨pos, hpos, hlen, hlt, hle, hparse, hsame⟩
  · rintro ⟨pos, hpos, hlen, hlt, hle, hparse, hsame⟩
    exact ⟨(), hlen, pos, hpos, (), hlt, (), hle, r, hparse, (), hsame, rfl⟩

/-- Every name of an index is accepted. -/
theorem rotationIndexOf_of_same {s : Text} (hn : 0 ≤ n)
    (h : P.isSameFilename s (constructFilename nameBase timestamp n) = true) :
    P.rotationIndexOf nameBase timestamp s = some n := by
  have hlen : 3 ≤ (indexText n.toInt.toNat).length := by
    rw [length_indexText]
    omega
  have hnonneg : 0 ≤ n.toInt := Int32.le_iff_toInt_le.1 hn
  have hmax := n.toInt_lt
  obtain ⟨front, d, extension, hdigit, hdot, hspelled⟩ := FileSystem.spelled_of_same hn h
  have hnoExt : getFileNameWithoutExtension s
      = front ++ [d] ++ filenameSeparatorForIndex ++ indexText n.toInt.toNat := by
    rw [hspelled]
    exact getFileNameWithoutExtension_append hdot
  have hlength : (front ++ [d] ++ filenameSeparatorForIndex ++ indexText n.toInt.toNat).length
      = front.length + 2 + (indexText n.toInt.toNat).length := by
    simp [filenameSeparatorForIndex, text]
    omega
  have hdrop : (front ++ [d] ++ filenameSeparatorForIndex ++ indexText n.toInt.toNat).drop
      (front.length + 1 + 1) = indexText n.toInt.toNat :=
    List.drop_left' (by simp [filenameSeparatorForIndex, text])
  rw [rotationIndexOf_eq_some_iff, hnoExt, hlength]
  refine ⟨front.length + 1, ?_, by omega, by omega, by omega, ?_, h⟩
  · apply P.lastIndexOf_separator front d _ hdigit _ isDigit_of_mem_indexText
    intro heq
    rw [heq] at hlen
    cases hlen
  · rw [hdrop, tryParseInt32_indexText (by omega), Int.toNat_of_nonneg hnonneg, Int32.ofInt_toInt]

/-! ### The last name that is accepted -/

/-- A file has the name of the index. -/
def HasIndex (P : Platform) (nameBase : Text) (timestamp : Timestamp) (files : List FileInfo)
    (n : Int32) : Prop :=
  0 ≤ n ∧ ∃ file ∈ files,
    P.isSameFilename file.name (constructFilename nameBase timestamp n) = true

def IsLargest (P : Platform) (nameBase : Text) (timestamp : Timestamp) (files : List FileInfo)
    (n : Int32) : Prop :=
  P.HasIndex nameBase timestamp files n ∧ ∀ m, P.HasIndex nameBase timestamp files m → m ≤ n

/-- The latest index: the largest that a file has, 0 if no file has one. -/
def IsLatest (P : Platform) (nameBase : Text) (timestamp : Timestamp) (files : List FileInfo)
    (n : Int32) : Prop :=
  P.IsLargest nameBase timestamp files n ∨
    (∀ m, ¬ P.HasIndex nameBase timestamp files m) ∧ n = 0

/-- A file that is accepted has the largest index, or sorts in front of one that has it. -/
def LatestSortsLast (P : Platform) (nameBase : Text) (timestamp : Timestamp)
    (files : List FileInfo) : Prop :=
  ∀ file ∈ files, ∀ r, P.rotationIndexOf nameBase timestamp file.name = some r →
    ∃ latest ∈ files, ∃ n, P.isSameFilename latest.name (constructFilename nameBase timestamp n) ∧
      P.IsLargest nameBase timestamp files n ∧
        (r = n ∨ P.compareTo file.name latest.name = .lt)

theorem last_of_findSome?_reverse {α β : Type*} {R : α → α → Prop} {p : α → Option β} {l : List α}
    {b : β} (hl : l.Pairwise R) (h : l.reverse.findSome? p = some b) :
    ∃ a ∈ l, p a = some b ∧ ∀ a' ∈ l, (p a').isSome → a' = a ∨ R a' a := by
  obtain ⟨l₁, a, l₂, hsplit, ha, hnone⟩ := List.findSome?_eq_some_iff.1 h
  obtain rfl : l = l₂.reverse ++ a :: l₁.reverse := by
    rw [← List.reverse_reverse l, hsplit]
    simp
  refine ⟨a, by simp, ha, fun a' hmem hsome => ?_⟩
  rcases List.mem_append.1 hmem with hmem | hmem
  · exact .inr ((List.pairwise_append.1 hl).2.2 a' hmem a List.mem_cons_self)
  · rcases List.mem_cons.1 hmem with rfl | hmem
    · exact .inl rfl
    · rw [hnone a' (List.mem_reverse.1 hmem)] at hsome
      cases hsome

theorem findLatestRotationIndex_eq : P.findLatestRotationIndex files nameBase timestamp =
    ((P.sort files).reverse.findSome?
      fun file => P.rotationIndexOf nameBase timestamp file.name).getD 0 := by
  unfold findLatestRotationIndex
  split
  · rename_i hempty
    have hperm := P.sort_perm files
    rw [List.isEmpty_iff.1 hempty] at hperm ⊢
    rw [hperm.eq_nil]
    rfl
  · rfl

theorem HasIndex.of_rotationIndexOf {file : FileInfo} (hfile : file ∈ files) (hr : 0 ≤ r)
    (h : P.rotationIndexOf nameBase timestamp file.name = some r) :
    P.HasIndex nameBase timestamp files r := by
  obtain ⟨_, -, -, -, -, -, hsame⟩ := rotationIndexOf_eq_some_iff.1 h
  exact ⟨hr, file, hfile, hsame⟩

/-- Two accepted files of different indices are told apart by the order. -/
theorem compareTo_ne_eq {s t : Text} (hn : 0 ≤ n) (hne : r ≠ n)
    (hs : P.rotationIndexOf nameBase timestamp s = some r)
    (ht : P.rotationIndexOf nameBase timestamp t = some n) : P.compareTo s t ≠ .eq := by
  obtain ⟨_, -, -, -, -, -, hs⟩ := rotationIndexOf_eq_some_iff.1 hs
  obtain ⟨_, -, -, -, -, -, ht⟩ := rotationIndexOf_eq_some_iff.1 ht
  intro heq
  exact hne (constructFilename_inj hn (P.compareTo_filenames _ _ _ _ _ _ hs ht heq))

theorem isLatest_findLatestRotationIndex_iff :
    P.IsLatest nameBase timestamp files (P.findLatestRotationIndex files nameBase timestamp) ↔
      P.LatestSortsLast nameBase timestamp files := by
  rw [findLatestRotationIndex_eq]
  have hmem : ∀ {file}, file ∈ P.sort files ↔ file ∈ files := (P.sort_perm files).mem_iff
  cases hfind : (P.sort files).reverse.findSome? fun file =>
    P.rotationIndexOf nameBase timestamp file.name with
  | none =>
    have hnone : ∀ file ∈ files, P.rotationIndexOf nameBase timestamp file.name = none :=
      fun file hfile =>
        List.findSome?_eq_none_iff.1 hfind file (List.mem_reverse.2 (hmem.2 hfile))
    refine iff_of_true (.inr ⟨fun m hm => ?_, rfl⟩) fun file hfile r hr => ?_
    · obtain ⟨hnonneg, file, hfile, hsame⟩ := hm
      have haccepted := rotationIndexOf_of_same hnonneg hsame
      rw [hnone file hfile] at haccepted
      cases haccepted
    · rw [hnone file hfile] at hr
      cases hr
  | some r =>
    obtain ⟨last, hlast, hr, hothers⟩ := last_of_findSome?_reverse (P.sort_pairwise files) hfind
    have hlast := hmem.1 hlast
    rw [Option.getD_some]
    constructor
    · rintro (hlargest | ⟨hno, rfl⟩)
      · intro file hfile r' hr'
        obtain ⟨_, -, -, -, -, -, hsame⟩ := rotationIndexOf_eq_some_iff.1 hr
        refine ⟨last, hlast, r, hsame, hlargest, ?_⟩
        by_cases heq : r' = r
        · exact .inl heq
        · have hne := compareTo_ne_eq hlargest.1.1 heq hr' hr
          rcases hothers file (hmem.2 hfile) (by rw [hr']; rfl) with rfl | hle
          · rw [hr, Option.some.injEq] at hr'
            exact absurd hr'.symm heq
          · cases hcompare : P.compareTo file.name last.name with
            | lt => exact .inr rfl
            | eq => exact absurd hcompare hne
            | gt => exact absurd hcompare hle
      · exact absurd (HasIndex.of_rotationIndexOf hlast (by decide) hr) (hno 0)
    · intro h
      obtain ⟨latest, hlatest, n, hsame, hlargest, hor⟩ := h last hlast r hr
      have hn := rotationIndexOf_of_same hlargest.1.1 hsame
      suffices heq : r = n from .inl (heq ▸ hlargest)
      rcases hor with heq | hlt
      · exact heq
      · rcases hothers latest (hmem.2 hlatest) (by rw [hn]; rfl) with rfl | hle
        · rw [hr, Option.some.injEq] at hn
          exact hn
        · rw [P.compareTo_swap, hlt] at hle
          exact absurd rfl hle

/-! ### Names in the order of their digits -/

/-- The culture orders names that differ in the digits of their indices by these. -/
def OrdersDigits (P : Platform) : Prop :=
  ∀ s a b : Text, a ≠ [] → b ≠ [] → (∀ c ∈ a, isDigit c = true) → (∀ c ∈ b, isDigit c = true) →
    a ≠ b → (P.compareTo (s ++ filenameSeparatorForIndex ++ a ++ text ".log")
      (s ++ filenameSeparatorForIndex ++ b ++ text ".log") = .lt ↔ a < b)

theorem exists_isLargest (h : P.HasIndex nameBase timestamp files m) :
    ∃ n, P.IsLargest nameBase timestamp files n := by
  obtain ⟨z, ⟨n, hn, rfl⟩, hmax⟩ := @Int.exists_greatest_of_bdd
    (fun z => ∃ n : Int32, P.HasIndex nameBase timestamp files n ∧ n.toInt = z)
    ⟨2 ^ 31, fun z ⟨n, _, hn⟩ => by have := n.toInt_lt; omega⟩ ⟨m.toInt, m, h, rfl⟩
  exact ⟨n, hn, fun k hk => Int32.le_iff_toInt_le.2 (hmax _ ⟨k, hk, rfl⟩)⟩

theorem IsLargest.unique (hm : P.IsLargest nameBase timestamp files m)
    (hn : P.IsLargest nameBase timestamp files n) : m = n :=
  Int32.le_antisymm (hn.2 m hm.1) (hm.2 n hn.1)

/-- The index `m` is at most the number that the first digits of `n` denote, as many as `m`
has. -/
def LeFirstDigits (m n : Int32) : Prop :=
  m.toInt.toNat ≤ n.toInt.toNat /
    10 ^ ((indexText n.toInt.toNat).length - (indexText m.toInt.toNat).length)

theorem leFirstDigits_self : LeFirstDigits m m := by
  rw [LeFirstDigits, Nat.sub_self, Nat.pow_zero, Nat.div_one]

theorem indexText_ne_nil (n : ℕ) : indexText n ≠ [] := by
  intro h
  have hlen := length_indexText n
  rw [h, List.length_nil] at hlen
  omega

theorem compareTo_indices_iff (hP : P.OrdersDigits) (hm : 0 ≤ m) (hle : m ≤ n) (hne : m ≠ n) :
    P.compareTo (constructFilename nameBase timestamp m) (constructFilename nameBase timestamp n)
      = .lt ↔ LeFirstDigits m n := by
  have hn : 0 ≤ n := Int32.le_trans hm hle
  have hnat : m.toInt.toNat ≤ n.toInt.toNat := by
    have := Int32.le_iff_toInt_le.1 hle
    omega
  have htexts : indexText m.toInt.toNat ≠ indexText n.toInt.toNat := by
    intro h
    have hnumber := congrArg decimalDigits.number h
    rw [number_indexText, number_indexText] at hnumber
    exact hne (toInt_toNat_inj hm hn hnumber)
  have hbehind := hP (stem nameBase timestamp) _ _ (indexText_ne_nil n.toInt.toNat)
    (indexText_ne_nil m.toInt.toNat) isDigit_of_mem_indexText isDigit_of_mem_indexText htexts.symm
  rw [indexText_lt_iff hnat, ← constructFilename_of_nonneg hn, ← constructFilename_of_nonneg hm]
    at hbehind
  have hswap := P.compareTo_swap (constructFilename nameBase timestamp m)
    (constructFilename nameBase timestamp n)
  have hneq : P.compareTo (constructFilename nameBase timestamp m)
      (constructFilename nameBase timestamp n) ≠ .eq := fun heq =>
    hne (constructFilename_inj hn (P.compareTo_filenames _ _ _ _ _ _
      (FileSystem.isSameFilename_self _) (FileSystem.isSameFilename_self _) heq))
  rw [LeFirstDigits, ← not_lt, ← hbehind, hswap]
  cases h : P.compareTo (constructFilename nameBase timestamp m)
    (constructFilename nameBase timestamp n) with
  | lt => simp
  | eq => exact absurd h hneq
  | gt => simp

/-- For names that are spelled as they are constructed: no index that is larger than the first
digits of the largest, and no name without an index that is read as a negative one and sorts
behind the largest. -/
theorem latestSortsLast_iff (hP : P.OrdersDigits)
    (hspelled : ∀ file ∈ files, ∀ n, 0 ≤ n →
      P.isSameFilename file.name (constructFilename nameBase timestamp n) →
        file.name = constructFilename nameBase timestamp n) :
    P.LatestSortsLast nameBase timestamp files ↔
      (∀ m n, P.HasIndex nameBase timestamp files m → P.IsLargest nameBase timestamp files n →
        LeFirstDigits m n) ∧
      ∀ file ∈ files, ∀ r < 0, P.rotationIndexOf nameBase timestamp file.name = some r →
        ∃ n, P.IsLargest nameBase timestamp files n ∧
          P.compareTo file.name (constructFilename nameBase timestamp n) = .lt := by
  constructor
  · intro h
    refine ⟨fun m n hm hn => ?_, fun file hfile r hr haccepted => ?_⟩
    · obtain ⟨hnonneg, file, hfile, hsame⟩ := hm
      obtain ⟨latest, hlatest, n', hsame', hlargest, hor⟩ :=
        h file hfile m (rotationIndexOf_of_same hnonneg hsame)
      obtain rfl := hlargest.unique hn
      rcases hor with rfl | hlt
      · exact leFirstDigits_self
      · by_cases hne : m = n'
        · rw [hne]
          exact leFirstDigits_self
        · rw [hspelled file hfile m hnonneg hsame,
            hspelled latest hlatest n' hlargest.1.1 hsame'] at hlt
          exact (compareTo_indices_iff hP hnonneg (hn.2 m ⟨hnonneg, file, hfile, hsame⟩) hne).1 hlt
    · obtain ⟨latest, hlatest, n, hsame, hlargest, hor⟩ := h file hfile r haccepted
      have hnonneg := hlargest.1.1
      rcases hor with rfl | hlt
      · exact absurd hnonneg (Int32.not_le.2 hr)
      · rw [hspelled latest hlatest n hnonneg hsame] at hlt
        exact ⟨n, hlargest, hlt⟩
  · rintro ⟨hdigits, hplain⟩ file hfile r haccepted
    by_cases hr : r < 0
    · obtain ⟨n, hlargest, hlt⟩ := hplain file hfile r hr haccepted
      obtain ⟨hnonneg, latest, hlatest, hsame⟩ := hlargest.1
      refine ⟨latest, hlatest, n, hsame, hlargest, .inr ?_⟩
      rw [hspelled latest hlatest n hnonneg hsame]
      exact hlt
    · have hr := Int32.not_lt.1 hr
      have hindex := HasIndex.of_rotationIndexOf hfile hr haccepted
      obtain ⟨n, hlargest⟩ := exists_isLargest hindex
      obtain ⟨hnonneg, latest, hlatest, hsame⟩ := hlargest.1
      refine ⟨latest, hlatest, n, hsame, hlargest, ?_⟩
      by_cases hne : r = n
      · exact .inl hne
      · obtain ⟨_, -, -, -, -, -, hsame'⟩ := rotationIndexOf_eq_some_iff.1 haccepted
        rw [hspelled latest hlatest n hnonneg hsame, hspelled file hfile r hr hsame']
        exact .inr ((compareTo_indices_iff hP hr (hlargest.2 r hindex) hne).2
          (hdigits r n hindex hlargest))

end Platform

end DdTrace.Logging
