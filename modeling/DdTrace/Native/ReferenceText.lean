import DdTrace.Native.AssemblyReference

/-!
# The text of an assembly reference

Each part of `AssemblyReference::str` is behind a comma of its own, and no pattern has one: a
pattern finds in the text what it finds in the name, or else its own part. RE2 finds in the bytes
what `std::wregex` finds in the code units in front of the first NUL.
-/

namespace DdTrace.Native

open Lib Lib.Item

/-! ## Code units and bytes -/

def codes (s : Text) : List ℕ := s.map UInt16.toNat

def nonAscii (c : ℕ) : Bool := 0x80 ≤ c

/-- The bytes of a character outside of ASCII. -/
theorem nonAscii_bytes {c : Char} (hc : c.utf8Size ≠ 1) :
    ∀ b ∈ (String.utf8EncodeChar c).map UInt8.toNat, nonAscii b := by
  intro b hb
  obtain ⟨byte, hbyte, rfl⟩ := List.mem_map.1 hb
  exact decide_eq_true (le_of_mem_utf8EncodeChar hc byte hbyte)

theorem blurred_unit {u : UInt16} {s t : List ℕ} (h : Blurred nonAscii s t) :
    Blurred nonAscii (u.toNat :: s)
      ((String.utf8EncodeChar (unitChar u)).map UInt8.toNat ++ t) := by
  by_cases hu : u < 0x80
  · rw [utf8EncodeChar_unitChar hu]
    have hlt : u.toNat < 0x80 := UInt16.lt_iff_toNat_lt.1 hu
    exact .same (decide_eq_false (by omega)) h
  · have hge : (0x80 : UInt16).toNat ≤ u.toNat := UInt16.le_iff_toNat_le.1 (UInt16.not_lt.1 hu)
    have hne : (String.utf8EncodeChar (unitChar u)).map UInt8.toNat ≠ [] :=
      List.map_eq_nil_iff.not.2 String.utf8EncodeChar_ne_nil
    show Blurred nonAscii ([u.toNat] ++ s) _
    exact .others (List.cons_ne_nil _ _) hne (List.forall_mem_singleton.2 (decide_eq_true hge))
      (nonAscii_bytes (utf8Size_unitChar.not.2 hu)) h

/-- The bytes differ from the code units outside of ASCII only. -/
theorem blurred_utf8 (s : Text) : Blurred nonAscii (codes s) ((utf8 s).map UInt8.toNat) := by
  induction s using decodeUtf16.induct with
  | case1 => exact .nil
  | case2 u =>
    have h := @blurred_unit u [] [] .nil
    rw [List.append_nil] at h
    rwa [utf8, decodeUtf16, List.flatMap_singleton]
  | case3 u v us h ih =>
    rw [utf8, decodeUtf16, if_pos h, List.flatMap_cons, List.map_append]
    have hsize : (pairChar u v).utf8Size ≠ 1 := by
      rw [utf8Size_pairChar h]
      decide
    have hne : (String.utf8EncodeChar (pairChar u v)).map UInt8.toNat ≠ [] :=
      List.map_eq_nil_iff.not.2 String.utf8EncodeChar_ne_nil
    have hpair : ∀ c ∈ [u.toNat, v.toNat], nonAscii c := by
      simp only [isHighSurrogate, isLowSurrogate, Bool.and_eq_true, decide_eq_true_eq,
        UInt16.le_iff_toNat_le] at h
      have hu : (0xD800 : UInt16).toNat ≤ u.toNat := h.1.1
      have hv : (0xDC00 : UInt16).toNat ≤ v.toNat := h.2.1
      refine List.forall_mem_cons.2 ⟨?_, List.forall_mem_singleton.2 ?_⟩
      · exact decide_eq_true (le_trans (by decide) hu)
      · exact decide_eq_true (le_trans (by decide) hv)
    show Blurred nonAscii ([u.toNat, v.toNat] ++ codes us) _
    exact .others (List.cons_ne_nil _ _) hne hpair (nonAscii_bytes hsize) ih
  | case4 u v us h ih =>
    rw [utf8, decodeUtf16, if_neg h, List.flatMap_cons, List.map_append]
    exact blurred_unit ih

/-- RE2 finds what `std::wregex` finds in front of the first NUL. -/
theorem re2_search {re2 : RE2} {items : List (Item ℕ)} (hitems : Avoids nonAscii items) (s : Text) :
    re2.branch.search items s = windows.search items (cString s) := by
  show re2.partialMatch items (utf8 (cString s)) = Item.search items (codes (cString s))
  rw [re2.partialMatch_eq, search_blurred (blurred_utf8 _) hitems]

/-! ## The patterns -/

/-- From `.` to `z`: no comma, no space and no NUL. -/
def InPatterns (c : ℕ) : Prop := 0x2E ≤ c ∧ c ≤ 0x7A

def AcceptsInPatterns (item : Item ℕ) : Prop := ∀ c, item.accepts c → InPatterns c

theorem inPatterns_of_digit {c : ℕ} (h : digit c) : InPatterns c := by
  rw [digit, Bool.and_eq_true, decide_eq_true_eq, decide_eq_true_eq] at h
  exact ⟨by omega, by omega⟩

theorem alphanumeric_iff {c : ℕ} : alphanumeric c ↔
    0x61 ≤ c ∧ c ≤ 0x7A ∨ 0x41 ≤ c ∧ c ≤ 0x5A ∨ 0x30 ≤ c ∧ c ≤ 0x39 := by
  simp only [alphanumeric, digit, Bool.or_eq_true, Bool.and_eq_true, decide_eq_true_eq, or_assoc]

theorem hexadecimal_iff {c : ℕ} : hexadecimal c ↔
    0x61 ≤ c ∧ c ≤ 0x66 ∨ 0x41 ≤ c ∧ c ≤ 0x46 ∨ 0x30 ≤ c ∧ c ≤ 0x39 := by
  simp only [hexadecimal, digit, Bool.or_eq_true, Bool.and_eq_true, decide_eq_true_eq, or_assoc]

theorem inPatterns_of_alphanumeric {c : ℕ} (h : alphanumeric c) : InPatterns c := by
  rw [alphanumeric_iff] at h
  exact ⟨by omega, by omega⟩

theorem inPatterns_of_hexadecimal {c : ℕ} (h : hexadecimal c) : InPatterns c := by
  rw [hexadecimal_iff] at h
  exact ⟨by omega, by omega⟩

theorem acceptsInPatterns_char {d : ℕ} (h : InPatterns d) : AcceptsInPatterns (char d) := by
  intro c hc
  rw [show c = d from of_decide_eq_true hc]
  exact h

theorem acceptsInPatterns_literal {s : String} (h : ∀ c ∈ s.toList.map code, 0x2E ≤ c ∧ c ≤ 0x7A) :
    ∀ item ∈ literal s, AcceptsInPatterns item := by
  intro item hitem
  obtain ⟨c, hc, rfl⟩ := List.mem_map.1 hitem
  exact acceptsInPatterns_char (h c hc)

theorem acceptsInPatterns_version : ∀ item ∈ versionPattern, AcceptsInPatterns item := by
  have hdigit : AcceptsInPatterns (plus digit) := fun _ => inPatterns_of_digit
  have hpoint : AcceptsInPatterns (char (code '.')) := acceptsInPatterns_char ⟨by decide, by decide⟩
  rw [versionPattern, List.forall_mem_append]
  refine ⟨acceptsInPatterns_literal (by decide), ?_⟩
  simp only [List.forall_mem_cons, List.not_mem_nil, false_imp_iff, implies_true, and_true]
  exact ⟨hdigit, hpoint, hdigit, hpoint, hdigit, hpoint, hdigit⟩

theorem acceptsInPatterns_culture : ∀ item ∈ culturePattern, AcceptsInPatterns item :=
  List.forall_mem_append.2 ⟨acceptsInPatterns_literal (by decide),
    List.forall_mem_singleton.2 fun _ => inPatterns_of_alphanumeric⟩

theorem acceptsInPatterns_publicKey : ∀ item ∈ publicKeyPattern, AcceptsInPatterns item :=
  List.forall_mem_append.2 ⟨acceptsInPatterns_literal (by decide),
    List.forall_mem_singleton.2 fun _ => inPatterns_of_hexadecimal⟩

variable {items : List (Item ℕ)}

theorem avoids_nonAscii (h : ∀ item ∈ items, AcceptsInPatterns item) : Avoids nonAscii items := by
  intro item hitem c hc
  have hle := (h item hitem c hc).2
  exact decide_eq_false (by omega)

/-- A text falls apart at a comma, a space or a NUL. -/
theorem search_apart (h : ∀ item ∈ items, AcceptsInPatterns item) {c : ℕ} (hc : c < 0x2E)
    (s t : List ℕ) : Item.search items (s ++ c :: t) =
      (Item.search items s).or (Item.search items t) := by
  refine search_separator fun item hitem => ?_
  rw [Bool.eq_false_iff]
  intro haccepts
  have hle := (h item hitem c haccepts).1
  omega

/-! ## The parts of the text -/

theorem codes_append {s t : Text} : codes (s ++ t) = codes s ++ codes t := List.map_append

/-- What is behind the name. -/
def AssemblyReference.tail (r : AssemblyReference) : List ℕ :=
  codes (text " Version=") ++ codes r.version.str ++ code ',' ::
    (codes (text " Culture=") ++ codes r.locale ++ code ',' ::
      (codes (text " PublicKeyToken=") ++ codes r.public_key.str))

theorem codes_str (r : AssemblyReference) :
    codes r.str = codes r.name ++ code ',' :: r.tail := by
  have hversion : codes (text ", Version=") = code ',' :: codes (text " Version=") := by decide
  have hculture : codes (text ", Culture=") = code ',' :: codes (text " Culture=") := by decide
  have hkey : codes (text ", PublicKeyToken=") = code ',' :: codes (text " PublicKeyToken=") := by
    decide
  rw [AssemblyReference.str, AssemblyReference.tail]
  simp only [codes_append, hversion, hculture, hkey, List.append_assoc, List.cons_append]

/-! ### Numbers -/

theorem codes_decimal (n : UInt16) :
    codes (decimal n) = (Nat.toDigits 10 n.toNat).map Char.toNat := by
  rw [codes, decimal, List.map_map]
  refine List.map_congr_left fun c hc => ?_
  have hdigit := Nat.isDigit_of_mem_toDigits (by decide) (by decide) hc
  have hlt : c.toNat < 2 ^ 16 := by
    simp only [Char.isDigit, Bool.and_eq_true, decide_eq_true_eq, UInt32.le_iff_toNat_le] at hdigit
    exact lt_of_le_of_lt hdigit.2 (by decide)
  exact UInt16.toNat_ofNat_of_lt' hlt

theorem digit_decimal {n : UInt16} : ∀ c ∈ codes (decimal n), digit c := by
  rw [codes_decimal]
  intro c hc
  obtain ⟨d, hd, rfl⟩ := List.mem_map.1 hc
  have hdigit := Nat.isDigit_of_mem_toDigits (by decide) (by decide) hd
  simp only [Char.isDigit, Bool.and_eq_true, decide_eq_true_eq, UInt32.le_iff_toNat_le] at hdigit
  exact Bool.and_eq_true_iff.2 ⟨decide_eq_true hdigit.1, decide_eq_true hdigit.2⟩

theorem decimal_ne_nil {n : UInt16} : codes (decimal n) ≠ [] := by
  rw [codes_decimal]
  exact List.map_eq_nil_iff.not.2 Nat.toDigits_ne_nil

theorem readNumber_decimal (n : UInt16) : readNumber (codes (decimal n)) = n.toNat := by
  rw [codes_decimal, readNumber, List.foldl_map]
  exact Nat.ofDigitChars_ten_toDigits

theorem codes_versionStr (v : Version) : codes v.str = codes (decimal v.major) ++ code '.' ::
    (codes (decimal v.minor) ++ code '.' :: (codes (decimal v.build) ++ code '.' ::
      codes (decimal v.revision))) := by
  have hpoint : codes (text ".") = [code '.'] := by decide
  rw [Version.str]
  simp only [codes_append, hpoint, List.append_assoc, List.singleton_append]

/-- The digits of the four numbers. -/
def Version.digits (v : Version) : List (List ℕ) := v.numbers.map fun n => codes (decimal n)

theorem groupsAt_number {n : UInt16} {t : List ℕ} (ht : ∀ c ∈ t.head?, digit c = false)
    (hitems : ∀ item ∈ items.head?, ∃ c, item = char c ∧ digit c = false) :
    groupsAt (plus digit :: items) (codes (decimal n) ++ t) =
      (groupsAt items t).map (codes (decimal n) :: ·) :=
  groupsAt_plus decimal_ne_nil digit_decimal ht hitems

theorem groupsAt_point {t : List ℕ} :
    groupsAt (char (code '.') :: items) (code '.' :: t) = groupsAt items t := by
  rw [groupsAt, matchesAt, if_pos rfl, groupsAt]

theorem search_version (v : Version) :
    Item.search versionPattern (codes (text " Version=") ++ codes v.str) = some v.digits := by
  have hfront : codes (text " Version=") = [code ' '] ++ "Version=".toList.map code := by decide
  have hskip : code 'V' ∉ [code ' '] := by decide
  have hpoint : digit (code '.') = false := by decide
  have hitem : ∀ items : List (Item ℕ), ∀ item ∈ (char (code '.') :: items).head?,
      ∃ c, item = char c ∧ digit c = false := by
    rintro items item ⟨⟩
    exact ⟨_, rfl, hpoint⟩
  have hnext : ∀ t : List ℕ, ∀ c ∈ (code '.' :: t).head?, digit c = false := by
    rintro t c ⟨⟩
    exact hpoint
  rw [hfront, List.append_assoc]
  refine (search_append_of_notMem hskip).trans (search_of_groupsAt ?_)
  refine groupsAt_literal.trans ?_
  rw [codes_versionStr, groupsAt_number (hnext _) (hitem _), groupsAt_point,
    groupsAt_number (hnext _) (hitem _), groupsAt_point, groupsAt_number (hnext _) (hitem _),
    groupsAt_point]
  have hlast := @groupsAt_number [] v.revision [] nofun nofun
  rw [List.append_nil] at hlast
  rw [hlast]
  rfl

/-! ### Cultures and tokens -/

/-- Letters and digits of ASCII, at least one. -/
def IsCulture (locale : Text) : Prop := locale ≠ [] ∧ ∀ c ∈ codes locale, alphanumeric c

theorem search_culture {locale : Text} (h : IsCulture locale) :
    Item.search culturePattern (codes (text " Culture=") ++ codes locale) =
      some [codes locale] := by
  have hfront : codes (text " Culture=") = [code ' '] ++ "Culture=".toList.map code := by decide
  have hskip : code 'C' ∉ [code ' '] := by decide
  rw [hfront, List.append_assoc]
  refine (search_append_of_notMem hskip).trans (search_of_groupsAt ?_)
  refine groupsAt_literal.trans ?_
  have hgroup := @groupsAt_plus ℕ _ [] alphanumeric (codes locale) []
    (List.map_eq_nil_iff.not.2 h.1) h.2 nofun nofun
  rw [List.append_nil] at hgroup
  rw [hgroup]
  rfl

/-- Digits and points have no letter. -/
theorem notMem_version {c : ℕ} (hc : 0x3A ≤ c) (hfront : c ∉ codes (text " Version="))
    (v : Version) : c ∉ codes (text " Version=") ++ codes v.str := by
  rw [List.mem_append, not_or]
  refine ⟨hfront, fun hv => ?_⟩
  have hnumber : ∀ n : UInt16, c ∉ codes (decimal n) := by
    intro n hn
    have hdigit := digit_decimal c hn
    rw [digit, Bool.and_eq_true, decide_eq_true_eq, decide_eq_true_eq] at hdigit
    omega
  have hpoint : c ≠ code '.' := fun h => absurd (h ▸ hc) (by decide)
  rw [codes_versionStr] at hv
  simp only [List.mem_append, List.mem_cons, hnumber, hpoint, or_self] at hv

theorem char_mem_literal {s : String} {c : ℕ} (h : c ∈ s.toList.map code) : char c ∈ literal s :=
  List.mem_map_of_mem h

theorem search_culture_version (v : Version) :
    Item.search culturePattern (codes (text " Version=") ++ codes v.str) = none :=
  search_eq_none_of_notMem (List.mem_append_left _ (char_mem_literal (c := code 'C') (by decide)))
    (notMem_version (by decide) (by decide) v)

theorem search_publicKey_version (v : Version) :
    Item.search publicKeyPattern (codes (text " Version=") ++ codes v.str) = none :=
  search_eq_none_of_notMem (List.mem_append_left _ (char_mem_literal (c := code 'P') (by decide)))
    (notMem_version (by decide) (by decide) v)

theorem search_publicKey_culture {locale : Text} (h : IsCulture locale) :
    Item.search publicKeyPattern (codes (text " Culture=") ++ codes locale) = none := by
  have hskip : code 'P' ∉ codes (text " Culture=") := by decide
  have hequals : char (code '=') ∈ publicKeyPattern :=
    List.mem_append_left _ (char_mem_literal (by decide))
  refine (search_append_of_notMem hskip).trans (search_eq_none_of_notMem hequals fun hlocale => ?_)
  exact absurd (h.2 _ hlocale) (by decide)

theorem toNat_hexDigit {n : ℕ} (hn : n < 16) :
    (hexDigit n).toNat = if n < 10 then 0x30 + n else 0x57 + n :=
  UInt16.toNat_ofNat_of_lt' (by simp only [UInt16.size]; split <;> omega)

theorem hexadecimal_hexDigit {n : ℕ} (hn : n < 16) : hexadecimal (hexDigit n).toNat := by
  rw [hexadecimal_iff, toNat_hexDigit hn]
  split <;> omega

theorem hexValue_hexDigit {n : ℕ} (hn : n < 16) : hexValue (hexDigit n).toNat = n := by
  rw [toNat_hexDigit hn]
  unfold hexValue digit
  by_cases hlt : n < 10
  · have hdigit : (0x30 ≤ 0x30 + n && 0x30 + n ≤ 0x39) = true :=
      Bool.and_eq_true_iff.2 ⟨decide_eq_true (by omega), decide_eq_true (by omega)⟩
    rw [if_pos hlt, if_pos hdigit]
    omega
  · have hdigit : ¬ (0x30 ≤ 0x57 + n && 0x57 + n ≤ 0x39) = true := by
      rw [Bool.and_eq_true, decide_eq_true_eq, decide_eq_true_eq]
      omega
    rw [if_neg hlt, if_neg hdigit, if_pos (by omega)]
    omega

def byteCodes (b : UInt8) : List ℕ :=
  [(hexDigit (b.toNat / 16)).toNat, (hexDigit (b.toNat % 16)).toNat]

theorem codes_publicKeyStr (k : PublicKey) : codes k.str = k.data.flatMap byteCodes := by
  rw [codes, PublicKey.str, List.map_flatMap]
  rfl

theorem hexadecimal_publicKeyStr (k : PublicKey) : ∀ c ∈ codes k.str, hexadecimal c := by
  rw [codes_publicKeyStr]
  intro c hc
  obtain ⟨b, -, hb⟩ := List.mem_flatMap.1 hc
  have hlt := b.toNat_lt
  rcases List.mem_pair.1 hb with rfl | rfl
  · exact hexadecimal_hexDigit (by omega)
  · exact hexadecimal_hexDigit (by omega)

theorem length_codes_publicKeyStr (k : PublicKey) : (codes k.str).length = 16 := by
  have hlength : ∀ data : List UInt8, (data.flatMap byteCodes).length = 2 * data.length := by
    intro data
    induction data with
    | nil => rfl
    | cons b data ih =>
      rw [List.flatMap_cons, List.length_append, ih, List.length_cons]
      show 2 + _ = _
      omega
  rw [codes_publicKeyStr, hlength, k.length_eq]

theorem tokenByte_flatMap {data : List UInt8} {i : ℕ} {b : UInt8} (h : data[i]? = some b) :
    tokenByte (data.flatMap byteCodes) i = b := by
  induction i generalizing data with
  | zero =>
    cases data with
    | nil => cases h
    | cons c data =>
      obtain rfl : c = b := by simpa using h
      have hlt := c.toNat_lt
      have hvalue : ((byteCodes c).foldl (fun n c => 16 * n + hexValue c) 0) = c.toNat := by
        show 16 * (16 * 0 + hexValue _) + hexValue _ = _
        rw [hexValue_hexDigit (by omega), hexValue_hexDigit (by omega)]
        omega
      show UInt8.ofNat ((byteCodes c).foldl (fun n c => 16 * n + hexValue c) 0) = c
      rw [hvalue, UInt8.ofNat_toNat]
  | succ i ih =>
    cases data with
    | nil => cases h
    | cons c data => exact ih h

theorem readToken_str (k : PublicKey) : readToken (codes k.str) = k := by
  obtain ⟨data, hlength⟩ := k
  have hdata : (List.range 8).map (tokenByte (data.flatMap byteCodes)) = data := by
    refine List.ext_getElem (by rw [List.length_map, List.length_range, hlength]) fun i h h' => ?_
    rw [List.getElem_map, List.getElem_range]
    exact tokenByte_flatMap (List.getElem?_eq_getElem h')
  rw [codes_publicKeyStr]
  exact PublicKey.mk.injEq .. ▸ hdata

theorem search_publicKey (k : PublicKey) :
    Item.search publicKeyPattern (codes (text " PublicKeyToken=") ++ codes k.str) =
      some [codes k.str] := by
  have hfront : codes (text " PublicKeyToken=") =
      [code ' '] ++ "PublicKeyToken=".toList.map code := by decide
  have hskip : code 'P' ∉ [code ' '] := by decide
  rw [hfront, List.append_assoc]
  refine (search_append_of_notMem hskip).trans (search_of_groupsAt ?_)
  refine groupsAt_literal.trans ?_
  have hgroup := @groupsAt_times ℕ _ [] hexadecimal (codes k.str) [] 16
    (length_codes_publicKeyStr k) (hexadecimal_publicKeyStr k)
  rw [List.append_nil] at hgroup
  rw [hgroup]
  rfl

/-! ### Behind the name -/

variable {r : AssemblyReference}

theorem search_version_tail (r : AssemblyReference) :
    Item.search versionPattern r.tail = some r.version.digits := by
  rw [AssemblyReference.tail, search_apart acceptsInPatterns_version (by decide), search_version,
    Option.some_or]

theorem search_culture_tail (h : IsCulture r.locale) :
    Item.search culturePattern r.tail = some [codes r.locale] := by
  rw [AssemblyReference.tail, search_apart acceptsInPatterns_culture (by decide),
    search_apart acceptsInPatterns_culture (by decide), search_culture_version, search_culture h,
    Option.none_or, Option.some_or]

theorem search_publicKey_tail (h : IsCulture r.locale) :
    Item.search publicKeyPattern r.tail = some [codes r.public_key.str] := by
  rw [AssemblyReference.tail, search_apart acceptsInPatterns_publicKey (by decide),
    search_apart acceptsInPatterns_publicKey (by decide), search_publicKey_version,
    search_publicKey_culture h, search_publicKey, Option.none_or, Option.none_or]

theorem zero_notMem_tail (h : IsCulture r.locale) : 0 ∉ r.tail := by
  have hdecimal : ∀ n, 0 ∉ codes (decimal n) := fun n h0 => absurd (digit_decimal 0 h0) (by decide)
  have hlocale : 0 ∉ codes r.locale := fun h0 => absurd (h.2 0 h0) (by decide)
  have hkey : 0 ∉ codes r.public_key.str :=
    fun h0 => absurd (hexadecimal_publicKeyStr r.public_key 0 h0) (by decide)
  have hpoint : ¬ 0 = code '.' := by decide
  have hcomma : ¬ 0 = code ',' := by decide
  have htexts : 0 ∉ codes (text " Version=") ∧ 0 ∉ codes (text " Culture=") ∧
      0 ∉ codes (text " PublicKeyToken=") := by decide
  simp only [AssemblyReference.tail, codes_versionStr, List.mem_append, List.mem_cons, hdecimal,
    hlocale, hkey, hpoint, hcomma, htexts, or_self, not_false_iff]

end DdTrace.Native
