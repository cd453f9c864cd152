import DdTrace.Native.ReferenceText

/-!
# Round trips of assembly references

A reference is read back from its text if the name has no comma and no space, the culture has
letters and digits only, and nothing in the name looks like another part. RE2 also stops at a
NUL in the name. The branches read the same if the numbers of the version fit into 16 bits and
what is behind the first NUL does not matter.
-/

namespace DdTrace.Native

open Lib Lib.Item

/-! ## What a pattern finds -/

/-- The groups of the leftmost match among the code units. -/
def found (items : List (Item ℕ)) (s : Text) : Option (List (List ℕ)) := Item.search items (codes s)

variable {items : List (Item ℕ)} {s : Text} {groups : List (List ℕ)}

theorem found_append_nul (h : ∀ item ∈ items, AcceptsInPatterns item) (t : Text) :
    found items (s ++ 0 :: t) = (found items s).or (found items t) := by
  rw [found, codes_append]
  exact search_apart h (by decide) _ _

/-- A text has a NUL in it, or it is a C string. -/
theorem cString_split (s : Text) : cString s = s ∨ ∃ t, s = cString s ++ 0 :: t := by
  have hsplit : cString s ++ s.dropWhile (· ≠ 0) = s := List.takeWhile_append_dropWhile
  have hhead := List.head?_dropWhile_not (fun c : UInt16 => decide (c ≠ 0)) s
  cases hdrop : s.dropWhile (· ≠ 0) with
  | nil =>
    rw [hdrop, List.append_nil] at hsplit
    exact .inl hsplit
  | cons c t =>
    rw [hdrop] at hhead hsplit
    have hc : c = 0 := by simpa using hhead
    exact .inr ⟨t, by rw [← hc, hsplit]⟩

/-- What is found in front of the first NUL is found in the whole text. -/
theorem found_of_cString (h : ∀ item ∈ items, AcceptsInPatterns item)
    (hfound : found items (cString s) = some groups) : found items s = some groups := by
  rcases cString_split s with heq | ⟨t, heq⟩
  · rw [← heq, hfound]
  · rw [heq, found_append_nul h, hfound, Option.some_or]

/-! ## What the branches read -/

def readLocale : List (List ℕ) → Text
  | [culture] => culture.map UInt16.ofNat
  | _ => text "neutral"

def readKey : List (List ℕ) → PublicKey
  | [token] => readToken token
  | _ => .zero

namespace RegexBranch

variable {b : RegexBranch}

theorem version_eq (h : b.search versionPattern [] = none) :
    b.getVersionFromAssemblyReferenceString s =
      (b.search versionPattern s).elim .zero b.readVersion := by
  cases s with
  | nil =>
    rw [h]
    rfl
  | cons c s =>
    rw [getVersionFromAssemblyReferenceString, if_neg (by simp)]
    cases b.search versionPattern (c :: s) <;> rfl

theorem locale_eq (h : b.search culturePattern [] = none) :
    b.getLocaleFromAssemblyReferenceString s =
      (b.search culturePattern s).elim (text "neutral") readLocale := by
  cases s with
  | nil =>
    rw [h]
    rfl
  | cons c s =>
    rw [getLocaleFromAssemblyReferenceString, if_neg (by simp)]
    cases b.search culturePattern (c :: s) with
    | none => rfl
    | some groups => rcases groups with - | ⟨culture, - | ⟨next, rest⟩⟩ <;> rfl

theorem publicKey_eq (h : b.search publicKeyPattern [] = none) :
    b.getPublicKeyFromAssemblyReferenceString s =
      (b.search publicKeyPattern s).elim .zero readKey := by
  cases s with
  | nil =>
    rw [h]
    rfl
  | cons c s =>
    rw [getPublicKeyFromAssemblyReferenceString, if_neg (by simp)]
    cases b.search publicKeyPattern (c :: s) with
    | none => rfl
    | some groups => rcases groups with - | ⟨token, - | ⟨next, rest⟩⟩ <;> rfl

end RegexBranch

theorem windows_version (s : Text) : windows.getVersionFromAssemblyReferenceString s =
    (found versionPattern s).elim .zero windows.readVersion := windows.version_eq rfl

theorem windows_locale (s : Text) : windows.getLocaleFromAssemblyReferenceString s =
    (found culturePattern s).elim (text "neutral") readLocale := windows.locale_eq rfl

theorem windows_publicKey (s : Text) : windows.getPublicKeyFromAssemblyReferenceString s =
    (found publicKeyPattern s).elim .zero readKey := windows.publicKey_eq rfl

variable {re2 : RE2}

theorem re2_found (h : ∀ item ∈ items, AcceptsInPatterns item) (s : Text) :
    re2.branch.search items s = found items (cString s) := re2_search (avoids_nonAscii h) s

theorem re2_version (s : Text) : re2.branch.getVersionFromAssemblyReferenceString s =
    (found versionPattern (cString s)).elim .zero re2.storeUShorts := by
  rw [re2.branch.version_eq, re2_found acceptsInPatterns_version]
  · rfl
  · exact re2_found acceptsInPatterns_version []

theorem re2_locale (s : Text) : re2.branch.getLocaleFromAssemblyReferenceString s =
    (found culturePattern (cString s)).elim (text "neutral") readLocale := by
  rw [re2.branch.locale_eq, re2_found acceptsInPatterns_culture]
  exact re2_found acceptsInPatterns_culture []

theorem re2_publicKey (s : Text) : re2.branch.getPublicKeyFromAssemblyReferenceString s =
    (found publicKeyPattern (cString s)).elim .zero readKey := by
  rw [re2.branch.publicKey_eq, re2_found acceptsInPatterns_publicKey]
  exact re2_found acceptsInPatterns_publicKey []

/-! ### Groups -/

theorem version_groups (h : GroupsOf versionPattern groups) :
    ∃ major minor build revision, groups = [major, minor, build, revision] := by
  obtain ⟨major, _, rfl, -, -, minor, _, rfl, -, -, build, _, rfl, -, -, revision, _, rfl, -, -,
    rfl⟩ := groupsOf_literal.1 h
  exact ⟨major, minor, build, revision, rfl⟩

theorem culture_groups (h : GroupsOf culturePattern groups) :
    ∃ culture, groups = [culture] ∧ culture ≠ [] ∧ ∀ c ∈ culture, alphanumeric c := by
  obtain ⟨culture, _, rfl, hne, hall, rfl⟩ := groupsOf_literal.1 h
  exact ⟨culture, rfl, hne, hall⟩

theorem publicKey_groups (h : GroupsOf publicKeyPattern groups) :
    ∃ token, groups = [token] ∧ token.length = 16 ∧ ∀ c ∈ token, hexadecimal c := by
  obtain ⟨token, _, rfl, hlength, hall, rfl⟩ := groupsOf_literal.1 h
  exact ⟨token, rfl, hlength, hall⟩

/-! ### Versions -/

theorem Version.numbers_inj {v w : Version} (h : v.numbers = w.numbers) : v = w := by
  obtain ⟨major, minor, build, revision⟩ := v
  obtain ⟨major', minor', build', revision'⟩ := w
  obtain ⟨rfl, rfl, rfl, rfl⟩ : major = major' ∧ minor = minor' ∧ build = build' ∧
    revision = revision' := by simpa [Version.numbers] using h
  rfl

def Fits (groups : List (List ℕ)) : Prop := ∀ digits ∈ groups, readNumber digits < 2 ^ 16

theorem windows_numbers (h : GroupsOf versionPattern groups) :
    (windows.readVersion groups).numbers = groups.map extractUShort := by
  obtain ⟨major, minor, build, revision, rfl⟩ := version_groups h
  rfl

theorem extractUShort_of_lt {digits : List ℕ} (h : readNumber digits < 2 ^ 16) :
    extractUShort digits = .ofNat (readNumber digits) := if_pos h

/-- The branches store the same numbers if these fit, the maximum and 0 if not. -/
theorem readVersion_eq_iff (h : GroupsOf versionPattern groups) :
    windows.readVersion groups = re2.storeUShorts groups ↔ Fits groups := by
  have hlength : groups.length = 4 := by
    obtain ⟨major, minor, build, revision, rfl⟩ := version_groups h
    rfl
  constructor
  · intro heq digits hdigits
    by_contra hge
    obtain ⟨i, hi⟩ := List.mem_iff_getElem?.1 hdigits
    have hzero := re2.store_overflow groups i digits hlength hi (Nat.le_of_not_lt hge)
    rw [← heq, windows_numbers h, List.getElem?_map, hi] at hzero
    have hmax : extractUShort digits = 0xFFFF := if_neg hge
    rw [Option.map_some, hmax] at hzero
    exact absurd (Option.some.inj hzero) (by decide)
  · intro hfits
    apply Version.numbers_inj
    rw [windows_numbers h, re2.store_fits groups hfits hlength]
    exact List.map_congr_left fun digits hdigits => extractUShort_of_lt (hfits digits hdigits)

theorem extractUShort_eq_zero {digits : List ℕ} :
    extractUShort digits = 0 ↔ readNumber digits = 0 := by
  by_cases hlt : readNumber digits < 2 ^ 16
  · rw [extractUShort_of_lt hlt, ← UInt16.toNat_inj, UInt16.toNat_ofNat_of_lt' hlt]
    rfl
  · have hmax : extractUShort digits = 0xFFFF := if_neg hlt
    rw [hmax]
    have hne : ¬ (0xFFFF : UInt16) = 0 := by decide
    exact iff_of_false hne (by omega)

theorem windows_eq_zero (h : GroupsOf versionPattern groups) :
    windows.readVersion groups = .zero ↔ ∀ digits ∈ groups, readNumber digits = 0 := by
  obtain ⟨major, minor, build, revision, rfl⟩ := version_groups h
  show Version.mk _ _ _ _ = Version.mk 0 0 0 0 ↔ _
  simp only [Version.mk.injEq, extractUShort_eq_zero, List.forall_mem_cons, List.not_mem_nil,
    false_imp_iff, implies_true, and_true]

/-- Both branches read the version from the groups. -/
theorem readVersion_both_iff (h : GroupsOf versionPattern groups) {v : Version} :
    windows.readVersion groups = v ∧ re2.storeUShorts groups = v ↔
      groups.map readNumber = v.numbers.map UInt16.toNat := by
  constructor
  · rintro ⟨hwindows, hre2⟩
    have hfits : Fits groups := (readVersion_eq_iff h).1 (hwindows.trans hre2.symm)
    rw [← hwindows, windows_numbers h, List.map_map]
    refine List.map_congr_left fun digits hdigits => ?_
    show _ = (extractUShort digits).toNat
    have hlt := hfits digits hdigits
    rw [extractUShort_of_lt hlt, UInt16.toNat_ofNat_of_lt' hlt]
  · intro hnumbers
    have hfits : Fits groups := by
      intro digits hdigits
      have hmem : readNumber digits ∈ v.numbers.map UInt16.toNat :=
        hnumbers ▸ List.mem_map_of_mem hdigits
      obtain ⟨n, -, hn⟩ := List.mem_map.1 hmem
      have hlt := n.toNat_lt
      omega
    have hwindows : windows.readVersion groups = v := by
      apply Version.numbers_inj
      have hof : v.numbers = (v.numbers.map UInt16.toNat).map UInt16.ofNat := by
        rw [List.map_map]
        exact (List.map_id'' (fun n => UInt16.ofNat_toNat) _).symm
      rw [windows_numbers h, hof, ← hnumbers, List.map_map]
      exact List.map_congr_left fun digits hdigits => extractUShort_of_lt (hfits digits hdigits)
    exact ⟨hwindows, ((readVersion_eq_iff h).2 hfits).symm.trans hwindows⟩

/-! ### Cultures and tokens -/

theorem codes_map_ofNat {culture : List ℕ} (h : ∀ c ∈ culture, alphanumeric c) :
    codes (culture.map UInt16.ofNat) = culture := by
  rw [codes, List.map_map]
  refine (List.map_congr_left fun c hc => ?_).trans (List.map_id culture)
  have hle := (inPatterns_of_alphanumeric (h c hc)).2
  exact UInt16.toNat_ofNat_of_lt' (lt_of_le_of_lt hle (by decide))

theorem codes_inj {s t : Text} : codes s = codes t ↔ s = t :=
  (List.map_injective_iff.2 fun _ _ => UInt16.toNat_inj.1).eq_iff

theorem readLocale_iff (h : GroupsOf culturePattern groups) {locale : Text} :
    readLocale groups = locale ↔ groups = [codes locale] := by
  obtain ⟨culture, rfl, -, hall⟩ := culture_groups h
  show culture.map UInt16.ofNat = locale ↔ _
  rw [List.singleton_inj, ← codes_inj, codes_map_ofNat hall]

theorem isCulture_readLocale (h : GroupsOf culturePattern groups) :
    IsCulture (readLocale groups) := by
  obtain ⟨culture, rfl, hne, hall⟩ := culture_groups h
  refine ⟨List.map_eq_nil_iff.not.2 hne, ?_⟩
  rw [readLocale, codes_map_ofNat hall]
  exact hall

theorem hexValue_lt {c : ℕ} (h : hexadecimal c) : hexValue c < 16 := by
  rw [hexadecimal_iff] at h
  unfold hexValue digit
  split
  · rename_i hdigit
    rw [Bool.and_eq_true, decide_eq_true_eq, decide_eq_true_eq] at hdigit
    omega
  · split <;> omega

theorem hexValue_eq_zero {c : ℕ} (h : hexadecimal c) : hexValue c = 0 ↔ c = code '0' := by
  have hcode : code '0' = 0x30 := by decide
  rw [hexadecimal_iff] at h
  unfold hexValue digit
  split
  · rename_i hdigit
    rw [Bool.and_eq_true, decide_eq_true_eq, decide_eq_true_eq] at hdigit
    omega
  · rename_i hdigit
    rw [Bool.and_eq_true, decide_eq_true_eq, decide_eq_true_eq] at hdigit
    split <;> omega

theorem tokenByte_eq {token : List ℕ} {i : ℕ} (h : 2 * i + 1 < token.length) :
    tokenByte token i = .ofNat (16 * hexValue token[2 * i] + hexValue token[2 * i + 1]) := by
  rw [tokenByte, List.drop_eq_getElem_cons (by omega), List.drop_eq_getElem_cons h]
  show UInt8.ofNat (16 * (16 * 0 + hexValue _) + hexValue _) = _
  rw [Nat.mul_zero, Nat.zero_add]

theorem tokenByte_eq_zero {token : List ℕ} {i : ℕ} (h : 2 * i + 1 < token.length)
    (hhex : ∀ c ∈ token, hexadecimal c) (hzero : tokenByte token i = 0) :
    token[2 * i] = code '0' ∧ token[2 * i + 1] = code '0' := by
  have hfirst := hhex _ (List.getElem_mem (show 2 * i < token.length by omega))
  have hsecond := hhex _ (List.getElem_mem h)
  have hlt := hexValue_lt hfirst
  have hlt' := hexValue_lt hsecond
  rw [tokenByte_eq h, ← UInt8.toNat_inj, UInt8.toNat_ofNat_of_lt' (by
    show _ < 256
    omega)] at hzero
  have hsum : 16 * hexValue token[2 * i] + hexValue token[2 * i + 1] = 0 := hzero
  exact ⟨(hexValue_eq_zero hfirst).1 (by omega), (hexValue_eq_zero hsecond).1 (by omega)⟩

/-- No token and sixteen zeros are the same. -/
theorem readKey_eq_zero (h : GroupsOf publicKeyPattern groups) :
    readKey groups = .zero ↔ groups = [List.replicate 16 (code '0')] := by
  constructor
  · obtain ⟨token, rfl, hlength, hhex⟩ := publicKey_groups h
    intro hkey
    have hbytes : ∀ i < 8, tokenByte token i = 0 := by
      intro i hi
      have hdata : (List.range 8).map (tokenByte token) = List.replicate 8 0 :=
        congrArg PublicKey.data hkey
      have hmem : tokenByte token i ∈ List.replicate 8 0 :=
        hdata ▸ List.mem_map_of_mem (List.mem_range.2 hi)
      exact List.eq_of_mem_replicate hmem
    rw [List.singleton_inj, List.eq_replicate_iff]
    refine ⟨hlength, fun c hc => ?_⟩
    obtain ⟨j, hj, rfl⟩ := List.getElem_of_mem hc
    obtain ⟨i, rfl | rfl⟩ : ∃ i, j = 2 * i ∨ j = 2 * i + 1 := ⟨j / 2, by omega⟩
    · exact (tokenByte_eq_zero (by omega) hhex (hbytes i (by omega))).1
    · exact (tokenByte_eq_zero hj hhex (hbytes i (by omega))).2
  · rintro rfl
    decide

/-! ## Round trips -/

/-- What the pattern finds in the name is the reference's own part. Behind a NUL RE2 finds
nothing, and the part is the default. -/
def Kept (items : List (Item ℕ)) (name : Text) (own : List (List ℕ) → Prop) (default : Prop) :
    Prop :=
  (∀ groups, found items name = some groups → own groups) ∧
    (0 ∈ name → found items (cString name) = none → default)

structure AssemblyReference.Readable (r : AssemblyReference) : Prop where
  no_comma : unit ',' ∉ r.name
  no_space : unit ' ' ∉ r.name
  culture : IsCulture r.locale
  version : Kept versionPattern r.name
    (fun groups => groups.map readNumber = r.version.numbers.map UInt16.toNat) (r.version = .zero)
  locale : Kept culturePattern r.name (· = [codes r.locale]) (r.locale = text "neutral")
  public_key : Kept publicKeyPattern r.name (fun groups => groups.map readToken = [r.public_key])
    (r.public_key = .zero)

variable {r : AssemblyReference}

theorem found_str (h : ∀ item ∈ items, AcceptsInPatterns item) (r : AssemblyReference) :
    found items r.str = (found items r.name).or (Item.search items r.tail) := by
  rw [found, codes_str, search_apart h (by decide)]
  rfl

theorem cString_of_notMem (h : 0 ∉ s) : cString s = s :=
  List.takeWhile_eq_self_iff.2 fun _ hc => decide_eq_true fun hzero => h (hzero ▸ hc)

theorem cString_cons {c : UInt16} (hc : c ≠ 0) (t : Text) : cString (c :: t) = c :: cString t := by
  rw [cString, List.takeWhile_cons, if_pos (decide_eq_true hc), cString]

theorem cString_append_of_mem (h : 0 ∈ s) (t : Text) : cString (s ++ t) = cString s := by
  induction s with
  | nil => cases h
  | cons c s ih =>
    by_cases hc : c = 0
    · rw [hc]
      rfl
    · have hs := (List.mem_cons.1 h).resolve_left (Ne.symm hc)
      rw [List.cons_append, cString_cons hc, cString_cons hc, ih hs]

/-- The text has a NUL if the name has one. -/
theorem cString_str (h : IsCulture r.locale) :
    cString r.str = if 0 ∈ r.name then cString r.name else r.str := by
  split
  · rename_i hname
    rw [AssemblyReference.str]
    simp only [List.append_assoc]
    exact cString_append_of_mem hname _
  · rename_i hname
    refine cString_of_notMem fun hstr => ?_
    have hcodes : (0 : UInt16).toNat ∈ codes r.str := List.mem_map_of_mem hstr
    rw [codes_str, List.mem_append, List.mem_cons] at hcodes
    rcases hcodes with hcodes | hcomma | htail
    · obtain ⟨c, hc, hzero⟩ := List.mem_map.1 hcodes
      exact hname (UInt16.toNat_inj.1 hzero ▸ hc)
    · exact absurd hcomma (by decide)
    · exact zero_notMem_tail h htail

/-- A part is read back if the name has no other in front of it. -/
theorem kept_iff {β : Type} {read read' : List (List ℕ) → β} {default own : β}
    {own_groups : List (List ℕ)} {OwnGroups : List (List ℕ) → Prop}
    (hitems : ∀ item ∈ items, AcceptsInPatterns item) (hlocale : IsCulture r.locale)
    (htail : Item.search items r.tail = some own_groups) (hown : OwnGroups own_groups)
    (hread : ∀ groups, GroupsOf items groups →
      (read groups = own ∧ read' groups = own ↔ OwnGroups groups))
    (hdefault : ∀ groups, GroupsOf items groups → read groups = default → read' groups = default) :
    (found items r.str).elim default read = own ∧
        (found items (cString r.str)).elim default read' = own ↔
      Kept items r.name OwnGroups (own = default) := by
  have htail_read := (hread _ (groupsOf_search htail)).2 hown
  have hnul : 0 ∈ r.name → found items (cString r.str) = found items (cString r.name) := by
    intro h0
    rw [cString_str hlocale, if_pos h0]
  have hno_nul : 0 ∉ r.name → found items (cString r.str) = found items r.str := by
    intro h0
    rw [cString_str hlocale, if_neg h0]
  have hstr : found items r.str = (found items r.name).or (some own_groups) := by
    rw [found_str hitems, htail]
  unfold Kept
  cases hname : found items r.name with
  | none =>
    have hcString : found items (cString r.name) = none := by
      by_contra hne
      obtain ⟨groups, hgroups⟩ := Option.ne_none_iff_exists'.1 hne
      rw [found_of_cString hitems hgroups] at hname
      cases hname
    rw [hname, Option.none_or] at hstr
    by_cases h0 : 0 ∈ r.name
    · rw [hnul h0, hstr, hcString]
      show _ ∧ default = own ↔ _
      exact ⟨fun h => ⟨nofun, fun _ _ => h.2.symm⟩, fun h => ⟨htail_read.1, (h.2 h0 rfl).symm⟩⟩
    · rw [hno_nul h0, hstr]
      exact iff_of_true htail_read ⟨nofun, fun h => absurd h h0⟩
  | some groups =>
    rw [hname, Option.some_or] at hstr
    have hgroups := hread groups (groupsOf_search hname)
    have hall : (∀ groups', some groups = some groups' → OwnGroups groups') ↔ OwnGroups groups :=
      ⟨fun h => h groups rfl, fun h groups' heq => Option.some.inj heq ▸ h⟩
    rw [hall, ← hgroups]
    by_cases h0 : 0 ∈ r.name
    · rw [hnul h0, hstr]
      cases hcString : found items (cString r.name) with
      | none =>
        show read groups = own ∧ default = own ↔ _
        constructor
        · rintro ⟨hown, rfl⟩
          exact ⟨⟨hown, hdefault groups (groupsOf_search hname) hown⟩, fun _ _ => rfl⟩
        · rintro ⟨⟨hown, -⟩, hdef⟩
          exact ⟨hown, (hdef h0 rfl).symm⟩
      | some groups' =>
        obtain rfl : groups' = groups := by
          rw [found_of_cString hitems hcString] at hname
          exact Option.some.inj hname
        exact ⟨fun h => ⟨h, nofun⟩, fun h => h.1⟩
    · rw [hno_nul h0, hstr]
      exact ⟨fun h => ⟨h, fun h' => absurd h' h0⟩, fun h => h.1⟩

/-! ### Names -/

theorem comma_notMem_getName (s : Text) : unit ',' ∉ getNameFromAssemblyReferenceString s := by
  have hcomma : unit ',' ∉ s.takeWhile (· ≠ unit ',') := by
    intro hmem
    have hne := List.mem_takeWhile_imp hmem
    exact of_decide_eq_true hne rfl
  unfold getNameFromAssemblyReferenceString
  intro hmem
  dsimp only at hmem
  split at hmem
  · rw [List.mem_reverse] at hmem
    have hdrop := List.dropWhile_sublist (fun c => decide (c ≠ unit ' '))
      |>.subset (List.mem_of_mem_tail hmem)
    exact hcomma (List.mem_reverse.1 hdrop)
  · exact hcomma hmem

theorem length_stripped_lt (h : unit ' ' ∈ s) :
    (s.reverse.dropWhile (· ≠ unit ' ')).tail.reverse.length < s.length := by
  have hle := (List.dropWhile_sublist (l := s.reverse) (· ≠ unit ' ')).length_le
  have hpos := List.length_pos_of_mem h
  rw [List.length_reverse] at hle
  rw [List.length_reverse, List.length_tail]
  omega

theorem getName_of_comma (hcomma : unit ',' ∉ s) (t : Text) :
    getNameFromAssemblyReferenceString (s ++ unit ',' :: t) =
      if unit ' ' ∈ s then (s.reverse.dropWhile (· ≠ unit ' ')).tail.reverse else s := by
  have htake : (s ++ unit ',' :: t).takeWhile (· ≠ unit ',') = s := by
    rw [List.takeWhile_append_of_pos, List.takeWhile_cons_of_neg, List.append_nil]
    · decide
    · exact fun c hc => decide_eq_true fun heq => hcomma (heq ▸ hc)
  rw [getNameFromAssemblyReferenceString, htake]

theorem getName_str : getNameFromAssemblyReferenceString r.str = r.name ↔
    unit ',' ∉ r.name ∧ unit ' ' ∉ r.name := by
  obtain ⟨t, ht⟩ : ∃ t, r.str = r.name ++ unit ',' :: t := by
    rw [AssemblyReference.str]
    simp only [List.append_assoc]
    exact ⟨_, rfl⟩
  constructor
  · intro hname
    have hcomma : unit ',' ∉ r.name := hname ▸ comma_notMem_getName r.str
    refine ⟨hcomma, fun hspace => ?_⟩
    have hlt := length_stripped_lt hspace
    rw [ht, getName_of_comma hcomma, if_pos hspace] at hname
    rw [hname] at hlt
    omega
  · rintro ⟨hcomma, hspace⟩
    rw [ht, getName_of_comma hcomma, if_neg hspace]

/-! ### References -/

theorem numbers_digits (v : Version) : v.digits.map readNumber = v.numbers.map UInt16.toNat := by
  rw [Version.digits, List.map_map]
  exact List.map_congr_left fun n _ => readNumber_decimal n

theorem version_kept (h : IsCulture r.locale) :
    windows.getVersionFromAssemblyReferenceString r.str = r.version ∧
        re2.branch.getVersionFromAssemblyReferenceString r.str = r.version ↔
      Kept versionPattern r.name
        (fun groups => groups.map readNumber = r.version.numbers.map UInt16.toNat)
        (r.version = .zero) := by
  rw [windows_version, re2_version]
  refine kept_iff acceptsInPatterns_version h (search_version_tail r) (numbers_digits r.version)
    (fun groups hgroups => readVersion_both_iff hgroups) fun groups hgroups hzero => ?_
  have hfits : Fits groups := by
    intro digits hdigits
    rw [(windows_eq_zero hgroups).1 hzero digits hdigits]
    decide
  exact ((readVersion_eq_iff hgroups).2 hfits).symm.trans hzero

theorem locale_kept (h : IsCulture r.locale) :
    windows.getLocaleFromAssemblyReferenceString r.str = r.locale ∧
        re2.branch.getLocaleFromAssemblyReferenceString r.str = r.locale ↔
      Kept culturePattern r.name (· = [codes r.locale]) (r.locale = text "neutral") := by
  rw [windows_locale, re2_locale]
  exact kept_iff acceptsInPatterns_culture h (search_culture_tail h) rfl
    (fun groups hgroups => and_self_iff.trans (readLocale_iff hgroups)) fun _ _ hdefault => hdefault

theorem publicKey_kept (h : IsCulture r.locale) :
    windows.getPublicKeyFromAssemblyReferenceString r.str = r.public_key ∧
        re2.branch.getPublicKeyFromAssemblyReferenceString r.str = r.public_key ↔
      Kept publicKeyPattern r.name (fun groups => groups.map readToken = [r.public_key])
        (r.public_key = .zero) := by
  rw [windows_publicKey, re2_publicKey]
  refine kept_iff acceptsInPatterns_publicKey h (search_publicKey_tail h) ?_
    (fun groups hgroups => ?_) fun _ _ hdefault => hdefault
  · rw [List.map_singleton, readToken_str]
  · obtain ⟨token, rfl, -, -⟩ := publicKey_groups hgroups
    rw [and_self_iff, List.map_singleton, List.singleton_inj]
    rfl

/-- What is read as a culture is one. -/
theorem isCulture_windows (s : Text) :
    IsCulture (windows.getLocaleFromAssemblyReferenceString s) := by
  rw [windows_locale]
  cases hfound : found culturePattern s with
  | none => exact ⟨by decide, by decide⟩
  | some groups => exact isCulture_readLocale (groupsOf_search hfound)

/-- Both branches read the reference back from its text. -/
theorem readable_iff (r : AssemblyReference) :
    (∀ b ∈ [windows, re2.branch], b.assemblyReference r.str = r) ↔ r.Readable := by
  have hparts : ∀ b : RegexBranch, b.assemblyReference r.str = r ↔
      getNameFromAssemblyReferenceString r.str = r.name ∧
      b.getVersionFromAssemblyReferenceString r.str = r.version ∧
      b.getLocaleFromAssemblyReferenceString r.str = r.locale ∧
      b.getPublicKeyFromAssemblyReferenceString r.str = r.public_key :=
    fun b => AssemblyReference.mk.injEq .. ▸ Iff.rfl
  rw [List.forall_mem_cons, List.forall_mem_singleton, hparts, hparts, getName_str]
  constructor
  · rintro ⟨⟨⟨hcomma, hspace⟩, hversion, hlocale, hkey⟩, -, hversion', hlocale', hkey'⟩
    have hculture : IsCulture r.locale := hlocale ▸ isCulture_windows r.str
    exact ⟨hcomma, hspace, hculture, (version_kept hculture).1 ⟨hversion, hversion'⟩,
      (locale_kept hculture).1 ⟨hlocale, hlocale'⟩, (publicKey_kept hculture).1 ⟨hkey, hkey'⟩⟩
  · rintro ⟨hcomma, hspace, hculture, hversion, hlocale, hkey⟩
    obtain ⟨hversion, hversion'⟩ := (@version_kept re2 r hculture).2 hversion
    obtain ⟨hlocale, hlocale'⟩ := (@locale_kept re2 r hculture).2 hlocale
    obtain ⟨hkey, hkey'⟩ := (@publicKey_kept re2 r hculture).2 hkey
    have hname := And.intro hcomma hspace
    exact ⟨⟨hname, hversion, hlocale, hkey⟩, hname, hversion', hlocale', hkey'⟩

/-! ## The two branches -/

/-- What is found behind the first NUL only is the default. -/
def NothingBehind (items : List (Item ℕ)) (s : Text) (default : List (List ℕ) → Prop) : Prop :=
  found items (cString s) = none → ∀ groups, found items s = some groups → default groups

structure ReadAlike (s : Text) : Prop where
  fits : ∀ groups, found versionPattern (cString s) = some groups → Fits groups
  version : NothingBehind versionPattern s fun groups => ∀ digits ∈ groups, readNumber digits = 0
  locale : NothingBehind culturePattern s (· = [codes (text "neutral")])
  public_key : NothingBehind publicKeyPattern s (· = [List.replicate 16 (code '0')])

/-- The two branches extract the same from a text. -/
def Agree (b c : RegexBranch) (s : Text) : Prop :=
  b.getVersionFromAssemblyReferenceString s = c.getVersionFromAssemblyReferenceString s ∧
  b.getLocaleFromAssemblyReferenceString s = c.getLocaleFromAssemblyReferenceString s ∧
  b.getPublicKeyFromAssemblyReferenceString s = c.getPublicKeyFromAssemblyReferenceString s

theorem alike_iff {β : Type} {read read' : List (List ℕ) → β} {default : β}
    {Default : List (List ℕ) → Prop} (hitems : ∀ item ∈ items, AcceptsInPatterns item)
    (hdefault : ∀ groups, GroupsOf items groups → (read groups = default ↔ Default groups)) :
    (found items s).elim default read = (found items (cString s)).elim default read' ↔
      (∀ groups, found items (cString s) = some groups → read groups = read' groups) ∧
      NothingBehind items s Default := by
  unfold NothingBehind
  cases hcString : found items (cString s) with
  | some groups =>
    rw [found_of_cString hitems hcString]
    show read groups = read' groups ↔ _
    exact ⟨fun h => ⟨fun groups' heq => Option.some.inj heq ▸ h, nofun⟩, fun h => h.1 groups rfl⟩
  | none =>
    cases hfound : found items s with
    | none => exact iff_of_true rfl ⟨nofun, fun _ => nofun⟩
    | some groups =>
      show read groups = default ↔ _
      rw [hdefault groups (groupsOf_search hfound)]
      exact ⟨fun h => ⟨nofun, fun _ groups' heq => Option.some.inj heq ▸ h⟩,
        fun h => h.2 rfl groups rfl⟩

theorem agree_iff (s : Text) : Agree windows re2.branch s ↔ ReadAlike s := by
  have hversion : windows.getVersionFromAssemblyReferenceString s =
      re2.branch.getVersionFromAssemblyReferenceString s ↔
        (∀ groups, found versionPattern (cString s) = some groups → Fits groups) ∧
        NothingBehind versionPattern s fun groups => ∀ digits ∈ groups, readNumber digits = 0 := by
    rw [windows_version, re2_version, alike_iff acceptsInPatterns_version
      fun groups hgroups => windows_eq_zero hgroups]
    refine and_congr_left' (forall_congr' fun groups => forall_congr' fun hfound => ?_)
    exact readVersion_eq_iff (groupsOf_search hfound)
  have hlocale : windows.getLocaleFromAssemblyReferenceString s =
      re2.branch.getLocaleFromAssemblyReferenceString s ↔
        NothingBehind culturePattern s (· = [codes (text "neutral")]) := by
    rw [windows_locale, re2_locale, alike_iff acceptsInPatterns_culture
      fun groups hgroups => readLocale_iff hgroups]
    exact and_iff_right fun _ _ => rfl
  have hkey : windows.getPublicKeyFromAssemblyReferenceString s =
      re2.branch.getPublicKeyFromAssemblyReferenceString s ↔
        NothingBehind publicKeyPattern s (· = [List.replicate 16 (code '0')]) := by
    rw [windows_publicKey, re2_publicKey, alike_iff acceptsInPatterns_publicKey
      fun groups hgroups => readKey_eq_zero hgroups]
    exact and_iff_right fun _ _ => rfl
  rw [Agree, hversion, hlocale, hkey]
  constructor
  · rintro ⟨⟨hfits, hversion⟩, hlocale, hkey⟩
    exact ⟨hfits, hversion, hlocale, hkey⟩
  · rintro ⟨hfits, hversion, hlocale, hkey⟩
    exact ⟨⟨hfits, hversion⟩, hlocale, hkey⟩

/-- Which references are read back, and which texts the branches read alike. -/
theorem assemblyReferences_iff (re2 : RE2) :
    (∀ r : AssemblyReference, (∀ b ∈ [windows, re2.branch], b.assemblyReference r.str = r) ↔
      r.Readable) ∧ ∀ s, Agree windows re2.branch s ↔ ReadAlike s :=
  ⟨readable_iff, agree_iff⟩

/-! ### Where they differ -/

/-- The numbers are stored one after another, up to the first that does not fit. -/
def storeInOrder (groups : List (List ℕ)) : Version :=
  let numbers := (groups.map readNumber).takeWhile (· < 2 ^ 16)
  let stored (i : ℕ) : UInt16 := .ofNat (numbers.getD i 0)
  ⟨stored 0, stored 1, stored 2, stored 3⟩

theorem takeWhile_getD_of_ge {numbers : List ℕ} {i n : ℕ} (hi : numbers[i]? = some n)
    (hn : 2 ^ 16 ≤ n) : (numbers.takeWhile (· < 2 ^ 16)).getD i 0 = 0 := by
  induction numbers generalizing i with
  | nil => rfl
  | cons m numbers ih =>
    rw [List.takeWhile_cons]
    split
    · rename_i hm
      cases i with
      | zero =>
        obtain rfl := Option.some.inj hi
        exact absurd (of_decide_eq_true hm) (by omega)
      | succ i => exact ih hi
    · rfl

def inOrder : RE2 where
  partialMatch items bytes := Item.search items (bytes.map UInt8.toNat)
  partialMatch_eq _ _ := rfl
  storeUShorts := storeInOrder
  store_fits groups hfits hlength := by
    have htake : (groups.map readNumber).takeWhile (· < 2 ^ 16) = groups.map readNumber := by
      rw [List.takeWhile_eq_self_iff]
      intro n hn
      obtain ⟨digits, hdigits, rfl⟩ := List.mem_map.1 hn
      exact decide_eq_true (hfits digits hdigits)
    obtain ⟨major, minor, build, revision, rfl⟩ : ∃ major minor build revision,
        groups = [major, minor, build, revision] := by
      match groups, hlength with
      | [major, minor, build, revision], _ => exact ⟨major, minor, build, revision, rfl⟩
    rw [storeInOrder, htake]
    rfl
  store_overflow groups i digits hlength hi hge := by
    have hnumber : (groups.map readNumber)[i]? = some (readNumber digits) := by
      rw [List.getElem?_map, hi, Option.map_some]
    have hzero := takeWhile_getD_of_ge hnumber hge
    have hlt : i < 4 := hlength ▸ (List.getElem?_eq_some_iff.1 hi).1
    have hstored : (storeInOrder groups).numbers[i]? =
        some (.ofNat (((groups.map readNumber).takeWhile (· < 2 ^ 16)).getD i 0)) := by
      obtain rfl | rfl | rfl | rfl : i = 0 ∨ i = 1 ∨ i = 2 ∨ i = 3 := by omega
      all_goals rfl
    rw [hstored, hzero]
    rfl

def english : AssemblyReference := ⟨text "A", ⟨1, 0, 0, 0⟩, text "en-US", .zero⟩

/-- The culture `en-US` is read as `en`, and a number that does not fit becomes 65535 or 0. -/
theorem assemblyReferences_differ :
    english.str = text "A, Version=1.0.0.0, Culture=en-US, PublicKeyToken=0000000000000000" ∧
    (windows.assemblyReference english.str).locale = text "en" ∧
    (inOrder.branch.assemblyReference english.str).locale = text "en" ∧
    windows.assemblyReference english.str ≠ english ∧
    windows.getVersionFromAssemblyReferenceString (text "A, Version=1.2.99999.4") =
      ⟨1, 2, 65535, 4⟩ ∧
    inOrder.branch.getVersionFromAssemblyReferenceString (text "A, Version=1.2.99999.4") =
      ⟨1, 2, 0, 0⟩ ∧
    ¬ ((∀ r : AssemblyReference, windows.assemblyReference r.str = r) ∧
      ∀ s, Agree windows inOrder.branch s) := by
  have hlocale : windows.assemblyReference english.str ≠ english := by decide +kernel
  exact ⟨by decide +kernel, by decide +kernel, by decide +kernel, hlocale, by decide +kernel,
    by decide +kernel, fun h => hlocale (h.1 english)⟩

end DdTrace.Native
