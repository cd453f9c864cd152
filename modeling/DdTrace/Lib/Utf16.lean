import DdTrace.Lib.Utf8

/-!
# Well-formed UTF-16

`utf16` are the code units of characters. They are read back as these characters, and a list of
code units is that of the characters it is read as if each surrogate is one of a pair.
-/

namespace DdTrace.Lib

def utf16EncodeChar (c : Char) : List UInt16 :=
  if c.toNat < 0x10000 then [.ofNat c.toNat]
  else [.ofNat (0xD800 + (c.toNat - 0x10000) / 0x400),
    .ofNat (0xDC00 + (c.toNat - 0x10000) % 0x400)]

def utf16 (cs : List Char) : List UInt16 := cs.flatMap utf16EncodeChar

/-- Each surrogate is one of a pair. -/
def isWellFormedUtf16 : List UInt16 → Bool
  | [] => true
  | [u] => !(isHighSurrogate u || isLowSurrogate u)
  | u :: v :: us =>
    if isHighSurrogate u && isLowSurrogate v then isWellFormedUtf16 us
    else !(isHighSurrogate u || isLowSurrogate u) && isWellFormedUtf16 (v :: us)

example : utf16 (decodeUtf16 [0xD83D, 0xDE00, 0x61]) = [0xD83D, 0xDE00, 0x61] := by decide
example : isWellFormedUtf16 [0xD83D, 0x61] = false := by decide

variable {u v : UInt16} {s : List UInt16} {c : Char} {cs : List Char}

theorem isHighSurrogate_iff : isHighSurrogate u = true ↔ 0xD800 ≤ u.toNat ∧ u.toNat ≤ 0xDBFF := by
  rw [isHighSurrogate, Bool.and_eq_true, decide_eq_true_eq, decide_eq_true_eq,
    UInt16.le_iff_toNat_le, UInt16.le_iff_toNat_le]
  rfl

theorem isLowSurrogate_iff : isLowSurrogate u = true ↔ 0xDC00 ≤ u.toNat ∧ u.toNat ≤ 0xDFFF := by
  rw [isLowSurrogate, Bool.and_eq_true, decide_eq_true_eq, decide_eq_true_eq,
    UInt16.le_iff_toNat_le, UInt16.le_iff_toNat_le]
  rfl

/-! ### From code units and back -/

theorem utf16EncodeChar_unitChar (hu : (isHighSurrogate u || isLowSurrogate u) = false) :
    utf16EncodeChar (unitChar u) = [u] := by
  have hlt := u.toNat_lt
  have hvalid : u.toNat.isValidChar := by
    rw [Bool.eq_false_iff, Ne, surrogate_iff] at hu
    show u.toNat < 0xD800 ∨ 0xDFFF < u.toNat ∧ u.toNat < 0x110000
    omega
  have hchar : (unitChar u).toNat = u.toNat := by
    rw [unitChar, if_neg (by rw [hu]; exact Bool.false_ne_true)]
    exact toNat_ofNat hvalid
  rw [utf16EncodeChar, if_pos (by rw [hchar]; exact hlt), hchar, UInt16.ofNat_toNat]

theorem toNat_pairChar (h : (isHighSurrogate u && isLowSurrogate v) = true) :
    (pairChar u v).toNat = 0x10000 + (u.toNat - 0xD800) * 0x400 + (v.toNat - 0xDC00) := by
  rw [Bool.and_eq_true, isHighSurrogate_iff, isLowSurrogate_iff] at h
  apply toNat_ofNat
  show _ ∨ 0xDFFF < _ ∧ _ < 0x110000
  omega

theorem utf16EncodeChar_pairChar (h : (isHighSurrogate u && isLowSurrogate v) = true) :
    utf16EncodeChar (pairChar u v) = [u, v] := by
  have hchar := toNat_pairChar h
  rw [Bool.and_eq_true, isHighSurrogate_iff, isLowSurrogate_iff] at h
  have hhigh : 0xD800 + ((pairChar u v).toNat - 0x10000) / 0x400 = u.toNat := by omega
  have hlow : 0xDC00 + ((pairChar u v).toNat - 0x10000) % 0x400 = v.toNat := by omega
  rw [utf16EncodeChar, if_neg (by omega), hhigh, hlow, UInt16.ofNat_toNat, UInt16.ofNat_toNat]

theorem utf16_decodeUtf16 (hs : isWellFormedUtf16 s = true) : utf16 (decodeUtf16 s) = s := by
  induction s using decodeUtf16.induct with
  | case1 => rfl
  | case2 u =>
    rw [isWellFormedUtf16, Bool.not_eq_true'] at hs
    rw [decodeUtf16, utf16, List.flatMap_singleton, utf16EncodeChar_unitChar hs]
  | case3 u v us h ih =>
    rw [isWellFormedUtf16, if_pos h] at hs
    rw [decodeUtf16, if_pos h, utf16, List.flatMap_cons, utf16EncodeChar_pairChar h, ← utf16, ih hs]
    rfl
  | case4 u v us h ih =>
    rw [isWellFormedUtf16, if_neg h, Bool.and_eq_true, Bool.not_eq_true'] at hs
    rw [decodeUtf16, if_neg h, utf16, List.flatMap_cons, utf16EncodeChar_unitChar hs.1, ← utf16,
      ih hs.2]
    rfl

theorem isWellFormedUtf16_of_ascii (hs : ∀ u ∈ s, u < 0x80) : isWellFormedUtf16 s = true := by
  have hunit : ∀ u ∈ s, (isHighSurrogate u || isLowSurrogate u) = false := by
    intro u hu
    have hlt : u.toNat < 0x80 := UInt16.lt_iff_toNat_lt.1 (hs u hu)
    rw [Bool.eq_false_iff, Ne, surrogate_iff]
    omega
  clear hs
  induction s using isWellFormedUtf16.induct with
  | case1 => rfl
  | case2 u => rw [isWellFormedUtf16, hunit u List.mem_cons_self, Bool.not_false]
  | case3 u v us h _ =>
    have hu := hunit u List.mem_cons_self
    rw [Bool.or_eq_false_iff] at hu
    rw [hu.1, Bool.false_and] at h
    cases h
  | case4 u v us h ih =>
    rw [isWellFormedUtf16, if_neg h, hunit u List.mem_cons_self, Bool.not_false, Bool.true_and]
    exact ih fun w hw => hunit w (List.mem_cons_of_mem u hw)

/-! ### From characters and back -/

theorem decodeUtf16_cons (hu : (isHighSurrogate u || isLowSurrogate u) = false) :
    decodeUtf16 (u :: s) = unitChar u :: decodeUtf16 s := by
  cases s with
  | nil => rfl
  | cons v us =>
    rw [Bool.or_eq_false_iff] at hu
    rw [decodeUtf16, hu.1, Bool.false_and, if_neg Bool.false_ne_true]

theorem isWellFormedUtf16_cons (hu : (isHighSurrogate u || isLowSurrogate u) = false) :
    isWellFormedUtf16 (u :: s) = isWellFormedUtf16 s := by
  cases s with
  | nil => rw [isWellFormedUtf16, isWellFormedUtf16, hu, Bool.not_false]
  | cons v us =>
    have hhigh := (Bool.or_eq_false_iff.1 hu).1
    rw [isWellFormedUtf16, hu, hhigh, Bool.false_and, if_neg Bool.false_ne_true, Bool.not_false,
      Bool.true_and]

/-- A character is one code unit or a pair of surrogates. -/
theorem utf16EncodeChar_cases (c : Char) :
    (∃ u, utf16EncodeChar c = [u] ∧ (isHighSurrogate u || isLowSurrogate u) = false ∧
      unitChar u = c) ∨
    ∃ u v, utf16EncodeChar c = [u, v] ∧ (isHighSurrogate u && isLowSurrogate v) = true ∧
      pairChar u v = c := by
  have hvalid : c.toNat < 0xD800 ∨ 0xDFFF < c.toNat ∧ c.toNat < 0x110000 := c.valid
  rw [utf16EncodeChar]
  split
  · rename_i hlt
    have hunit : (UInt16.ofNat c.toNat).toNat = c.toNat := UInt16.toNat_ofNat_of_lt' hlt
    have hsurrogate : (isHighSurrogate (.ofNat c.toNat) || isLowSurrogate (.ofNat c.toNat))
        = false := by
      rw [Bool.eq_false_iff, Ne, surrogate_iff, hunit]
      omega
    refine .inl ⟨_, rfl, hsurrogate, ?_⟩
    rw [unitChar, hsurrogate, if_neg Bool.false_ne_true, hunit, Char.ofNat_toNat]
  · rename_i hge
    have hhigh : (UInt16.ofNat (0xD800 + (c.toNat - 0x10000) / 0x400)).toNat
        = 0xD800 + (c.toNat - 0x10000) / 0x400 := by
      apply UInt16.toNat_ofNat_of_lt'
      show _ < 0x10000
      omega
    have hlow : (UInt16.ofNat (0xDC00 + (c.toNat - 0x10000) % 0x400)).toNat
        = 0xDC00 + (c.toNat - 0x10000) % 0x400 := by
      apply UInt16.toNat_ofNat_of_lt'
      show _ < 0x10000
      omega
    have hpair : (isHighSurrogate (.ofNat (0xD800 + (c.toNat - 0x10000) / 0x400)) &&
        isLowSurrogate (.ofNat (0xDC00 + (c.toNat - 0x10000) % 0x400))) = true := by
      rw [Bool.and_eq_true, isHighSurrogate_iff, isLowSurrogate_iff, hhigh, hlow]
      omega
    refine .inr ⟨_, _, rfl, hpair, ?_⟩
    apply Char.toNat_inj.1
    rw [toNat_pairChar hpair, hhigh, hlow]
    omega

theorem decodeUtf16_encode (c : Char) (s : List UInt16) :
    decodeUtf16 (utf16EncodeChar c ++ s) = c :: decodeUtf16 s := by
  rcases utf16EncodeChar_cases c with ⟨u, hencode, hu, hchar⟩ | ⟨u, v, hencode, hpair, hchar⟩
  · rw [hencode, List.singleton_append, decodeUtf16_cons hu, hchar]
  · rw [hencode, List.cons_append, List.singleton_append, decodeUtf16, if_pos hpair, hchar]

theorem isWellFormedUtf16_encode (c : Char) (s : List UInt16) :
    isWellFormedUtf16 (utf16EncodeChar c ++ s) = isWellFormedUtf16 s := by
  rcases utf16EncodeChar_cases c with ⟨u, hencode, hu, -⟩ | ⟨u, v, hencode, hpair, -⟩
  · rw [hencode, List.singleton_append, isWellFormedUtf16_cons hu]
  · rw [hencode, List.cons_append, List.singleton_append, isWellFormedUtf16, if_pos hpair]

theorem isWellFormedUtf16_utf16 (cs : List Char) : isWellFormedUtf16 (utf16 cs) = true := by
  induction cs with
  | nil => rfl
  | cons c cs ih => rw [utf16, List.flatMap_cons, isWellFormedUtf16_encode, ← utf16, ih]

theorem decodeUtf16_utf16 (cs : List Char) : decodeUtf16 (utf16 cs) = cs := by
  induction cs with
  | nil => rfl
  | cons c cs ih => rw [utf16, List.flatMap_cons, decodeUtf16_encode, ← utf16, ih]

theorem utf8_utf16 (cs : List Char) : utf8 (utf16 cs) = cs.flatMap String.utf8EncodeChar := by
  rw [utf8, decodeUtf16_utf16]

/-! ### Strings with the same bytes -/

/-- The bytes and the code units are those of the same characters. -/
def Spells (bytes : List UInt8) (s : List UInt16) : Prop :=
  ∃ cs, bytes = cs.flatMap String.utf8EncodeChar ∧ s = utf16 cs

theorem spells_utf8 : Spells (utf8 s) s ↔ isWellFormedUtf16 s = true := by
  constructor
  · rintro ⟨cs, -, rfl⟩
    exact isWellFormedUtf16_utf16 cs
  · intro hs
    exact ⟨decodeUtf16 s, rfl, (utf16_decodeUtf16 hs).symm⟩

theorem decodeUtf16_eq_of_utf8_eq {t : List UInt16} (h : utf8 s = utf8 t) :
    decodeUtf16 s = decodeUtf16 t := by
  have hencode : (decodeUtf16 s).utf8Encode = (decodeUtf16 t).utf8Encode :=
    congrArg List.toByteArray h
  have hdecode : (decodeUtf16 s).utf8Encode.utf8Decode? = some (decodeUtf16 s).toArray :=
    List.utf8Decode?_utf8Encode
  rw [hencode, List.utf8Decode?_utf8Encode, Option.some.injEq] at hdecode
  exact (List.toArray_inj hdecode).symm

theorem forall_utf8Size_iff :
    (∀ c ∈ decodeUtf16 s, c.utf8Size = 1) ↔ ∀ u ∈ s, u < 0x80 := by
  induction s using decodeUtf16.induct with
  | case1 => simp [decodeUtf16]
  | case2 u => simp [decodeUtf16, utf8Size_unitChar]
  | case3 u v us h ih =>
    have hhigh : ¬u < 0x80 := by
      rw [Bool.and_eq_true, isHighSurrogate_iff] at h
      have hu : u < 0x80 → u.toNat < 0x80 := UInt16.lt_iff_toNat_lt.1
      exact fun hlt => absurd (hu hlt) (by omega)
    rw [decodeUtf16, if_pos h, List.forall_mem_cons, List.forall_mem_cons, utf8Size_pairChar h]
    simp [hhigh]
  | case4 u v us h ih =>
    rw [decodeUtf16, if_neg h, List.forall_mem_cons, List.forall_mem_cons, utf8Size_unitChar, ih]

/-- No other string has the bytes of a string of ASCII. -/
theorem utf8_eq_iff_of_ascii {t : List UInt16} (ht : ∀ u ∈ t, u < 0x80) :
    utf8 s = utf8 t ↔ s = t := by
  refine ⟨fun h => ?_, congrArg utf8⟩
  have hdecode := decodeUtf16_eq_of_utf8_eq h
  have hs : ∀ u ∈ s, u < 0x80 := by
    rw [← forall_utf8Size_iff, hdecode]
    exact forall_utf8Size_iff.2 ht
  rw [← utf16_decodeUtf16 (isWellFormedUtf16_of_ascii hs), hdecode,
    utf16_decodeUtf16 (isWellFormedUtf16_of_ascii ht)]

theorem utf8_ne_nil (hs : s ≠ []) : utf8 s ≠ [] := by
  intro hnil
  have hlen := (length_utf8 s).1
  rw [hnil] at hlen
  exact hs (List.length_eq_zero_iff.1 (Nat.le_zero.1 hlen))

end DdTrace.Lib
