import DdTrace.Lib.Compressed
import DdTrace.Signature.Parser

/-!
# What the parser accepts

`Number`, `TypeBytes` and their like are the bytes that the functions of the parser
consume: a function succeeds between two addresses exactly when the bytes between them are
of its kind.
-/

namespace DdTrace.Signature

open Lib Lib.Reader

variable {pbEnd cur cur' fuel n k i : ℕ} {mem : ℕ → UInt8} {b : UInt8} {bytes : List UInt8}
  {u : Unit}

/-! ## Numbers -/

@[simp] theorem ok_parseByte :
    Ok (parseByte pbEnd) mem cur b cur' ↔ cur < pbEnd ∧ mem cur = b ∧ cur + 1 = cur' := by
  simp only [parseByte, ok_bind, ok_cursor]
  constructor
  · rintro ⟨_, _, ⟨rfl, rfl⟩, h⟩
    split at h
    · simp only [ok_bind, ok_deref, ok_skip, ok_pure] at h
      obtain ⟨_, _, ⟨rfl, rfl⟩, _, _, rfl, rfl, rfl⟩ := h
      exact ⟨‹_›, rfl, rfl⟩
    · exact absurd h ok_fail
  · rintro ⟨hlt, rfl, rfl⟩
    refine ⟨_, _, ⟨rfl, rfl⟩, ?_⟩
    rw [if_pos hlt]
    simp

/-- The bytes are one compressed integer, `n`. -/
def Number (bytes : List UInt8) (n : ℕ) : Prop := uncompress bytes = some (n, [])

theorem number_of_compress (h : compress n = some bytes) : Number bytes n := by
  have := @uncompress_compress n bytes [] h
  rwa [List.append_nil] at this

theorem Number.ne_nil (h : Number bytes n) : bytes ≠ [] := by
  rintro rfl
  cases h

theorem lt_of_number (h : Number (seg mem cur cur') n) : cur < cur' := by
  have hpos := List.length_pos_iff.2 h.ne_nil
  rw [length_seg] at hpos
  omega

theorem forall_byte {P : UInt8 → Prop} (h : ∀ k : Fin 256, P ⟨BitVec.ofFin k⟩) (b : UInt8) : P b :=
  h b.toBitVec.toFin

/-- The masks of the compressed numbers, on every byte. -/
theorem and_masks : ∀ b : UInt8, (b &&& 0x80 = 0 ↔ b < 0x80) ∧
    (¬ b < 0x80 → (b &&& 0xC0 = 0x80 ↔ b < 0xC0) ∧ (b &&& 0x40 = 0 ↔ b < 0xC0) ∧
      (b < 0xC0 → (b &&& 0x3F).toNat + 0x80 = b.toNat)) ∧
    (¬ b < 0xC0 → (b &&& 0xE0 = 0xC0 ↔ b < 0xE0) ∧ (b &&& 0x20 ≠ 0 ↔ ¬ b < 0xE0) ∧
      (b < 0xE0 → (b &&& 0x1F).toNat + 0xC0 = b.toNat)) :=
  forall_byte (by decide +kernel)

theorem and_0x80 (b : UInt8) : b &&& 0x80 = 0 ↔ b < 0x80 := (and_masks b).1

theorem and_0xC0 (b : UInt8) (h : ¬ b < 0x80) : b &&& 0xC0 = 0x80 ↔ b < 0xC0 :=
  ((and_masks b).2.1 h).1

theorem and_0xE0 (b : UInt8) (h : ¬ b < 0xC0) : b &&& 0xE0 = 0xC0 ↔ b < 0xE0 :=
  ((and_masks b).2.2 h).1

theorem and_0x40 (b : UInt8) (h : ¬ b < 0x80) : b &&& 0x40 = 0 ↔ b < 0xC0 :=
  ((and_masks b).2.1 h).2.1

theorem and_0x20 (b : UInt8) (h : ¬ b < 0xC0) : b &&& 0x20 ≠ 0 ↔ ¬ b < 0xE0 :=
  ((and_masks b).2.2 h).2.1

theorem and_0x3F (b : UInt8) (h : ¬ b < 0x80) (h' : b < 0xC0) :
    (b &&& 0x3F).toNat + 0x80 = b.toNat :=
  ((and_masks b).2.1 h).2.2 h'

theorem and_0x1F (b : UInt8) (h : ¬ b < 0xC0) (h' : b < 0xE0) :
    (b &&& 0x1F).toNat + 0xC0 = b.toNat :=
  ((and_masks b).2.2 h).2.2 h'

theorem shiftLeft_or {a b : ℕ} (h : b < 2 ^ k) : a <<< k ||| b = a * 2 ^ k + b := by
  rw [← Nat.shiftLeft_add_eq_or_of_lt h, Nat.shiftLeft_eq]

theorem value_two {b1 b2 : UInt8} (h1 : ¬ b1 < 0x80) (h2 : b1 < 0xC0) :
    (b1 &&& 0x3F).toNat <<< 8 ||| b2.toNat = ofBigEndian [b1, b2] - 2 ^ 15 := by
  have hb2 := b2.toNat_lt
  have hb1 := and_0x3F b1 h1 h2
  rw [ofBigEndian_pair, shiftLeft_or (by omega)]
  omega

theorem value_four {b1 b2 b3 b4 : UInt8} (h1 : ¬ b1 < 0xC0) (h2 : b1 < 0xE0) :
    (b1 &&& 0x1F).toNat <<< 24 ||| b2.toNat <<< 16 ||| b3.toNat <<< 8 ||| b4.toNat =
      ofBigEndian [b1, b2, b3, b4] - (2 ^ 31 + 2 ^ 30) := by
  have hb2 := b2.toNat_lt
  have hb3 := b3.toNat_lt
  have hb4 := b4.toNat_lt
  have hb1 := and_0x1F b1 h1 h2
  have h34 : b3.toNat <<< 8 ||| b4.toNat = b3.toNat * 2 ^ 8 + b4.toNat := shiftLeft_or (by omega)
  have h24 : b2.toNat <<< 16 ||| (b3.toNat * 2 ^ 8 + b4.toNat) =
      b2.toNat * 2 ^ 16 + (b3.toNat * 2 ^ 8 + b4.toNat) := shiftLeft_or (by omega)
  rw [ofBigEndian_four, Nat.or_assoc, Nat.or_assoc, h34, h24, shiftLeft_or (by omega)]
  omega

/-- `ParseNumber` in terms of the byte it starts with. -/
theorem parseNumber_eq : parseNumber pbEnd = (do
    let b1 ← parseByte pbEnd
    if b1 < 0x80 then return b1.toNat
    else if b1 < 0xC0 then do
      let b2 ← parseByte pbEnd
      return ofBigEndian [b1, b2] - 2 ^ 15
    else if b1 = 0xFF then fail
    else do
      let b2 ← parseByte pbEnd
      if b1 < 0xE0 then do
        let b3 ← parseByte pbEnd
        let b4 ← parseByte pbEnd
        return ofBigEndian [b1, b2, b3, b4] - (2 ^ 31 + 2 ^ 30)
      else fail) := by
  unfold parseNumber
  congr 1
  funext b1
  by_cases h80 : b1 < 0x80
  · have hff : b1 ≠ 0xFF := fun h => absurd h80 (by rw [h]; decide)
    rw [if_neg hff, if_pos ((and_0x80 b1).2 h80), if_pos h80]
  rw [if_neg h80, if_neg (mt (and_0x80 b1).1 h80)]
  by_cases hc0 : b1 < 0xC0
  · have hff : b1 ≠ 0xFF := fun h => absurd hc0 (by rw [h]; decide)
    rw [if_neg hff, if_pos hc0]
    simp only [if_pos ((and_0x40 b1 h80).2 hc0), value_two h80 hc0]
  rw [if_neg hc0]
  by_cases hff : b1 = 0xFF
  · rw [if_pos hff, if_pos hff]
  rw [if_neg hff, if_neg hff]
  simp only [if_neg (mt (and_0x40 b1 h80).1 hc0)]
  by_cases he0 : b1 < 0xE0
  · simp only [if_neg (mt (and_0x20 b1 hc0).1 (not_not.2 he0)), if_pos he0, value_four hc0 he0]
  · simp only [if_pos ((and_0x20 b1 hc0).2 he0), if_neg he0]

theorem ok_parseNumber : Ok (parseNumber pbEnd) mem cur n cur' ↔
    cur < cur' ∧ cur' ≤ pbEnd ∧ Number (seg mem cur cur') n := by
  rw [parseNumber_eq, ok_bind]
  constructor
  · rintro ⟨b1, _, h1, h⟩
    obtain ⟨hlt, rfl, rfl⟩ := ok_parseByte.1 h1
    split at h
    · obtain ⟨rfl, rfl⟩ := ok_pure.1 h
      refine ⟨Nat.lt_succ_self _, hlt, ?_⟩
      rw [Number, seg_succ, uncompress_one ‹_›]
    split at h
    · simp only [ok_bind, ok_parseByte, ok_pure] at h
      obtain ⟨b2, _, ⟨hlt2, rfl, rfl⟩, rfl, rfl⟩ := h
      refine ⟨by omega, hlt2, ?_⟩
      rw [Number, seg_cons (by omega), seg_succ, uncompress_two ‹_› ‹_›]
    split at h
    · exact absurd h ok_fail
    rw [ok_bind] at h
    obtain ⟨b2, _, h2, h⟩ := h
    obtain ⟨hlt2, rfl, rfl⟩ := ok_parseByte.1 h2
    split at h
    · simp only [ok_bind, ok_parseByte, ok_pure] at h
      obtain ⟨b3, _, ⟨hlt3, rfl, rfl⟩, b4, _, ⟨hlt4, rfl, rfl⟩, rfl, rfl⟩ := h
      refine ⟨by omega, hlt4, ?_⟩
      rw [Number, seg_cons (by omega), seg_cons (by omega), seg_cons (by omega), seg_succ,
        uncompress_four ‹_› ‹_›]
    · exact absurd h ok_fail
  · rintro ⟨hlt, hle, h⟩
    refine ⟨mem cur, cur + 1, ok_parseByte.2 ⟨by omega, rfl, rfl⟩, ?_⟩
    rw [Number, seg_cons hlt] at h
    simp only [uncompress] at h
    by_cases h80 : mem cur < 0x80
    · rw [if_pos h80] at h ⊢
      obtain ⟨rfl, hnil⟩ := Prod.mk.inj (Option.some.inj h)
      have hlen := congrArg List.length hnil
      rw [length_seg, List.length_nil] at hlen
      exact ok_pure.2 ⟨rfl, by omega⟩
    rw [if_neg h80] at h ⊢
    by_cases hc0 : mem cur < 0xC0
    · rw [if_pos hc0] at h ⊢
      split at h
      · rename_i b2 rest hseg
        obtain ⟨rfl, rfl⟩ := Prod.mk.inj (Option.some.inj h)
        obtain ⟨hlt2, rfl, hnil⟩ := seg_eq_cons hseg hlt
        have hlen := congrArg List.length hnil
        rw [length_seg, List.length_nil] at hlen
        simp only [ok_bind, ok_parseByte, ok_pure]
        exact ⟨_, _, ⟨by omega, rfl, rfl⟩, rfl, by omega⟩
      · cases h
    rw [if_neg hc0] at h ⊢
    split at h
    · rename_i he0
      have hff : mem cur ≠ 0xFF := fun h => absurd he0 (by rw [h]; decide)
      rw [if_neg hff]
      split at h
      · rename_i b2 b3 b4 rest hseg
        obtain ⟨rfl, rfl⟩ := Prod.mk.inj (Option.some.inj h)
        obtain ⟨hlt2, rfl, hseg2⟩ := seg_eq_cons hseg hlt
        obtain ⟨hlt3, rfl, hseg3⟩ := seg_eq_cons hseg2 hlt2
        obtain ⟨hlt4, rfl, hnil⟩ := seg_eq_cons hseg3 hlt3
        have hlen := congrArg List.length hnil
        rw [length_seg, List.length_nil] at hlen
        rw [ok_bind]
        refine ⟨_, _, ok_parseByte.2 ⟨by omega, rfl, rfl⟩, ?_⟩
        rw [if_pos he0]
        simp only [ok_bind, ok_parseByte, ok_pure]
        exact ⟨_, _, ⟨by omega, rfl, rfl⟩, _, _, ⟨by omega, rfl, rfl⟩, rfl, by omega⟩
      · cases h
    · cases h

theorem within_parseByte : Within (parseByte pbEnd) mem pbEnd cur := by
  refine Within.cursor.bind fun _ _ h => Within.ite (fun hlt => ?_) fun _ => Within.fail
  obtain ⟨rfl, rfl⟩ := ok_cursor.1 h
  exact (Within.deref hlt).bind fun _ _ _ => Within.skip.bind fun _ _ _ => Within.pure

theorem within_parseNumber : Within (parseNumber pbEnd) mem pbEnd cur := by
  refine within_parseByte.bind fun b1 _ _ => Within.ite (fun _ => Within.fail) fun _ => ?_
  refine Within.ite (fun _ => Within.pure) fun _ => within_parseByte.bind fun b2 _ _ => ?_
  refine Within.ite (fun _ => Within.pure) fun _ => Within.ite (fun _ => Within.fail) fun _ => ?_
  exact within_parseByte.bind fun b3 _ _ => within_parseByte.bind fun b4 _ _ => Within.pure

theorem ok_parseTypeDefOrRefEncoded {out : UInt8 × ℕ} :
    Ok (parseTypeDefOrRefEncoded pbEnd) mem cur out cur' ↔ ∃ n, cur < cur' ∧ cur' ≤ pbEnd ∧
      Number (seg mem cur cur') n ∧ (UInt8.ofNat (n &&& 3), n >>> 2) = out := by
  simp only [parseTypeDefOrRefEncoded, ok_bind, ok_parseNumber, ok_pure]
  constructor
  · rintro ⟨n, _, ⟨h1, h2, h3⟩, rfl, rfl⟩
    exact ⟨n, h1, h2, h3, rfl⟩
  · rintro ⟨n, h1, h2, h3, rfl⟩
    exact ⟨n, _, ⟨h1, h2, h3⟩, rfl, rfl⟩

theorem within_parseTypeDefOrRefEncoded :
    Within (parseTypeDefOrRefEncoded pbEnd) mem pbEnd cur :=
  within_parseNumber.bind fun _ _ _ => Within.pure

/-! ## Types -/

/-- The element types that stand alone, the unknown ones included. -/
def Alone (b : UInt8) : Prop :=
  b ∉ [ELEMENT_TYPE_PTR, ELEMENT_TYPE_CLASS, ELEMENT_TYPE_VALUETYPE, ELEMENT_TYPE_FNPTR,
    ELEMENT_TYPE_ARRAY, ELEMENT_TYPE_SZARRAY, ELEMENT_TYPE_GENERICINST, ELEMENT_TYPE_VAR,
    ELEMENT_TYPE_MVAR]

instance (b : UInt8) : Decidable (Alone b) := inferInstanceAs (Decidable (_ ∉ _))

def IsClassOrValueType (b : UInt8) : Prop := b = ELEMENT_TYPE_CLASS ∨ b = ELEMENT_TYPE_VALUETYPE

def IsVariable (b : UInt8) : Prop := b = ELEMENT_TYPE_VAR ∨ b = ELEMENT_TYPE_MVAR

instance (b : UInt8) : Decidable (IsClassOrValueType b) := inferInstanceAs (Decidable (_ ∨ _))
instance (b : UInt8) : Decidable (IsVariable b) := inferInstanceAs (Decidable (_ ∨ _))

theorem alone_iff : Alone b ↔
    ¬ (b = ELEMENT_TYPE_PTR ∨ b = ELEMENT_TYPE_FNPTR ∨ b = ELEMENT_TYPE_ARRAY) ∧
      ¬ IsClassOrValueType b ∧ b ≠ ELEMENT_TYPE_SZARRAY ∧ b ≠ ELEMENT_TYPE_GENERICINST ∧
      ¬ IsVariable b := by
  simp only [Alone, IsClassOrValueType, IsVariable, List.mem_cons, List.not_mem_nil]
  tauto

theorem not_rejected_of_classOrValueType (h : IsClassOrValueType b) :
    ¬ (b = ELEMENT_TYPE_PTR ∨ b = ELEMENT_TYPE_FNPTR ∨ b = ELEMENT_TYPE_ARRAY) := by
  rcases h with rfl | rfl
  · decide
  · decide

theorem others_of_variable (h : IsVariable b) :
    ¬ (b = ELEMENT_TYPE_PTR ∨ b = ELEMENT_TYPE_FNPTR ∨ b = ELEMENT_TYPE_ARRAY) ∧
      ¬ IsClassOrValueType b ∧ b ≠ ELEMENT_TYPE_SZARRAY ∧ b ≠ ELEMENT_TYPE_GENERICINST := by
  rcases h with rfl | rfl
  · decide
  · decide

/-- The bytes of one type. -/
inductive TypeBytes : List UInt8 → Prop
  | alone {b : UInt8} : Alone b → TypeBytes [b]
  | token {b : UInt8} {bytes : List UInt8} {n : ℕ} :
    IsClassOrValueType b → Number bytes n → TypeBytes (b :: bytes)
  | variable {b : UInt8} {bytes : List UInt8} {n : ℕ} :
    IsVariable b → Number bytes n → TypeBytes (b :: bytes)
  | szArray {b : UInt8} {bytes : List UInt8} :
    ¬ isCustomMod b → TypeBytes (b :: bytes) → TypeBytes (ELEMENT_TYPE_SZARRAY :: b :: bytes)
  | genericInst {b : UInt8} {token number : List UInt8} {n : ℕ} {args : List (List UInt8)} :
    IsClassOrValueType b → Number token n → Number number args.length →
    (∀ arg ∈ args, TypeBytes arg) →
    TypeBytes (ELEMENT_TYPE_GENERICINST :: b :: (token ++ (number ++ args.flatten)))

/-- `ParseType` by the kinds of element types. -/
theorem parseType_succ : parseType pbEnd (fuel + 1) = (do
    let b ← parseByte pbEnd
    if b = ELEMENT_TYPE_PTR ∨ b = ELEMENT_TYPE_FNPTR ∨ b = ELEMENT_TYPE_ARRAY then fail
    else if IsClassOrValueType b then do let _ ← parseTypeDefOrRefEncoded pbEnd
    else if b = ELEMENT_TYPE_SZARRAY then do
      let next ← deref
      if isCustomMod next then fail else parseType pbEnd fuel
    else if b = ELEMENT_TYPE_GENERICINST then do
      let b ← parseByte pbEnd
      if IsClassOrValueType b then do
        let _ ← parseTypeDefOrRefEncoded pbEnd
        let number ← parseNumber pbEnd
        times (parseType pbEnd fuel) number
      else fail
    else if IsVariable b then do let _ ← parseNumber pbEnd
    else return ()) := by
  rw [parseType]
  congr 1
  funext b
  by_cases hptr : b = ELEMENT_TYPE_PTR
  · rw [if_pos hptr, if_pos (.inl hptr)]
  rw [if_neg hptr]
  by_cases hclass : b = ELEMENT_TYPE_CLASS
  · subst hclass
    rfl
  rw [if_neg hclass]
  by_cases hvalue : b = ELEMENT_TYPE_VALUETYPE
  · subst hvalue
    rfl
  rw [if_neg hvalue]
  have hnot : ¬ IsClassOrValueType b := not_or.2 ⟨hclass, hvalue⟩
  by_cases hfn : b = ELEMENT_TYPE_FNPTR
  · rw [if_pos hfn, if_pos (.inr (.inl hfn))]
  rw [if_neg hfn]
  by_cases harray : b = ELEMENT_TYPE_ARRAY
  · rw [if_pos harray, if_pos (.inr (.inr harray))]
  rw [if_neg harray, if_neg (not_or.2 ⟨hptr, not_or.2 ⟨hfn, harray⟩⟩), if_neg hnot]
  by_cases hsz : b = ELEMENT_TYPE_SZARRAY
  · rw [if_pos hsz, if_pos hsz]
  rw [if_neg hsz, if_neg hsz]
  by_cases hinst : b = ELEMENT_TYPE_GENERICINST
  · rw [if_pos hinst, if_pos hinst]
    congr 1
    funext b
    rw [← ite_not]
    refine if_congr (by rw [not_and_or, not_not, not_not]; rfl) rfl rfl
  rw [if_neg hinst, if_neg hinst]
  by_cases hvar : b = ELEMENT_TYPE_VAR
  · rw [if_pos hvar, if_pos (.inl hvar)]
  rw [if_neg hvar]
  exact if_congr (by rw [IsVariable, or_iff_right hvar]) rfl rfl

theorem TypeBytes.ne_nil (h : TypeBytes bytes) : bytes ≠ [] := by
  cases h <;> exact List.cons_ne_nil _ _

theorem typeBytes_of_ok (h : Ok (parseType pbEnd fuel) mem cur u cur') :
    cur < cur' ∧ cur' ≤ pbEnd ∧ TypeBytes (seg mem cur cur') := by
  induction fuel generalizing cur cur' with
  | zero => exact absurd h ok_outOfFuel
  | succ fuel ih =>
    rw [parseType_succ, ok_bind] at h
    obtain ⟨b, _, hb, h⟩ := h
    obtain ⟨hlt, rfl, rfl⟩ := ok_parseByte.1 hb
    split at h
    · exact absurd h ok_fail
    rename_i hnone
    split at h
    · simp only [ok_bind, ok_parseTypeDefOrRefEncoded, ok_pure] at h
      obtain ⟨_, _, ⟨n, hcur, hle, hn, -⟩, -, rfl⟩ := h
      refine ⟨by omega, hle, ?_⟩
      rw [seg_cons (by omega)]
      exact .token ‹_› hn
    split at h
    · rename_i hsz
      simp only [ok_bind, ok_deref] at h
      obtain ⟨_, _, ⟨rfl, rfl⟩, h⟩ := h
      split at h
      · exact absurd h ok_fail
      obtain ⟨hcur, hle, hbytes⟩ := ih h
      refine ⟨by omega, hle, ?_⟩
      rw [seg_cons hcur] at hbytes
      rw [seg_cons (by omega), seg_cons hcur, hsz]
      exact .szArray ‹_› hbytes
    split at h
    · rename_i hinst
      rw [ok_bind] at h
      obtain ⟨b, _, hb, h⟩ := h
      obtain ⟨hlt2, rfl, rfl⟩ := ok_parseByte.1 hb
      split at h
      · simp only [ok_bind, ok_parseTypeDefOrRefEncoded, ok_parseNumber] at h
        obtain ⟨_, c1, ⟨n, hcur1, hle1, hn, -⟩, m, c2, ⟨hcur2, hle2, hm⟩, h⟩ := h
        obtain ⟨hle, hend, args, rfl, hargs, hseg⟩ :=
          ok_times_pieces (fun hok => (ih hok).imp_left le_of_lt) hle2 h
        refine ⟨by omega, hend, ?_⟩
        rw [seg_cons (by omega), seg_cons (by omega), ← seg_append hcur1.le (by omega),
          ← seg_append hcur2.le hle, hseg, hinst]
        exact .genericInst ‹_› hn hm hargs
      · exact absurd h ok_fail
    split at h
    · simp only [ok_bind, ok_parseNumber, ok_pure] at h
      obtain ⟨n, _, ⟨hcur, hle, hn⟩, -, rfl⟩ := h
      refine ⟨by omega, hle, ?_⟩
      rw [seg_cons (by omega)]
      exact .variable ‹_› hn
    · obtain ⟨-, rfl⟩ := ok_pure.1 h
      refine ⟨by omega, hlt, ?_⟩
      rw [seg_succ]
      exact .alone (alone_iff.2 ⟨‹_›, ‹_›, ‹_›, ‹_›, ‹_›⟩)

theorem ok_of_typeBytes (h : TypeBytes bytes) (hseg : seg mem cur cur' = bytes) (hcur : cur ≤ cur')
    (hle : cur' ≤ pbEnd) (hfuel : pbEnd - cur < fuel) :
    Ok (parseType pbEnd fuel) mem cur () cur' := by
  induction h generalizing cur cur' fuel with
  | alone hb =>
    obtain ⟨k, rfl⟩ := Nat.exists_eq_add_of_lt hfuel
    obtain ⟨hlt, rfl, hnil⟩ := seg_eq_cons hseg hcur
    have hend := seg_eq_nil hnil hlt
    obtain ⟨h1, h2, h3, h4, h5⟩ := alone_iff.1 hb
    rw [parseType_succ, ok_bind]
    refine ⟨_, _, ok_parseByte.2 ⟨by omega, rfl, rfl⟩, ?_⟩
    rw [if_neg h1, if_neg h2, if_neg h3, if_neg h4, if_neg h5]
    exact ok_pure.2 ⟨rfl, hend⟩
  | token hb hn =>
    obtain ⟨k, rfl⟩ := Nat.exists_eq_add_of_lt hfuel
    obtain ⟨hlt, rfl, rfl⟩ := seg_eq_cons hseg hcur
    have hcur' := lt_of_number hn
    rw [parseType_succ, ok_bind]
    refine ⟨_, _, ok_parseByte.2 ⟨by omega, rfl, rfl⟩, ?_⟩
    rw [if_neg (not_rejected_of_classOrValueType hb), if_pos hb]
    simp only [ok_bind, ok_parseTypeDefOrRefEncoded, ok_pure]
    exact ⟨_, _, ⟨_, hcur', hle, hn, rfl⟩, trivial, rfl⟩
  | «variable» hb hn =>
    obtain ⟨k, rfl⟩ := Nat.exists_eq_add_of_lt hfuel
    obtain ⟨hlt, rfl, rfl⟩ := seg_eq_cons hseg hcur
    have hcur' := lt_of_number hn
    rw [parseType_succ, ok_bind]
    refine ⟨_, _, ok_parseByte.2 ⟨by omega, rfl, rfl⟩, ?_⟩
    obtain ⟨h1, h2, h3, h4⟩ := others_of_variable hb
    rw [if_neg h1, if_neg h2, if_neg h3, if_neg h4, if_pos hb]
    simp only [ok_bind, ok_parseNumber, ok_pure]
    exact ⟨_, _, ⟨hcur', hle, hn⟩, trivial, rfl⟩
  | szArray hb hbytes ih =>
    obtain ⟨k, rfl⟩ := Nat.exists_eq_add_of_lt hfuel
    obtain ⟨hlt, hsz, hrest⟩ := seg_eq_cons hseg hcur
    obtain ⟨hlt', rfl, rfl⟩ := seg_eq_cons hrest hlt
    rw [parseType_succ, ok_bind]
    refine ⟨_, _, ok_parseByte.2 ⟨by omega, hsz, rfl⟩, ?_⟩
    rw [if_neg (by decide), if_neg (by decide), if_pos rfl]
    simp only [ok_bind, ok_deref]
    refine ⟨_, _, ⟨rfl, rfl⟩, ?_⟩
    rw [if_neg hb]
    exact ih hrest hlt hle (by omega)
  | genericInst hb hn hm hargs ih =>
    obtain ⟨k, rfl⟩ := Nat.exists_eq_add_of_lt hfuel
    obtain ⟨hlt, hinst, hrest⟩ := seg_eq_cons hseg hcur
    obtain ⟨hlt', rfl, hrest'⟩ := seg_eq_cons hrest hlt
    obtain ⟨hle1, htoken, hrest1⟩ := seg_eq_append hrest' hlt'
    obtain ⟨hle2, hnumber, hrest2⟩ := seg_eq_append hrest1 hle1
    rw [← htoken] at hn
    rw [← hnumber] at hm
    have hcur1 := lt_of_number hn
    have hcur2 := lt_of_number hm
    rw [parseType_succ, ok_bind]
    refine ⟨_, _, ok_parseByte.2 ⟨by omega, hinst, rfl⟩, ?_⟩
    rw [if_neg (by decide), if_neg (by decide), if_neg (by decide), if_pos rfl, ok_bind]
    refine ⟨_, _, ok_parseByte.2 ⟨by omega, rfl, rfl⟩, ?_⟩
    rw [if_pos hb]
    simp only [ok_bind, ok_parseTypeDefOrRefEncoded, ok_parseNumber]
    refine ⟨_, _, ⟨_, hcur1, by omega, hn, rfl⟩, _, _, ⟨hcur2, by omega, hm⟩, ?_⟩
    refine ok_times_of_pieces (fun arg harg a b ha hab hb hseg => ?_) hle2 hle hrest2
    exact ih arg harg hseg hab hb (by omega)

theorem ok_parseType (hfuel : pbEnd - cur < fuel) : Ok (parseType pbEnd fuel) mem cur u cur' ↔
    cur < cur' ∧ cur' ≤ pbEnd ∧ TypeBytes (seg mem cur cur') := by
  constructor
  · exact typeBytes_of_ok
  · rintro ⟨hlt, hle, h⟩
    exact ok_of_typeBytes h rfl hlt.le hle hfuel

/-! ## Parameters and return types -/

/-- The bytes of a type, or of `BYREF` and a type. -/
def ByRefBytes : List UInt8 → Prop
  | [] => False
  | b :: bytes => if b = ELEMENT_TYPE_BYREF then TypeBytes bytes else TypeBytes (b :: bytes)

def ParamBytes : List UInt8 → Prop
  | [] => False
  | b :: bytes => ¬ isCustomMod b ∧ b ≠ ELEMENT_TYPE_TYPEDBYREF ∧ ByRefBytes (b :: bytes)

def RetBytes : List UInt8 → Prop
  | [] => False
  | b :: bytes => if b = ELEMENT_TYPE_VOID then bytes = [] else ParamBytes (b :: bytes)

theorem ParamBytes.ne_nil (h : ParamBytes bytes) : bytes ≠ [] := by
  rintro rfl
  exact h

theorem RetBytes.ne_nil (h : RetBytes bytes) : bytes ≠ [] := by
  rintro rfl
  exact h

theorem lt_of_seg_ne_nil (h : seg mem cur cur' ≠ []) : cur < cur' := by
  have hpos := List.length_pos_iff.2 h
  rw [length_seg] at hpos
  omega

theorem ok_parseByRefType (hfuel : pbEnd - cur < fuel) :
    Ok (parseByRefType pbEnd fuel) mem cur u cur' ↔
      cur < cur' ∧ cur' ≤ pbEnd ∧ ByRefBytes (seg mem cur cur') := by
  simp only [parseByRefType, ok_bind, ok_deref]
  constructor
  · rintro ⟨_, _, ⟨rfl, rfl⟩, h⟩
    split at h
    · rename_i hbyRef
      simp only [ok_bind, ok_skip] at h
      obtain ⟨_, _, rfl, h⟩ := h
      obtain ⟨hlt, hle, h⟩ := (ok_parseType (by omega)).1 h
      refine ⟨by omega, hle, ?_⟩
      rwa [seg_cons (by omega), ByRefBytes, if_pos hbyRef]
    · rename_i hbyRef
      obtain ⟨hlt, hle, h⟩ := (ok_parseType hfuel).1 h
      refine ⟨hlt, hle, ?_⟩
      rwa [seg_cons hlt, ByRefBytes, if_neg hbyRef, ← seg_cons hlt]
  · rintro ⟨hlt, hle, h⟩
    refine ⟨_, _, ⟨rfl, rfl⟩, ?_⟩
    rw [seg_cons hlt, ByRefBytes] at h
    split at h
    · rw [if_pos ‹_›]
      simp only [ok_bind, ok_skip]
      exact ⟨(), _, rfl, (ok_parseType (by omega)).2 ⟨lt_of_seg_ne_nil h.ne_nil, hle, h⟩⟩
    · rw [if_neg ‹_›]
      rw [← seg_cons hlt] at h
      exact (ok_parseType hfuel).2 ⟨hlt, hle, h⟩

theorem ok_parseSupported {p : Parser Unit} : Ok (parseSupported pbEnd p) mem cur u cur' ↔
    ¬ isCustomMod (mem cur) ∧ cur < pbEnd ∧ mem cur ≠ ELEMENT_TYPE_TYPEDBYREF ∧
      Ok p mem cur u cur' := by
  simp only [parseSupported, ok_bind, ok_deref]
  constructor
  · rintro ⟨_, _, ⟨rfl, rfl⟩, h⟩
    split at h
    · exact absurd h ok_fail
    simp only [ok_bind, ok_cursor] at h
    obtain ⟨_, _, ⟨rfl, rfl⟩, h⟩ := h
    split at h
    · exact absurd h ok_fail
    simp only [ok_bind, ok_deref] at h
    obtain ⟨_, _, ⟨rfl, rfl⟩, h⟩ := h
    split at h
    · exact absurd h ok_fail
    · exact ⟨‹_›, not_le.1 ‹_›, ‹_›, h⟩
  · rintro ⟨hmod, hlt, htyped, h⟩
    refine ⟨_, _, ⟨rfl, rfl⟩, ?_⟩
    rw [if_neg hmod]
    simp only [ok_bind, ok_cursor]
    refine ⟨_, _, ⟨rfl, rfl⟩, ?_⟩
    rw [if_neg (not_le.2 hlt)]
    simp only [ok_bind, ok_deref]
    refine ⟨_, _, ⟨rfl, rfl⟩, ?_⟩
    rwa [if_neg htyped]

theorem ok_parseParam (hfuel : pbEnd - cur < fuel) :
    Ok (parseParam pbEnd fuel) mem cur u cur' ↔
      cur < cur' ∧ cur' ≤ pbEnd ∧ ParamBytes (seg mem cur cur') := by
  rw [parseParam, ok_parseSupported, ok_parseByRefType hfuel]
  constructor
  · rintro ⟨hmod, hlt, htyped, hcur, hle, h⟩
    refine ⟨hcur, hle, ?_⟩
    rw [seg_cons hcur] at h ⊢
    exact ⟨hmod, htyped, h⟩
  · rintro ⟨hcur, hle, h⟩
    rw [seg_cons hcur] at h ⊢
    exact ⟨h.1, by omega, h.2.1, hcur, hle, h.2.2⟩

theorem ok_parseRetType (hfuel : pbEnd - cur < fuel) :
    Ok (parseRetType pbEnd fuel) mem cur u cur' ↔
      cur < cur' ∧ cur' ≤ pbEnd ∧ RetBytes (seg mem cur cur') := by
  simp only [parseRetType, ok_parseSupported, ok_bind, ok_deref]
  constructor
  · rintro ⟨hmod, hlt, htyped, _, _, ⟨rfl, rfl⟩, h⟩
    split at h
    · obtain rfl := ok_skip.1 h
      refine ⟨by omega, hlt, ?_⟩
      rw [seg_succ, RetBytes, if_pos ‹_›]
    · obtain ⟨hcur, hle, h⟩ := (ok_parseByRefType hfuel).1 h
      refine ⟨hcur, hle, ?_⟩
      rw [seg_cons hcur] at h ⊢
      rw [RetBytes, if_neg ‹_›]
      exact ⟨hmod, htyped, h⟩
  · rintro ⟨hcur, hle, h⟩
    rw [seg_cons hcur, RetBytes] at h
    split at h
    · rename_i hvoid
      rw [hvoid]
      refine ⟨by decide, by omega, by decide, _, _, ⟨rfl, rfl⟩, ?_⟩
      rw [if_pos rfl]
      exact ok_skip.2 (seg_eq_nil h hcur)
    · rename_i hvoid
      refine ⟨h.1, by omega, h.2.1, _, _, ⟨rfl, rfl⟩, ?_⟩
      rw [if_neg hvoid]
      refine (ok_parseByRefType hfuel).2 ⟨hcur, hle, ?_⟩
      rw [seg_cons hcur]
      exact h.2.2

/-! ## The signature -/

theorem argumentFrom_eq {pbStart pbCur : ℕ} (h : pbStart ≤ pbCur) :
    argumentFrom pbStart pbCur = ⟨pbStart, pbCur - pbStart⟩ := by
  rw [argumentFrom, FunctionMethodArgument.mk.injEq]
  omega

/-- The bytes of `count` parameters that start at `offset`, and where they are. -/
inductive ParamsBytes : Bool → ℕ → ℕ → List UInt8 → List FunctionMethodArgument → Prop
  | done {encountered : Bool} {offset : ℕ} : ParamsBytes encountered 0 offset [] []
  | param {encountered : Bool} {count offset : ℕ} {bytes rest : List UInt8}
    {params : List FunctionMethodArgument} :
    bytes.head? ≠ some ELEMENT_TYPE_SENTINEL → ParamBytes bytes →
    ParamsBytes encountered count (offset + bytes.length) rest params →
    ParamsBytes encountered (count + 1) offset (bytes ++ rest) (⟨offset, bytes.length⟩ :: params)
  | sentinel {count offset : ℕ} {bytes rest : List UInt8} {params : List FunctionMethodArgument} :
    ParamBytes bytes → ParamsBytes true count (offset + 1 + bytes.length) rest params →
    ParamsBytes false (count + 1) offset (ELEMENT_TYPE_SENTINEL :: (bytes ++ rest))
      (⟨offset + 1, bytes.length⟩ :: params)

theorem ok_parseSentinel {e e' : Bool} : Ok (parseSentinel e) mem cur e' cur' ↔
    if mem cur = ELEMENT_TYPE_SENTINEL then e = false ∧ e' = true ∧ cur' = cur + 1
    else e' = e ∧ cur' = cur := by
  simp only [parseSentinel, ok_bind, ok_deref]
  constructor
  · rintro ⟨_, _, ⟨rfl, rfl⟩, h⟩
    split at h
    · rw [if_pos ‹_›]
      cases e with
      | true => exact absurd h ok_fail
      | false =>
        simp only [Bool.false_eq_true, if_false, ok_bind, ok_skip, ok_pure] at h
        obtain ⟨_, _, rfl, rfl, rfl⟩ := h
        exact ⟨rfl, rfl, rfl⟩
    · rw [if_neg ‹_›]
      obtain ⟨rfl, rfl⟩ := ok_pure.1 h
      exact ⟨rfl, rfl⟩
  · intro h
    refine ⟨_, _, ⟨rfl, rfl⟩, ?_⟩
    split at h
    · rw [if_pos ‹_›]
      obtain ⟨rfl, rfl, rfl⟩ := h
      simp
    · rw [if_neg ‹_›]
      obtain ⟨rfl, rfl⟩ := h
      simp

theorem paramsBytes_of_ok {count : ℕ} {e : Bool} {params : List FunctionMethodArgument}
    (hcur : cur ≤ pbEnd) (hfuel : pbEnd - cur < fuel)
    (h : Ok (parseParams pbEnd fuel count e) mem cur params cur') :
    cur ≤ cur' ∧ cur' ≤ pbEnd ∧ ParamsBytes e count cur (seg mem cur cur') params := by
  induction count generalizing cur e params with
  | zero =>
    obtain ⟨rfl, rfl⟩ := ok_pure.1 h
    rw [seg_self]
    exact ⟨le_rfl, hcur, .done⟩
  | succ count ih =>
    simp only [parseParams, ok_bind, ok_cursor] at h
    obtain ⟨_, _, ⟨rfl, rfl⟩, h⟩ := h
    split at h
    · exact absurd h ok_fail
    simp only [ok_bind, ok_cursor, ok_pure] at h
    obtain ⟨e', c, hs, _, _, ⟨rfl, rfl⟩, ⟨⟩, c', hp, _, _, ⟨rfl, rfl⟩, ps, _, hps, rfl, rfl⟩ := h
    rw [ok_parseSentinel] at hs
    split at hs
    · obtain ⟨rfl, rfl, rfl⟩ := hs
      obtain ⟨hlt, hle, hparam⟩ := (ok_parseParam (by omega)).1 hp
      obtain ⟨hle', hend, hrest⟩ := ih hle (by omega) hps
      refine ⟨by omega, hend, ?_⟩
      have hlen : (seg mem (cur + 1) c').length = c' - (cur + 1) := length_seg
      rw [seg_cons (by omega), ‹mem cur = _›, ← seg_append hlt.le hle', argumentFrom_eq hlt.le,
        ← hlen]
      refine .sentinel hparam ?_
      rwa [hlen, Nat.add_sub_cancel' hlt.le]
    · obtain ⟨rfl, rfl⟩ := hs
      obtain ⟨hlt, hle, hparam⟩ := (ok_parseParam hfuel).1 hp
      obtain ⟨hle', hend, hrest⟩ := ih hle (by omega) hps
      refine ⟨by omega, hend, ?_⟩
      have hlen : (seg mem c c').length = c' - c := length_seg
      rw [← seg_append hlt.le hle', argumentFrom_eq hlt.le, ← hlen]
      refine .param ?_ hparam ?_
      · rw [seg_cons hlt, List.head?_cons]
        exact fun h => ‹¬ mem c = _› (Option.some.inj h)
      · rwa [hlen, Nat.add_sub_cancel' hlt.le]

theorem ok_of_paramsBytes {count offset : ℕ} {e : Bool} {params : List FunctionMethodArgument}
    (h : ParamsBytes e count offset bytes params) (hoffset : offset = cur)
    (hseg : seg mem cur cur' = bytes) (hcur : cur ≤ cur') (hle : cur' ≤ pbEnd)
    (hfuel : pbEnd - cur < fuel) :
    Ok (parseParams pbEnd fuel count e) mem cur params cur' := by
  induction h generalizing cur with
  | done => exact ok_pure.2 ⟨rfl, seg_eq_nil hseg hcur⟩
  | @param e count offset bytes rest params hhead hparam _ ih =>
    subst hoffset
    obtain ⟨hle1, hbytes, hrest⟩ := seg_eq_append hseg hcur
    have hlt := lt_of_seg_ne_nil (hbytes ▸ hparam.ne_nil)
    simp only [parseParams, ok_bind, ok_cursor]
    refine ⟨_, _, ⟨rfl, rfl⟩, ?_⟩
    rw [if_neg (by omega)]
    simp only [ok_bind, ok_cursor, ok_pure]
    refine ⟨e, offset, ?_, _, _, ⟨rfl, rfl⟩, (), offset + bytes.length,
      (ok_parseParam hfuel).2 ⟨hlt, by omega, by rwa [hbytes]⟩, _, _, ⟨rfl, rfl⟩, params, cur',
      ih rfl hrest hle1 (by omega), ?_, rfl⟩
    · rw [ok_parseSentinel, if_neg]
      · exact ⟨rfl, rfl⟩
      · intro h
        rw [← hbytes, seg_cons hlt, List.head?_cons, h] at hhead
        exact hhead rfl
    · rw [argumentFrom_eq (by omega), Nat.add_sub_cancel_left]
  | @sentinel count offset bytes rest params hparam _ ih =>
    subst hoffset
    obtain ⟨hlt0, hsentinel, hseg⟩ := seg_eq_cons hseg hcur
    obtain ⟨hle1, hbytes, hrest⟩ := seg_eq_append hseg hlt0
    have hlt := lt_of_seg_ne_nil (hbytes ▸ hparam.ne_nil)
    simp only [parseParams, ok_bind, ok_cursor]
    refine ⟨_, _, ⟨rfl, rfl⟩, ?_⟩
    rw [if_neg (by omega)]
    simp only [ok_bind, ok_cursor, ok_pure]
    refine ⟨true, offset + 1, ?_, _, _, ⟨rfl, rfl⟩, (), offset + 1 + bytes.length,
      (ok_parseParam (by omega)).2 ⟨hlt, by omega, by rwa [hbytes]⟩, _, _, ⟨rfl, rfl⟩, params, cur',
      ih rfl hrest hle1 (by omega), ?_, rfl⟩
    · rw [ok_parseSentinel, if_pos hsentinel]
      exact ⟨rfl, rfl, rfl⟩
    · rw [argumentFrom_eq (by omega), Nat.add_sub_cancel_left]

theorem ok_parseParams {count : ℕ} {e : Bool} {params : List FunctionMethodArgument}
    (hcur : cur ≤ pbEnd) (hfuel : pbEnd - cur < fuel) :
    Ok (parseParams pbEnd fuel count e) mem cur params cur' ↔
      cur ≤ cur' ∧ cur' ≤ pbEnd ∧ ParamsBytes e count cur (seg mem cur cur') params := by
  constructor
  · exact paramsBytes_of_ok hcur hfuel
  · rintro ⟨hle, hend, h⟩
    exact ok_of_paramsBytes h rfl rfl hle hend hfuel

/-- The number of type arguments stands only where the calling convention says so. -/
def TypeArguments (convention : UInt8) (bytes : List UInt8) (n : ℕ) : Prop :=
  if convention &&& IMAGE_CEE_CS_CALLCONV_GENERIC ≠ 0 then Number bytes n else bytes = [] ∧ n = 0

/-- The bytes of a signature, and what the parser says of them. -/
inductive SignatureBytes : List UInt8 → FunctionMethodSignature → Prop
  | mk {convention : UInt8} {typeArguments count ret params : List UInt8} {g n : ℕ}
    {args : List FunctionMethodArgument} :
    TypeArguments convention typeArguments g → Number count n → RetBytes ret →
    ParamsBytes false n (1 + typeArguments.length + count.length + ret.length) params args →
    SignatureBytes (convention :: (typeArguments ++ (count ++ (ret ++ params)))) {
      numberOfTypeArguments := g
      numberOfArguments := n
      ret := ⟨1 + typeArguments.length + count.length, ret.length⟩
      params := args }

theorem ok_parseTypeArguments (hcur : cur ≤ pbEnd) :
    Ok (parseTypeArguments pbEnd b) mem cur n cur' ↔
      cur ≤ cur' ∧ cur' ≤ pbEnd ∧ TypeArguments b (seg mem cur cur') n := by
  unfold parseTypeArguments TypeArguments
  split
  · rw [ok_parseNumber]
    exact ⟨fun h => ⟨h.1.le, h.2⟩, fun h => ⟨lt_of_number h.2.2, h.2⟩⟩
  · rw [ok_pure]
    constructor
    · rintro ⟨rfl, rfl⟩
      exact ⟨le_rfl, hcur, seg_self, rfl⟩
    · rintro ⟨hle, -, hnil, rfl⟩
      exact ⟨rfl, seg_eq_nil hnil hle⟩

/-- What comes before the return type. -/
theorem ok_header {g : ℕ} {typeArguments count rest : List UInt8}
    (hg : TypeArguments b typeArguments g) (hn : Number count n)
    (hseg : seg mem 0 cur' = b :: (typeArguments ++ (count ++ rest))) (hle : cur' ≤ pbEnd) :
    0 < cur' ∧ mem 0 = b ∧
      Ok (parseTypeArguments pbEnd b) mem 1 g (1 + typeArguments.length) ∧
      Ok (parseNumber pbEnd) mem (1 + typeArguments.length) n
        (1 + typeArguments.length + count.length) ∧
      1 + typeArguments.length + count.length ≤ cur' ∧
      seg mem (1 + typeArguments.length + count.length) cur' = rest := by
  obtain ⟨hlt0, hb, hseg'⟩ := seg_eq_cons hseg (Nat.zero_le _)
  rw [Nat.zero_add] at hseg'
  obtain ⟨hle1, hseg1, hrest1⟩ := seg_eq_append hseg' hlt0
  obtain ⟨hle2, hseg2, hrest2⟩ := seg_eq_append hrest1 hle1
  have hcount := List.length_pos_iff.2 hn.ne_nil
  refine ⟨hlt0, hb, ?_, ?_, hle2, hrest2⟩
  · exact (ok_parseTypeArguments (by omega)).2 ⟨by omega, by omega, by rwa [hseg1]⟩
  · exact ok_parseNumber.2 ⟨by omega, by omega, by rwa [hseg2]⟩

theorem ok_tryParse {len : ℕ} {sig : FunctionMethodSignature} :
    Ok (tryParse len) mem 0 sig cur' ↔ cur' ≤ len ∧ SignatureBytes (seg mem 0 cur') sig := by
  simp only [tryParse, tryParseWith, ok_bind, ok_parseByte, ok_cursor, ok_pure]
  constructor
  · rintro ⟨b, _, ⟨hlen, rfl, rfl⟩, g, c1, hg, n, c2, hn, _, _, ⟨rfl, rfl⟩, ⟨⟩, c3, hret, _, _,
      ⟨rfl, rfl⟩, args, _, hargs, rfl, rfl⟩
    obtain ⟨hle1, hend1, hg⟩ := (ok_parseTypeArguments hlen).1 hg
    obtain ⟨hlt2, hend2, hn⟩ := ok_parseNumber.1 hn
    obtain ⟨hlt3, hend3, hret⟩ := (ok_parseRetType (by omega)).1 hret
    obtain ⟨hle4, hend4, hargs⟩ := (ok_parseParams hend3 (by omega)).1 hargs
    refine ⟨hend4, ?_⟩
    have hlen1 : (seg mem (0 + 1) c1).length = c1 - (0 + 1) := length_seg
    have hlen2 : (seg mem c1 c2).length = c2 - c1 := length_seg
    have hlen3 : (seg mem c2 c3).length = c3 - c2 := length_seg
    have hstart : 1 + (seg mem (0 + 1) c1).length + (seg mem c1 c2).length = c2 := by omega
    have hsig := SignatureBytes.mk hg hn hret (by rwa [hstart, hlen3, Nat.add_sub_cancel' hlt3.le])
    rw [hstart, hlen3] at hsig
    rwa [seg_cons (by omega), ← seg_append hle1 (by omega), ← seg_append hlt2.le (by omega),
      ← seg_append hlt3.le hle4, argumentFrom_eq hlt3.le]
  · rintro ⟨hle, h⟩
    generalize hbytes : seg mem 0 cur' = bytes at h
    cases h with
    | @mk convention typeArguments count ret params g n args hg hn hret hargs =>
      obtain ⟨hlt0, hb, hok1, hok2, hle2, hseg⟩ := ok_header hg hn hbytes hle
      obtain ⟨hle3, hseg3, hrest⟩ := seg_eq_append hseg hle2
      have hpos := List.length_pos_iff.2 hret.ne_nil
      have hok3 : Ok (parseRetType len len) mem (1 + typeArguments.length + count.length) ()
          (1 + typeArguments.length + count.length + ret.length) :=
        (ok_parseRetType (by omega)).2 ⟨by omega, by omega, by rwa [hseg3]⟩
      have hok4 : Ok (parseParams len len n false) mem
          (1 + typeArguments.length + count.length + ret.length) args cur' :=
        (ok_parseParams (by omega) (by omega)).2 ⟨by omega, hle, by rwa [hrest]⟩
      refine ⟨_, _, ⟨by omega, hb, rfl⟩, g, _, hok1, n, _, hok2, _, _, ⟨rfl, rfl⟩, (), _, hok3, _, _,
        ⟨rfl, rfl⟩, args, cur', hok4, ?_, rfl⟩
      rw [argumentFrom_eq (by omega), Nat.add_sub_cancel_left]

end DdTrace.Signature
