import DdTrace.Signature.Grammar

/-!
# Reads behind the end of the signature

The parser compares its cursor with `pbEnd` after it has looked at the byte there, in
`ParseParam` and `ParseRetType`, and not at all behind `SZARRAY`. `CutSignature` are the
signatures that end where it looks; there it reads the byte behind the end, and on no
others.
-/

namespace DdTrace.Signature

open Lib Lib.Reader

variable {pbEnd cur cur' fuel n k i len : ℕ} {mem : ℕ → UInt8} {b : UInt8} {bytes : List UInt8}
  {u : Unit}

/-- A type that ends directly after an `SZARRAY`, at some depth. -/
inductive CutType : List UInt8 → Prop
  | szArray : CutType [ELEMENT_TYPE_SZARRAY]
  | szArrayOf {bytes : List UInt8} : CutType bytes → CutType (ELEMENT_TYPE_SZARRAY :: bytes)
  | genericInst {b : UInt8} {token number last : List UInt8} {n m : ℕ}
    {args : List (List UInt8)} :
    IsClassOrValueType b → Number token n → Number number m → args.length < m →
    (∀ arg ∈ args, TypeBytes arg) → CutType last →
    CutType (ELEMENT_TYPE_GENERICINST :: b :: (token ++ (number ++ (args.flatten ++ last))))

theorem CutType.ne_nil (h : CutType bytes) : bytes ≠ [] := by
  cases h <;> exact List.cons_ne_nil _ _

theorem CutType.head (h : CutType (b :: bytes)) :
    b = ELEMENT_TYPE_SZARRAY ∨ b = ELEMENT_TYPE_GENERICINST := by
  cases h with
  | szArray => exact .inl rfl
  | szArrayOf => exact .inl rfl
  | genericInst => exact .inr rfl

theorem cutType_of_over (hcur : cur ≤ pbEnd) (h : Over (parseType pbEnd fuel) mem pbEnd cur) :
    CutType (seg mem cur pbEnd) := by
  induction fuel generalizing cur with
  | zero => exact absurd h over_outOfFuel
  | succ fuel ih =>
    rw [parseType_succ, over_bind, or_iff_right within_parseByte.not_over] at h
    obtain ⟨b, _, hb, h⟩ := h
    obtain ⟨hlt, rfl, rfl⟩ := ok_parseByte.1 hb
    split at h
    · exact absurd h over_fail
    split at h
    · simp [within_parseTypeDefOrRefEncoded.not_over] at h
    split at h
    · rename_i hsz
      rw [seg_cons hlt, hsz]
      simp only [over_bind, over_deref, ok_deref] at h
      rcases h with h | ⟨_, _, ⟨rfl, rfl⟩, h⟩
      · obtain rfl : pbEnd = cur + 1 := by omega
        rw [seg_self]
        exact .szArray
      split at h
      · exact absurd h over_fail
      · exact .szArrayOf (ih hlt h)
    split at h
    · rename_i hinst
      rw [over_bind, or_iff_right within_parseByte.not_over] at h
      obtain ⟨b, _, hb, h⟩ := h
      obtain ⟨hlt2, rfl, rfl⟩ := ok_parseByte.1 hb
      split at h
      · simp only [over_bind, within_parseTypeDefOrRefEncoded.not_over,
          within_parseNumber.not_over, false_or, ok_parseTypeDefOrRefEncoded, ok_parseNumber,
          over_times] at h
        obtain ⟨_, c1, ⟨n, hcur1, hle1, hn, -⟩, m, c2, ⟨hcur2, hle2, hm⟩, k, hk, c3, hok, h⟩ := h
        obtain ⟨hle, hend, args, rfl, hargs, hseg⟩ :=
          ok_times_pieces (fun hok => (typeBytes_of_ok hok).imp_left le_of_lt) hle2 hok
        rw [seg_cons (by omega), seg_cons (by omega), ← seg_append hcur1.le (by omega),
          ← seg_append hcur2.le (by omega), ← seg_append hle hend, hseg, hinst]
        exact .genericInst ‹_› hn hm hk hargs (ih hend h)
      · exact absurd h over_fail
    split at h
    · simp [within_parseNumber.not_over] at h
    · exact absurd h over_pure

theorem over_of_cutType (h : CutType bytes) (hseg : seg mem cur pbEnd = bytes) (hcur : cur ≤ pbEnd)
    (hfuel : pbEnd - cur < fuel) : Over (parseType pbEnd fuel) mem pbEnd cur := by
  induction h generalizing cur fuel with
  | szArray =>
    obtain ⟨k, rfl⟩ := Nat.exists_eq_add_of_lt hfuel
    obtain ⟨hlt, hsz, hnil⟩ := seg_eq_cons hseg hcur
    have hend := seg_eq_nil hnil hlt
    rw [parseType_succ, over_bind]
    refine .inr ⟨_, _, ok_parseByte.2 ⟨hlt, hsz, rfl⟩, ?_⟩
    rw [if_neg (by decide), if_neg (by decide), if_pos rfl, over_bind]
    exact .inl (over_deref.2 hend.ge)
  | szArrayOf hcut ih =>
    obtain ⟨k, rfl⟩ := Nat.exists_eq_add_of_lt hfuel
    obtain ⟨hlt, hsz, hrest⟩ := seg_eq_cons hseg hcur
    have hlt' := lt_of_seg_ne_nil (hrest ▸ hcut.ne_nil)
    have hhead : ¬ isCustomMod (mem (cur + 1)) := by
      rw [← hrest, seg_cons hlt'] at hcut
      rcases hcut.head with h | h <;> rw [h] <;> decide
    rw [parseType_succ, over_bind]
    refine .inr ⟨_, _, ok_parseByte.2 ⟨hlt, hsz, rfl⟩, ?_⟩
    rw [if_neg (by decide), if_neg (by decide), if_pos rfl, over_bind]
    refine .inr ⟨_, _, ok_deref.2 ⟨rfl, rfl⟩, ?_⟩
    rw [if_neg hhead]
    exact ih hrest hlt (by omega)
  | @genericInst b token number last n m args hb hn hm hk hargs hcut ih =>
    obtain ⟨k, rfl⟩ := Nat.exists_eq_add_of_lt hfuel
    obtain ⟨hlt, hinst, hrest⟩ := seg_eq_cons hseg hcur
    obtain ⟨hlt', rfl, hrest'⟩ := seg_eq_cons hrest hlt
    obtain ⟨hle1, htoken, hrest1⟩ := seg_eq_append hrest' hlt'
    obtain ⟨hle2, hnumber, hrest2⟩ := seg_eq_append hrest1 hle1
    obtain ⟨hle3, hflat, hrest3⟩ := seg_eq_append hrest2 hle2
    rw [← htoken] at hn
    rw [← hnumber] at hm
    have hcur1 := lt_of_number hn
    have hcur2 := lt_of_number hm
    rw [parseType_succ, over_bind]
    refine .inr ⟨_, _, ok_parseByte.2 ⟨by omega, hinst, rfl⟩, ?_⟩
    rw [if_neg (by decide), if_neg (by decide), if_neg (by decide), if_pos rfl, over_bind]
    refine .inr ⟨_, _, ok_parseByte.2 ⟨by omega, rfl, rfl⟩, ?_⟩
    rw [if_pos hb, over_bind]
    refine .inr ⟨_, _, ok_parseTypeDefOrRefEncoded.2 ⟨_, hcur1, by omega, hn, rfl⟩, ?_⟩
    rw [over_bind]
    refine .inr ⟨_, _, ok_parseNumber.2 ⟨hcur2, by omega, hm⟩, over_times.2 ?_⟩
    refine ⟨args.length, hk, _, ok_times_of_pieces (fun arg harg x y hx hxy hy hseg => ?_)
      (Nat.le_add_right _ args.flatten.length) hle3 hflat, ih hrest3 hle3 (by omega)⟩
    exact ok_of_typeBytes (hargs arg harg) hseg hxy hy (by omega)

theorem over_parseType (hcur : cur ≤ pbEnd) (hfuel : pbEnd - cur < fuel) :
    Over (parseType pbEnd fuel) mem pbEnd cur ↔ CutType (seg mem cur pbEnd) :=
  ⟨cutType_of_over hcur, fun h => over_of_cutType h rfl hcur hfuel⟩

/-! ## Parameters and return types -/

/-- A type cut short, a `BYREF` before it or not. -/
def CutParam : List UInt8 → Prop
  | [] => False
  | b :: bytes => if b = ELEMENT_TYPE_BYREF then CutType bytes else CutType (b :: bytes)

theorem CutParam.head (h : CutParam (b :: bytes)) : b = ELEMENT_TYPE_BYREF ∨
    b = ELEMENT_TYPE_SZARRAY ∨ b = ELEMENT_TYPE_GENERICINST := by
  rw [CutParam] at h
  split at h
  · exact .inl ‹_›
  · exact .inr h.head

theorem CutParam.ne_nil (h : CutParam bytes) : bytes ≠ [] := by
  rintro rfl
  exact h

theorem CutParam.head_supported (h : CutParam (b :: bytes)) :
    ¬ isCustomMod b ∧ b ≠ ELEMENT_TYPE_TYPEDBYREF ∧ b ≠ ELEMENT_TYPE_VOID := by
  rcases h.head with rfl | rfl | rfl
  · decide
  · decide
  · decide

theorem over_parseByRefType (hcur : cur < pbEnd) (hfuel : pbEnd - cur < fuel) :
    Over (parseByRefType pbEnd fuel) mem pbEnd cur ↔ CutParam (seg mem cur pbEnd) := by
  rw [seg_cons hcur, CutParam, parseByRefType, over_bind, over_deref, or_iff_right (not_le.2 hcur)]
  constructor
  · rintro ⟨_, _, hb, h⟩
    obtain ⟨rfl, rfl⟩ := ok_deref.1 hb
    split at h
    · rw [if_pos ‹_›]
      simp only [over_bind, over_skip, ok_skip, false_or] at h
      obtain ⟨_, _, rfl, h⟩ := h
      exact (over_parseType hcur (by omega)).1 h
    · rw [if_neg ‹_›, ← seg_cons hcur]
      exact (over_parseType hcur.le hfuel).1 h
  · intro h
    refine ⟨_, _, ok_deref.2 ⟨rfl, rfl⟩, ?_⟩
    split at h
    · rw [if_pos ‹_›]
      simp only [over_bind, over_skip, ok_skip, false_or]
      exact ⟨(), _, rfl, (over_parseType hcur (by omega)).2 h⟩
    · rw [if_neg ‹_›]
      rw [← seg_cons hcur] at h
      exact (over_parseType hcur.le hfuel).2 h

/-- The byte is read before the end is looked for. -/
theorem over_parseSupported {p : Parser Unit} (hcur : cur ≤ pbEnd) :
    Over (parseSupported pbEnd p) mem pbEnd cur ↔ cur = pbEnd ∨ cur < pbEnd ∧
      ¬ isCustomMod (mem cur) ∧ mem cur ≠ ELEMENT_TYPE_TYPEDBYREF ∧ Over p mem pbEnd cur := by
  rw [parseSupported, over_bind, over_deref]
  constructor
  · rintro (h | ⟨_, _, hb, h⟩)
    · exact .inl (le_antisymm hcur h)
    obtain ⟨rfl, rfl⟩ := ok_deref.1 hb
    split at h
    · exact absurd h over_fail
    rw [over_bind, or_iff_right over_cursor] at h
    obtain ⟨_, _, hc, h⟩ := h
    obtain ⟨rfl, rfl⟩ := ok_cursor.1 hc
    split at h
    · exact absurd h over_fail
    rw [over_bind, over_deref] at h
    rcases h with h | ⟨_, _, hb, h⟩
    · exact .inl (le_antisymm hcur h)
    obtain ⟨rfl, rfl⟩ := ok_deref.1 hb
    split at h
    · exact absurd h over_fail
    · exact .inr ⟨not_le.1 ‹_›, ‹_›, ‹_›, h⟩
  · rintro (rfl | ⟨hlt, hmod, htyped, h⟩)
    · exact .inl le_rfl
    refine .inr ⟨_, _, ok_deref.2 ⟨rfl, rfl⟩, ?_⟩
    rw [if_neg hmod, over_bind]
    refine .inr ⟨_, _, ok_cursor.2 ⟨rfl, rfl⟩, ?_⟩
    rw [if_neg (not_le.2 hlt), over_bind]
    refine .inr ⟨_, _, ok_deref.2 ⟨rfl, rfl⟩, ?_⟩
    rwa [if_neg htyped]

theorem over_parseParam (hcur : cur ≤ pbEnd) (hfuel : pbEnd - cur < fuel) :
    Over (parseParam pbEnd fuel) mem pbEnd cur ↔
      seg mem cur pbEnd = [] ∨ CutParam (seg mem cur pbEnd) := by
  rw [parseParam, over_parseSupported hcur]
  constructor
  · rintro (rfl | ⟨hlt, -, -, h⟩)
    · exact .inl seg_self
    · exact .inr ((over_parseByRefType hlt hfuel).1 h)
  · rintro (h | h)
    · exact .inl (seg_eq_nil h hcur)
    · have hlt := lt_of_seg_ne_nil h.ne_nil
      rw [seg_cons hlt] at h
      obtain ⟨hmod, htyped, -⟩ := h.head_supported
      rw [← seg_cons hlt] at h
      exact .inr ⟨hlt, hmod, htyped, (over_parseByRefType hlt hfuel).2 h⟩

theorem over_parseRetType (hcur : cur ≤ pbEnd) (hfuel : pbEnd - cur < fuel) :
    Over (parseRetType pbEnd fuel) mem pbEnd cur ↔
      seg mem cur pbEnd = [] ∨ CutParam (seg mem cur pbEnd) := by
  rw [parseRetType, over_parseSupported hcur]
  constructor
  · rintro (rfl | ⟨hlt, -, -, h⟩)
    · exact .inl seg_self
    rw [over_bind, over_deref, or_iff_right (not_le.2 hlt)] at h
    obtain ⟨_, _, hb, h⟩ := h
    obtain ⟨rfl, rfl⟩ := ok_deref.1 hb
    split at h
    · exact absurd h over_skip
    · exact .inr ((over_parseByRefType hlt hfuel).1 h)
  · rintro (h | h)
    · exact .inl (seg_eq_nil h hcur)
    · have hlt := lt_of_seg_ne_nil h.ne_nil
      rw [seg_cons hlt] at h
      obtain ⟨hmod, htyped, hvoid⟩ := h.head_supported
      rw [← seg_cons hlt] at h
      refine .inr ⟨hlt, hmod, htyped, over_bind.2 (.inr ⟨_, _, ok_deref.2 ⟨rfl, rfl⟩, ?_⟩)⟩
      rw [if_neg hvoid]
      exact (over_parseByRefType hlt hfuel).2 h

/-! ## The signature -/

/-- `count` parameters, cut short in one of them. -/
inductive CutParams : Bool → ℕ → List UInt8 → Prop
  | param {encountered : Bool} {count : ℕ} {bytes : List UInt8} :
    CutParam bytes → CutParams encountered (count + 1) bytes
  | sentinel {count : ℕ} {bytes : List UInt8} :
    bytes = [] ∨ CutParam bytes → CutParams false (count + 1) (ELEMENT_TYPE_SENTINEL :: bytes)
  | later {encountered : Bool} {count : ℕ} {bytes rest : List UInt8} :
    bytes.head? ≠ some ELEMENT_TYPE_SENTINEL → ParamBytes bytes →
    CutParams encountered count rest → CutParams encountered (count + 1) (bytes ++ rest)
  | laterSentinel {count : ℕ} {bytes rest : List UInt8} :
    ParamBytes bytes → CutParams true count rest →
    CutParams false (count + 1) (ELEMENT_TYPE_SENTINEL :: (bytes ++ rest))

theorem CutParams.ne_nil {e : Bool} {count : ℕ} (h : CutParams e count bytes) : bytes ≠ [] := by
  cases h with
  | param h => exact h.ne_nil
  | sentinel => exact List.cons_ne_nil _ _
  | later _ hparam => exact fun h => hparam.ne_nil (List.append_eq_nil_iff.1 h).1
  | laterSentinel => exact List.cons_ne_nil _ _

theorem over_parseSentinel {e : Bool} (hcur : cur < pbEnd) :
    ¬ Over (parseSentinel e) mem pbEnd cur := by
  rw [parseSentinel, over_bind, over_deref]
  rintro (h | ⟨_, _, hb, h⟩)
  · omega
  · split at h
    · split at h
      · exact over_fail h
      · simp at h
    · exact over_pure h

theorem cutParams_of_over {count : ℕ} {e : Bool} (hcur : cur ≤ pbEnd) (hfuel : pbEnd - cur < fuel)
    (h : Over (parseParams pbEnd fuel count e) mem pbEnd cur) :
    CutParams e count (seg mem cur pbEnd) := by
  induction count generalizing cur e with
  | zero => exact absurd h over_pure
  | succ count ih =>
    rw [parseParams, over_bind, or_iff_right over_cursor] at h
    obtain ⟨_, _, hc, h⟩ := h
    obtain ⟨rfl, rfl⟩ := ok_cursor.1 hc
    split at h
    · exact absurd h over_fail
    have hlt : cur < pbEnd := not_le.1 ‹_›
    rw [over_bind, or_iff_right (over_parseSentinel hlt)] at h
    obtain ⟨e', c, hs, h⟩ := h
    simp only [over_bind, over_cursor, over_pure, ok_cursor, and_false, exists_false, or_false,
      false_or] at h
    obtain ⟨_, _, ⟨rfl, rfl⟩, h⟩ := h
    rw [ok_parseSentinel] at hs
    split at hs
    · obtain ⟨rfl, rfl, rfl⟩ := hs
      rw [seg_cons hlt, ‹mem cur = _›]
      rcases h with h | ⟨⟨⟩, c', hp, _, _, ⟨rfl, rfl⟩, h⟩
      · exact .sentinel ((over_parseParam hlt (by omega)).1 h)
      · obtain ⟨hlt', hle, hparam⟩ := (ok_parseParam (by omega)).1 hp
        rw [← seg_append hlt'.le hle]
        exact .laterSentinel hparam (ih hle (by omega) h)
    · obtain ⟨rfl, rfl⟩ := hs
      rcases h with h | ⟨⟨⟩, c', hp, _, _, ⟨rfl, rfl⟩, h⟩
      · refine .param (((over_parseParam hcur hfuel).1 h).resolve_left ?_)
        rw [seg_cons hlt]
        exact List.cons_ne_nil _ _
      · obtain ⟨hlt', hle, hparam⟩ := (ok_parseParam hfuel).1 hp
        rw [← seg_append hlt'.le hle]
        refine .later ?_ hparam (ih hle (by omega) h)
        rw [seg_cons hlt', List.head?_cons]
        exact fun h => ‹¬ mem c = _› (Option.some.inj h)

/-- A parameter of the loop reads too far, or what comes behind it does. -/
theorem over_parseParams_succ {count c : ℕ} {e e' : Bool} (hlt : cur < pbEnd)
    (hs : Ok (parseSentinel e) mem cur e' c)
    (h : Over (parseParam pbEnd fuel) mem pbEnd c ∨ ∃ c', Ok (parseParam pbEnd fuel) mem c () c' ∧
      Over (parseParams pbEnd fuel count e') mem pbEnd c') :
    Over (parseParams pbEnd fuel (count + 1) e) mem pbEnd cur := by
  rw [parseParams, over_bind]
  refine .inr ⟨_, _, ok_cursor.2 ⟨rfl, rfl⟩, ?_⟩
  rw [if_neg (not_le.2 hlt), over_bind]
  refine .inr ⟨e', c, hs, over_bind.2 (.inr ⟨_, _, ok_cursor.2 ⟨rfl, rfl⟩, over_bind.2 ?_⟩)⟩
  rcases h with h | ⟨c', hok, h⟩
  · exact .inl h
  · refine .inr ⟨(), c', hok, over_bind.2 (.inr ⟨_, _, ok_cursor.2 ⟨rfl, rfl⟩, ?_⟩)⟩
    exact over_bind.2 (.inl h)

theorem ok_parseSentinel_of_ne {e : Bool} (h : mem cur ≠ ELEMENT_TYPE_SENTINEL) :
    Ok (parseSentinel e) mem cur e cur := by
  rw [ok_parseSentinel, if_neg h]
  exact ⟨rfl, rfl⟩

theorem ok_parseSentinel_of_eq (h : mem cur = ELEMENT_TYPE_SENTINEL) :
    Ok (parseSentinel false) mem cur true (cur + 1) := by
  rw [ok_parseSentinel, if_pos h]
  exact ⟨rfl, rfl, rfl⟩

theorem over_of_cutParams {count : ℕ} {e : Bool} (h : CutParams e count bytes)
    (hseg : seg mem cur pbEnd = bytes) (hcur : cur ≤ pbEnd) (hfuel : pbEnd - cur < fuel) :
    Over (parseParams pbEnd fuel count e) mem pbEnd cur := by
  have hlt := lt_of_seg_ne_nil (hseg ▸ h.ne_nil)
  induction h generalizing cur with
  | param h =>
    have hne : mem cur ≠ ELEMENT_TYPE_SENTINEL := by
      rw [← hseg, seg_cons hlt] at h
      rcases h.head with h | h | h <;> rw [h] <;> decide
    refine over_parseParams_succ hlt (ok_parseSentinel_of_ne hne) (.inl ?_)
    exact (over_parseParam hcur hfuel).2 (.inr (hseg ▸ h))
  | sentinel h =>
    obtain ⟨-, hsentinel, rfl⟩ := seg_eq_cons hseg hcur
    refine over_parseParams_succ hlt (ok_parseSentinel_of_eq hsentinel) (.inl ?_)
    exact (over_parseParam hlt (by omega)).2 h
  | @later e count bytes rest hhead hparam hrest ih =>
    obtain ⟨hle, hbytes, hseg'⟩ := seg_eq_append hseg hcur
    have hlt' := lt_of_seg_ne_nil (hbytes ▸ hparam.ne_nil)
    have hne : mem cur ≠ ELEMENT_TYPE_SENTINEL := by
      intro h
      rw [← hbytes, seg_cons hlt', List.head?_cons, h] at hhead
      exact hhead rfl
    refine over_parseParams_succ hlt (ok_parseSentinel_of_ne hne) (.inr ⟨cur + bytes.length, ?_, ?_⟩)
    · exact (ok_parseParam hfuel).2 ⟨hlt', hle, by rwa [hbytes]⟩
    · exact ih hseg' hle (by omega) (lt_of_seg_ne_nil (hseg' ▸ hrest.ne_nil))
  | @laterSentinel count bytes rest hparam hrest ih =>
    obtain ⟨-, hsentinel, hseg⟩ := seg_eq_cons hseg hcur
    obtain ⟨hle, hbytes, hseg'⟩ := seg_eq_append hseg hlt
    have hlt' := lt_of_seg_ne_nil (hbytes ▸ hparam.ne_nil)
    refine over_parseParams_succ hlt (ok_parseSentinel_of_eq hsentinel)
      (.inr ⟨cur + 1 + bytes.length, ?_, ?_⟩)
    · exact (ok_parseParam (by omega)).2 ⟨hlt', hle, by rwa [hbytes]⟩
    · exact ih hseg' hle (by omega) (lt_of_seg_ne_nil (hseg' ▸ hrest.ne_nil))

theorem over_parseParams {count : ℕ} {e : Bool} (hcur : cur ≤ pbEnd) (hfuel : pbEnd - cur < fuel) :
    Over (parseParams pbEnd fuel count e) mem pbEnd cur ↔ CutParams e count (seg mem cur pbEnd) :=
  ⟨cutParams_of_over hcur hfuel, fun h => over_of_cutParams h rfl hcur hfuel⟩

/-- A signature that ends after the number of parameters, after a `SENTINEL`, or after an
`SZARRAY` in a type. -/
inductive CutSignature : List UInt8 → Prop
  | ret {convention : UInt8} {typeArguments count last : List UInt8} {g n : ℕ} :
    TypeArguments convention typeArguments g → Number count n → last = [] ∨ CutParam last →
    CutSignature (convention :: (typeArguments ++ (count ++ last)))
  | params {convention : UInt8} {typeArguments count ret last : List UInt8} {g n : ℕ} :
    TypeArguments convention typeArguments g → Number count n → RetBytes ret →
    CutParams false n last →
    CutSignature (convention :: (typeArguments ++ (count ++ (ret ++ last))))

theorem within_parseTypeArguments : Within (parseTypeArguments pbEnd b) mem pbEnd cur :=
  Within.ite (fun _ => within_parseNumber) fun _ => Within.pure

theorem over_tryParse : Over (tryParse len) mem len 0 ↔ CutSignature (seg mem 0 len) := by
  simp only [tryParse, tryParseWith, over_bind, within_parseByte.not_over, ok_parseByte,
    within_parseTypeArguments.not_over, within_parseNumber.not_over, over_cursor, over_pure,
    ok_cursor, false_or, and_false, exists_false, or_false]
  constructor
  · rintro ⟨b, _, ⟨hlen, rfl, rfl⟩, g, c1, hg, n, c2, hn, _, _, ⟨rfl, rfl⟩, h⟩
    obtain ⟨hle1, hend1, hg⟩ := (ok_parseTypeArguments hlen).1 hg
    obtain ⟨hlt2, hend2, hn⟩ := ok_parseNumber.1 hn
    rw [seg_cons hlen, ← seg_append hle1 hend1, ← seg_append hlt2.le hend2]
    rcases h with h | ⟨⟨⟩, c3, hret, _, _, ⟨rfl, rfl⟩, h⟩
    · exact .ret hg hn ((over_parseRetType hend2 (by omega)).1 h)
    · obtain ⟨hlt3, hend3, hret⟩ := (ok_parseRetType (by omega)).1 hret
      rw [← seg_append hlt3.le hend3]
      exact .params hg hn hret ((over_parseParams hend3 (by omega)).1 h)
  · intro h
    generalize hbytes : seg mem 0 len = bytes at h
    cases h with
    | @ret convention typeArguments count last g n hg hn hlast =>
      obtain ⟨hlt0, hb, hok1, hok2, hle2, hseg⟩ := ok_header hg hn hbytes le_rfl
      refine ⟨_, _, ⟨hlt0, hb, rfl⟩, g, _, hok1, n, _, hok2, _, _, ⟨rfl, rfl⟩, .inl ?_⟩
      rw [over_parseRetType hle2 (by omega), hseg]
      exact hlast
    | @params convention typeArguments count ret last g n hg hn hret hlast =>
      obtain ⟨hlt0, hb, hok1, hok2, hle2, hseg⟩ := ok_header hg hn hbytes le_rfl
      obtain ⟨hle3, hseg3, hrest⟩ := seg_eq_append hseg hle2
      have hpos := List.length_pos_iff.2 hret.ne_nil
      have hok3 : Ok (parseRetType len len) mem (1 + typeArguments.length + count.length) ()
          (1 + typeArguments.length + count.length + ret.length) :=
        (ok_parseRetType (by omega)).2 ⟨by omega, by omega, by rwa [hseg3]⟩
      refine ⟨_, _, ⟨hlt0, hb, rfl⟩, g, _, hok1, n, _, hok2, _, _, ⟨rfl, rfl⟩, .inr ⟨(), _, hok3, _, _,
        ⟨rfl, rfl⟩, ?_⟩⟩
      rw [over_parseParams hle3 (by omega), hrest]
      exact hlast

/-! ## Fuel -/

theorem not_stuck_parseType (hfuel : pbEnd - cur < fuel) : ¬ Stuck (parseType pbEnd fuel) mem cur := by
  induction fuel generalizing cur with
  | zero => omega
  | succ fuel ih =>
    rw [parseType_succ, stuck_bind, or_iff_right within_parseByte.2]
    rintro ⟨b, _, hb, h⟩
    obtain ⟨hlt, rfl, rfl⟩ := ok_parseByte.1 hb
    split at h
    · exact stuck_fail h
    split at h
    · simp [within_parseTypeDefOrRefEncoded.2] at h
    split at h
    · simp only [stuck_bind, stuck_deref, ok_deref, false_or] at h
      obtain ⟨_, _, ⟨rfl, rfl⟩, h⟩ := h
      split at h
      · exact stuck_fail h
      · exact ih (by omega) h
    split at h
    · rw [stuck_bind, or_iff_right within_parseByte.2] at h
      obtain ⟨b, _, hb, h⟩ := h
      obtain ⟨hlt2, rfl, rfl⟩ := ok_parseByte.1 hb
      split at h
      · simp only [stuck_bind, within_parseTypeDefOrRefEncoded.2, within_parseNumber.2, false_or,
          ok_parseTypeDefOrRefEncoded, ok_parseNumber] at h
        obtain ⟨_, c1, ⟨n, hcur1, -⟩, m, c2, ⟨hcur2, -⟩, h⟩ := h
        refine stuck_times (fun c => cur < c) ?_ ?_ (by omega) h
        · exact fun c hc => ih (by omega)
        · exact fun c c' hc hok => hc.trans (typeBytes_of_ok hok).1
      · exact stuck_fail h
    split at h
    · simp [within_parseNumber.2] at h
    · exact stuck_pure h

theorem not_stuck_parseByRefType (hfuel : pbEnd - cur < fuel) :
    ¬ Stuck (parseByRefType pbEnd fuel) mem cur := by
  rw [parseByRefType, stuck_bind, or_iff_right stuck_deref]
  rintro ⟨_, _, hb, h⟩
  obtain ⟨rfl, rfl⟩ := ok_deref.1 hb
  split at h
  · rw [stuck_bind, or_iff_right stuck_skip] at h
    obtain ⟨_, _, hskip, h⟩ := h
    obtain rfl := ok_skip.1 hskip
    exact not_stuck_parseType (by omega) h
  · exact not_stuck_parseType hfuel h

theorem not_stuck_parseSupported {p : Parser Unit} (hp : ¬ Stuck p mem cur) :
    ¬ Stuck (parseSupported pbEnd p) mem cur := by
  rw [parseSupported, stuck_bind, or_iff_right stuck_deref]
  rintro ⟨_, _, hb, h⟩
  obtain ⟨rfl, rfl⟩ := ok_deref.1 hb
  split at h
  · exact stuck_fail h
  rw [stuck_bind, or_iff_right stuck_cursor] at h
  obtain ⟨_, _, hc, h⟩ := h
  obtain ⟨rfl, rfl⟩ := ok_cursor.1 hc
  split at h
  · exact stuck_fail h
  rw [stuck_bind, or_iff_right stuck_deref] at h
  obtain ⟨_, _, hb, h⟩ := h
  obtain ⟨rfl, rfl⟩ := ok_deref.1 hb
  split at h
  · exact stuck_fail h
  · exact hp h

theorem not_stuck_parseRetType (hfuel : pbEnd - cur < fuel) :
    ¬ Stuck (parseRetType pbEnd fuel) mem cur := by
  refine not_stuck_parseSupported ?_
  rw [stuck_bind, or_iff_right stuck_deref]
  rintro ⟨_, _, hb, h⟩
  obtain ⟨rfl, rfl⟩ := ok_deref.1 hb
  split at h
  · exact stuck_skip h
  · exact not_stuck_parseByRefType hfuel h

theorem not_stuck_parseSentinel {e : Bool} : ¬ Stuck (parseSentinel e) mem cur := by
  rw [parseSentinel, stuck_bind, or_iff_right stuck_deref]
  rintro ⟨_, _, hb, h⟩
  split at h
  · split at h
    · exact stuck_fail h
    · simp at h
  · exact stuck_pure h

theorem not_stuck_parseParams {count : ℕ} {e : Bool} (hfuel : pbEnd - cur < fuel) :
    ¬ Stuck (parseParams pbEnd fuel count e) mem cur := by
  induction count generalizing cur e with
  | zero => exact stuck_pure
  | succ count ih =>
    rw [parseParams, stuck_bind, or_iff_right stuck_cursor]
    rintro ⟨_, _, hc, h⟩
    obtain ⟨rfl, rfl⟩ := ok_cursor.1 hc
    split at h
    · exact stuck_fail h
    rw [stuck_bind, or_iff_right not_stuck_parseSentinel] at h
    obtain ⟨e', c, hs, h⟩ := h
    have hle : cur ≤ c := by
      rw [ok_parseSentinel] at hs
      split at hs <;> omega
    simp only [stuck_bind, stuck_cursor, stuck_pure, ok_cursor, and_false, exists_false,
      or_false, false_or] at h
    obtain ⟨_, _, ⟨rfl, rfl⟩, h | ⟨⟨⟩, c', hp, _, _, ⟨rfl, rfl⟩, h⟩⟩ := h
    · exact not_stuck_parseSupported (not_stuck_parseByRefType (by omega)) h
    · obtain ⟨hlt, -⟩ := (ok_parseParam (by omega)).1 hp
      exact ih (by omega) h

/-- The nesting never outruns the length of the signature. -/
theorem not_stuck_tryParse : ¬ Stuck (tryParse len) mem 0 := by
  simp only [tryParse, tryParseWith, stuck_bind, within_parseByte.2, ok_parseByte,
    within_parseTypeArguments.2, within_parseNumber.2, stuck_cursor, stuck_pure, ok_cursor,
    false_or, and_false, exists_false, or_false]
  rintro ⟨b, _, ⟨hlen, rfl, rfl⟩, g, c1, hg, n, c2, hn, _, _, ⟨rfl, rfl⟩, h⟩
  obtain ⟨hle1, -⟩ := (ok_parseTypeArguments hlen).1 hg
  obtain ⟨hlt2, hend2, -⟩ := ok_parseNumber.1 hn
  rcases h with h | ⟨⟨⟩, c3, hret, _, _, ⟨rfl, rfl⟩, h⟩
  · exact not_stuck_parseRetType (by omega) h
  · obtain ⟨hlt3, -⟩ := (ok_parseRetType (by omega)).1 hret
    exact not_stuck_parseParams (by omega) h

/-! ## The bounds -/

/-- Some longer buffer that starts the same way is a signature, and ends behind `len`. -/
def EndsEarly (mem : ℕ → UInt8) (len : ℕ) : Prop :=
  ∃ (longer : ℕ → UInt8) (len' cur : ℕ) (sig : FunctionMethodSignature),
    (∀ i < len, longer i = mem i) ∧ len < cur ∧ Ok (tryParse len') longer 0 sig cur

theorem failed_of_endsEarly (h : EndsEarly mem len) : (tryParse len mem 0).2 = .failed := by
  obtain ⟨longer, len', cur, sig, hagree, hlt, hok⟩ := h
  rcases hout : (tryParse len mem 0).2 with ⟨sig', cur'⟩ | _ | _
  · obtain ⟨hle', hbytes'⟩ := ok_tryParse.1 hout
    obtain ⟨hle, -⟩ := ok_tryParse.1 hok
    have hseg : seg mem 0 cur' = seg longer 0 cur' := by
      refine List.map_congr_left fun i hi => (hagree i ?_).symm
      rw [List.mem_range'_1] at hi
      omega
    have hok' : Ok (tryParse len') longer 0 sig' cur' :=
      ok_tryParse.2 ⟨by omega, hseg ▸ hbytes'⟩
    have hcur := (Ok.unique hok hok').2
    omega
  · rfl
  · exact absurd hout not_stuck_tryParse

/-- The parser stays inside the buffer, and fails where the buffer ends too early, exactly
when the buffer is not a signature cut short where the parser does not look for the end. -/
theorem tryParse_inside_iff (mem : ℕ → UInt8) (len : ℕ) :
    ((∀ i, Reads (tryParse len) mem 0 i → i < len) ∧
      (EndsEarly mem len → (tryParse len mem 0).2 = .failed)) ↔ ¬ CutSignature (seg mem 0 len) := by
  rw [← over_tryParse, Over, not_exists, and_iff_left failed_of_endsEarly]
  refine forall_congr' fun i => ?_
  rw [not_and', not_le]

/-- Two bytes: the default calling convention and no parameters. -/
theorem tryParse_reads_behind : ¬ ∀ (mem : ℕ → UInt8) (len : ℕ),
    (∀ i, Reads (tryParse len) mem 0 i → i < len) ∧
      (EndsEarly mem len → (tryParse len mem 0).2 = .failed) := by
  intro h
  have hread : Reads (tryParse 2) (fun _ => 0) 0 2 := by
    show 2 ∈ _
    decide
  exact absurd ((h (fun _ => 0) 2).1 2 hread) (lt_irrefl 2)

end DdTrace.Signature
