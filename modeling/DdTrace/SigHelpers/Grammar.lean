import DdTrace.SigHelpers.Parser
import DdTrace.Signature.Grammar

/-!
# What the parser of types takes

`TypeBytes`, `MethodBytes` and their like are the grammar of the code: `ParseType` succeeds
between two addresses exactly when the bytes between them are `TypeBytes`. It is the grammar
in the comments of the code, but there is no `I` and no `U` in it, and the signature behind
`FNPTR` has no calling convention unless that is `GENERIC` alone.
-/

namespace DdTrace.SigHelpers

open Lib Lib.Reader Signature

variable {cur cur' fuel n k : ℕ} {mem : ℕ → UInt8} {b : UInt8} {u : Unit} {found good : Prop}
  {bytes rest mods type : List UInt8} {p : Parser Unit}

/-! ## Numbers -/

/-- `CorSigUncompressData` in terms of the byte it starts with. -/
theorem corSigUncompressData_eq : corSigUncompressData = (do
    let b1 ← deref
    if b1 < 0x80 then do
      skip
      return b1.toNat
    else if b1 < 0xC0 then do
      skip
      let b2 ← deref
      skip
      return ofBigEndian [b1, b2] - 2 ^ 15
    else if b1 < 0xE0 then do
      skip
      let b2 ← deref
      skip
      let b3 ← deref
      skip
      let b4 ← deref
      skip
      return ofBigEndian [b1, b2, b3, b4] - (2 ^ 31 + 2 ^ 30)
    else fail) := by
  unfold corSigUncompressData
  congr 1
  funext b1
  by_cases h80 : b1 < 0x80
  · rw [if_pos ((and_0x80 b1).2 h80), if_pos h80]
  rw [if_neg h80, if_neg (mt (and_0x80 b1).1 h80)]
  by_cases hc0 : b1 < 0xC0
  · simp only [if_pos ((and_0xC0 b1 h80).2 hc0), if_pos hc0, value_two h80 hc0]
  rw [if_neg hc0, if_neg (mt (and_0xC0 b1 h80).1 hc0)]
  by_cases he0 : b1 < 0xE0
  · simp only [if_pos ((and_0xE0 b1 hc0).2 he0), if_pos he0, value_four hc0 he0]
  · rw [if_neg he0, if_neg (mt (and_0xE0 b1 hc0).1 he0)]

theorem takes_parseNumber (h : Number bytes n) : Takes True parseNumber bytes n := by
  unfold parseNumber
  rw [corSigUncompressData_eq]
  unfold Number at h
  cases bytes with
  | nil => cases h
  | cons b1 bytes =>
    refine Takes.deref ?_
    simp only [uncompress] at h
    by_cases h80 : b1 < 0x80
    · rw [if_pos h80] at h ⊢
      obtain ⟨rfl, rfl⟩ := Prod.mk.inj (Option.some.inj h)
      exact Takes.skip takes_pure
    rw [if_neg h80] at h ⊢
    by_cases hc0 : b1 < 0xC0
    · rw [if_pos hc0] at h ⊢
      cases bytes with
      | nil => cases h
      | cons b2 bytes =>
        obtain ⟨rfl, rfl⟩ := Prod.mk.inj (Option.some.inj h)
        exact Takes.skip (Takes.deref (Takes.skip takes_pure))
    rw [if_neg hc0] at h ⊢
    by_cases he0 : b1 < 0xE0
    · rw [if_pos he0] at h ⊢
      rcases bytes with - | ⟨b2, - | ⟨b3, - | ⟨b4, bytes⟩⟩⟩
      · cases h
      · cases h
      · cases h
      · obtain ⟨rfl, rfl⟩ := Prod.mk.inj (Option.some.inj h)
        refine Takes.skip (Takes.deref (Takes.skip (Takes.deref (Takes.skip ?_))))
        exact Takes.deref (Takes.skip takes_pure)
    · rw [if_neg he0] at h
      cases h

theorem number_of_ok (h : Ok parseNumber mem cur n cur') :
    cur < cur' ∧ Number (seg mem cur cur') n := by
  unfold parseNumber at h
  rw [corSigUncompressData_eq, ok_bind] at h
  obtain ⟨b1, _, hb, h⟩ := h
  obtain ⟨rfl, rfl⟩ := ok_deref.1 hb
  split at h
  · simp only [ok_bind, ok_skip, ok_pure] at h
    obtain ⟨_, _, rfl, rfl, rfl⟩ := h
    refine ⟨Nat.lt_succ_self _, ?_⟩
    rw [Number, seg_succ, uncompress_one ‹_›]
  split at h
  · simp only [ok_bind, ok_skip, ok_deref, ok_pure] at h
    obtain ⟨_, _, rfl, _, _, ⟨rfl, rfl⟩, _, _, rfl, rfl, rfl⟩ := h
    refine ⟨by omega, ?_⟩
    rw [Number, seg_cons (by omega), seg_succ, uncompress_two ‹_› ‹_›]
  split at h
  · simp only [ok_bind, ok_skip, ok_deref, ok_pure] at h
    obtain ⟨_, _, rfl, _, _, ⟨rfl, rfl⟩, _, _, rfl, _, _, ⟨rfl, rfl⟩, _, _, rfl, _, _, ⟨rfl, rfl⟩,
      _, _, rfl, rfl, rfl⟩ := h
    refine ⟨by omega, ?_⟩
    rw [Number, seg_cons (by omega), seg_cons (by omega), seg_cons (by omega), seg_succ,
      uncompress_four ‹_› ‹_›]
  · exact absurd h ok_fail

theorem takes_parseTypeDefOrRefEncoded (h : Number bytes n) :
    Takes True parseTypeDefOrRefEncoded bytes () := by
  have := Takes.then (f := fun _ => pure ()) (takes_parseNumber h) takes_pure
  rwa [List.append_nil] at this

theorem takes_parseSize (h : Number bytes n) : Takes True parseSize bytes () :=
  takes_parseTypeDefOrRefEncoded h

theorem number_of_ok_parseSize (h : Ok parseSize mem cur u cur') :
    cur < cur' ∧ ∃ n, Number (seg mem cur cur') n := by
  simp only [parseSize, ok_bind, ok_pure] at h
  obtain ⟨n, _, hn, -, rfl⟩ := h
  exact (number_of_ok hn).imp_right fun hn => ⟨n, hn⟩

/-! ## Custom modifiers -/

/-- The bytes of custom modifiers, one behind the other. -/
inductive Mods : List UInt8 → Prop
  | nil : Mods []
  | cons {b : UInt8} {token mods : List UInt8} {n : ℕ} :
    isCustomMod b → Number token n → Mods mods → Mods (b :: (token ++ mods))

theorem takes_parseCustomMod (hb : isCustomMod b) (h : Number bytes n) :
    Takes True parseCustomMod (b :: bytes) () := by
  refine Takes.deref ?_
  rw [if_pos hb]
  exact Takes.skip (takes_parseTypeDefOrRefEncoded h)

theorem ok_parseOptionalCustomMods (h : Mods mods) (hseg : seg mem cur (cur + mods.length) = mods)
    (hb : ¬ isCustomMod (mem (cur + mods.length))) (hfuel : mods.length < fuel) :
    Ok (parseOptionalCustomMods fuel) mem cur u cur' ↔ cur' = cur + mods.length := by
  induction h generalizing cur fuel with
  | nil =>
    obtain ⟨fuel, rfl⟩ := Nat.exists_eq_add_of_lt hfuel
    rw [List.length_nil, Nat.add_zero] at hb
    simp only [parseOptionalCustomMods, ok_bind, ok_deref]
    constructor
    · rintro ⟨_, _, ⟨rfl, rfl⟩, h⟩
      rw [if_neg hb] at h
      exact (ok_pure.1 h).2.symm
    · rintro rfl
      refine ⟨_, _, ⟨rfl, rfl⟩, ?_⟩
      rw [if_neg hb]
      exact ok_pure.2 ⟨rfl, rfl⟩
  | @cons b token mods n hmod htoken _ ih =>
    obtain ⟨fuel, rfl⟩ := Nat.exists_eq_add_of_lt hfuel
    have hfuel' : mods.length < (b :: (token ++ mods)).length + fuel := by
      simp only [List.length_cons, List.length_append]
      omega
    have htake := takes_parseCustomMod hmod htoken
    obtain ⟨hhead, htail⟩ := @seg_append_split _ mem cur (b :: token) mods hseg
    have hlen : cur + (b :: (token ++ mods)).length = cur + (b :: token).length + mods.length := by
      simp only [List.length_cons, List.length_append]
      omega
    rw [hlen] at hb ⊢
    rw [← ih htail hb hfuel']
    simp only [parseOptionalCustomMods, ok_bind, ok_deref]
    have hcur := (seg_cons_split hhead).1
    constructor
    · rintro ⟨_, _, ⟨rfl, rfl⟩, h⟩
      rw [if_pos (hcur ▸ hmod), ok_bind] at h
      obtain ⟨_, _, hok, h⟩ := h
      obtain ⟨-, -, rfl⟩ := (htake mem cur hhead _ _).1 hok
      exact h
    · intro h
      refine ⟨_, _, ⟨rfl, rfl⟩, ?_⟩
      rw [if_pos (hcur ▸ hmod), ok_bind]
      exact ⟨_, _, htake.ok hhead, h⟩

/-- Custom modifiers end where something else begins. -/
theorem takes_mods {f : Unit → Parser Unit} (h : Mods mods) (hb : ¬ isCustomMod b)
    (hfuel : mods.length < fuel) (hf : Takes good (f ()) (b :: rest) ()) :
    Takes good (parseOptionalCustomMods fuel >>= f) (mods ++ b :: rest) () := by
  intro mem cur hseg x cur'
  obtain ⟨h1, h2⟩ := seg_append_split hseg
  have hok : ∀ u cur₁, Ok (parseOptionalCustomMods fuel) mem cur u cur₁ ↔
      cur₁ = cur + mods.length := by
    intro u cur₁
    refine ok_parseOptionalCustomMods h h1 ?_ hfuel
    rwa [(seg_cons_split h2).1]
  have htake := hf mem _ h2 x cur'
  rw [Nat.add_assoc, ← List.length_append] at htake
  rw [ok_bind, ← htake]
  constructor
  · rintro ⟨_, _, hmods, hrest⟩
    rwa [(hok _ _).1 hmods] at hrest
  · exact fun hrest => ⟨(), _, (hok _ _).2 rfl, hrest⟩

theorem mods_of_ok (h : Ok (parseOptionalCustomMods fuel) mem cur u cur') :
    cur ≤ cur' ∧ Mods (seg mem cur cur') ∧ ¬ isCustomMod (mem cur') := by
  induction fuel generalizing cur with
  | zero => exact absurd h ok_outOfFuel
  | succ fuel ih =>
    simp only [parseOptionalCustomMods, ok_bind, ok_deref] at h
    obtain ⟨_, _, ⟨rfl, rfl⟩, h⟩ := h
    split at h
    · rename_i hmod
      simp only [parseCustomMod, ok_bind, ok_deref] at h
      obtain ⟨_, _, ⟨_, _, ⟨rfl, rfl⟩, hm⟩, hrest⟩ := h
      rw [if_pos hmod] at hm
      simp only [parseTypeDefOrRefEncoded, ok_bind, ok_skip, ok_pure] at hm
      obtain ⟨_, _, rfl, n, _, hn, -, rfl⟩ := hm
      obtain ⟨hlt, hn⟩ := number_of_ok hn
      obtain ⟨hle, hmods, hb⟩ := ih hrest
      refine ⟨by omega, ?_, hb⟩
      rw [seg_cons (by omega), ← seg_append hlt.le hle]
      exact .cons hmod hn hmods
    · obtain ⟨-, rfl⟩ := ok_pure.1 h
      refine ⟨le_rfl, ?_, ‹_›⟩
      rw [seg_self]
      exact .nil

/-! ## The grammar -/

/-- The bytes of an array's rank, sizes and lower bounds. -/
inductive ShapeBytes : List UInt8 → Prop
  | mk {rank numsizes numlobounds : List UInt8} {sizes loBounds : List (List UInt8)} {r : ℕ} :
    Number rank r → Number numsizes sizes.length → (∀ size ∈ sizes, ∃ n, Number size n) →
    Number numlobounds loBounds.length → (∀ bound ∈ loBounds, ∃ n, Number bound n) →
    ShapeBytes (rank ++ (numsizes ++ (sizes.flatten ++ (numlobounds ++ loBounds.flatten))))

mutual

/-- The bytes of one type. -/
inductive TypeBytes : List UInt8 → Prop
  | simple {b : UInt8} : isSimple b → TypeBytes [b]
  | token {b : UInt8} {token : List UInt8} {n : ℕ} :
    IsClassOrValueType b → Number token n → TypeBytes (b :: token)
  | ptr {mods type : List UInt8} :
    Mods mods → TypeBytes type → TypeBytes (ELEMENT_TYPE_PTR :: (mods ++ type))
  | fnPtr {method : List UInt8} : MethodBytes method → TypeBytes (ELEMENT_TYPE_FNPTR :: method)
  | array {elem shape : List UInt8} :
    TypeBytes elem → ShapeBytes shape → TypeBytes (ELEMENT_TYPE_ARRAY :: (elem ++ shape))
  | szArray {mods elem : List UInt8} :
    Mods mods → TypeBytes elem → TypeBytes (ELEMENT_TYPE_SZARRAY :: (mods ++ elem))
  | genericInst {b : UInt8} {token number args : List UInt8} {n count : ℕ} :
    IsClassOrValueType b → Number token n → Number number count → TypesBytes count args →
    TypeBytes (ELEMENT_TYPE_GENERICINST :: b :: (token ++ (number ++ args)))
  | variable {b : UInt8} {number : List UInt8} {n : ℕ} :
    IsVariable b → Number number n → TypeBytes (b :: number)

/-- The bytes of a number of types. -/
inductive TypesBytes : ℕ → List UInt8 → Prop
  | nil : TypesBytes 0 []
  | cons {type types : List UInt8} {count : ℕ} :
    TypeBytes type → TypesBytes count types → TypesBytes (count + 1) (type ++ types)

/-- The bytes of a parameter, or of a return type: `VOID` is among the types. -/
inductive ParamBytes : List UInt8 → Prop
  | type {mods type : List UInt8} : Mods mods → TypeBytes type → ParamBytes (mods ++ type)
  | byRef {mods type : List UInt8} :
    Mods mods → TypeBytes type → ParamBytes (mods ++ ELEMENT_TYPE_BYREF :: type)
  | typedByRef {mods : List UInt8} : Mods mods → ParamBytes (mods ++ [ELEMENT_TYPE_TYPEDBYREF])

/-- The bytes of a number of parameters, a sentinel among them unless there was one before. -/
inductive ParamsBytes : Bool → ℕ → List UInt8 → Prop
  | nil {sentinelFound : Bool} : ParamsBytes sentinelFound 0 []
  | cons {sentinelFound : Bool} {param params : List UInt8} {count : ℕ} :
    ParamBytes param → ParamsBytes sentinelFound count params →
    ParamsBytes sentinelFound (count + 1) (param ++ params)
  | sentinel {param params : List UInt8} {count : ℕ} :
    ParamBytes param → ParamsBytes true count params →
    ParamsBytes false (count + 1) (ELEMENT_TYPE_SENTINEL :: (param ++ params))

/-- The bytes of a method signature: `GENERIC` and its count, or no calling convention. -/
inductive MethodBytes : List UInt8 → Prop
  | generic {generics number ret params : List UInt8} {n count : ℕ} :
    Number generics n → Number number count → ParamBytes ret → ParamsBytes false count params →
    MethodBytes (IMAGE_CEE_CS_CALLCONV_GENERIC :: (generics ++ (number ++ (ret ++ params))))
  | plain {number ret params : List UInt8} {count : ℕ} :
    number.head? ≠ some IMAGE_CEE_CS_CALLCONV_GENERIC → Number number count → ParamBytes ret →
    ParamsBytes false count params → MethodBytes (number ++ (ret ++ params))

end

/-- What a type begins with is none of what the parser looks for before one. -/
def Begins (b : UInt8) : Prop :=
  ¬ isCustomMod b ∧ b ∉ [ELEMENT_TYPE_TYPEDBYREF, ELEMENT_TYPE_BYREF, ELEMENT_TYPE_SENTINEL]

instance (b : UInt8) : Decidable (Begins b) := inferInstanceAs (Decidable (_ ∧ _))

theorem begins_of_simple (h : isSimple b) : Begins b := by
  unfold isSimple at h
  simp only [List.mem_cons, List.not_mem_nil, or_false] at h
  rcases h with rfl | rfl | rfl | rfl | rfl | rfl | rfl | rfl | rfl | rfl | rfl | rfl | rfl | rfl |
    rfl <;> decide

theorem begins_of_classOrValueType (h : IsClassOrValueType b) : Begins b := by
  rcases h with rfl | rfl <;> decide

theorem begins_of_variable (h : IsVariable b) : Begins b := by
  rcases h with rfl | rfl <;> decide

theorem TypeBytes.begins (h : TypeBytes bytes) : ∃ b rest, bytes = b :: rest ∧ Begins b := by
  cases h with
  | simple hb => exact ⟨_, _, rfl, begins_of_simple hb⟩
  | token hb _ => exact ⟨_, _, rfl, begins_of_classOrValueType hb⟩
  | «variable» hb _ => exact ⟨_, _, rfl, begins_of_variable hb⟩
  | ptr | fnPtr | array | szArray | genericInst => exact ⟨_, _, rfl, by decide⟩

/-! ## One rule for each function -/

theorem takes_parseByRefType (hb : b ≠ ELEMENT_TYPE_BYREF) (h : Takes good p (b :: rest) ()) :
    Takes good (parseByRefType p) (b :: rest) () := by
  refine Takes.deref ?_
  rw [if_neg hb]
  exact h

theorem takes_parseByRefType_byRef (h : Takes good p bytes ()) :
    Takes good (parseByRefType p) (ELEMENT_TYPE_BYREF :: bytes) () := by
  refine Takes.deref ?_
  rw [if_pos rfl]
  exact Takes.skip h

theorem takes_parseParam (hmods : Mods mods) (hfuel : mods.length < fuel) (hb : Begins b)
    (h : Takes good p (b :: rest) ()) : Takes good (parseParam fuel p) (mods ++ b :: rest) () := by
  obtain ⟨hmod, hnot⟩ := hb
  simp only [List.mem_cons, List.not_mem_nil, or_false, not_or] at hnot
  refine takes_mods hmods hmod hfuel (Takes.deref ?_)
  rw [if_neg hnot.1]
  exact takes_parseByRefType hnot.2.1 h

theorem takes_parseParam_byRef (hmods : Mods mods) (hfuel : mods.length < fuel)
    (h : Takes good p bytes ()) :
    Takes good (parseParam fuel p) (mods ++ ELEMENT_TYPE_BYREF :: bytes) () := by
  refine takes_mods hmods (by decide) hfuel (Takes.deref ?_)
  rw [if_neg (by decide)]
  exact takes_parseByRefType_byRef h

theorem takes_parseParam_typedByRef (hmods : Mods mods) (hfuel : mods.length < fuel) :
    Takes True (parseParam fuel p) (mods ++ [ELEMENT_TYPE_TYPEDBYREF]) () := by
  refine takes_mods hmods (by decide) hfuel (Takes.deref ?_)
  rw [if_pos rfl]
  exact takes_skip

/-- `VOID` is a type for `ParseType`. -/
theorem ok_parseType_void (h : mem cur = ELEMENT_TYPE_VOID) :
    Ok (parseType (fuel + 1)) mem cur u cur' ↔ Ok skip mem cur u cur' := by
  have hsimple : isSimple (mem cur) := by rw [h]; decide
  simp only [parseType, ok_bind, ok_deref, ok_skip]
  constructor
  · rintro ⟨_, _, ⟨rfl, rfl⟩, _, _, rfl, hok⟩
    rw [if_pos hsimple] at hok
    exact (ok_pure.1 hok).2
  · rintro rfl
    refine ⟨_, _, ⟨rfl, rfl⟩, (), _, rfl, ?_⟩
    rw [if_pos hsimple]
    exact ok_pure.2 ⟨rfl, rfl⟩

theorem ok_parseByRefType_void (h : mem cur = ELEMENT_TYPE_VOID) :
    Ok (parseByRefType p) mem cur u cur' ↔ Ok p mem cur u cur' := by
  simp only [parseByRefType, ok_bind, ok_deref]
  constructor
  · rintro ⟨_, _, ⟨rfl, rfl⟩, hok⟩
    rwa [h, if_neg (by decide)] at hok
  · intro hok
    refine ⟨_, _, ⟨rfl, rfl⟩, ?_⟩
    rwa [h, if_neg (by decide)]

/-- So a return type is read as a parameter is. -/
theorem ok_parseRetType : Ok (parseRetType fuel (parseType fuel)) mem cur u cur' ↔
    Ok (parseParam fuel (parseType fuel)) mem cur u cur' := by
  cases fuel with
  | zero => simp only [parseRetType, parseParam, parseOptionalCustomMods, ok_bind, ok_outOfFuel,
      false_and, exists_false]
  | succ fuel =>
    simp only [parseRetType, parseParam, ok_bind, ok_deref]
    refine exists_congr fun _ => exists_congr fun c => and_congr_right fun _ => ?_
    refine exists_congr fun b => exists_congr fun c' => and_congr_right ?_
    rintro ⟨rfl, rfl⟩
    by_cases htyped : mem c = ELEMENT_TYPE_TYPEDBYREF
    · rw [if_pos (.inl htyped), if_pos htyped]
    rw [if_neg htyped]
    by_cases hvoid : mem c = ELEMENT_TYPE_VOID
    · rw [if_pos (.inr hvoid), ok_parseByRefType_void hvoid, ok_parseType_void hvoid]
    · rw [if_neg (not_or.2 ⟨htyped, hvoid⟩)]

theorem takes_parseRetType (h : Takes good (parseParam fuel (parseType fuel)) bytes ()) :
    Takes good (parseRetType fuel (parseType fuel)) bytes () := by
  intro mem cur hseg u cur'
  rw [ok_parseRetType]
  exact h mem cur hseg u cur'

theorem takes_parseSentinel {e : Bool} (hb : b ≠ ELEMENT_TYPE_SENTINEL) {f : Bool → Parser Unit}
    (h : Takes good (f e) (b :: rest) ()) :
    Takes good (parseSentinel e >>= f) (b :: rest) () := by
  intro mem cur hseg u cur'
  have hcur := (seg_cons_split hseg).1
  rw [ok_bind, ← h mem cur hseg u cur']
  constructor
  · rintro ⟨e', _, hs, hok⟩
    rw [ok_parseSentinel, hcur, if_neg hb] at hs
    obtain ⟨rfl, rfl⟩ := hs
    exact hok
  · intro hok
    refine ⟨e, cur, ?_, hok⟩
    rw [ok_parseSentinel, hcur, if_neg hb]
    exact ⟨rfl, rfl⟩

theorem takes_parseSentinel_sentinel : Takes True (parseSentinel false) [ELEMENT_TYPE_SENTINEL] true := by
  intro mem cur hseg e cur'
  have hcur := (seg_cons_split hseg).1
  rw [ok_parseSentinel, hcur, if_pos rfl]
  exact and_congr_left' (iff_of_true rfl trivial)

theorem takes_params_cons {good' : Prop} {e : Bool} (hb : b ≠ ELEMENT_TYPE_SENTINEL)
    (hparam : Takes good (parseParam fuel p) (b :: rest) ())
    (hparams : good → Takes good' (parseParams fuel p n e) bytes ()) :
    Takes (good ∧ good') (parseParams fuel p (n + 1) e) (b :: rest ++ bytes) () :=
  takes_parseSentinel hb (hparam.bind hparams)

theorem takes_params_sentinel {good' : Prop} {param : List UInt8}
    (hparam : Takes good (parseParam fuel p) param ())
    (hparams : good → Takes good' (parseParams fuel p n true) bytes ()) :
    Takes (good ∧ good') (parseParams fuel p (n + 1) false)
      (ELEMENT_TYPE_SENTINEL :: (param ++ bytes)) () :=
  takes_parseSentinel_sentinel.then (hparam.bind hparams)

theorem takes_parseGenericCount (h : Number bytes n) :
    Takes True parseGenericCount (IMAGE_CEE_CS_CALLCONV_GENERIC :: bytes) () := by
  refine Takes.deref ?_
  rw [if_pos rfl]
  exact Takes.skip (takes_parseSize h)

theorem takes_parseGenericCount_plain {f : Unit → Parser Unit}
    (hb : b ≠ IMAGE_CEE_CS_CALLCONV_GENERIC) (h : Takes good (f ()) (b :: rest) ()) :
    Takes good (parseGenericCount >>= f) (b :: rest) () := by
  intro mem cur hseg u cur'
  have hcur := (seg_cons_split hseg).1
  rw [ok_bind, ← h mem cur hseg u cur']
  simp only [parseGenericCount, ok_bind, ok_deref]
  constructor
  · rintro ⟨_, _, ⟨_, _, ⟨rfl, rfl⟩, hg⟩, hok⟩
    rw [hcur, if_neg hb] at hg
    obtain ⟨-, rfl⟩ := ok_pure.1 hg
    exact hok
  · intro hok
    refine ⟨(), cur, ⟨_, _, ⟨rfl, rfl⟩, ?_⟩, hok⟩
    rw [hcur, if_neg hb]
    exact ok_pure.2 ⟨rfl, rfl⟩

theorem takes_parseMethod {good' : Prop} {generics number ret params : List UInt8}
    (hgenerics : Number generics k) (hnumber : Number number n)
    (hret : Takes good (parseParam fuel (parseType fuel)) ret ())
    (hparams : good → Takes good' (parseParams fuel (parseType fuel) n false) params ()) :
    Takes (good ∧ good') (parseMethod fuel (parseType fuel))
      (IMAGE_CEE_CS_CALLCONV_GENERIC :: (generics ++ (number ++ (ret ++ params)))) () :=
  (takes_parseGenericCount hgenerics).then
    ((takes_parseNumber hnumber).then ((takes_parseRetType hret).bind hparams))

theorem takes_parseMethod_plain {number ret params : List UInt8}
    (hplain : number.head? ≠ some IMAGE_CEE_CS_CALLCONV_GENERIC) (hnumber : Number number n)
    (hret : Takes True (parseParam fuel (parseType fuel)) ret ())
    (hparams : Takes True (parseParams fuel (parseType fuel) n false) params ()) :
    Takes True (parseMethod fuel (parseType fuel)) (number ++ (ret ++ params)) () := by
  obtain ⟨b, rest, rfl⟩ := List.exists_cons_of_ne_nil hnumber.ne_nil
  refine takes_parseGenericCount_plain (fun hb => hplain (congrArg some hb)) ?_
  exact (takes_parseNumber hnumber).then ((takes_parseRetType hret).then hparams)

theorem takes_parseArrayShape (h : ShapeBytes bytes) : Takes True parseArrayShape bytes () := by
  obtain ⟨hrank, hnumsizes, hsizes, hnumlobounds, hloBounds⟩ := h
  refine (takes_parseNumber hrank).then ((takes_parseNumber hnumsizes).then ?_)
  refine Takes.then (takes_times fun size hsize => ?_) ((takes_parseNumber hnumlobounds).then ?_)
  · obtain ⟨_, hn⟩ := hsizes size hsize
    exact takes_parseSize hn
  · refine takes_times fun bound hbound => ?_
    obtain ⟨_, hn⟩ := hloBounds bound hbound
    exact takes_parseSize hn

/-! ## One rule for each element type -/

theorem takes_simple (hb : isSimple b) : Takes True (parseType (fuel + 1)) [b] () := by
  refine Takes.deref (Takes.skip ?_)
  rw [if_pos hb]
  exact takes_pure

theorem takes_token (hb : IsClassOrValueType b) (h : Number bytes n) :
    Takes True (parseType (fuel + 1)) (b :: bytes) () := by
  refine Takes.deref (Takes.skip ?_)
  rcases hb with rfl | rfl
  · exact takes_parseTypeDefOrRefEncoded h
  · exact takes_parseTypeDefOrRefEncoded h

theorem takes_variable (hb : IsVariable b) (h : Number bytes n) :
    Takes True (parseType (fuel + 1)) (b :: bytes) () := by
  refine Takes.deref (Takes.skip ?_)
  rcases hb with rfl | rfl
  · exact takes_parseSize h
  · exact takes_parseSize h

/-- No case of the `switch`. -/
theorem takes_native (hb : b = ELEMENT_TYPE_I ∨ b = ELEMENT_TYPE_U) :
    Takes False (parseType (fuel + 1)) [b] () := by
  refine Takes.deref (Takes.skip ?_)
  rcases hb with rfl | rfl
  · exact takes_fail
  · exact takes_fail

theorem takes_ptr (hmods : Mods mods) (hfuel : mods.length < fuel) (hb : ¬ isCustomMod b)
    (h : Takes good (parseType fuel) (b :: rest) ()) :
    Takes good (parseType (fuel + 1)) (ELEMENT_TYPE_PTR :: (mods ++ b :: rest)) () := by
  refine Takes.deref (Takes.skip (takes_mods hmods hb hfuel ?_))
  intro mem cur hseg u cur'
  rw [← h mem cur hseg u cur', ok_bind]
  obtain ⟨fuel, rfl⟩ := Nat.exists_eq_add_of_lt hfuel
  simp only [ok_deref]
  have hok : Ok (if mem cur = ELEMENT_TYPE_VOID then skip else parseType (mods.length + fuel + 1))
      mem cur u cur' ↔ Ok (parseType (mods.length + fuel + 1)) mem cur u cur' := by
    split
    · exact (ok_parseType_void ‹_›).symm
    · rfl
  rw [← hok]
  constructor
  · rintro ⟨_, _, ⟨rfl, rfl⟩, h⟩
    exact h
  · exact fun h => ⟨_, _, ⟨rfl, rfl⟩, h⟩

theorem takes_szArray (hmods : Mods mods) (hfuel : mods.length < fuel) (hb : ¬ isCustomMod b)
    (h : Takes good (parseType fuel) (b :: rest) ()) :
    Takes good (parseType (fuel + 1)) (ELEMENT_TYPE_SZARRAY :: (mods ++ b :: rest)) () :=
  Takes.deref (Takes.skip (takes_mods hmods hb hfuel h))

theorem takes_fnPtr (h : Takes good (parseMethod fuel (parseType fuel)) bytes ()) :
    Takes good (parseType (fuel + 1)) (ELEMENT_TYPE_FNPTR :: bytes) () :=
  Takes.deref (Takes.skip h)

theorem takes_array (h : Takes good (parseType fuel) bytes ()) (hshape : ShapeBytes rest) :
    Takes good (parseType (fuel + 1)) (ELEMENT_TYPE_ARRAY :: (bytes ++ rest)) () := by
  refine Takes.deref (Takes.skip ?_)
  exact (h.bind fun _ => takes_parseArrayShape hshape).congr (iff_of_eq (and_true good))

theorem takes_genericInst {token number : List UInt8} (hb : IsClassOrValueType b)
    (htoken : Number token k) (hnumber : Number number n)
    (h : Takes good (times (parseType fuel) n) bytes ()) :
    Takes good (parseType (fuel + 1))
      (ELEMENT_TYPE_GENERICINST :: b :: (token ++ (number ++ bytes))) () := by
  refine Takes.deref (Takes.skip (Takes.deref ?_))
  rw [if_neg]
  · refine Takes.skip ((takes_parseTypeDefOrRefEncoded htoken).then ?_)
    exact (takes_parseNumber hnumber).then h
  · exact fun hnot => hb.elim hnot.2 hnot.1

/-! ## Completeness -/

theorem TypeBytes.length_pos (h : TypeBytes bytes) : 0 < bytes.length := by
  obtain ⟨b, rest, rfl, -⟩ := h.begins
  exact Nat.succ_pos _

theorem ParamBytes.head (h : ParamBytes bytes) :
    ∃ b rest, bytes = b :: rest ∧ b ≠ ELEMENT_TYPE_SENTINEL := by
  have hmods : ∀ {mods rest : List UInt8} {b : UInt8}, Mods mods → b ≠ ELEMENT_TYPE_SENTINEL →
      ∃ b' rest', mods ++ b :: rest = b' :: rest' ∧ b' ≠ ELEMENT_TYPE_SENTINEL := by
    intro mods rest b h hb
    cases h with
    | nil => exact ⟨b, rest, rfl, hb⟩
    | cons hmod _ _ => exact ⟨_, _, rfl, by rcases hmod with rfl | rfl <;> decide⟩
  cases h with
  | type h ht =>
    obtain ⟨b, rest, rfl, -, hb⟩ := ht.begins
    exact hmods h fun hs => hb (by rw [hs]; decide)
  | byRef h _ => exact hmods h (by decide)
  | typedByRef h => exact hmods h (by decide)

mutual

theorem takes_parseType : ∀ {bytes : List UInt8} {fuel : ℕ}, TypeBytes bytes →
    bytes.length ≤ fuel + 1 → Takes True (parseType (fuel + 1)) bytes ()
  | _, _, .simple hb, _ => takes_simple hb
  | _, _, .token hb hn, _ => takes_token hb hn
  | _, _, .variable hb hn, _ => takes_variable hb hn
  | _, fuel, @TypeBytes.ptr mods type hmods ht, hle => by
    have hpos := ht.length_pos
    simp only [List.length_cons, List.length_append] at hle
    obtain ⟨k, rfl⟩ := Nat.exists_eq_add_of_lt (by omega : mods.length < fuel)
    have htake := @takes_parseType _ (mods.length + k) ht (by omega)
    obtain ⟨b, rest, rfl, hb⟩ := ht.begins
    exact takes_ptr hmods (by omega) hb.1 htake
  | _, fuel, @TypeBytes.szArray mods elem hmods ht, hle => by
    have hpos := ht.length_pos
    simp only [List.length_cons, List.length_append] at hle
    obtain ⟨k, rfl⟩ := Nat.exists_eq_add_of_lt (by omega : mods.length < fuel)
    have htake := @takes_parseType _ (mods.length + k) ht (by omega)
    obtain ⟨b, rest, rfl, hb⟩ := ht.begins
    exact takes_szArray hmods (by omega) hb.1 htake
  | _, fuel, .fnPtr h, hle => takes_fnPtr (takes_method h (Nat.le_of_succ_le_succ hle))
  | _, fuel, @TypeBytes.array elem shape ht hshape, hle => by
    have hpos := ht.length_pos
    simp only [List.length_cons, List.length_append] at hle
    obtain ⟨k, rfl⟩ := Nat.exists_eq_add_of_lt (by omega : 0 < fuel)
    exact takes_array (takes_parseType ht (by omega)) hshape
  | _, fuel, @TypeBytes.genericInst b token number args n count hb htoken hnumber hargs, hle => by
    simp only [List.length_cons, List.length_append] at hle
    exact takes_genericInst hb htoken hnumber (takes_types hargs (by omega))

theorem takes_types : ∀ {bytes : List UInt8} {count fuel : ℕ}, TypesBytes count bytes →
    bytes.length ≤ fuel → Takes True (times (parseType fuel) count) bytes ()
  | _, _, _, .nil, _ => takes_pure
  | _, _, fuel, @TypesBytes.cons type types count ht hts, hle => by
    have hpos := ht.length_pos
    rw [List.length_append] at hle
    obtain ⟨k, rfl⟩ := Nat.exists_eq_add_of_lt (by omega : 0 < fuel)
    exact (takes_parseType ht (by omega)).then (takes_types hts (by omega))

theorem takes_param : ∀ {bytes : List UInt8} {fuel : ℕ}, ParamBytes bytes → bytes.length ≤ fuel →
    Takes True (parseParam fuel (parseType fuel)) bytes ()
  | _, fuel, @ParamBytes.type mods type hmods ht, hle => by
    have hpos := ht.length_pos
    rw [List.length_append] at hle
    obtain ⟨k, rfl⟩ := Nat.exists_eq_add_of_lt (by omega : mods.length < fuel)
    have htake := @takes_parseType _ (mods.length + k) ht (by omega)
    obtain ⟨b, rest, rfl, hb⟩ := ht.begins
    exact takes_parseParam hmods (by omega) hb htake
  | _, fuel, @ParamBytes.byRef mods type hmods ht, hle => by
    rw [List.length_append, List.length_cons] at hle
    obtain ⟨k, rfl⟩ := Nat.exists_eq_add_of_lt (by omega : mods.length < fuel)
    exact takes_parseParam_byRef hmods (by omega) (takes_parseType ht (by omega))
  | _, fuel, @ParamBytes.typedByRef mods hmods, hle => by
    rw [List.length_append, List.length_singleton] at hle
    exact takes_parseParam_typedByRef hmods (by omega)

theorem takes_params : ∀ {bytes : List UInt8} {e : Bool} {count fuel : ℕ},
    ParamsBytes e count bytes → bytes.length ≤ fuel →
    Takes True (parseParams fuel (parseType fuel) count e) bytes ()
  | _, _, _, _, .nil, _ => takes_pure
  | _, e, _, fuel, @ParamsBytes.cons _ param params count hp hps, hle => by
    rw [List.length_append] at hle
    have htake := @takes_param _ fuel hp (by omega)
    have htakes := @takes_params _ _ _ fuel hps (by omega)
    obtain ⟨b, rest, rfl, hb⟩ := hp.head
    exact (takes_params_cons hb htake fun _ => htakes).congr (iff_of_eq (true_and True))
  | _, _, _, fuel, @ParamsBytes.sentinel param params count hp hps, hle => by
    rw [List.length_cons, List.length_append] at hle
    have htake := @takes_param _ fuel hp (by omega)
    have htakes := @takes_params _ _ _ fuel hps (by omega)
    exact (takes_params_sentinel htake fun _ => htakes).congr (iff_of_eq (true_and True))

theorem takes_method : ∀ {bytes : List UInt8} {fuel : ℕ}, MethodBytes bytes →
    bytes.length ≤ fuel → Takes True (parseMethod fuel (parseType fuel)) bytes ()
  | _, fuel, @MethodBytes.generic generics number ret params n count hg hn hr hps, hle => by
    simp only [List.length_cons, List.length_append] at hle
    have hret := @takes_param _ fuel hr (by omega)
    have hparams := @takes_params _ _ _ fuel hps (by omega)
    exact (takes_parseMethod hg hn hret fun _ => hparams).congr (iff_of_eq (true_and True))
  | _, fuel, @MethodBytes.plain number ret params count hplain hn hr hps, hle => by
    simp only [List.length_append] at hle
    have hret := @takes_param _ fuel hr (by omega)
    have hparams := @takes_params _ _ _ fuel hps (by omega)
    exact takes_parseMethod_plain hplain hn hret hparams

end

/-! ## Soundness -/

/-- What `p` consumes is a type. -/
def TakesTypes (mem : ℕ → UInt8) (p : Parser Unit) : Prop :=
  ∀ cur u cur', Ok p mem cur u cur' → cur < cur' ∧ TypeBytes (seg mem cur cur')

theorem paramBytes_of_ok (hp : TakesTypes mem p) (h : Ok (parseParam fuel p) mem cur u cur') :
    cur < cur' ∧ ParamBytes (seg mem cur cur') := by
  simp only [parseParam, ok_bind, ok_deref] at h
  obtain ⟨_, c, hmods, _, _, ⟨rfl, rfl⟩, h⟩ := h
  obtain ⟨hle, hmods, -⟩ := mods_of_ok hmods
  split at h
  · rename_i htyped
    obtain rfl := ok_skip.1 h
    refine ⟨by omega, ?_⟩
    rw [← seg_append hle (Nat.le_succ c), seg_succ, htyped]
    exact .typedByRef hmods
  simp only [parseByRefType, ok_bind, ok_deref] at h
  obtain ⟨_, _, ⟨rfl, rfl⟩, h⟩ := h
  split at h
  · rename_i hbyRef
    simp only [ok_bind, ok_skip] at h
    obtain ⟨_, _, rfl, h⟩ := h
    obtain ⟨hlt, ht⟩ := hp _ _ _ h
    refine ⟨by omega, ?_⟩
    rw [← seg_append hle (by omega), seg_cons (a := c) (by omega), hbyRef]
    exact .byRef hmods ht
  · obtain ⟨hlt, ht⟩ := hp _ _ _ h
    refine ⟨by omega, ?_⟩
    rw [← seg_append hle hlt.le]
    exact .type hmods ht

theorem paramsBytes_of_ok {e : Bool} (hp : TakesTypes mem p)
    (h : Ok (parseParams fuel p n e) mem cur u cur') :
    cur ≤ cur' ∧ ParamsBytes e n (seg mem cur cur') := by
  induction n generalizing cur e with
  | zero =>
    obtain ⟨-, rfl⟩ := ok_pure.1 h
    refine ⟨le_rfl, ?_⟩
    rw [seg_self]
    exact .nil
  | succ n ih =>
    simp only [parseParams, ok_bind] at h
    obtain ⟨e', c, hs, _, c', hparam, hparams⟩ := h
    obtain ⟨hlt, hparam⟩ := paramBytes_of_ok hp hparam
    obtain ⟨hle, hparams⟩ := ih hparams
    rw [ok_parseSentinel] at hs
    split at hs
    · rename_i hsentinel
      obtain ⟨rfl, rfl, rfl⟩ := hs
      refine ⟨by omega, ?_⟩
      rw [seg_cons (by omega), ← seg_append hlt.le hle, hsentinel]
      exact .sentinel hparam hparams
    · obtain ⟨rfl, rfl⟩ := hs
      refine ⟨by omega, ?_⟩
      rw [← seg_append hlt.le hle]
      exact .cons hparam hparams

theorem methodBytes_of_ok (hp : TakesTypes mem (parseType fuel))
    (h : Ok (parseMethod fuel (parseType fuel)) mem cur u cur') :
    cur < cur' ∧ MethodBytes (seg mem cur cur') := by
  simp only [parseMethod, ok_bind] at h
  obtain ⟨_, c1, hgeneric, n, c2, hn, _, c3, hret, hparams⟩ := h
  obtain ⟨hlt2, hn⟩ := number_of_ok hn
  obtain ⟨hlt3, hret⟩ := paramBytes_of_ok hp (ok_parseRetType.1 hret)
  obtain ⟨hle, hparams⟩ := paramsBytes_of_ok hp hparams
  have hrest : seg mem c1 cur' = seg mem c1 c2 ++ (seg mem c2 c3 ++ seg mem c3 cur') := by
    rw [seg_append hlt3.le hle, seg_append hlt2.le (by omega)]
  simp only [parseGenericCount, ok_bind, ok_deref] at hgeneric
  obtain ⟨_, _, ⟨rfl, rfl⟩, hgeneric⟩ := hgeneric
  split at hgeneric
  · rename_i hb
    simp only [ok_bind, ok_skip, ok_pure] at hgeneric
    obtain ⟨_, _, rfl, k, _, hk, -, rfl⟩ := hgeneric
    obtain ⟨hlt1, hk⟩ := number_of_ok hk
    refine ⟨by omega, ?_⟩
    rw [seg_cons (by omega), ← seg_append hlt1.le (by omega), hrest, hb]
    exact .generic hk hn hret hparams
  · rename_i hb
    obtain ⟨-, rfl⟩ := ok_pure.1 hgeneric
    refine ⟨by omega, ?_⟩
    rw [hrest]
    refine .plain ?_ hn hret hparams
    rw [seg_cons hlt2]
    exact fun h => hb (Option.some.inj h)

theorem sizes_of_ok (h : Ok (times parseSize n) mem cur () cur') : cur ≤ cur' ∧
    ∃ sizes : List (List UInt8), sizes.length = n ∧ (∀ size ∈ sizes, ∃ k, Number size k) ∧
      seg mem cur cur' = sizes.flatten := by
  have hsize : ∀ {a b : ℕ}, Ok parseSize mem a () b → a ≤ b ∧ True ∧ ∃ k, Number (seg mem a b) k :=
    fun hok => ⟨(number_of_ok_parseSize hok).1.le, trivial, (number_of_ok_parseSize hok).2⟩
  obtain ⟨hle, -, hsizes⟩ :=
    @ok_times_pieces _ _ _ _ _ _ (fun _ => True) (fun size => ∃ k, Number size k) hsize trivial h
  exact ⟨hle, hsizes⟩

theorem shapeBytes_of_ok (h : Ok parseArrayShape mem cur u cur') :
    cur < cur' ∧ ShapeBytes (seg mem cur cur') := by
  simp only [parseArrayShape, ok_bind] at h
  obtain ⟨r, c1, hr, n, c2, hn, _, c3, hs, m, c4, hm, hl⟩ := h
  obtain ⟨hlt1, hr⟩ := number_of_ok hr
  obtain ⟨hlt2, hn⟩ := number_of_ok hn
  obtain ⟨hle3, sizes, rfl, hs, hseg⟩ := sizes_of_ok hs
  obtain ⟨hlt4, hm⟩ := number_of_ok hm
  obtain ⟨hle5, bounds, rfl, hl, hseg'⟩ := sizes_of_ok hl
  refine ⟨by omega, ?_⟩
  rw [← seg_append hlt1.le (by omega), ← seg_append hlt2.le (by omega), ← seg_append hle3 (by omega),
    ← seg_append hlt4.le hle5, hseg, hseg']
  exact .mk hr hn hs hm hl

theorem typesBytes_of_ok (hp : TakesTypes mem p) (h : Ok (times p n) mem cur u cur') :
    cur ≤ cur' ∧ TypesBytes n (seg mem cur cur') := by
  induction n generalizing cur with
  | zero =>
    obtain ⟨-, rfl⟩ := ok_pure.1 h
    refine ⟨le_rfl, ?_⟩
    rw [seg_self]
    exact .nil
  | succ n ih =>
    rw [times, ok_bind] at h
    obtain ⟨_, c, ht, hts⟩ := h
    obtain ⟨hlt, ht⟩ := hp _ _ _ ht
    obtain ⟨hle, hts⟩ := ih hts
    refine ⟨by omega, ?_⟩
    rw [← seg_append hlt.le hle]
    exact .cons ht hts

theorem token_of_ok (h : Ok parseTypeDefOrRefEncoded mem cur u cur') :
    cur < cur' ∧ ∃ n, Number (seg mem cur cur') n :=
  number_of_ok_parseSize h

theorem typeBytes_of_ok (fuel : ℕ) : TakesTypes mem (parseType fuel) := by
  induction fuel with
  | zero => exact fun _ _ _ h => absurd h ok_outOfFuel
  | succ fuel ih =>
    intro cur u cur' h
    simp only [parseType, ok_bind, ok_deref, ok_skip] at h
    obtain ⟨_, _, ⟨rfl, rfl⟩, _, _, rfl, h⟩ := h
    split at h
    · obtain ⟨-, rfl⟩ := ok_pure.1 h
      refine ⟨Nat.lt_succ_self _, ?_⟩
      rw [seg_succ]
      exact .simple ‹_›
    split at h
    · rename_i hptr
      simp only [ok_bind, ok_deref] at h
      obtain ⟨_, c, hmods, _, _, ⟨rfl, rfl⟩, h⟩ := h
      obtain ⟨hle, hmods, -⟩ := mods_of_ok hmods
      have ht : c < cur' ∧ TypeBytes (seg mem c cur') := by
        split at h
        · rename_i hvoid
          obtain rfl := ok_skip.1 h
          rw [seg_succ, hvoid]
          exact ⟨Nat.lt_succ_self c, .simple (by decide)⟩
        · exact ih _ _ _ h
      refine ⟨by omega, ?_⟩
      rw [seg_cons (by omega), ← seg_append hle ht.1.le, hptr]
      exact .ptr hmods ht.2
    split at h
    · rename_i hclass
      obtain ⟨hlt, n, hn⟩ := token_of_ok h
      refine ⟨by omega, ?_⟩
      rw [seg_cons (by omega)]
      exact .token hclass.symm hn
    split at h
    · rename_i hfn
      obtain ⟨hlt, hmethod⟩ := methodBytes_of_ok ih h
      refine ⟨by omega, ?_⟩
      rw [seg_cons (by omega), hfn]
      exact .fnPtr hmethod
    split at h
    · rename_i harray
      rw [ok_bind] at h
      obtain ⟨_, c, ht, hshape⟩ := h
      obtain ⟨hlt, ht⟩ := ih _ _ _ ht
      obtain ⟨hlt', hshape⟩ := shapeBytes_of_ok hshape
      refine ⟨by omega, ?_⟩
      rw [seg_cons (by omega), ← seg_append hlt.le hlt'.le, harray]
      exact .array ht hshape
    split at h
    · rename_i hsz
      rw [ok_bind] at h
      obtain ⟨_, c, hmods, ht⟩ := h
      obtain ⟨hle, hmods, -⟩ := mods_of_ok hmods
      obtain ⟨hlt, ht⟩ := ih _ _ _ ht
      refine ⟨by omega, ?_⟩
      rw [seg_cons (by omega), ← seg_append hle hlt.le, hsz]
      exact .szArray hmods ht
    split at h
    · rename_i hinst
      simp only [ok_bind, ok_deref] at h
      obtain ⟨_, _, ⟨rfl, rfl⟩, h⟩ := h
      split at h
      · exact absurd h ok_fail
      rename_i hb
      simp only [ok_bind, ok_skip] at h
      obtain ⟨_, _, rfl, _, c1, htoken, n, c2, hn, hargs⟩ := h
      obtain ⟨hlt1, k, htoken⟩ := token_of_ok htoken
      obtain ⟨hlt2, hn⟩ := number_of_ok hn
      obtain ⟨hle, hargs⟩ := typesBytes_of_ok ih hargs
      refine ⟨by omega, ?_⟩
      rw [seg_cons (by omega), seg_cons (by omega), ← seg_append hlt1.le (by omega),
        ← seg_append hlt2.le hle, hinst]
      refine .genericInst ?_ htoken hn hargs
      rw [not_and_or, not_not, not_not] at hb
      exact hb.symm
    split at h
    · obtain ⟨hlt, n, hn⟩ := number_of_ok_parseSize h
      refine ⟨by omega, ?_⟩
      rw [seg_cons (by omega)]
      exact .variable ‹_› hn
    · exact absurd h ok_fail

/-- `ParseType` returns `true` with the cursor exactly behind the bytes, whatever follows them. -/
def Consumes (bytes : List UInt8) : Prop :=
  ∀ (mem : ℕ → UInt8) (cur : ℕ), seg mem cur (cur + bytes.length) = bytes →
    ∀ fuel, bytes.length ≤ fuel → Ok (parseType fuel) mem cur () (cur + bytes.length)

theorem consumes_iff : Consumes bytes ↔ TypeBytes bytes := by
  constructor
  · intro h
    have hseg : seg (fun i => bytes.getD i 0) 0 bytes.length = bytes :=
      seg_eq_of_getD fun _ _ => rfl
    have hok := h (fun i => bytes.getD i 0) 0 (by rwa [Nat.zero_add]) bytes.length le_rfl
    rw [Nat.zero_add] at hok
    rw [← hseg]
    exact (typeBytes_of_ok _ _ _ _ hok).2
  · intro h mem cur hseg fuel hle
    have hpos := h.length_pos
    obtain ⟨k, rfl⟩ := Nat.exists_eq_add_of_lt (by omega : 0 < fuel)
    exact (takes_parseType h (by omega)).ok hseg

end DdTrace.SigHelpers
