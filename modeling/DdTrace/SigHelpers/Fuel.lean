import DdTrace.SigHelpers.Grammar

/-!
# The parser of types has an end

The functions of `sig_helpers` know no end of the signature, but memory has one: where only
zeros are left, no type and no custom modifier begins. So as much fuel as memory is left is
enough for `ParseType`, whatever the bytes are.
-/

namespace DdTrace.SigHelpers

open Lib Lib.Reader Signature

variable {mem : ℕ → UInt8} {limit cur fuel n : ℕ} {p : Parser Unit}

/-- Only zeros are left from `limit` on. -/
def EndsAt (mem : ℕ → UInt8) (limit : ℕ) : Prop := ∀ i, limit ≤ i → mem i = 0

theorem EndsAt.lt (h : EndsAt mem limit) (hcur : mem cur ≠ 0) : cur < limit := by
  by_contra hle
  exact hcur (h cur (not_lt.1 hle))

/-- Fuel enough for what is left. -/
def Enough (limit fuel cur : ℕ) : Prop := limit - cur < fuel

theorem Enough.mono {cur' : ℕ} (h : Enough limit fuel cur) (hle : cur ≤ cur') :
    Enough limit fuel cur' := by
  unfold Enough at *
  omega

/-- One fuel for one byte. -/
theorem Enough.step {cur' : ℕ} (h : Enough limit (fuel + 1) cur) (hcur : cur < limit)
    (hlt : cur < cur') : Enough limit fuel cur' := by
  unfold Enough at *
  omega

/-! ## The parts that need no fuel -/

theorem not_stuck_parseNumber : ¬ Stuck parseNumber mem cur := by
  unfold parseNumber corSigUncompressData
  simp only [stuck_bind, stuck_deref, false_or, not_exists, not_and]
  intro b1 _ _
  split
  · simp
  split
  · simp
  split
  · simp
  · exact stuck_fail

theorem not_stuck_parseSize : ¬ Stuck parseSize mem cur := by
  simp [parseSize, not_stuck_parseNumber]

theorem not_stuck_parseCustomMod : ¬ Stuck parseCustomMod mem cur := by
  simp only [parseCustomMod, stuck_bind, stuck_deref, false_or, not_exists, not_and]
  intro b _ _
  split
  · simp only [stuck_bind, stuck_skip, false_or, not_exists, not_and]
    exact fun _ _ _ => not_stuck_parseSize
  · exact stuck_fail

theorem not_stuck_parseSentinel {found : Bool} : ¬ Stuck (parseSentinel found) mem cur := by
  simp only [parseSentinel, stuck_bind, stuck_deref, false_or, not_exists, not_and]
  intro b _ _
  split
  · cases found <;> simp
  · exact stuck_pure

theorem not_stuck_parseArrayShape : ¬ Stuck parseArrayShape mem cur := by
  have hsizes : ∀ {n cur}, ¬ Stuck (times parseSize n) mem cur :=
    stuck_times (fun _ => True) (fun _ _ => not_stuck_parseSize) (fun _ _ _ _ => trivial) trivial
  simp [parseArrayShape, not_stuck_parseNumber, hsizes]

/-! ## The loops and the nesting -/

theorem not_stuck_parseOptionalCustomMods (hmem : EndsAt mem limit) (h : Enough limit fuel cur) :
    ¬ Stuck (parseOptionalCustomMods fuel) mem cur := by
  induction fuel generalizing cur with
  | zero => exact absurd h (Nat.not_lt_zero _)
  | succ fuel ih =>
    simp only [parseOptionalCustomMods, stuck_bind, stuck_deref, false_or, not_exists, not_and,
      ok_deref]
    rintro _ _ ⟨rfl, rfl⟩
    by_cases hmod : isCustomMod (mem cur)
    · have hlt : cur < limit := hmem.lt fun h0 => by rw [h0] at hmod; revert hmod; decide
      rw [if_pos hmod, stuck_bind, not_or]
      refine ⟨not_stuck_parseCustomMod, ?_⟩
      rintro ⟨_, cur', hok, hstuck⟩
      simp only [parseCustomMod, ok_bind, ok_deref] at hok
      obtain ⟨_, _, ⟨rfl, rfl⟩, hok⟩ := hok
      rw [if_pos hmod, ok_bind] at hok
      obtain ⟨_, _, hskip, hok⟩ := hok
      have hmove := (number_of_ok_parseSize hok).1
      rw [ok_skip] at hskip
      exact ih (h.step hlt (by omega)) hstuck
    · rw [if_neg hmod]
      exact stuck_pure

/-- What the parsers that are given one ask of it. -/
def Ends (limit fuel : ℕ) (mem : ℕ → UInt8) (p : Parser Unit) : Prop :=
  ∀ cur, Enough limit fuel cur → ¬ Stuck p mem cur

theorem not_stuck_parseByRefType (hp : Ends limit fuel mem p) (h : Enough limit fuel cur) :
    ¬ Stuck (parseByRefType p) mem cur := by
  simp only [parseByRefType, stuck_bind, stuck_deref, false_or, not_exists, not_and, ok_deref]
  rintro _ _ ⟨rfl, rfl⟩
  split
  · simp only [stuck_bind, stuck_skip, false_or, not_exists, not_and, ok_skip]
    rintro _ _ rfl
    exact hp _ (h.mono (Nat.le_succ _))
  · exact hp _ h

/-- A look at what is behind custom modifiers. -/
theorem not_stuck_behindMods {f : UInt8 → Parser Unit} (hmem : EndsAt mem limit)
    (h : Enough limit fuel cur)
    (hf : ∀ cur, Enough limit fuel cur → ¬ Stuck (f (mem cur)) mem cur) :
    ¬ Stuck (do parseOptionalCustomMods fuel; f (← deref)) mem cur := by
  simp only [stuck_bind, stuck_deref, false_or, not_or, not_exists, not_and, ok_deref]
  refine ⟨not_stuck_parseOptionalCustomMods hmem h, ?_⟩
  rintro _ cur' hmods _ _ ⟨rfl, rfl⟩
  exact hf cur' (h.mono (mods_of_ok hmods).1)

theorem not_stuck_parseParam (hmem : EndsAt mem limit) (hp : Ends limit fuel mem p)
    (h : Enough limit fuel cur) : ¬ Stuck (parseParam fuel p) mem cur := by
  refine not_stuck_behindMods hmem h fun cur' h' => ?_
  split
  · exact stuck_skip
  · exact not_stuck_parseByRefType hp h'

theorem not_stuck_parseRetType (hmem : EndsAt mem limit) (hp : Ends limit fuel mem p)
    (h : Enough limit fuel cur) : ¬ Stuck (parseRetType fuel p) mem cur := by
  refine not_stuck_behindMods hmem h fun cur' h' => ?_
  split
  · exact stuck_skip
  · exact not_stuck_parseByRefType hp h'

theorem not_stuck_parseParams {found : Bool} (hmem : EndsAt mem limit)
    (hp : Ends limit fuel mem p) (htypes : TakesTypes mem p) (h : Enough limit fuel cur) :
    ¬ Stuck (parseParams fuel p n found) mem cur := by
  induction n generalizing cur found with
  | zero => exact stuck_pure
  | succ n ih =>
    simp only [parseParams, stuck_bind, not_or, not_exists, not_and]
    refine ⟨not_stuck_parseSentinel, fun found' c hs => ?_⟩
    have hc : cur ≤ c := by
      rw [ok_parseSentinel] at hs
      split at hs
      · omega
      · omega
    refine ⟨not_stuck_parseParam hmem hp (h.mono hc), fun _ c' hparam => ?_⟩
    have hlt := (paramBytes_of_ok htypes hparam).1
    exact ih (h.mono (by omega))

theorem not_stuck_parseMethod (hmem : EndsAt mem limit) (hp : Ends limit fuel mem (parseType fuel))
    (h : Enough limit fuel cur) : ¬ Stuck (parseMethod fuel (parseType fuel)) mem cur := by
  have hgeneric : ¬ Stuck parseGenericCount mem cur := by
    simp only [parseGenericCount, stuck_bind, stuck_deref, false_or, not_exists, not_and]
    intro b _ _
    split
    · simp [not_stuck_parseNumber]
    · exact stuck_pure
  simp only [parseMethod, stuck_bind, not_or, not_exists, not_and]
  refine ⟨hgeneric, fun _ c1 hok => ⟨not_stuck_parseNumber, fun n c2 hn => ?_⟩⟩
  have hle1 : cur ≤ c1 := by
    simp only [parseGenericCount, ok_bind, ok_deref] at hok
    obtain ⟨_, _, ⟨rfl, rfl⟩, hok⟩ := hok
    split at hok
    · simp only [ok_bind, ok_skip, ok_pure] at hok
      obtain ⟨_, _, rfl, k, _, hk, -, rfl⟩ := hok
      have := (number_of_ok hk).1
      omega
    · exact (ok_pure.1 hok).2.le
  have hlt2 := (number_of_ok hn).1
  refine ⟨not_stuck_parseRetType hmem hp (h.mono (by omega)), fun _ c3 hret => ?_⟩
  have hlt3 := (paramBytes_of_ok (typeBytes_of_ok fuel) (ok_parseRetType.1 hret)).1
  exact not_stuck_parseParams hmem hp (typeBytes_of_ok fuel) (h.mono (by omega))

theorem not_stuck_times (hp : Ends limit fuel mem (parseType fuel)) (h : Enough limit fuel cur) :
    ¬ Stuck (times (parseType fuel) n) mem cur :=
  stuck_times (Enough limit fuel) hp
    (fun cur cur' hcur hok => hcur.mono (typeBytes_of_ok fuel cur () cur' hok).1.le) h

theorem not_stuck_parseType (hmem : EndsAt mem limit) (h : Enough limit fuel cur) :
    ¬ Stuck (parseType fuel) mem cur := by
  induction fuel generalizing cur with
  | zero => exact absurd h (Nat.not_lt_zero _)
  | succ fuel ih =>
    by_cases hlt : cur < limit
    · have hends : Ends limit fuel mem (parseType fuel) := fun _ => ih
      have henough : Enough limit fuel (cur + 1) := h.step hlt (Nat.lt_succ_self _)
      simp only [parseType, stuck_bind, stuck_deref, stuck_skip, false_or, not_exists, not_and,
        ok_deref, ok_skip]
      rintro _ _ ⟨rfl, rfl⟩ _ _ rfl
      split
      · exact stuck_pure
      split
      · refine not_stuck_behindMods hmem henough fun cur' h' => ?_
        split
        · exact stuck_skip
        · exact ih h'
      split
      · exact not_stuck_parseSize
      split
      · exact not_stuck_parseMethod hmem hends henough
      split
      · simp only [stuck_bind, not_or, not_exists, not_and]
        exact ⟨ih henough, fun _ _ _ => not_stuck_parseArrayShape⟩
      split
      · simp only [stuck_bind, not_or, not_exists, not_and]
        refine ⟨not_stuck_parseOptionalCustomMods hmem henough, fun _ _ hmods => ?_⟩
        exact ih (henough.mono (mods_of_ok hmods).1)
      split
      · simp only [stuck_bind, stuck_deref, false_or, not_exists, not_and, ok_deref]
        rintro _ _ ⟨rfl, rfl⟩
        split
        · exact stuck_fail
        simp only [stuck_bind, stuck_skip, false_or, not_or, not_exists, not_and, ok_skip]
        rintro _ _ rfl
        refine ⟨not_stuck_parseSize, fun _ c1 htoken => ⟨not_stuck_parseNumber, fun n c2 hn => ?_⟩⟩
        have hlt1 := (token_of_ok htoken).1
        have hlt2 := (number_of_ok hn).1
        exact not_stuck_times hends (henough.mono (by omega))
      split
      · exact not_stuck_parseSize
      · exact stuck_fail
    · -- a zero begins no type
      have hzero : mem cur = 0 := hmem cur (not_lt.1 hlt)
      simp only [parseType, stuck_bind, stuck_deref, stuck_skip, false_or, not_exists, not_and,
        ok_deref, ok_skip]
      rintro _ _ ⟨rfl, rfl⟩ _ _ rfl
      rw [hzero]
      exact stuck_fail

end DdTrace.SigHelpers
