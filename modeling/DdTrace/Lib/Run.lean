import Mathlib.Data.List.Induction

/-!
# Runs of a step relation

`Run R s is t`: the labelled steps `is` lead from `s` to `t` under
`R : σ → ι → σ → Prop`. A fallible step function `f` is the relation
`stepOf f`. `EachState` and `EachStep` quantify over the states a run passes
through and over its steps; `Run.invariant` packages the induction from a step
lemma to a run lemma, `Run.total` the same for runs that must also exist.
-/

namespace DdTrace.Lib

variable {σ ι : Type*} {R : σ → ι → σ → Prop} {s t u : σ} {i : ι} {is js : List ι}

inductive Run (R : σ → ι → σ → Prop) : σ → List ι → σ → Prop where
  | nil (s : σ) : Run R s [] s
  | cons {s t u : σ} {i : ι} {is : List ι} : R s i t → Run R t is u → Run R s (i :: is) u

/-- The step relation of a fallible step function. -/
def stepOf (f : σ → ι → Option σ) (s : σ) (i : ι) (t : σ) : Prop := f s i = some t

@[simp] theorem run_nil_iff : Run R s [] t ↔ s = t :=
  ⟨fun h => by cases h; rfl, fun h => h ▸ .nil s⟩

@[simp] theorem run_cons_iff : Run R s (i :: is) u ↔ ∃ t, R s i t ∧ Run R t is u :=
  ⟨fun h => by cases h with | cons h1 h2 => exact ⟨_, h1, h2⟩, fun ⟨_, h1, h2⟩ => .cons h1 h2⟩

theorem run_append_iff : Run R s (is ++ js) u ↔ ∃ t, Run R s is t ∧ Run R t js u := by
  induction is generalizing s with
  | nil => simp
  | cons i is ih =>
    simp only [List.cons_append, run_cons_iff, ih]
    exact ⟨fun ⟨a, h, t, h1, h2⟩ => ⟨t, ⟨a, h, h1⟩, h2⟩, fun ⟨t, ⟨a, h, h1⟩, h2⟩ => ⟨a, h, t, h1, h2⟩⟩

theorem run_snoc_iff : Run R s (is ++ [i]) u ↔ ∃ t, Run R s is t ∧ R t i u := by
  simp [run_append_iff]

/-- A fallible step function, run on a list of labels. -/
theorem run_of_foldlM {f : σ → ι → Option σ} (h : is.foldlM f s = some t) :
    Run (stepOf f) s is t := by
  induction is generalizing s with
  | nil => exact run_nil_iff.2 (Option.some.inj h)
  | cons i is ih =>
    rw [List.foldlM_cons] at h
    obtain ⟨u, hu, h⟩ := Option.bind_eq_some_iff.1 h
    exact .cons hu (ih h)

/-- Every state the run passes through, its first and last included, satisfies `P`. -/
def EachState (R : σ → ι → σ → Prop) (P : σ → Prop) (s : σ) (is : List ι) : Prop :=
  ∀ pre post t, is = pre ++ post → Run R s pre t → P t

/-- Every step the run takes satisfies `C` (of the state before it and its label). -/
def EachStep (R : σ → ι → σ → Prop) (C : σ → ι → Prop) (s : σ) (is : List ι) : Prop :=
  ∀ pre i post t, is = pre ++ i :: post → Run R s pre t → C t i

/-- Whether all the steps of a fallible step function meet `C`. -/
def checkSteps (f : σ → ι → Option σ) (C : σ → ι → Bool) : σ → List ι → Bool
  | _, [] => true
  | s, i :: is => C s i && (f s i).all fun t => checkSteps f C t is

variable {P : σ → Prop} {C : σ → ι → Prop}

@[simp] theorem eachState_nil : EachState R P s [] ↔ P s := by
  constructor
  · intro h
    exact h [] [] s rfl (.nil s)
  · intro h pre post t e hr
    obtain ⟨rfl, rfl⟩ := List.append_eq_nil_iff.1 e.symm
    rw [← run_nil_iff.1 hr]
    exact h

theorem eachState_cons :
    EachState R P s (i :: is) ↔ P s ∧ ∀ t, R s i t → EachState R P t is := by
  constructor
  · intro h
    refine ⟨h [] (i :: is) s rfl (.nil s), fun t ht pre post u e hr => ?_⟩
    exact h (i :: pre) post u (by rw [e]; rfl) (.cons ht hr)
  · rintro ⟨hs, h⟩ pre post u e hr
    cases pre with
    | nil => rw [← run_nil_iff.1 hr]; exact hs
    | cons j pre =>
      obtain ⟨rfl, rfl⟩ := List.cons_eq_cons.1 e
      obtain ⟨t, ht, hr⟩ := run_cons_iff.1 hr
      exact h t ht pre post u rfl hr

@[simp] theorem eachStep_nil : EachStep R C s [] := by
  intro pre i post t e
  simp at e

theorem eachStep_cons :
    EachStep R C s (i :: is) ↔ C s i ∧ ∀ t, R s i t → EachStep R C t is := by
  constructor
  · intro h
    refine ⟨h [] i is s rfl (.nil s), fun t ht pre j post u e hr => ?_⟩
    exact h (i :: pre) j post u (by rw [e]; rfl) (.cons ht hr)
  · rintro ⟨hs, h⟩ pre j post u e hr
    cases pre with
    | nil =>
      obtain ⟨rfl, rfl⟩ := List.cons_eq_cons.1 e
      rw [← run_nil_iff.1 hr]
      exact hs
    | cons k pre =>
      obtain ⟨rfl, rfl⟩ := List.cons_eq_cons.1 e
      obtain ⟨t, ht, hr⟩ := run_cons_iff.1 hr
      exact h t ht pre j post u rfl hr

theorem eachStep_of_check {f : σ → ι → Option σ} {C : σ → ι → Bool}
    (h : checkSteps f C s is = true) : EachStep (stepOf f) (fun s i => C s i = true) s is := by
  induction is generalizing s with
  | nil => exact eachStep_nil
  | cons i is ih =>
    rw [checkSteps, Bool.and_eq_true] at h
    refine eachStep_cons.2 ⟨h.1, fun t ht => ih ?_⟩
    have ht : f s i = some t := ht
    rw [ht] at h
    exact h.2

/-- From a step lemma to a run lemma: an invariant kept by the steps that meet `C`
holds after every run whose steps all meet it. -/
theorem Run.invariant {I : σ → Prop} (hstep : ∀ s i t, I s → C s i → R s i t → I t)
    (h : Run R s is t) (hC : EachStep R C s is) (hs : I s) : I t := by
  induction h with
  | nil => exact hs
  | cons h1 _ ih =>
    obtain ⟨hc, hC⟩ := eachStep_cons.1 hC
    exact ih (hC _ h1) (hstep _ _ _ hs hc h1)

theorem EachState.of_invariant {I : σ → Prop}
    (hstep : ∀ s i t, I s → C s i → R s i t → I t) (hP : ∀ s, I s → P s)
    (hC : EachStep R C s is) (hs : I s) : EachState R P s is := by
  intro pre post t e hr
  refine hP t (hr.invariant hstep ?_ hs)
  intro p i q u e' hu
  exact hC p i (q ++ post) u (by rw [e, e']; simp) hu

/-- Runs that cannot get stuck: if every step of an invariant state exists and keeps the
invariant, every list of labels has a run. -/
theorem Run.total {I : σ → Prop} (hstep : ∀ s i, I s → ∃ t, R s i t ∧ I t)
    (hs : I s) (is : List ι) : ∃ t, Run R s is t ∧ I t := by
  induction is generalizing s with
  | nil => exact ⟨s, .nil s, hs⟩
  | cons i is ih =>
    obtain ⟨t, ht, hi⟩ := hstep s i hs
    obtain ⟨u, hu, hi⟩ := ih hi
    exact ⟨u, .cons ht hu, hi⟩

/-- If along the labels `is`, in states that meet the invariant of the labels so far, a
step keeps `P` when it meets `C` and can lose it otherwise, then `P` holds throughout the
run exactly when all its steps meet `C`. -/
theorem eachState_iff_eachStep {I : List ι → σ → Prop}
    (hkeep : ∀ pre i post s t, is = pre ++ i :: post → I pre s → P s → C s i → R s i t →
      I (pre ++ [i]) t ∧ P t)
    (hlose : ∀ pre i post s, is = pre ++ i :: post → I pre s → P s → ¬ C s i →
      ∃ t, R s i t ∧ ¬ P t)
    (hs : I [] s) (hp : P s) : EachState R P s is ↔ EachStep R C s is := by
  -- generalise to a suffix of the labels, with the invariant of what precedes it
  suffices H : ∀ post pre s, is = pre ++ post → I pre s → P s →
      (EachState R P s post ↔ EachStep R C s post) from H is [] s rfl hs hp
  intro post
  induction post with
  | nil => intro pre s _ _ hp; simp [hp]
  | cons i post ih =>
    intro pre s e hs hp
    rw [eachState_cons, eachStep_cons]
    by_cases hc : C s i
    · refine ⟨fun ⟨_, h⟩ => ⟨hc, fun t ht => ?_⟩, fun ⟨_, h⟩ => ⟨hp, fun t ht => ?_⟩⟩
      all_goals
        obtain ⟨hi, hp'⟩ := hkeep pre i post s t e hs hp hc ht
        have hiff := ih (pre ++ [i]) t (by rw [e]; simp) hi hp'
      · exact hiff.1 (h t ht)
      · exact hiff.2 (h t ht)
    · obtain ⟨t, ht, hn⟩ := hlose pre i post s e hs hp hc
      exact ⟨fun ⟨_, h⟩ => absurd (h t ht [] post t rfl (.nil t)) hn, fun ⟨h, _⟩ => absurd h hc⟩

end DdTrace.Lib
