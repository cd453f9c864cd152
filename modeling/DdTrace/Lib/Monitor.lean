import DdTrace.Lib.Run

/-!
# Watched runs

A total step function run together with a monitor: state of our own that records
what the machine's environment did and that no step reads. `allows` is what the
environment keeps to; a label it does not allow has no step.
-/

namespace DdTrace.Lib

variable {σ ι γ : Type*}

structure Monitor (σ ι γ : Type*) where
  allows : γ → ι → Prop := fun _ _ => True
  /-- What is recorded of a step from a state of the machine. -/
  next : σ → ι → γ → γ

/-- A step of the machine and of its monitor. -/
def watch (f : σ → ι → σ) (M : Monitor σ ι γ) (w : σ × γ) (i : ι) (w' : σ × γ) : Prop :=
  M.allows w.2 i ∧ w' = (f w.1 i, M.next w.1 i w.2)

variable {f : σ → ι → σ} {M : Monitor σ ι γ} {w w' : σ × γ} {is : List ι}

theorem watch_of_allows {i : ι} (h : M.allows w.2 i) :
    watch f M w i (f w.1 i, M.next w.1 i w.2) := ⟨h, rfl⟩

/-- Where every label is allowed, a run of the labels exists and ends where the fold does. -/
theorem run_watch (h : ∀ g i, M.allows g i) (w : σ × γ) (is : List ι) :
    Run (watch f M) w is (is.foldl (fun w i => (f w.1 i, M.next w.1 i w.2)) w) := by
  induction is generalizing w with
  | nil => exact .nil w
  | cons i is ih => exact .cons (watch_of_allows (h _ _)) (ih _)

/-- Two conditions that agree in the states of an invariant agree on every run. -/
theorem eachStep_watch_congr {I : σ × γ → Prop} {C D : σ × γ → ι → Prop}
    (hstep : ∀ w i, I w → M.allows w.2 i → I (f w.1 i, M.next w.1 i w.2))
    (hiff : ∀ w i, I w → (C w i ↔ D w i)) (hw : I w) :
    EachStep (watch f M) C w is ↔ EachStep (watch f M) D w is := by
  have hkeep : ∀ pre t, Run (watch f M) w pre t → I t := by
    intro pre t hr
    induction hr with
    | nil => exact hw
    | cons h _ ih => exact ih (h.2 ▸ hstep _ _ hw h.1)
  refine ⟨fun h pre i post t e hr => ?_, fun h pre i post t e hr => ?_⟩
  · exact (hiff t i (hkeep pre t hr)).1 (h pre i post t e hr)
  · exact (hiff t i (hkeep pre t hr)).2 (h pre i post t e hr)

/-- If in the states of an invariant a step keeps `P` exactly when it meets `C`, then `P` holds
throughout a run exactly when all its steps meet `C`. -/
theorem eachState_watch_iff {I P : σ × γ → Prop} {C : σ × γ → ι → Prop}
    (hstep : ∀ w i, I w → M.allows w.2 i → I (f w.1 i, M.next w.1 i w.2))
    (hiff : ∀ w i, I w → P w → M.allows w.2 i → (P (f w.1 i, M.next w.1 i w.2) ↔ C w i))
    (hw : I w) (hp : P w) :
    EachState (watch f M) P w is ↔
      EachStep (watch f M) (fun w i => M.allows w.2 i → C w i) w is := by
  refine eachState_iff_eachStep (I := fun _ => I) ?_ ?_ hw hp
  · rintro pre i post s t - hi hps hc ⟨ha, rfl⟩
    exact ⟨hstep s i hi ha, (hiff s i hi hps ha).2 (hc ha)⟩
  · intro pre i post s _ hi hps hc
    obtain ⟨ha, hc⟩ := Classical.not_imp.1 hc
    exact ⟨_, watch_of_allows ha, fun hp' => hc ((hiff s i hi hps ha).1 hp')⟩

end DdTrace.Lib
