import DdTrace.Lifetime.ShutdownHooks

/-!
# Shutdown events

As long as no hook throws and no handler finds the queue empty while there are hooks left, in the
queue or with another handler, every hook that was added before an event has run when the event
is handled.
-/

namespace DdTrace.Lifetime.LifetimeManager

open DdTrace.Lib

variable {τ : Type} [DecidableEq τ] {s s' : LifetimeManager τ} {e : LifetimeStep τ} {t : τ}
  {handler : Handler}

/-- Every hook that was added before an event has run when it is handled, and none twice. -/
structure RunsHooks (s : LifetimeManager τ) : Prop where
  handled : ∀ n ∈ s.handled, ∀ hook < n, hook ∈ s.completed
  once : s.started.Nodup

/-- A hook that throws is the last one, and an empty queue means that no other handler has a
hook. -/
def Undisturbed (s : LifetimeManager τ) : LifetimeStep τ → Prop
  | .tryDequeue t => s.queue = [] → ∀ t', t' ≠ t → s.hookOf t' = none
  | .finish t throws => throws = true → s.queue = [] ∧ ∀ t', t' ≠ t → s.hookOf t' = none
  | _ => True

instance [Fintype τ] (s : LifetimeManager τ) (e : LifetimeStep τ) : Decidable (s.Undisturbed e) :=
  match e with
  | .tryDequeue _ | .finish _ _ => inferInstanceAs (Decidable (_ → _))
  | .addShutdownTask | .shutdown _ _ | .call _ | .leave _ => .isTrue trivial

/-- A handler that has run its hooks leaves none of those that were added before its event. -/
structure Swept (s : LifetimeManager τ) : Prop where
  leaving : ∀ t handler, s.handlers t = some handler → handler.phase = .leaving →
    ∀ hook < handler.before, hook ∈ s.completed
  handled : ∀ n ∈ s.handled, ∀ hook < n, hook ∈ s.completed

theorem Swept.goto (h : s.Swept) (t : τ) {handler : Option Handler}
    (hleaving : ∀ h', handler = some h' → h'.phase = .leaving →
      ∀ hook < h'.before, hook ∈ s.completed) : (s.goto t handler).Swept where
  leaving t' h' ht hphase := by
    rw [handlers_goto] at ht
    split at ht
    · exact hleaving h' ht hphase
    · exact h.leaving t' h' ht hphase
  handled := h.handled

theorem Swept.tryDequeue (h : s.Swept) (hplaced : s.Placed) (ht : s.handlers t = some handler)
    (hphase : handler.phase = .draining) (hun : s.Undisturbed (.tryDequeue t)) :
    (s.tryDequeue t handler).Swept := by
  unfold LifetimeManager.tryDequeue
  split
  · rename_i hook queue hqueue
    have hgoto : (s.goto t (some { handler with phase := .holding hook })).Swept := by
      apply h.goto
      intro h' heq hphase'
      cases heq
      cases hphase'
    exact ⟨hgoto.leaving, hgoto.handled⟩
  · rename_i hqueue
    apply h.goto
    intro h' heq _ hook hlt
    cases heq
    have hbefore : hook < s.added := Nat.lt_of_lt_of_le hlt (hplaced.before_le t handler ht)
    rcases hplaced.somewhere hook hbefore with hmem | ⟨t', htaken⟩ | hmem
    · rw [hqueue] at hmem
      cases hmem
    · by_cases heq : t' = t
      · rw [heq, hookOf_eq ht, hphase] at htaken
        cases htaken
      · rw [hun hqueue t' heq] at htaken
        cases htaken
    · exact hmem

theorem Swept.finish (h : s.Swept) (hplaced : s.Placed) {hook : ℕ} {throws : Bool}
    (ht : s.handlers t = some handler) (hphase : handler.phase = .running hook)
    (hun : s.Undisturbed (.finish t throws)) : (s.finish t handler hook throws).Swept := by
  refine ⟨fun t' h' ht' hphase' other hlt => ?_, fun n hn other hlt => ?_⟩
  · change (s.goto t _).handlers t' = some h' at ht'
    rw [handlers_goto] at ht'
    split at ht'
    · cases ht'
      cases throws with
      | false => cases hphase'
      | true =>
        obtain ⟨hqueue, hothers⟩ := hun rfl
        have hbefore : other < s.added := Nat.lt_of_lt_of_le hlt (hplaced.before_le t handler ht)
        rcases hplaced.somewhere other hbefore with hmem | ⟨t', htaken⟩ | hmem
        · rw [hqueue] at hmem
          cases hmem
        · by_cases heq : t' = t
          · rw [heq, hookOf_eq ht, hphase] at htaken
            cases htaken
            exact List.mem_append_right _ (List.mem_singleton_self _)
          · rw [hothers t' heq] at htaken
            cases htaken
        · exact List.mem_append_left _ hmem
    · exact List.mem_append_left _ (h.leaving t' h' ht' hphase' other hlt)
  · exact List.mem_append_left _ (h.handled n hn other hlt)

theorem Swept.leave (h : s.Swept) (ht : s.handlers t = some handler)
    (hphase : handler.phase = .leaving) : (s.leave t handler).Swept := by
  have hgoto : (s.goto t none).Swept := h.goto t fun h' heq => by cases heq
  refine ⟨hgoto.leaving, fun n hn => ?_⟩
  rcases List.mem_append.1 hn with hn | hn
  · exact h.handled n hn
  · rw [List.mem_singleton.1 hn]
    exact h.leaving t handler ht hphase

theorem Swept.takes (h : s.Swept) (hplaced : s.Placed) (hun : s.Undisturbed e)
    (hstep : s.Takes e s') : s'.Swept := by
  cases hstep with
  | addShutdownTask => exact ⟨h.leaving, h.handled⟩
  | shutdown hidle =>
    apply h.goto
    intro h' heq hphase
    cases heq
    cases hphase
  | tryDequeue ht hphase => exact h.tryDequeue hplaced ht hphase hun
  | @call t handler hook ht hphase =>
    have hgoto : (s.goto t (some { handler with phase := .running hook })).Swept := by
      apply h.goto
      intro h' heq hphase'
      cases heq
      cases hphase'
    exact ⟨hgoto.leaving, hgoto.handled⟩
  | finish ht hphase => exact h.finish hplaced ht hphase hun
  | leave ht hphase => exact h.leave ht hphase

omit [DecidableEq τ] in
theorem swept_new : (new : LifetimeManager τ).Swept where
  leaving _ _ h := by cases h
  handled _ h := by cases h

/-- No hook is called twice, whatever the steps. -/
theorem started_nodup (steps : List (LifetimeStep τ)) :
    EachState (stepOf step) (fun s : LifetimeManager τ => s.started.Nodup) new steps :=
  EachState.of_invariant (C := fun _ _ => True) (fun _ _ _ h _ hs => h.takes (takes_of_step hs))
    (fun _ h => h.started_nodup) (fun _ _ _ _ _ _ => trivial) placed_new

/-- As long as a hook that throws is the last one and an empty queue means that no other handler
has a hook, every hook that was added before an event has run when it is handled, and none
twice. -/
theorem runsHooks_of_undisturbed (steps : List (LifetimeStep τ))
    (hun : EachStep (stepOf step) Undisturbed new steps) :
    EachState (stepOf step) (RunsHooks (τ := τ)) new steps := by
  have hstep : ∀ s e s', (Placed s ∧ Swept s) → Undisturbed s e → stepOf step s e s' →
      Placed (τ := τ) s' ∧ Swept s' := by
    intro s e s' h hun hs
    have htakes := takes_of_step hs
    exact ⟨h.1.takes htakes, h.2.takes h.1 hun htakes⟩
  exact EachState.of_invariant hstep (fun s h => ⟨h.2.handled, h.1.started_nodup⟩) hun
    ⟨placed_new, swept_new⟩

/-- Two hooks, of which the second throws. -/
def lastThrows : List (LifetimeStep Unit) :=
  [.addShutdownTask, .addShutdownTask, .shutdown () .processExit, .tryDequeue (), .call (),
    .finish () false, .tryDequeue (), .call (), .finish () true, .leave ()]

theorem runsHooks_lastThrows : EachStep (stepOf step) Undisturbed new lastThrows ∧
    EachState (stepOf step) RunsHooks new lastThrows := by
  have hcheck : checkSteps step (fun s e => decide (Undisturbed s e)) new lastThrows = true := by
    decide
  have hun : EachStep (stepOf step) Undisturbed new lastThrows :=
    fun before e after s heq hrun =>
      of_decide_eq_true (eachStep_of_check hcheck before e after s heq hrun)
  exact ⟨hun, runsHooks_of_undisturbed lastThrows hun⟩

/-- Two hooks, of which the first throws. -/
def firstThrows : List (LifetimeStep Unit) :=
  [.addShutdownTask, .addShutdownTask, .shutdown () .processExit, .tryDequeue (), .call (),
    .finish () true, .leave ()]

/-- The cancel key is handled while the hook is with the handler of the process exit. -/
def overlapping : List (LifetimeStep Bool) :=
  [.addShutdownTask, .shutdown false .processExit, .tryDequeue false, .shutdown true .cancelKeyPress,
    .tryDequeue true, .leave true]

/-- The hook behind one that throws is not run, and neither is one that another handler has taken
off the queue. -/
theorem hooks_left :
    (¬ ∀ (τ : Type) [DecidableEq τ] (steps : List (LifetimeStep τ)),
        EachState (stepOf step) RunsHooks new steps) ∧
      (∃ s, Run (stepOf step) new firstThrows s ∧ s.handled = [2] ∧ s.started = [0] ∧
        s.queue = [1]) ∧
      ∃ s, Run (stepOf step) new overlapping s ∧ s.handled = [1] ∧ s.started = [] := by
  have hfirst : (firstThrows.foldlM step new).map
      (fun s => (s.handled, s.started, s.queue, s.completed)) = some ([2], [0], [1], [0]) := by
    decide
  have hsecond : (overlapping.foldlM step new).map (fun s => (s.handled, s.started))
      = some ([1], []) := by decide
  obtain ⟨s, hs, hvalues⟩ := Option.map_eq_some_iff.1 hfirst
  obtain ⟨s', hs', hvalues'⟩ := Option.map_eq_some_iff.1 hsecond
  simp only [Prod.mk.injEq] at hvalues hvalues'
  refine ⟨fun h => ?_, ⟨s, run_of_foldlM hs, hvalues.1, hvalues.2.1, hvalues.2.2.1⟩,
    s', run_of_foldlM hs', hvalues'.1, hvalues'.2⟩
  have hruns := h Unit firstThrows firstThrows [] s (by simp) (run_of_foldlM hs)
  have hmem := hruns.handled 2 (by rw [hvalues.1]; exact List.mem_singleton_self 2) 1 (by decide)
  rw [hvalues.2.2.2] at hmem
  exact absurd hmem (by decide)

end DdTrace.Lifetime.LifetimeManager
