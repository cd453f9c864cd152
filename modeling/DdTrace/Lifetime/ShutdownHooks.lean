import DdTrace.Lifetime.LifetimeManager

/-!
# Where the shutdown hooks are

Each hook is in the queue, or a handler has taken it off, or it has returned or thrown, and no
hook is called twice (`Placed`), whatever throws and however the handlers overlap. As long as no
handler ends while hooks are left in the queue or with another handler, an event that is handled
leaves none of the hooks that were added before it (`Swept`).
-/

namespace DdTrace.Lifetime.LifetimeManager

open DdTrace.Lib

variable {τ : Type} {s s' : LifetimeManager τ} {e : LifetimeStep τ} {t : τ} {handler : Handler}

/-- Every hook that was added is in one place, and is called from there. -/
structure Placed (s : LifetimeManager τ) : Prop where
  queue_nodup : s.queue.Nodup
  queue_lt : ∀ hook ∈ s.queue, hook < s.added
  taken_lt : ∀ t hook, s.hookOf t = some hook → hook < s.added
  taken_off : ∀ t hook, s.hookOf t = some hook → hook ∉ s.queue
  taken_once : ∀ t t' hook, s.hookOf t = some hook → s.hookOf t' = some hook → t = t'
  started_nodup : s.started.Nodup
  started_lt : ∀ hook ∈ s.started, hook < s.added
  started_off : ∀ hook ∈ s.started, hook ∉ s.queue
  /-- A hook that is held is not called yet. -/
  held : ∀ t handler hook, s.handlers t = some handler → handler.phase = .holding hook →
    hook ∉ s.started
  somewhere : ∀ hook < s.added,
    hook ∈ s.queue ∨ (∃ t, s.hookOf t = some hook) ∨ hook ∈ s.completed
  before_le : ∀ t handler, s.handlers t = some handler → handler.before ≤ s.added

theorem placed_new : (new : LifetimeManager τ).Placed where
  queue_nodup := List.nodup_nil
  queue_lt _ h := by cases h
  taken_lt _ _ h := by cases h
  taken_off _ _ h := by cases h
  taken_once _ _ _ h _ := by cases h
  started_nodup := List.nodup_nil
  started_lt _ h := by cases h
  started_off _ h := by cases h
  held _ _ _ h _ := by cases h
  somewhere _ h := absurd h (Nat.not_lt_zero _)
  before_le _ _ h := by cases h

theorem Placed.addShutdownTask (h : s.Placed) : s.addShutdownTask.Placed where
  queue_nodup := by
    refine List.nodup_append.2 ⟨h.queue_nodup, List.nodup_singleton _, ?_⟩
    intro hook hmem added hadded
    have hlt := h.queue_lt hook hmem
    rw [List.mem_singleton.1 hadded]
    omega
  queue_lt hook hmem := by
    show hook < s.added + 1
    rcases List.mem_append.1 hmem with hmem | hmem
    · have hlt := h.queue_lt hook hmem
      omega
    · rw [List.mem_singleton.1 hmem]
      omega
  taken_lt t hook ht := Nat.lt_succ_of_lt (h.taken_lt t hook ht)
  taken_off t hook ht hmem := by
    rcases List.mem_append.1 hmem with hmem | hmem
    · exact h.taken_off t hook ht hmem
    · have hlt := h.taken_lt t hook ht
      rw [List.mem_singleton.1 hmem] at hlt
      omega
  taken_once := h.taken_once
  started_nodup := h.started_nodup
  started_lt hook hmem := Nat.lt_succ_of_lt (h.started_lt hook hmem)
  started_off hook hstarted hmem := by
    rcases List.mem_append.1 hmem with hmem | hmem
    · exact h.started_off hook hstarted hmem
    · have hlt := h.started_lt hook hstarted
      rw [List.mem_singleton.1 hmem] at hlt
      omega
  held := h.held
  somewhere hook hlt := by
    rcases Nat.lt_succ_iff_lt_or_eq.1 hlt with hlt | rfl
    · rcases h.somewhere hook hlt with hmem | hplace
      · exact .inl (List.mem_append_left _ hmem)
      · exact .inr hplace
    · exact .inl (List.mem_append_right _ (List.mem_singleton_self _))
  before_le t handler ht := Nat.le_succ_of_le (h.before_le t handler ht)

variable [DecidableEq τ]

theorem handlers_goto (s : LifetimeManager τ) (t t' : τ) (handler : Option Handler) :
    (s.goto t handler).handlers t' = if t' = t then handler else s.handlers t' :=
  Function.update_apply ..

/-- A handler that goes on with the hook it has, if any. -/
theorem Placed.goto (h : s.Placed) (t : τ) {handler : Option Handler}
    (hhook : (handler.bind fun handler => handler.phase.hook) = s.hookOf t)
    (hheld : ∀ h' hook, handler = some h' → h'.phase = .holding hook → hook ∉ s.started)
    (hbefore : ∀ h', handler = some h' → h'.before ≤ s.added) : (s.goto t handler).Placed := by
  have hsame : ∀ t', (s.goto t handler).hookOf t' = s.hookOf t' := by
    intro t'
    rw [hookOf_goto]
    split
    · rename_i heq
      rw [heq, hhook]
    · rfl
  exact {
    queue_nodup := h.queue_nodup
    queue_lt := h.queue_lt
    taken_lt := fun t' hook ht => h.taken_lt t' hook (by rw [← hsame]; exact ht)
    taken_off := fun t' hook ht => h.taken_off t' hook (by rw [← hsame]; exact ht)
    taken_once := fun t₁ t₂ hook h₁ h₂ =>
      h.taken_once t₁ t₂ hook (by rw [← hsame]; exact h₁) (by rw [← hsame]; exact h₂)
    started_nodup := h.started_nodup
    started_lt := h.started_lt
    started_off := h.started_off
    held := by
      intro t' h' hook ht hphase
      rw [handlers_goto] at ht
      split at ht
      · exact hheld h' hook ht hphase
      · exact h.held t' h' hook ht hphase
    somewhere := by
      intro hook hlt
      rcases h.somewhere hook hlt with hmem | ⟨t', ht⟩ | hmem
      · exact .inl hmem
      · exact .inr (.inl ⟨t', by rw [hsame]; exact ht⟩)
      · exact .inr (.inr hmem)
    before_le := by
      intro t' h' ht
      rw [handlers_goto] at ht
      split at ht
      · exact hbefore h' ht
      · exact h.before_le t' h' ht }

theorem Placed.tryDequeue (h : s.Placed) (ht : s.handlers t = some handler)
    (hphase : handler.phase = .draining) : (s.tryDequeue t handler).Placed := by
  have hnone : s.hookOf t = none := by
    rw [hookOf_eq ht, hphase]
    rfl
  have hbefore := h.before_le t handler ht
  unfold LifetimeManager.tryDequeue
  split
  · rename_i hook queue hqueue
    have hnodup := h.queue_nodup
    rw [hqueue, List.nodup_cons] at hnodup
    have hin : hook ∈ s.queue := by
      rw [hqueue]
      exact List.mem_cons_self
    have hrest : ∀ other, other ∉ s.queue → other ∉ queue := by
      intro other hnot hmem
      rw [hqueue] at hnot
      exact hnot (List.mem_cons_of_mem hook hmem)
    have htaken : ∀ t' other,
        (s.goto t (some { handler with phase := .holding hook })).hookOf t' = some other →
          t' = t ∧ other = hook ∨ t' ≠ t ∧ s.hookOf t' = some other := by
      intro t' other hother
      rw [hookOf_goto] at hother
      split at hother
      · rename_i heq
        cases hother
        exact .inl ⟨heq, rfl⟩
      · rename_i hne
        exact .inr ⟨hne, hother⟩
    exact {
      queue_nodup := hnodup.2
      queue_lt := fun other hmem =>
        h.queue_lt other (by rw [hqueue]; exact List.mem_cons_of_mem hook hmem)
      taken_lt := by
        intro t' other hother
        rcases htaken t' other hother with ⟨-, rfl⟩ | ⟨-, hother⟩
        · exact h.queue_lt other hin
        · exact h.taken_lt t' other hother
      taken_off := by
        intro t' other hother
        rcases htaken t' other hother with ⟨-, rfl⟩ | ⟨-, hother⟩
        · exact hnodup.1
        · exact hrest other (h.taken_off t' other hother)
      taken_once := by
        intro t₁ t₂ other h₁ h₂
        rcases htaken t₁ other h₁ with ⟨rfl, heq⟩ | ⟨-, hold⟩ <;>
          rcases htaken t₂ other h₂ with ⟨rfl, heq'⟩ | ⟨-, hold'⟩
        · rfl
        · rw [heq] at hold'
          exact absurd hin (h.taken_off t₂ hook hold')
        · rw [heq'] at hold
          exact absurd hin (h.taken_off t₁ hook hold)
        · exact h.taken_once t₁ t₂ other hold hold'
      started_nodup := h.started_nodup
      started_lt := h.started_lt
      started_off := fun other hstarted => hrest other (h.started_off other hstarted)
      held := by
        intro t' h' other ht' hphase'
        change (s.goto t _).handlers t' = some h' at ht'
        rw [handlers_goto] at ht'
        split at ht'
        · cases ht'
          cases hphase'
          exact fun hstarted => h.started_off hook hstarted hin
        · exact h.held t' h' other ht' hphase'
      somewhere := by
        intro other hlt
        rcases h.somewhere other hlt with hmem | ⟨t', hother⟩ | hmem
        · rw [hqueue] at hmem
          rcases List.mem_cons.1 hmem with rfl | hmem
          · refine .inr (.inl ⟨t, ?_⟩)
            show (s.goto t _).hookOf t = _
            rw [hookOf_goto, if_pos rfl]
            rfl
          · exact .inl hmem
        · refine .inr (.inl ⟨t', ?_⟩)
          show (s.goto t _).hookOf t' = _
          rw [hookOf_goto, if_neg]
          · exact hother
          · rintro rfl
            rw [hnone] at hother
            cases hother
        · exact .inr (.inr hmem)
      before_le := by
        intro t' h' ht'
        change (s.goto t _).handlers t' = some h' at ht'
        rw [handlers_goto] at ht'
        split at ht'
        · cases ht'
          exact hbefore
        · exact h.before_le t' h' ht' }
  · apply h.goto t
    · rw [hnone]
      rfl
    · intro h' hook heq hphase'
      cases heq
      cases hphase'
    · intro h' heq
      cases heq
      exact hbefore

theorem Placed.call (h : s.Placed) {hook : ℕ} (ht : s.handlers t = some handler)
    (hphase : handler.phase = .holding hook) :
    Placed { s.goto t (some { handler with phase := .running hook }) with
      started := s.started ++ [hook] } := by
  have hhook : s.hookOf t = some hook := by
    rw [hookOf_eq ht, hphase]
    rfl
  have hgoto : (s.goto t (some { handler with phase := .running hook })).Placed := by
    apply h.goto t
    · rw [hhook]
      rfl
    · intro h' other heq hphase'
      cases heq
      cases hphase'
    · intro h' heq
      cases heq
      exact h.before_le t handler ht
  exact {
    queue_nodup := hgoto.queue_nodup
    queue_lt := hgoto.queue_lt
    taken_lt := hgoto.taken_lt
    taken_off := hgoto.taken_off
    taken_once := hgoto.taken_once
    started_nodup := by
      refine List.nodup_append.2 ⟨h.started_nodup, List.nodup_singleton _, ?_⟩
      rintro other hmem _ hother rfl
      rw [List.mem_singleton.1 hother] at hmem
      exact h.held t handler hook ht hphase hmem
    started_lt := by
      intro other hmem
      rcases List.mem_append.1 hmem with hmem | hmem
      · exact h.started_lt other hmem
      · rw [List.mem_singleton.1 hmem]
        exact h.taken_lt t hook hhook
    started_off := by
      intro other hmem
      rcases List.mem_append.1 hmem with hmem | hmem
      · exact h.started_off other hmem
      · rw [List.mem_singleton.1 hmem]
        exact h.taken_off t hook hhook
    held := by
      intro t' h' other ht' hphase' hmem
      rcases List.mem_append.1 hmem with hmem | hmem
      · exact hgoto.held t' h' other ht' hphase' hmem
      · -- another handler holds another hook
        rw [List.mem_singleton.1 hmem] at hphase'
        change (s.goto t _).handlers t' = some h' at ht'
        rw [handlers_goto] at ht'
        split at ht'
        · cases ht'
          cases hphase'
        · rename_i hne
          have hhook' : s.hookOf t' = some hook := by
            rw [hookOf_eq ht', hphase']
            rfl
          exact hne (h.taken_once t' t hook hhook' hhook)
    somewhere := hgoto.somewhere
    before_le := hgoto.before_le }

theorem Placed.finish (h : s.Placed) {hook : ℕ} (throws : Bool)
    (ht : s.handlers t = some handler) (hphase : handler.phase = .running hook) :
    (s.finish t handler hook throws).Placed := by
  have hhook : s.hookOf t = some hook := by
    rw [hookOf_eq ht, hphase]
    rfl
  have hother : ∀ t', (s.finish t handler hook throws).hookOf t'
      = if t' = t then none else s.hookOf t' := by
    intro t'
    show (s.goto t _).hookOf t' = _
    rw [hookOf_goto]
    cases throws <;> rfl
  have htaken : ∀ t' other, (s.finish t handler hook throws).hookOf t' = some other →
      s.hookOf t' = some other := by
    intro t' other hsome
    rw [hother] at hsome
    split at hsome
    · cases hsome
    · exact hsome
  exact {
    queue_nodup := h.queue_nodup
    queue_lt := h.queue_lt
    taken_lt := fun t' other hsome => h.taken_lt t' other (htaken t' other hsome)
    taken_off := fun t' other hsome => h.taken_off t' other (htaken t' other hsome)
    taken_once := fun t₁ t₂ other h₁ h₂ =>
      h.taken_once t₁ t₂ other (htaken t₁ other h₁) (htaken t₂ other h₂)
    started_nodup := h.started_nodup
    started_lt := h.started_lt
    started_off := h.started_off
    held := by
      intro t' h' other ht' hphase'
      change (s.goto t _).handlers t' = some h' at ht'
      rw [handlers_goto] at ht'
      split at ht'
      · cases ht'
        cases throws <;> cases hphase'
      · exact h.held t' h' other ht' hphase'
    somewhere := by
      intro other hlt
      rcases h.somewhere other hlt with hmem | ⟨t', hsome⟩ | hmem
      · exact .inl hmem
      · by_cases heq : t' = t
        · rw [heq, hhook] at hsome
          cases hsome
          exact .inr (.inr (List.mem_append_right _ (List.mem_singleton_self _)))
        · refine .inr (.inl ⟨t', ?_⟩)
          rw [hother, if_neg heq]
          exact hsome
      · exact .inr (.inr (List.mem_append_left _ hmem))
    before_le := by
      intro t' h' ht'
      change (s.goto t _).handlers t' = some h' at ht'
      rw [handlers_goto] at ht'
      split at ht'
      · cases ht'
        exact h.before_le t handler ht
      · exact h.before_le t' h' ht' }

theorem Placed.leave (h : s.Placed) (ht : s.handlers t = some handler)
    (hphase : handler.phase = .leaving) : (s.leave t handler).Placed := by
  have hgoto : (s.goto t none).Placed := by
    apply h.goto t
    · rw [hookOf_eq ht, hphase]
      rfl
    · intro h' hook heq
      cases heq
    · intro h' heq
      cases heq
  exact { hgoto with }

/-- Whatever throws and however the handlers overlap. -/
theorem Placed.takes (h : s.Placed) (hstep : s.Takes e s') : s'.Placed := by
  cases hstep with
  | addShutdownTask => exact h.addShutdownTask
  | shutdown hidle =>
    apply h.goto
    · rw [hookOf, hidle]
      rfl
    · intro h' hook heq hphase
      cases heq
      cases hphase
    · intro h' heq
      cases heq
      exact Nat.le_refl _
  | tryDequeue ht hphase => exact h.tryDequeue ht hphase
  | call ht hphase => exact h.call ht hphase
  | finish ht hphase => exact h.finish _ ht hphase
  | leave ht hphase => exact h.leave ht hphase

end DdTrace.Lifetime.LifetimeManager
