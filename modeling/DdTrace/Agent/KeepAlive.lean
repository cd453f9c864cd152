import DdTrace.Agent.TracingProcessManager
import Mathlib.Data.Fintype.Basic
import Mathlib.Data.List.Basic

/-!
# Keep-alive loops

As long as no call finds `IsBeingManaged` false while a task for the process is under way, a
process has at most one keep-alive task. As long as no start-up watch runs out of time, such a
task counts every process it starts in a row as a failure and starts at most `MaxFailures`.
-/

namespace DdTrace.Agent

open DdTrace.Lib

/-! ### One task -/

/-- The failures count the processes started in a row, but for the one that is being watched. -/
def PhaseOk (m : ProcessMetadata) (startedInARow : ℕ) : Phase → Prop
  | .pending | .iterating | .dropping => startedInARow ≤ m.sequentialFailures
  | .recovering _ | .starting =>
    startedInARow ≤ m.sequentialFailures ∧ m.sequentialFailures < MaxFailures
  | .watching _ =>
    startedInARow ≤ m.sequentialFailures + 1 ∧ m.sequentialFailures < MaxFailures
  | .finishing =>
    if m.processState = .faulted then
      startedInARow ≤ m.sequentialFailures + 1 ∧ m.sequentialFailures < MaxFailures
    else startedInARow ≤ m.sequentialFailures
  | .done => True

theorem observe_le (answer : Answer) (n : ℕ) : observe answer n ≤ n := by
  unfold observe
  split
  · exact Nat.zero_le n
  · exact Nat.le_refl n

/-- What a step of a task keeps: the bound of the failures, and the number of processes started
in a row below them. -/
theorem keepAlive_ok {m m' : ProcessMetadata} {phase phase' : Phase} {n n' : ℕ} {answer : Answer}
    (hfailures : m.sequentialFailures ≤ MaxFailures) (hok : PhaseOk m n phase)
    (hn : n ≤ MaxFailures) (htimeout : phase ≠ .watching 0)
    (h : keepAlive m phase n answer = some (m', phase', n')) :
    m'.sequentialFailures ≤ MaxFailures ∧ PhaseOk m' n' phase' ∧ n' ≤ MaxFailures := by
  have hobserve := observe_le answer n
  unfold keepAlive at h
  cases phase with
  | pending =>
    cases h
    exact ⟨hfailures, hok, hn⟩
  | iterating =>
    simp only [PhaseOk] at hok
    simp only at h
    split at h
    · cases h
      exact ⟨hfailures, hok, hn⟩
    · split at h
      · split at h
        · cases h
          exact ⟨hfailures, ⟨by dsimp only; omega, by dsimp only; omega⟩, by omega⟩
        · cases h
          exact ⟨hfailures, ⟨by dsimp only; omega, by dsimp only; omega⟩, by omega⟩
      · cases h
        exact ⟨hfailures, ⟨by dsimp only; omega, by dsimp only; omega⟩, by omega⟩
      · cases h
        exact ⟨hfailures, ⟨by dsimp only; omega, by dsimp only; omega⟩, by omega⟩
      · cases h
        exact ⟨hfailures, ⟨hok, by omega⟩, hn⟩
  | recovering attempts =>
    obtain ⟨hle, hlt⟩ := hok
    simp only at h
    split at h
    · split at h
      · cases h
        exact ⟨hfailures, ⟨by omega, hlt⟩, by omega⟩
      · cases h
        exact ⟨hfailures, ⟨by dsimp only; omega, hlt⟩, by omega⟩
    · cases h
      exact ⟨hfailures, ⟨hle, hlt⟩, hn⟩
  | starting =>
    obtain ⟨hle, hlt⟩ := hok
    simp only at h
    split at h
    · split at h
      · cases h
        exact ⟨hfailures, ⟨by dsimp only; omega, hlt⟩, by omega⟩
      · cases h
        exact ⟨hfailures, ⟨by dsimp only; omega, hlt⟩, hn⟩
      · cases h
        refine ⟨hfailures, ?_, hn⟩
        rw [PhaseOk, if_pos rfl]
        exact ⟨by dsimp only; omega, hlt⟩
    · rename_i hstate
      cases h
      refine ⟨hfailures, ?_, hn⟩
      rw [PhaseOk]
      split
      · exact ⟨by omega, hlt⟩
      · exact hle
  | watching timeout =>
    obtain ⟨hle, hlt⟩ := hok
    simp only at h
    split at h
    · split at h
      · rename_i hhealthy
        have hobserved : observe answer n = 0 := if_pos hhealthy
        cases h
        exact ⟨Nat.zero_le _, by simp [PhaseOk, hobserved], by omega⟩
      · split at h
        · cases h
          refine ⟨hfailures, ?_, by omega⟩
          rw [PhaseOk, if_pos rfl]
          exact ⟨by dsimp only; omega, hlt⟩
        · cases h
          exact ⟨hfailures, ⟨by omega, hlt⟩, by omega⟩
    · rename_i hzero
      obtain rfl : timeout = 0 := by omega
      exact absurd rfl htimeout
  | finishing =>
    simp only [PhaseOk] at hok
    simp only at h
    split at h
    · rename_i hfaulted
      rw [if_pos hfaulted] at hok
      cases h
      exact ⟨by dsimp only; omega, hok.1, hn⟩
    · rename_i hstate
      rw [if_neg hstate] at hok
      cases h
      exact ⟨hfailures, hok, hn⟩
  | dropping =>
    cases h
    exact ⟨hfailures, trivial, hn⟩
  | done => cases h

/-- A task that runs its loop has set `IsBeingManaged`, and lets it be until it drops out. -/
theorem keepAlive_managed {m m' : ProcessMetadata} {phase phase' : Phase} {n n' : ℕ}
    {answer : Answer} (hmanaged : phase.runs = true → m.isBeingManaged = true)
    (h : keepAlive m phase n answer = some (m', phase', n')) :
    phase ≠ .done ∧ phase' ≠ .pending ∧ (phase'.runs = true → m'.isBeingManaged = true) := by
  cases phase with
  | done => cases h
  | pending =>
    cases h
    exact ⟨by simp, by simp, fun _ => rfl⟩
  | dropping =>
    cases h
    exact ⟨by simp, by simp, fun hruns => absurd hruns (by decide)⟩
  | _ =>
    have hmanaged := hmanaged rfl
    refine ⟨by simp, ?_⟩
    unfold keepAlive at h
    simp only at h
    repeat' split at h
    all_goals
      cases h
      exact ⟨by simp, fun _ => hmanaged⟩

/-! ### The manager -/

/-- The process that the thread is about to start a task for. -/
def Caller.startsFor {μ : Type} : Caller μ → Option μ
  | .starting m _ => some m
  | _ => none

/-- The process whose `IsBeingManaged` the thread is about to test. -/
def Caller.testsFor {μ : Type} : Caller μ → Option μ
  | .testing (m :: _) => some m
  | _ => none

namespace TracingProcessManager

variable {μ τ : Type} {s s' : TracingProcessManager μ τ} {settings : ProcessSettings μ}

/-- No two keep-alive loops of a process run, and none has started more than `MaxFailures`
processes in a row. -/
structure ExclusiveAndBounded (s : TracingProcessManager μ τ) : Prop where
  exclusive : ∀ (i j : ℕ) k k', s.tasks[i]? = some k → s.tasks[j]? = some k' →
    k.metadata = k'.metadata → k.phase.runs = true → k'.phase.runs = true → i = j
  bounded : ∀ k ∈ s.tasks, k.startedInARow ≤ MaxFailures

/-- A thread is about to start a task for the process, or one has not set `IsBeingManaged` yet. -/
def UnderWay (s : TracingProcessManager μ τ) (m : μ) : Prop :=
  (∃ t, (s.callers t).startsFor = some m) ∨ ∃ k ∈ s.tasks, k.metadata = m ∧ k.phase = .pending

/-- No test misses a task that is under way, and no start-up watch runs out of time. -/
def Undisturbed (s : TracingProcessManager μ τ) : ManagerEvent τ → Prop
  | .callInitialize _ _ => True
  | .advance t => ∀ m ∈ (s.callers t).testsFor,
      (s.metadata m).isBeingManaged = true ∨ ¬ s.UnderWay m
  | .task i _ => ∀ k ∈ s.tasks[i]?, k.phase ≠ .watching 0

instance [DecidableEq μ] [Fintype τ] (s : TracingProcessManager μ τ) (m : μ) :
    Decidable (s.UnderWay m) :=
  inferInstanceAs (Decidable (_ ∨ _))

instance [DecidableEq μ] [Fintype τ] (s : TracingProcessManager μ τ) (e : ManagerEvent τ) :
    Decidable (s.Undisturbed e) :=
  match e with
  | .callInitialize _ _ => .isTrue trivial
  | .advance _ => inferInstanceAs (Decidable (∀ _ ∈ _, _))
  | .task _ _ => inferInstanceAs (Decidable (∀ _ ∈ _, _))

structure Inv (s : TracingProcessManager μ τ) : Prop where
  /-- One thread at most is about to start a task for a process. -/
  callers_unique : ∀ t t' m processes processes', s.callers t = .starting m processes →
    s.callers t' = .starting m processes' → t = t'
  /-- While one is, no other task of the process goes on. -/
  callers_alone : ∀ t m processes, s.callers t = .starting m processes →
    ∀ k ∈ s.tasks, k.metadata = m → k.phase = .done
  tasks_unique : ∀ (i j : ℕ) k k', s.tasks[i]? = some k → s.tasks[j]? = some k' →
    k.metadata = k'.metadata → k.phase ≠ .done → k'.phase ≠ .done → i = j
  managed : ∀ k ∈ s.tasks, k.phase.runs = true → (s.metadata k.metadata).isBeingManaged = true
  failures : ∀ m, (s.metadata m).sequentialFailures ≤ MaxFailures
  bounded : ∀ k ∈ s.tasks, k.startedInARow ≤ MaxFailures ∧
    PhaseOk (s.metadata k.metadata) k.startedInARow k.phase

theorem inv_new : (new : TracingProcessManager μ τ).Inv where
  callers_unique _ _ _ _ _ h _ := by cases h
  callers_alone _ _ _ h := by cases h
  tasks_unique _ _ _ _ h _ := by cases h
  managed _ h := by cases h
  failures _ := Nat.zero_le _
  bounded _ h := by cases h

theorem Inv.exclusiveAndBounded (h : s.Inv) : s.ExclusiveAndBounded where
  exclusive i j k k' hi hj hm hk hk' := by
    refine h.tasks_unique i j k k' hi hj hm ?_ ?_
    · intro hdone
      rw [hdone] at hk
      cases hk
    · intro hdone
      rw [hdone] at hk'
      cases hk'
  bounded k hk := (h.bounded k hk).1

variable [DecidableEq τ]

@[simp] theorem goto_callers (t t' : τ) (caller : Caller μ) :
    (s.goto t caller).callers t' = if t' = t then caller else s.callers t' :=
  Function.update_apply ..

@[simp] theorem goto_tasks (t : τ) (caller : Caller μ) : (s.goto t caller).tasks = s.tasks := rfl

@[simp] theorem goto_metadata (t : τ) (caller : Caller μ) :
    (s.goto t caller).metadata = s.metadata := rfl

/-- A thread that goes anywhere but to the start of a task. -/
theorem Inv.goto (h : s.Inv) (t : τ) {caller : Caller μ}
    (hcaller : ∀ m processes, caller ≠ .starting m processes) : (s.goto t caller).Inv := by
  have hcallers : ∀ t' m processes, (s.goto t caller).callers t' = .starting m processes →
      s.callers t' = .starting m processes := by
    intro t' m processes ht'
    rw [goto_callers] at ht'
    split at ht'
    · exact absurd ht' (hcaller m processes)
    · exact ht'
  exact {
    callers_unique := fun t₁ t₂ m ps₁ ps₂ h₁ h₂ =>
      h.callers_unique t₁ t₂ m ps₁ ps₂ (hcallers _ _ _ h₁) (hcallers _ _ _ h₂)
    callers_alone := fun t₁ m ps h₁ => h.callers_alone t₁ m ps (hcallers _ _ _ h₁)
    tasks_unique := h.tasks_unique
    managed := h.managed
    failures := h.failures
    bounded := h.bounded }

/-- A thread that found `IsBeingManaged` false, and no task under way. -/
theorem Inv.goto_starting (h : s.Inv) (t : τ) {m : μ} (processes : List μ)
    (hmanaged : (s.metadata m).isBeingManaged = false) (hway : ¬ s.UnderWay m) :
    (s.goto t (.starting m processes)).Inv where
  callers_unique := by
    have hnot : ∀ t' ps, s.callers t' ≠ .starting m ps :=
      fun t' ps ht' => hway (.inl ⟨t', by rw [ht', Caller.startsFor]⟩)
    intro t₁ t₂ m' ps₁ ps₂ h₁ h₂
    rw [goto_callers] at h₁ h₂
    split at h₁ <;> split at h₂
    · rw [‹t₁ = t›, ‹t₂ = t›]
    · cases h₁
      exact absurd h₂ (hnot _ _)
    · cases h₂
      exact absurd h₁ (hnot _ _)
    · exact h.callers_unique t₁ t₂ m' ps₁ ps₂ h₁ h₂
  callers_alone := by
    intro t₁ m' ps h₁ k hk hm
    rw [goto_callers] at h₁
    split at h₁
    · cases h₁
      -- it is neither pending nor running
      by_contra hdone
      have hpending : k.phase ≠ .pending := fun hp => hway (.inr ⟨k, hk, hm, hp⟩)
      have hruns : k.phase.runs = true := by
        rw [Phase.runs, decide_eq_true hpending, decide_eq_true hdone]
        rfl
      have hflag := h.managed k hk hruns
      rw [hm, hmanaged] at hflag
      cases hflag
    · exact h.callers_alone t₁ m' ps h₁ k hk hm
  tasks_unique := h.tasks_unique
  managed := h.managed
  failures := h.failures
  bounded := h.bounded

theorem Inv.startTask (h : s.Inv) {t : τ} {m : μ} {processes : List μ}
    (ht : s.callers t = .starting m processes) :
    TracingProcessManager.Inv { s.goto t (.testing processes) with tasks := s.tasks ++ [⟨m, .pending, 0⟩] } := by
  have hcallers : ∀ t' m' ps, (s.goto t (.testing processes)).callers t' = .starting m' ps →
      t' ≠ t ∧ s.callers t' = .starting m' ps := by
    intro t' m' ps ht'
    rw [goto_callers] at ht'
    split at ht'
    · cases ht'
    · exact ⟨‹_›, ht'⟩
  have htask : ∀ (i : ℕ) k, (s.tasks ++ [⟨m, .pending, 0⟩])[i]? = some k →
      s.tasks[i]? = some k ∨ i = s.tasks.length ∧ k = ⟨m, .pending, 0⟩ := by
    intro i k hk
    rw [List.getElem?_append] at hk
    split at hk
    · exact .inl hk
    · obtain ⟨hi, hk⟩ := List.getElem?_eq_some_iff.1 hk
      rw [List.length_singleton] at hi
      obtain rfl : i = s.tasks.length := by omega
      simp only [Nat.sub_self, List.getElem_cons_zero] at hk
      exact .inr ⟨rfl, hk.symm⟩
  have halone : ∀ (i : ℕ) k, s.tasks[i]? = some k → k.metadata = m → k.phase = .done :=
    fun i k hk => h.callers_alone t m processes ht k (List.mem_of_getElem? hk)
  exact {
    callers_unique := fun t₁ t₂ m' ps₁ ps₂ h₁ h₂ =>
      h.callers_unique t₁ t₂ m' ps₁ ps₂ (hcallers _ _ _ h₁).2 (hcallers _ _ _ h₂).2
    callers_alone := by
      intro t₁ m' ps h₁ k hk hm
      obtain ⟨hne, h₁⟩ := hcallers _ _ _ h₁
      rcases List.mem_append.1 hk with hk | hk
      · exact h.callers_alone t₁ m' ps h₁ k hk hm
      · obtain rfl := List.mem_singleton.1 hk
        obtain rfl : m = m' := hm
        exact absurd (h.callers_unique _ _ _ _ _ h₁ ht) hne
    tasks_unique := by
      intro i j k k' hi hj hm hk hk'
      rcases htask i k hi with hold | ⟨hnew, rfl⟩ <;>
        rcases htask j k' hj with hold' | ⟨hnew', rfl⟩
      · exact h.tasks_unique i j k k' hold hold' hm hk hk'
      · exact absurd (halone i k hold hm) hk
      · exact absurd (halone j k' hold' hm.symm) hk'
      · rw [hnew, hnew']
    managed := by
      intro k hk hruns
      rcases List.mem_append.1 hk with hk | hk
      · exact h.managed k hk hruns
      · obtain rfl := List.mem_singleton.1 hk
        cases hruns
    failures := h.failures
    bounded := by
      intro k hk
      rcases List.mem_append.1 hk with hk | hk
      · exact h.bounded k hk
      · obtain rfl := List.mem_singleton.1 hk
        exact ⟨Nat.zero_le _, Nat.zero_le _⟩ }

theorem Inv.advance (h : s.Inv) (t : τ) (hun : s.Undisturbed (.advance t))
    (hs : s.advance settings t = some s') : s'.Inv := by
  unfold TracingProcessManager.advance at hs
  split at hs
  · cases hs
  · cases hs
    exact h.goto t (by simp)
  · rename_i m processes ht
    split at hs
    · rename_i htest
      cases hs
      rcases hun m (by rw [ht]; rfl) with hmanaged | hway
      · rw [htest.2] at hmanaged
        cases hmanaged
      · exact h.goto_starting t processes htest.2 hway
    · cases hs
      exact h.goto t (by simp)
  · rename_i m processes ht
    cases hs
    exact h.startTask ht

theorem Inv.callInitialize (h : s.Inv) (t : τ) (directoryExists : Bool)
    (hs : s.callInitialize settings t directoryExists = some s') : s'.Inv := by
  unfold TracingProcessManager.callInitialize at hs
  split at hs
  · split at hs
    · cases hs
      exact h.goto t (by simp)
    · cases hs
      exact h
  · cases hs

variable [DecidableEq μ]

omit [DecidableEq τ] in
theorem Inv.stepTask (h : s.Inv) (i : ℕ) (answer : Answer)
    (hun : s.Undisturbed (.task i answer)) (hs : s.stepTask i answer = some s') : s'.Inv := by
  unfold TracingProcessManager.stepTask at hs
  obtain ⟨k, hk, hs⟩ := Option.bind_eq_some_iff.1 hs
  obtain ⟨⟨m, phase, n⟩, hstep, hs⟩ := Option.bind_eq_some_iff.1 hs
  cases hs
  have hmem : k ∈ s.tasks := List.mem_of_getElem? hk
  obtain ⟨hn, hok⟩ := h.bounded k hmem
  obtain ⟨hfailures, hok', hn'⟩ :=
    keepAlive_ok (h.failures k.metadata) hok hn (hun k hk) hstep
  obtain ⟨hlive, hpending, hflag⟩ := keepAlive_managed (h.managed k hmem) hstep
  have hi : i < s.tasks.length := (List.getElem?_eq_some_iff.1 hk).1
  have htask : ∀ (j : ℕ) k', (s.tasks.set i { k with phase, startedInARow := n })[j]? = some k' →
      j = i ∧ k' = { k with phase, startedInARow := n } ∨ j ≠ i ∧ s.tasks[j]? = some k' := by
    intro j k' hj
    rcases eq_or_ne j i with rfl | hne
    · rw [List.getElem?_set_self hi] at hj
      exact .inl ⟨rfl, (Option.some.inj hj).symm⟩
    · rw [List.getElem?_set_ne hne.symm] at hj
      exact .inr ⟨hne, hj⟩
  have hmemTask : ∀ k' ∈ s.tasks.set i { k with phase, startedInARow := n },
      k' = { k with phase, startedInARow := n } ∨ ∃ j, j ≠ i ∧ s.tasks[j]? = some k' := by
    intro k' hk'
    obtain ⟨j, hj⟩ := List.mem_iff_getElem?.1 hk'
    rcases htask j k' hj with ⟨-, heq⟩ | ⟨hne, hj⟩
    · exact .inl heq
    · exact .inr ⟨j, hne, hj⟩
  -- no other task of the process goes on
  have hother : ∀ (j : ℕ) k', j ≠ i → s.tasks[j]? = some k' → k'.metadata = k.metadata →
      k'.phase = .done := by
    intro j k' hne hj hm
    by_contra hdone
    exact hne (h.tasks_unique j i k' k hj hk hm hdone hlive)
  have hmetadata : ∀ m', m' ≠ k.metadata →
      Function.update s.metadata k.metadata m m' = s.metadata m' :=
    fun m' hne => Function.update_of_ne hne ..
  have hself : Function.update s.metadata k.metadata m k.metadata = m := Function.update_self ..
  exact {
    callers_unique := h.callers_unique
    callers_alone := by
      intro t m' ps ht k' hk' hm
      rcases hmemTask k' hk' with rfl | ⟨j, -, hj⟩
      · exact absurd (h.callers_alone t m' ps ht k hmem hm) hlive
      · exact h.callers_alone t m' ps ht k' (List.mem_of_getElem? hj) hm
    tasks_unique := by
      intro j j' k₁ k₂ hj hj' hm h₁ h₂
      rcases htask j k₁ hj with ⟨rfl, rfl⟩ | ⟨hne, hold⟩ <;>
        rcases htask j' k₂ hj' with ⟨hnew, rfl⟩ | ⟨hne', hold'⟩
      · exact hnew.symm
      · exact absurd (hother j' k₂ hne' hold' hm.symm) h₂
      · obtain rfl := hnew
        exact absurd (hother j k₁ hne hold hm) h₁
      · exact h.tasks_unique j j' k₁ k₂ hold hold' hm h₁ h₂
    managed := by
      intro k' hk' hruns
      rcases hmemTask k' hk' with rfl | ⟨j, hne, hj⟩
      · dsimp only
        rw [hself]
        exact hflag hruns
      · dsimp only
        rw [hmetadata k'.metadata]
        · exact h.managed k' (List.mem_of_getElem? hj) hruns
        · intro hm
          rw [hother j k' hne hj hm] at hruns
          cases hruns
    failures := by
      intro m'
      rcases eq_or_ne m' k.metadata with rfl | hne
      · dsimp only
        rw [hself]
        exact hfailures
      · dsimp only
        rw [hmetadata m' hne]
        exact h.failures m'
    bounded := by
      intro k' hk'
      rcases hmemTask k' hk' with rfl | ⟨j, hne, hj⟩
      · dsimp only
        rw [hself]
        exact ⟨hn', hok'⟩
      · obtain ⟨hbound, hphase⟩ := h.bounded k' (List.mem_of_getElem? hj)
        rcases eq_or_ne k'.metadata k.metadata with hm | hm
        · rw [hother j k' hne hj hm]
          exact ⟨hbound, trivial⟩
        · dsimp only
          rw [hmetadata k'.metadata hm]
          exact ⟨hbound, hphase⟩ }

theorem Inv.step (e : ManagerEvent τ) (h : s.Inv) (hun : s.Undisturbed e)
    (hs : s.step settings e = some s') : s'.Inv := by
  cases e with
  | callInitialize t directoryExists => exact h.callInitialize t directoryExists hs
  | advance t => exact h.advance t hun hs
  | task i answer => exact h.stepTask i answer hun hs

/-- As long as no test misses a task that is under way and no start-up watch runs out of time, the
keep-alive loops are exclusive and bounded. -/
theorem exclusiveAndBounded_of_undisturbed (settings : ProcessSettings μ)
    (events : List (ManagerEvent τ))
    (hun : EachStep (stepOf (step settings)) Undisturbed new events) :
    EachState (stepOf (step settings)) ExclusiveAndBounded new events :=
  EachState.of_invariant (fun _ e _ h hun hs => h.step e hun hs) (fun _ h => h.exclusiveAndBounded)
    hun inv_new

/-! ### Two loops, and a sixth process -/

def oneProcess : ProcessSettings Unit := ⟨[()], (), fun _ => true, false⟩

/-- The process is not seen healthy; `hasExited` tells whether it goes on. -/
def unhealthy (hasExited : Bool) : Answer := ⟨false, .started, some hasExited⟩

/-- A call starts a task whose processes all exit at once, and a second call the next task. -/
def exits : List (ManagerEvent Unit) :=
  [.callInitialize () true, .advance (), .advance (), .advance ()] ++
    List.replicate 23 (.task 0 (unhealthy true)) ++
    [.callInitialize () true, .advance (), .advance (), .task 1 (unhealthy true)]

theorem exclusiveAndBounded_exits :
    EachStep (stepOf (step oneProcess)) Undisturbed new exits ∧
      EachState (stepOf (step oneProcess)) ExclusiveAndBounded new exits := by
  have hcheck : checkSteps (step oneProcess) (fun s e => decide (s.Undisturbed e)) new exits
      = true := by decide
  have hun : EachStep (stepOf (step oneProcess)) Undisturbed new exits :=
    fun before e after s heq hrun =>
      of_decide_eq_true (eachStep_of_check hcheck before e after s heq hrun)
  exact ⟨hun, exclusiveAndBounded_of_undisturbed oneProcess exits hun⟩

/-- The second call tests `IsBeingManaged` before the task of the first has set it. -/
def twoCalls : List (ManagerEvent Unit) :=
  [.callInitialize () true, .advance (), .advance (), .advance (), .callInitialize () true,
    .advance (), .advance (), .task 0 (unhealthy false), .task 1 (unhealthy false)]

/-- A start-up watch that runs out of time, then five processes that exit at once. -/
def watchAndExits : List (ManagerEvent Unit) :=
  [.callInitialize () true, .advance (), .advance ()] ++
    List.replicate 25 (.task 0 (unhealthy false)) ++
    List.replicate 20 (.task 0 (unhealthy true))

theorem run_of_tasks {settings : ProcessSettings Unit} {events : List (ManagerEvent Unit)}
    {tasks : List (KeepAlive Unit)}
    (h : (events.foldlM (step settings) new).map (fun s => s.tasks) = some tasks) :
    ∃ s, Run (stepOf (step settings)) new events s ∧ s.tasks = tasks := by
  obtain ⟨s, hs, htasks⟩ := Option.map_eq_some_iff.1 h
  exact ⟨s, run_of_foldlM hs, htasks⟩

/-- Two keep-alive loops of one process can run, and a loop can start six processes in a row that
are never seen healthy. -/
theorem neither_exclusive_nor_bounded :
    (¬ ∀ (μ τ : Type) [DecidableEq μ] [DecidableEq τ] (settings : ProcessSettings μ)
        (events : List (ManagerEvent τ)),
        EachState (stepOf (step settings)) ExclusiveAndBounded new events) ∧
      (∃ s, Run (stepOf (step oneProcess)) new twoCalls s ∧
        s.tasks = [⟨(), .iterating, 0⟩, ⟨(), .iterating, 0⟩]) ∧
      ∃ s, Run (stepOf (step oneProcess)) new watchAndExits s ∧
        s.tasks = [⟨(), .iterating, 6⟩] := by
  have htwo : ∃ s, Run (stepOf (step oneProcess)) new twoCalls s ∧
      s.tasks = [⟨(), .iterating, 0⟩, ⟨(), .iterating, 0⟩] := run_of_tasks (by decide)
  refine ⟨fun h => ?_, htwo, run_of_tasks (by decide)⟩
  obtain ⟨s, hrun, htasks⟩ := htwo
  have hgood := h Unit Unit oneProcess twoCalls twoCalls [] s (by simp) hrun
  have heq := hgood.exclusive 0 1 ⟨(), .iterating, 0⟩ ⟨(), .iterating, 0⟩ (by rw [htasks]; rfl)
    (by rw [htasks]; rfl) rfl rfl rfl
  omega

end TracingProcessManager

end DdTrace.Agent
