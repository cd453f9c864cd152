import DdTrace.Lib.Run
import DdTrace.Lib.Signal

/-!
# AppSecAgentWriter

`FlushTracesAsync` against any number of `AddEvent` and `Shutdown` calls. The loop reads the
count of the queue, then resets `_senderMutex` and waits for it. A call that completes
between the two leaves the event set, and the reset takes it back: the loop is woken for every
event exactly as long as no reset comes behind a completed call whose event is still in the
queue (`noLostWakeUp_iff`).
-/

namespace DdTrace.AppSec

open Lib

abbrev CallId := ℕ

inductive CallKind where
  | addEvent
  | shutdown

/-- How far `FlushTracesAsync` has come. -/
inductive FlushPc where
  /-- About to read `_processExit`. -/
  | testingExit
  | testingCount
  | resetting
  | waiting
  | draining (appsecEvents : List CallId)
  | sending (appsecEvents : List CallId)
  /-- In `Task.Delay`; after a `ThreadAbortException` the loop ends there. -/
  | delaying (aborted : Bool)
  | exited
  deriving DecidableEq

inductive SendOutcome where
  | sent
  | threw
  | aborted

def maxItemsPerBatch : ℕ := 1000

/-- An event of the queue is the `AddEvent` call that enqueued it. `processExit` is the
`Shutdown` call that has set `_processExit`; `cancelled` is `_batchCancelationSource`. -/
structure AppSecAgentWriter where
  events : List CallId
  senderMutex : Signal CallId
  processExit : Option CallId
  cancelled : Bool
  pc : FlushPc

namespace AppSecAgentWriter

def init : AppSecAgentWriter where
  events := []
  senderMutex := ⟨false, fun _ => .notStarted⟩
  processExit := none
  cancelled := false
  pc := .testingExit

def setCall (s : AppSecAgentWriter) (k : CallId) (pc : Signaller) : AppSecAgentWriter :=
  { s with senderMutex := s.senderMutex.setCall k pc }

variable (kind : CallId → CallKind)

/-- `AddEvent` enqueues; `Shutdown` sets `_processExit`, or returns if it was set. -/
def start (s : AppSecAgentWriter) (k : CallId) : Option AppSecAgentWriter :=
  match s.senderMutex.call k, kind k with
  | .notStarted, .addEvent => some ({ s with events := s.events ++ [k] }.setCall k .testing)
  | .notStarted, .shutdown =>
    match s.processExit with
    | some _ => some (s.setCall k .completed)
    | none => some ({ s with processExit := some k }.setCall k .publishing)
  | _, _ => none

/-- `_batchCancelationSource.Cancel()`. -/
def cancel (s : AppSecAgentWriter) (k : CallId) : Option AppSecAgentWriter :=
  match s.senderMutex.call k with
  | .publishing => some ({ s with cancelled := true }.setCall k .testing)
  | _ => none

/-- The next step of `FlushTracesAsync`, up to `Send`. -/
def loop (s : AppSecAgentWriter) : Option AppSecAgentWriter :=
  match s.pc with
  | .testingExit =>
    some { s with pc := if s.processExit.isSome then .exited else .testingCount }
  | .testingCount =>
    some { s with pc := if s.events.length = 0 then .resetting else .draining [] }
  | .resetting => some { s with senderMutex := s.senderMutex.reset, pc := .waiting }
  | .waiting => if s.senderMutex.isSet then some { s with pc := .draining [] } else none
  | .draining appsecEvents =>
    if appsecEvents.length ≤ maxItemsPerBatch then
      match s.events with
      | [] => some { s with pc := .sending appsecEvents }
      | event :: events => some { s with events, pc := .draining (appsecEvents ++ [event]) }
    else some { s with pc := .sending appsecEvents }
  | .sending _ | .delaying _ | .exited => none

/-- `_sender.Send` finishes, and `Task.Delay` is called; it throws if the token is cancelled. -/
def send (s : AppSecAgentWriter) (outcome : SendOutcome) : Option AppSecAgentWriter :=
  match s.pc, outcome with
  | .sending _, .aborted => some { s with pc := if s.cancelled then .exited else .delaying true }
  | .sending _, _ => some { s with pc := if s.cancelled then .exited else .delaying false }
  | _, _ => none

/-- `Task.Delay` ends: its time is over, or the token is cancelled. -/
def delay (s : AppSecAgentWriter) (elapsed : Bool) : Option AppSecAgentWriter :=
  match s.pc, elapsed with
  | .delaying aborted, true => some { s with pc := if aborted then .exited else .testingExit }
  | .delaying _, false => if s.cancelled then some { s with pc := .exited } else none
  | _, _ => none

inductive Event where
  | start (k : CallId)
  | cancel (k : CallId)
  | test (k : CallId)
  | set (k : CallId)
  | loop
  | send (outcome : SendOutcome)
  | delay (elapsed : Bool)

def step (s : AppSecAgentWriter) : Event → Option AppSecAgentWriter
  | .start k => s.start kind k
  | .cancel k => s.cancel k
  | .test k => (s.senderMutex.test k).map fun e => { s with senderMutex := e }
  | .set k => (s.senderMutex.set k).map fun e => { s with senderMutex := e }
  | .loop => s.loop
  | .send outcome => s.send outcome
  | .delay elapsed => s.delay elapsed

/-- The call added an event that is in the queue, or requested the shutdown. -/
def Requested (s : AppSecAgentWriter) (k : CallId) : Prop :=
  k ∈ s.events ∨ s.processExit = some k

/-- The loop is not blocked on the unset event with the request of a completed call. -/
def NoLostWakeUp (s : AppSecAgentWriter) : Prop :=
  ¬ (s.pc = .waiting ∧ s.senderMutex.isSet = false ∧
    ∃ k, s.Requested k ∧ s.senderMutex.call k = .completed)

/-- The step does not reset the event behind the request of a completed call. -/
def ResetInTime (s : AppSecAgentWriter) : Event → Prop
  | .loop => s.pc = .resetting → ∀ k, s.Requested k → s.senderMutex.call k ≠ .completed
  | _ => True

variable {kind} {s t : AppSecAgentWriter} {k j : CallId} {event : Event}

theorem noLostWakeUp_def :
    s.NoLostWakeUp ↔ (s.pc = .waiting → s.senderMutex.Announced s.Requested) := by
  constructor
  · intro h hpc hset k hk hc
    exact h ⟨hpc, hset, k, hk, hc⟩
  · rintro h ⟨hpc, hset, k, hk, hc⟩
    exact h hpc hset k hk hc

/-! ## Steps of the calls -/

/-- A call that starts completes only if it requests nothing. -/
theorem start_eq_some (h : s.start kind k = some t) : s.senderMutex.call k = .notStarted ∧
    t.pc = s.pc ∧ ∃ pc, t.senderMutex = s.senderMutex.setCall k pc ∧ pc ≠ .notStarted ∧
      ∀ j, t.Requested j → s.Requested j ∨ j = k ∧ pc ≠ .completed := by
  unfold start at h
  split at h
  · obtain rfl := Option.some.inj h
    refine ⟨‹_›, rfl, _, rfl, by decide, ?_⟩
    rintro j (hj | hj)
    · rcases List.mem_append.1 hj with hj | hj
      · exact .inl (.inl hj)
      · exact .inr ⟨List.mem_singleton.1 hj, by decide⟩
    · exact .inl (.inr hj)
  · split at h
    · obtain rfl := Option.some.inj h
      exact ⟨‹_›, rfl, _, rfl, by decide, fun _ => .inl⟩
    · obtain rfl := Option.some.inj h
      refine ⟨‹_›, rfl, _, rfl, by decide, ?_⟩
      rintro j (hj | hj)
      · exact .inl (.inl hj)
      · exact .inr ⟨(Option.some.inj hj).symm, by decide⟩
  · cases h

theorem cancel_eq_some (h : s.cancel k = some t) : s.senderMutex.call k = .publishing ∧
    t = { s with cancelled := true }.setCall k .testing := by
  unfold cancel at h
  split at h
  · exact ⟨‹_›, (Option.some.inj h).symm⟩
  · cases h

/-- The call of a request has started. -/
def Started (s : AppSecAgentWriter) : Prop :=
  ∀ k, s.Requested k → s.senderMutex.call k ≠ .notStarted

/-- What the steps of the calls keep, wherever the loop is. -/
theorem start_keeps (h : s.Started) (hs : s.start kind k = some t) : t.Started ∧
    (s.senderMutex.Announced s.Requested → t.senderMutex.Announced t.Requested) := by
  obtain ⟨hk, -, pc, he, hpc, hreq⟩ := start_eq_some hs
  have hnot : ¬ s.Requested k := fun hr => h k hr hk
  refine ⟨fun j hj => ?_, fun ha => ?_⟩
  · rw [he]
    by_cases hjk : j = k
    · subst hjk
      rwa [Signal.setCall_call_self]
    · rw [Signal.setCall_call_of_ne hjk]
      exact h j ((hreq j hj).resolve_right fun hr => hjk hr.1)
  · rw [he]
    refine ha.setCall (fun hr => ?_) fun j hjk hj => (hreq j hj).resolve_right fun hr => hjk hr.1
    exact ((hreq k hr).resolve_left hnot).2

theorem cancel_keeps (h : s.Started) (hs : s.cancel k = some t) : t.Started ∧
    (s.senderMutex.Announced s.Requested → t.senderMutex.Announced t.Requested) := by
  obtain ⟨-, rfl⟩ := cancel_eq_some hs
  refine ⟨fun j hj => ?_, fun ha => ha.setCall (fun _ => by decide) fun _ _ => id⟩
  by_cases hjk : j = k
  · subst hjk
    rw [setCall, Signal.setCall_call_self]
    decide
  · rw [setCall, Signal.setCall_call_of_ne hjk]
    exact h j hj

/-! ## Steps of the loop -/

/-- The loop takes events off the queue; it is about to wait only behind its reset. -/
theorem loop_eq_some (h : s.loop = some t) :
    t.senderMutex.call = s.senderMutex.call ∧ (∀ k, t.Requested k → s.Requested k) ∧
      (t.pc = .waiting → s.pc = .resetting ∧
        t = { s with senderMutex := s.senderMutex.reset, pc := .waiting }) := by
  unfold loop at h
  split at h
  case h_1 | h_2 =>
    obtain rfl := Option.some.inj h
    refine ⟨rfl, fun _ => id, fun hpc => ?_⟩
    split at hpc <;> cases hpc
  case h_3 hpc =>
    obtain rfl := Option.some.inj h
    exact ⟨rfl, fun _ => id, fun _ => ⟨hpc, rfl⟩⟩
  case h_4 =>
    split at h
    · obtain rfl := Option.some.inj h
      exact ⟨rfl, fun _ => id, fun hpc => (by cases hpc)⟩
    · cases h
  case h_5 =>
    split at h
    · split at h
      · obtain rfl := Option.some.inj h
        exact ⟨rfl, fun _ => id, fun hpc => (by cases hpc)⟩
      · rename_i event events he
        obtain rfl := Option.some.inj h
        refine ⟨rfl, ?_, fun hpc => (by cases hpc)⟩
        rintro k (hk | hk)
        · exact .inl (he ▸ .tail _ hk)
        · exact .inr hk
    · obtain rfl := Option.some.inj h
      exact ⟨rfl, fun _ => id, fun hpc => (by cases hpc)⟩
  all_goals cases h

theorem send_eq_some {outcome : SendOutcome} (h : s.send outcome = some t) :
    ∃ pc, t = { s with pc } ∧ pc ≠ .waiting := by
  unfold send at h
  split at h
  · refine ⟨_, (Option.some.inj h).symm, ?_⟩
    split <;> simp
  · refine ⟨_, (Option.some.inj h).symm, ?_⟩
    split <;> simp
  · cases h

theorem delay_eq_some {elapsed : Bool} (h : s.delay elapsed = some t) :
    ∃ pc, t = { s with pc } ∧ pc ≠ .waiting := by
  unfold delay at h
  split at h
  · refine ⟨_, (Option.some.inj h).symm, ?_⟩
    split <;> simp
  · split at h
    · exact ⟨_, (Option.some.inj h).symm, by simp⟩
    · cases h
  · cases h

/-! ## Runs -/

theorem step_keeps (h : s.Started) (hw : s.NoLostWakeUp) (hr : s.ResetInTime event)
    (hs : s.step kind event = some t) : t.Started ∧ t.NoLostWakeUp := by
  rw [noLostWakeUp_def] at hw ⊢
  cases event with
  | start k =>
    obtain ⟨hstarted, ha⟩ := start_keeps h hs
    have hpc := (start_eq_some hs).2.1
    exact ⟨hstarted, fun hwait => ha (hw (hpc ▸ hwait))⟩
  | cancel k =>
    obtain ⟨hstarted, ha⟩ := cancel_keeps h hs
    obtain ⟨-, rfl⟩ := cancel_eq_some hs
    exact ⟨hstarted, fun hwait => ha (hw hwait)⟩
  | test k =>
    obtain ⟨e, he, rfl⟩ := Option.map_eq_some_iff.1 hs
    exact ⟨fun j hj => Signal.call_test (p := (· ≠ .notStarted)) he (by decide) (by decide) (h j hj),
      fun hwait => (hw hwait).test he⟩
  | set k =>
    obtain ⟨e, he, rfl⟩ := Option.map_eq_some_iff.1 hs
    exact ⟨fun j hj => Signal.call_set (p := (· ≠ .notStarted)) he (by decide) (h j hj),
      fun _ => Signal.Announced.set he⟩
  | loop =>
    obtain ⟨hcall, hreq, hwait⟩ := loop_eq_some hs
    refine ⟨fun j hj => ?_, fun hpc => ?_⟩
    · rw [hcall]
      exact h j (hreq j hj)
    · obtain ⟨hreset, rfl⟩ := hwait hpc
      exact Signal.announced_reset.2 (hr hreset)
  | send outcome =>
    obtain ⟨pc, rfl, hpc⟩ := send_eq_some hs
    exact ⟨h, fun hwait => absurd hwait hpc⟩
  | delay elapsed =>
    obtain ⟨pc, rfl, hpc⟩ := delay_eq_some hs
    exact ⟨h, fun hwait => absurd hwait hpc⟩

/-- A reset behind the request of a completed call loses the wake-up at once. -/
theorem step_loses (hr : ¬ s.ResetInTime event) :
    ∃ t, s.step kind event = some t ∧ ¬ t.NoLostWakeUp := by
  cases event with
  | loop =>
    simp only [ResetInTime, not_forall, not_not] at hr
    obtain ⟨hpc, k, hk, hc⟩ := hr
    refine ⟨{ s with senderMutex := s.senderMutex.reset, pc := .waiting }, ?_, ?_⟩
    · simp only [step, loop, hpc]
    · exact fun h => h ⟨rfl, rfl, k, hk, hc⟩
  | _ => exact absurd trivial hr

theorem started_init : Started init := by
  rintro k (hk | hk) <;> cases hk

/-- The loop misses no wake-up in a run exactly when no step of the run resets the event behind
the request of a completed call. -/
theorem noLostWakeUp_iff (kind : CallId → CallKind) (events : List Event) :
    EachState (stepOf (step kind)) NoLostWakeUp init events ↔
      EachStep (stepOf (step kind)) ResetInTime init events := by
  apply eachState_iff_eachStep (I := fun _ s => s.Started)
  · intro _ event _ s t _ h hw hr hs
    exact step_keeps h hw hr hs
  · intro _ event _ s _ _ _ hr
    exact step_loses hr
  · exact started_init
  · rintro ⟨hpc, -⟩
    cases hpc

/-- `AddEvent` completes between the test of the count and the reset. -/
theorem lostWakeUp : ¬ ∀ kind events,
    EachState (stepOf (step kind)) NoLostWakeUp init events := by
  intro h
  have hrun : ∃ s, Run (stepOf (step fun _ => .addEvent)) init
      [.loop, .loop, .start 0, .test 0, .set 0, .loop] s ∧
      s.pc = .waiting ∧ s.senderMutex.isSet = false ∧ s.Requested 0 ∧
      s.senderMutex.call 0 = .completed :=
    ⟨_, .cons rfl (.cons rfl (.cons rfl (.cons rfl (.cons rfl (.cons rfl (.nil _)))))),
      rfl, rfl, .inl (.head _), rfl⟩
  obtain ⟨s, hrun, hpc, hset, hreq, hdone⟩ := hrun
  exact h _ _ _ [] s (List.append_nil _).symm hrun ⟨hpc, hset, 0, hreq, hdone⟩

end AppSecAgentWriter

end DdTrace.AppSec
