import DdTrace.Lib.Run
import Mathlib.Data.Fintype.Basic
import Mathlib.Data.List.Nodup
import Mathlib.Logic.Function.Basic

/-!
# `LifetimeManager`

The shutdown hooks, in the order they are added, and the handlers of the shutdown events on the
threads `τ`. A handler takes the hooks off the queue and runs them, until the queue is empty or
one throws: what is left of its hooks then waits for another event. While another handler runs a
hook, an empty queue says nothing of it.
-/

namespace DdTrace.Lifetime

open DdTrace.Lib

inductive ShutdownEvent where
  | processExit
  | domainUnload
  | unhandledException
  | cancelKeyPress
  deriving DecidableEq

/-- Where a handler is. -/
inductive Phase where
  /-- Before `TryDequeue`. -/
  | draining
  /-- Before `action()`. -/
  | holding (hook : ℕ)
  | running (hook : ℕ)
  /-- Behind `RunShutdownTasks`. -/
  | leaving
  deriving DecidableEq

/-- The hook that is taken off the queue and has not returned. -/
def Phase.hook : Phase → Option ℕ
  | .holding hook | .running hook => some hook
  | _ => none

/-- The handler of an event in front of which so many hooks were added. -/
structure Handler where
  event : ShutdownEvent
  before : ℕ
  phase : Phase
  deriving DecidableEq

structure LifetimeManager (τ : Type) where
  /-- `_shutdownHooks`; a hook is the number of those added before it. -/
  queue : List ℕ
  added : ℕ
  registered : ShutdownEvent → Bool
  handlers : τ → Option Handler
  /-- The hooks that are called, in order, and those that have returned or thrown. -/
  started : List ℕ
  completed : List ℕ
  /-- For each event that is handled, how many hooks were added before it. -/
  handled : List ℕ

inductive LifetimeStep (τ : Type) where
  | addShutdownTask
  | shutdown (t : τ) (event : ShutdownEvent)
  | tryDequeue (t : τ)
  | call (t : τ)
  | finish (t : τ) (throws : Bool)
  | leave (t : τ)
  deriving DecidableEq

namespace LifetimeManager

variable {τ : Type} [DecidableEq τ]

def new : LifetimeManager τ := ⟨[], 0, fun _ => true, fun _ => none, [], [], []⟩

def goto (s : LifetimeManager τ) (t : τ) (handler : Option Handler) : LifetimeManager τ :=
  { s with handlers := Function.update s.handlers t handler }

def addShutdownTask (s : LifetimeManager τ) : LifetimeManager τ :=
  { s with queue := s.queue ++ [s.added], added := s.added + 1 }

def tryDequeue (s : LifetimeManager τ) (t : τ) (handler : Handler) : LifetimeManager τ :=
  match s.queue with
  | hook :: queue => { s.goto t (some { handler with phase := .holding hook }) with queue }
  | [] => s.goto t (some { handler with phase := .leaving })

/-- The hook returns, or it throws into the `catch` block behind the loop. -/
def finish (s : LifetimeManager τ) (t : τ) (handler : Handler) (hook : ℕ) (throws : Bool) :
    LifetimeManager τ :=
  { s.goto t (some { handler with phase := if throws then .leaving else .draining }) with
    completed := s.completed ++ [hook] }

/-- The handler takes itself off the event. -/
def leave (s : LifetimeManager τ) (t : τ) (handler : Handler) : LifetimeManager τ :=
  { s.goto t none with
    registered := Function.update s.registered handler.event false
    handled := s.handled ++ [handler.before] }

def step (s : LifetimeManager τ) : LifetimeStep τ → Option (LifetimeManager τ)
  | .addShutdownTask => some s.addShutdownTask
  | .shutdown t event =>
    match s.handlers t with
    | none => if s.registered event then some (s.goto t (some ⟨event, s.added, .draining⟩)) else none
    | some _ => none
  | .tryDequeue t =>
    match s.handlers t with
    | some ⟨event, before, .draining⟩ => some (s.tryDequeue t ⟨event, before, .draining⟩)
    | _ => none
  | .call t =>
    match s.handlers t with
    | some ⟨event, before, .holding hook⟩ =>
      some { s.goto t (some ⟨event, before, .running hook⟩) with started := s.started ++ [hook] }
    | _ => none
  | .finish t throws =>
    match s.handlers t with
    | some ⟨event, before, .running hook⟩ =>
      some (s.finish t ⟨event, before, .running hook⟩ hook throws)
    | _ => none
  | .leave t =>
    match s.handlers t with
    | some ⟨event, before, .leaving⟩ => some (s.leave t ⟨event, before, .leaving⟩)
    | _ => none

/-- What a step does, by the handler it is a step of. -/
inductive Takes (s : LifetimeManager τ) : LifetimeStep τ → LifetimeManager τ → Prop where
  | addShutdownTask : Takes s .addShutdownTask s.addShutdownTask
  | shutdown {t : τ} {event : ShutdownEvent} (h : s.handlers t = none) :
      Takes s (.shutdown t event) (s.goto t (some ⟨event, s.added, .draining⟩))
  | tryDequeue {t : τ} {handler : Handler} (h : s.handlers t = some handler)
      (hphase : handler.phase = .draining) : Takes s (.tryDequeue t) (s.tryDequeue t handler)
  | call {t : τ} {handler : Handler} {hook : ℕ} (h : s.handlers t = some handler)
      (hphase : handler.phase = .holding hook) :
      Takes s (.call t) { s.goto t (some { handler with phase := .running hook }) with
        started := s.started ++ [hook] }
  | finish {t : τ} {handler : Handler} {hook : ℕ} {throws : Bool}
      (h : s.handlers t = some handler) (hphase : handler.phase = .running hook) :
      Takes s (.finish t throws) (s.finish t handler hook throws)
  | leave {t : τ} {handler : Handler} (h : s.handlers t = some handler)
      (hphase : handler.phase = .leaving) : Takes s (.leave t) (s.leave t handler)

variable {s s' : LifetimeManager τ}

theorem takes_of_step {e : LifetimeStep τ} (h : s.step e = some s') : s.Takes e s' := by
  cases e with
  | addShutdownTask =>
    cases h
    exact .addShutdownTask
  | shutdown t event =>
    rw [step] at h
    split at h
    · rename_i hidle
      split at h
      · cases h
        exact .shutdown hidle
      · cases h
    · cases h
  | tryDequeue t =>
    rw [step] at h
    split at h
    · rename_i hhandler
      cases h
      exact .tryDequeue hhandler rfl
    · cases h
  | call t =>
    rw [step] at h
    split at h
    · rename_i hhandler
      cases h
      exact .call hhandler rfl
    · cases h
  | finish t throws =>
    rw [step] at h
    split at h
    · rename_i hhandler
      cases h
      exact .finish hhandler rfl
    · cases h
  | leave t =>
    rw [step] at h
    split at h
    · rename_i hhandler
      cases h
      exact .leave hhandler rfl
    · cases h

/-- The hook that the handler on the thread has taken off the queue. -/
def hookOf (s : LifetimeManager τ) (t : τ) : Option ℕ :=
  (s.handlers t).bind fun handler => handler.phase.hook

omit [DecidableEq τ] in
theorem hookOf_eq {t : τ} {handler : Handler} (h : s.handlers t = some handler) :
    s.hookOf t = handler.phase.hook := by
  rw [hookOf, h, Option.bind_some]

theorem hookOf_goto (s : LifetimeManager τ) (t t' : τ) (handler : Option Handler) :
    (s.goto t handler).hookOf t'
      = if t' = t then handler.bind fun handler => handler.phase.hook else s.hookOf t' := by
  rw [hookOf, hookOf]
  show (Function.update s.handlers t handler t').bind _ = _
  rw [Function.update_apply]
  split <;> rfl

end LifetimeManager

end DdTrace.Lifetime
