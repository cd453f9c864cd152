import DdTrace.Lib.Run
import Mathlib.Logic.Function.Basic

/-!
# `TracingProcessManager`

Calls of `Initialize` by the threads `τ` and the keep-alive tasks they start, for the processes
`μ`. A call tests `IsBeingManaged` in one step and starts the task in another. A task takes a
step for each answer of its environment and each `await`; it shares nothing but `IsBeingManaged`
with the calls. With a task goes the number of processes it has started since one was seen
healthy.
-/

namespace DdTrace.Agent

open DdTrace.Lib

inductive ProcessState where
  | neverChecked
  | readyToStart
  | faulted
  | healthy
  deriving DecidableEq

structure ProcessMetadata where
  isBeingManaged : Bool
  sequentialFailures : ℕ
  processState : ProcessState
  /-- `Process` is not null. -/
  process : Bool
  deriving DecidableEq

def ProcessMetadata.new : ProcessMetadata := ⟨false, 0, .neverChecked, false⟩

def MaxFailures : ℕ := 5

inductive StartResult where
  | started
  /-- `Process.Start` returns null. -/
  | null
  | threw
  deriving DecidableEq

/-- What the environment answers in a step. -/
structure Answer where
  processIsHealthy : Bool
  start : StartResult
  /-- Nothing if it throws. -/
  hasExited : Option Bool
  deriving DecidableEq

/-- Where the task of `StartProcessWithKeepAlive` is. -/
inductive Phase where
  | pending
  /-- At the head of the loop. -/
  | iterating
  /-- Before `--attempts > 0`. -/
  | recovering (attempts : ℕ)
  /-- Before the test of `ReadyToStart`. -/
  | starting
  /-- Before `timeout > 0`. -/
  | watching (timeout : ℕ)
  /-- In the `finally` block of the iteration. -/
  | finishing
  /-- In the `finally` block of the task. -/
  | dropping
  | done
  deriving DecidableEq

/-- A keep-alive task. -/
structure KeepAlive (μ : Type) where
  metadata : μ
  phase : Phase
  startedInARow : ℕ
  deriving DecidableEq

/-- The keep-alive loop of the task runs. -/
def Phase.runs (phase : Phase) : Bool := phase ≠ .pending && phase ≠ .done

/-- A call of `Initialize` by a thread. -/
inductive Caller (μ : Type) where
  | idle
  /-- In `StartProcesses`, before the test of `IsBeingManaged` of the first process. -/
  | testing (processes : List μ)
  /-- About to call `StartProcessWithKeepAlive`. -/
  | starting (metadata : μ) (processes : List μ)
  deriving DecidableEq

structure TracingProcessManager (μ τ : Type) where
  metadata : μ → ProcessMetadata
  callers : τ → Caller μ
  tasks : List (KeepAlive μ)

/-- What `Initialize` finds. -/
structure ProcessSettings (μ : Type) where
  processes : List μ
  traceAgentMetadata : μ
  /-- The path of the process is not blank. -/
  hasProcessPath : μ → Bool
  shouldAvoidAppDomain : Bool

inductive ManagerEvent (τ : Type) where
  /-- A thread calls `Initialize`. -/
  | callInitialize (t : τ) (directoryExists : Bool)
  | advance (t : τ)
  | task (i : ℕ) (answer : Answer)
  deriving DecidableEq

/-! ### The task -/

/-- Counts the processes started in a row. -/
def observe (answer : Answer) (startedInARow : ℕ) : ℕ :=
  if answer.processIsHealthy then 0 else startedInARow

/-- A step of the task: the metadata, where the task is then, and the processes it has started in
a row. -/
def keepAlive (m : ProcessMetadata) (phase : Phase) (startedInARow : ℕ) (answer : Answer) :
    Option (ProcessMetadata × Phase × ℕ) :=
  match phase with
  | .pending => some ({ m with isBeingManaged := true }, .iterating, startedInARow)
  | .iterating =>
    if MaxFailures ≤ m.sequentialFailures then
      some ({ m with processState := .faulted }, .dropping, startedInARow)
    else
      match m.processState with
      | .neverChecked =>
        if answer.processIsHealthy then
          some ({ m with processState := .healthy }, .recovering 7, observe answer startedInARow)
        else
          some ({ m with processState := .readyToStart }, .starting, observe answer startedInARow)
      | .healthy | .faulted =>
        some ({ m with
            processState := if answer.processIsHealthy then .healthy else .readyToStart },
          .starting, observe answer startedInARow)
      | .readyToStart => some (m, .starting, startedInARow)
  | .recovering attempts =>
    if 0 < attempts - 1 then
      if answer.processIsHealthy then
        some (m, .recovering (attempts - 1), observe answer startedInARow)
      else some ({ m with processState := .readyToStart }, .starting, observe answer startedInARow)
    else some (m, .starting, startedInARow)
  | .starting =>
    if m.processState = .readyToStart then
      match answer.start with
      | .started => some ({ m with process := true }, .watching 2000, startedInARow + 1)
      | .null => some ({ m with process := false }, .watching 2000, startedInARow)
      | .threw => some ({ m with processState := .faulted }, .finishing, startedInARow)
    else some (m, .finishing, startedInARow)
  | .watching timeout =>
    if 0 < timeout then
      if answer.processIsHealthy then
        some ({ m with sequentialFailures := 0, processState := .healthy }, .finishing,
          observe answer startedInARow)
      else if m.process = false ∨ answer.hasExited ≠ some false then
        -- it has exited, or `HasExited` throws into the `catch` block
        some ({ m with processState := .faulted }, .finishing, observe answer startedInARow)
      else some (m, .watching (timeout - 100), observe answer startedInARow)
    else some (m, .finishing, startedInARow)
  | .finishing =>
    if m.processState = .faulted then
      some ({ m with sequentialFailures := m.sequentialFailures + 1 }, .iterating, startedInARow)
    else some (m, .iterating, startedInARow)
  | .dropping => some ({ m with isBeingManaged := false }, .done, startedInARow)
  | .done => none

/-! ### The system -/

namespace TracingProcessManager

variable {μ τ : Type} [DecidableEq μ] [DecidableEq τ]

def new : TracingProcessManager μ τ := ⟨fun _ => .new, fun _ => .idle, []⟩

def goto (s : TracingProcessManager μ τ) (t : τ) (caller : Caller μ) :
    TracingProcessManager μ τ :=
  { s with callers := Function.update s.callers t caller }

/-- A thread calls `Initialize`. -/
def callInitialize (settings : ProcessSettings μ) (s : TracingProcessManager μ τ) (t : τ)
    (directoryExists : Bool) : Option (TracingProcessManager μ τ) :=
  match s.callers t with
  | .idle =>
    if settings.hasProcessPath settings.traceAgentMetadata ∧ ¬ settings.shouldAvoidAppDomain ∧
        directoryExists then
      some (s.goto t (.testing settings.processes))
    else some s
  | _ => none

/-- `StartProcesses` -/
def advance (settings : ProcessSettings μ) (s : TracingProcessManager μ τ) (t : τ) :
    Option (TracingProcessManager μ τ) :=
  match s.callers t with
  | .idle => none
  | .testing [] => some (s.goto t .idle)
  | .testing (m :: processes) =>
    if settings.hasProcessPath m ∧ (s.metadata m).isBeingManaged = false then
      some (s.goto t (.starting m processes))
    else some (s.goto t (.testing processes))
  | .starting m processes =>
    some { s.goto t (.testing processes) with tasks := s.tasks ++ [⟨m, .pending, 0⟩] }

def stepTask (s : TracingProcessManager μ τ) (i : ℕ) (answer : Answer) :
    Option (TracingProcessManager μ τ) := do
  let k ← s.tasks[i]?
  let (m, phase, startedInARow) ←
    keepAlive (s.metadata k.metadata) k.phase k.startedInARow answer
  return { s with
    metadata := Function.update s.metadata k.metadata m
    tasks := s.tasks.set i { k with phase, startedInARow } }

def step (settings : ProcessSettings μ) (s : TracingProcessManager μ τ) :
    ManagerEvent τ → Option (TracingProcessManager μ τ)
  | .callInitialize t directoryExists => s.callInitialize settings t directoryExists
  | .advance t => s.advance settings t
  | .task i answer => s.stepTask i answer

end TracingProcessManager

end DdTrace.Agent
