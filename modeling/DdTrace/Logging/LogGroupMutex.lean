import DdTrace.Lib.Run
import Mathlib.Logic.Function.Basic

/-!
# `LogGroupMutex`

`TryAcquire`, `Handle.Dispose` and `Dispose` as steps of the threads `τ` of a process, one for
each access to what the threads share, and the named mutexes of the operating system, which other
processes take, release and abandon. A handle is known by its place in `handles`; copies of the
struct are left out. A mutex is known by the iteration that its name is made of, so a `Mutex`
that is not the one in `_mutex` has been disposed.
-/

namespace DdTrace.Logging

open DdTrace.Lib

/-- The owner of a named mutex. -/
inductive Owner (τ : Type) where
  | free
  /-- Its last owner, in another process, ended without releasing it. -/
  | abandoned
  | otherProcess
  /-- A thread of this process that has to release it so many times. -/
  | thread (t : τ) (depth : ℕ)
  deriving DecidableEq

/-- `LogGroupMutex.Handle`, with the thread that acquired it. -/
structure Handle (τ : Type) where
  acquiredMutex : Option Int32
  mutexProtector : Bool
  acquirer : τ
  deriving DecidableEq

def Handle.isValid {τ : Type} (h : Handle τ) : Bool := h.acquiredMutex.isSome && h.mutexProtector

/-- Where a call is. -/
inductive Pc where
  /-- `TryAcquireIteration`, the `k`-th: the first test of `IsDisposed`. -/
  | testing (k : ℕ)
  /-- About to call `_mutexProtector.Wait`. -/
  | entering (k : ℕ)
  | waiting (k : ℕ)
  | retesting (k : ℕ)
  /-- At the head of the loop, and then in `TryAcquireCore`. -/
  | looping (k passedMillis : ℕ)
  | sleeping (k : ℕ)
  | incrementing (k : ℕ)
  | lastTry (k : ℕ)
  /-- In the `finally` block, without a handle. -/
  | releasing (k : ℕ)
  /-- `TryAcquire`, after the `k`-th iteration returned false. -/
  | iterating (k : ℕ)
  /-- `Handle.Dispose` -/
  | exchangeMutex (i : ℕ)
  | releaseMutex (i : ℕ) (acquiredMutex : Int32)
  | exchangeProtector (i : ℕ)
  | releaseProtector
  /-- `LogGroupMutex.Dispose` -/
  | disposeTesting
  | disposeEntering
  | disposeWaiting
  | disposeRetesting
  | disposeReleasing (andDispose : Bool)
  | disposeProtector
  deriving DecidableEq

structure LogGroupMutex (τ : Type) where
  mutexProtector : ℕ
  protectorDisposed : Bool
  iteration : Int32
  mutex : Option Int32
  owner : Int32 → Owner τ
  handles : List (Handle τ)
  /-- The call that a thread is in. -/
  pc : τ → Option Pc

inductive MutexEvent (τ : Type) where
  | tryAcquire (t : τ)
  | disposeHandle (t : τ) (i : ℕ)
  | dispose (t : τ)
  /-- The next step of the thread's call. The clock says how much time has passed in the loop,
  and the constructor of a `Mutex` may throw. -/
  | go (t : τ) (passedMillis : ℕ) (throws : Bool)
  | otherAcquires (m : Int32)
  | otherReleases (m : Int32)
  | otherAbandons (m : Int32)

def IterationTimeoutMillis : ℕ := 7000

def ImmediateIterationsBeforeGiveUp : ℕ := 3

namespace LogGroupMutex

variable {τ : Type} [DecidableEq τ]

/-- `_iteration` is 0; nobody in this process owns a mutex. -/
def new (owner : Int32 → Owner τ) : LogGroupMutex τ where
  mutexProtector := 1
  protectorDisposed := false
  iteration := 0
  mutex := some 0
  owner := owner
  handles := []
  pc _ := none

variable (s : LogGroupMutex τ)

def isDisposed : Bool := s.iteration < 0

def goto (t : τ) (pc : Option Pc) : LogGroupMutex τ := { s with pc := Function.update s.pc t pc }

def setOwner (m : Int32) (owner : Owner τ) : LogGroupMutex τ :=
  { s with owner := Function.update s.owner m owner }

/-- `_mutexProtector.Wait`, which blocks while the count is 0. -/
def wait (t : τ) (pc : Pc) : Option (LogGroupMutex τ) :=
  if s.mutexProtector = 0 then none
  else some ({ s with mutexProtector := s.mutexProtector - 1 }.goto t pc)

/-- `_mutexProtector.Release`, which throws if the semaphore is disposed; each caller catches
that. -/
def release : LogGroupMutex τ :=
  if s.protectorDisposed then s else { s with mutexProtector := s.mutexProtector + 1 }

/-- `TryAcquireCore`: `failed` is where the call goes without a handle. `WaitOne` comes back when
the mutex can be had or the time is over. On an abandoned mutex it throws, but the thread owns the
mutex; that and the exception at a null reference are caught. -/
def tryAcquireCore (t : τ) (failed : Pc) : LogGroupMutex τ :=
  match s.mutex with
  | none => s.goto t failed
  | some m =>
    let handle : Handle τ := ⟨some m, true, t⟩
    let acquired (depth : ℕ) : LogGroupMutex τ :=
      { s.setOwner m (.thread t depth) with handles := s.handles ++ [handle] }.goto t none
    match s.owner m with
    | .free => acquired 1
    | .abandoned => (s.setOwner m (.thread t 1)).goto t failed
    | .otherProcess => s.goto t failed
    | .thread u depth => if u = t then acquired (depth + 1) else s.goto t failed

/-- `IncMutexIteration`; only the thread that holds the semaphore reads `_mutex`. -/
def incMutexIteration (t : τ) (k : ℕ) (throws : Bool) : LogGroupMutex τ :=
  let s := { s with mutex := none, iteration := s.iteration + 1 }
  if throws then s.goto t (some (.releasing k))
  else { s with mutex := some s.iteration }.goto t (some (.lastTry k))

/-- `acquiredMutex.ReleaseMutex`, without effect if the `Mutex` is disposed (which is caught) or
the thread does not own it (which is thrown, through the `finally` block). -/
def releaseMutex (t : τ) (m : Int32) : LogGroupMutex τ :=
  if s.mutex = some m then
    match s.owner m with
    | .thread u depth =>
      if u = t then s.setOwner m (if depth ≤ 1 then .free else .thread t (depth - 1)) else s
    | _ => s
  else s

/-- The next step of a call. -/
def go (t : τ) (passedMillis : ℕ) (throws : Bool) : Pc → Option (LogGroupMutex τ)
  | .testing k => some (s.goto t (if s.isDisposed then some (.iterating k) else some (.entering k)))
  | .entering k =>
    some (s.goto t (if s.protectorDisposed then some (.iterating k) else some (.waiting k)))
  | .waiting k => s.wait t (.retesting k)
  | .retesting k =>
    some (s.goto t (if s.isDisposed then some (.releasing k) else some (.looping k 0)))
  | .looping k passedMillis =>
    if passedMillis < IterationTimeoutMillis then some (s.tryAcquireCore t (.sleeping k))
    else some (s.goto t (some (.incrementing k)))
  | .sleeping k => some (s.goto t (some (.looping k passedMillis)))
  | .incrementing k => some (s.incMutexIteration t k throws)
  | .lastTry k => some (s.tryAcquireCore t (.releasing k))
  | .releasing k => some (s.release.goto t (some (.iterating k)))
  | .iterating k =>
    -- `IsDisposed` is not tested between the first iteration and the loop
    some (s.goto t (if k ≠ 0 ∧ s.isDisposed then none
      else if k + 1 < ImmediateIterationsBeforeGiveUp then some (.testing (k + 1)) else none))
  | .exchangeMutex i =>
    match s.handles[i]? with
    | none => none
    | some h =>
      match h.acquiredMutex with
      | none => some (s.goto t (some (.exchangeProtector i)))
      | some m =>
        some ({ s with handles := s.handles.set i { h with acquiredMutex := none } }.goto t
          (some (.releaseMutex i m)))
  | .releaseMutex i m => some ((s.releaseMutex t m).goto t (some (.exchangeProtector i)))
  | .exchangeProtector i =>
    match s.handles[i]? with
    | none => none
    | some h =>
      some ({ s with handles := s.handles.set i ⟨none, false, h.acquirer⟩ }.goto t
        (if h.mutexProtector then some .releaseProtector else none))
  | .releaseProtector => some (s.release.goto t none)
  | .disposeTesting => some (s.goto t (if s.isDisposed then none else some .disposeEntering))
  | .disposeEntering =>
    some (s.goto t (if s.protectorDisposed then none else some .disposeWaiting))
  | .disposeWaiting => s.wait t .disposeRetesting
  | .disposeRetesting =>
    if s.isDisposed then some (s.goto t (some (.disposeReleasing false)))
    else some ({ s with mutex := none, iteration := -1 }.goto t (some (.disposeReleasing true)))
  | .disposeReleasing andDispose =>
    some (s.release.goto t
      (if andDispose && !s.protectorDisposed then some .disposeProtector else none))
  | .disposeProtector => some ({ s with protectorDisposed := true }.goto t none)

def step : MutexEvent τ → Option (LogGroupMutex τ)
  | .tryAcquire t => if s.pc t = none then some (s.goto t (some (.testing 0))) else none
  | .disposeHandle t i =>
    if s.pc t = none ∧ i < s.handles.length then some (s.goto t (some (.exchangeMutex i)))
    else none
  | .dispose t => if s.pc t = none then some (s.goto t (some .disposeTesting)) else none
  | .go t passedMillis throws => (s.pc t).bind (s.go t passedMillis throws)
  | .otherAcquires m =>
    if s.owner m = .free ∨ s.owner m = .abandoned then some (s.setOwner m .otherProcess) else none
  | .otherReleases m =>
    if s.owner m = .otherProcess then some (s.setOwner m .free) else none
  | .otherAbandons m =>
    if s.owner m = .otherProcess then some (s.setOwner m .abandoned) else none

end LogGroupMutex

end DdTrace.Logging
