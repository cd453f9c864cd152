import DdTrace.Lib.Run
import Mathlib.Logic.Function.Basic

/-!
# AgentWriter

`AgentWriter.cs` and `SpanBuffer.cs`, as the steps of their threads: `WriteTrace`
and `FlushTracesAsync` calls, the serialization thread, any number of flushers
(the calls of `FlushBuffers`) and the `InternalBufferFlush` tasks these start.
Traces are numbered in the order they are enqueued. What a step reads or writes
in one access of shared memory is one step.

Sizes are left out: a write into an unlocked buffer may fit or overflow, and a
`Monitor.TryEnter` may fail. `running` tells whether the serialization thread
runs; without it `WriteTrace` serializes in the caller's thread, one call at a
time. The flush barrier is that of a writer that stays as it is: the exit of the
serialization loop, `FlushAndCloseAsync`, and the calls of `WriteTrace` that
serialize in their own threads after it are left out (`SharedBuffers` has them).
-/

namespace DdTrace.Agent

abbrev Trace := Nat

/-- `FrontBuffer` and `BackBuffer`. -/
inductive Side where
  | front
  | back
  deriving DecidableEq

def Side.other : Side → Side
  | front => back
  | back => front

/-- A call of `FlushBuffers`. -/
abbrev FlusherId := Nat

/-- `SpanBuffer`. `locked` is `_locked`, with the flusher that took the lock. -/
structure SpanBuffer where
  traces : List Trace
  isFull : Bool
  locked : Option FlusherId

def SpanBuffer.empty : SpanBuffer := ⟨[], false, none⟩

/-- An item of `_pendingTraces`; a watermark wakes the flusher that enqueued it. -/
inductive WorkItem where
  | trace (t : Trace)
  | watermark (p : FlusherId)
  deriving DecidableEq

/-- How far `SerializeTrace` has come: before its first `TryWrite`, before `SwapBuffers`,
before its second `TryWrite`. -/
inductive Serializer where
  | idle
  | writing (t : Trace)
  | swapping (t : Trace)
  | rewriting (t : Trace)

/-- How far an `InternalBufferFlush` has come: it has the lock, it awaits
`SendTracesAsync`, it is about to clear the buffer, it has completed. -/
inductive FlushPc where
  | notStarted
  | locked
  | sending
  | clearing
  | done
  deriving DecidableEq

/-- How far a `FlushBuffers` call has come. `main` tells whether `FlushBuffer` runs on the
active buffer, which comes last. -/
inductive FlusherPc where
  | notStarted
  /-- `FlushTracesAsync` awaits its watermark. -/
  | awaitingWatermark
  /-- About to read `_activeBuffer`. -/
  | reading
  /-- About to read `IsFull` of the fallback buffer. -/
  | checking (fallback : Side)
  /-- About to read the flush task of the buffer. -/
  | fetching (side : Side) (main : Bool)
  | awaitingPrevious (side : Side) (task : Option FlusherId) (main : Bool)
  /-- About to call `InternalBufferFlush`. -/
  | flushing (side : Side) (main : Bool)
  /-- About to store the task it returned. -/
  | storing (side : Side) (main : Bool)
  | awaitingFlush (side : Side) (main : Bool)
  | completed

structure Flusher where
  pc : FlusherPc
  flushAllBuffers : Bool
  /-- The traces numbered below were enqueued before `FlushTracesAsync` was called. -/
  before : Trace

/-- `flushTask` are `_frontBufferFlushTask` and `_backBufferFlushTask`: the flusher whose
`InternalBufferFlush` of that buffer they hold, or `none` for the initial completed task.
`sent` are the traces of finished `SendTracesAsync` calls, `dropped` those counted as
dropped. -/
structure State where
  running : Bool
  next : Trace
  pendingTraces : List WorkItem
  serializer : Serializer
  buffer : Side → SpanBuffer
  activeBuffer : Side
  flushTask : Side → Option FlusherId
  flusher : FlusherId → Flusher
  flushPc : FlusherId → Side → FlushPc
  sent : List Trace
  dropped : List Trace

namespace State

def init (running : Bool) : State where
  running := running
  next := 0
  pendingTraces := []
  serializer := .idle
  buffer _ := .empty
  activeBuffer := .front
  flushTask _ := none
  flusher _ := ⟨.notStarted, false, 0⟩
  flushPc _ _ := .notStarted
  sent := []
  dropped := []

def setBuffer (s : State) (side : Side) (b : SpanBuffer) : State :=
  { s with buffer := Function.update s.buffer side b }

def setFlusher (s : State) (p : FlusherId) (f : Flusher) : State :=
  { s with flusher := Function.update s.flusher p f }

def setPc (s : State) (p : FlusherId) (pc : FlusherPc) : State :=
  s.setFlusher p { s.flusher p with pc := pc }

def setFlushPc (s : State) (p : FlusherId) (side : Side) (pc : FlushPc) : State :=
  { s with flushPc := Function.update s.flushPc p (Function.update (s.flushPc p) side pc) }

/-! ## Writing traces -/

/-- The trace that `SerializeTrace` works on. -/
def held (s : State) : Option Trace :=
  match s.serializer with
  | .idle => none
  | .writing t | .swapping t | .rewriting t => some t

def writeTrace (s : State) : Option State :=
  if s.running then
    some { s with next := s.next + 1, pendingTraces := s.pendingTraces ++ [.trace s.next] }
  else
    match s.serializer with
    | .idle => some { s with next := s.next + 1, serializer := .writing s.next }
    | _ => none

/-- `_pendingTraces.TryDequeue` and what the loop does with the item. -/
def dequeue (s : State) : Option State :=
  match s.serializer, s.pendingTraces with
  | .idle, .trace t :: items => some { s with pendingTraces := items, serializer := .writing t }
  | .idle, .watermark p :: items => some ({ s with pendingTraces := items }.setPc p .reading)
  | _, _ => none

inductive WriteOutcome where
  | written
  /-- `EnsureCapacity` says no. -/
  | full
  /-- Locked, or the monitor is taken. -/
  | busy
  /-- The formatter throws; the serialization loop logs it. -/
  | threw

/-- `SpanBuffer.TryWrite`: the buffer afterwards and whether it took the trace. A buffer
that is locked is not touched. -/
def tryWrite (b : SpanBuffer) (t : Trace) : WriteOutcome → Option (SpanBuffer × Bool)
  | .written => if b.locked.isSome then none else some ({ b with traces := b.traces ++ [t] }, true)
  | .full => if b.locked.isSome then none else some ({ b with isFull := true }, false)
  | .busy => some (b, false)
  | .threw => none

/-- A `TryWrite` of `SerializeTrace`; after the second one the trace is dropped. -/
def serialize (s : State) (outcome : WriteOutcome) : Option State :=
  match s.serializer, outcome with
  | .writing _, .threw | .rewriting _, .threw =>
    if (s.buffer s.activeBuffer).locked.isSome then none else some { s with serializer := .idle }
  | .writing t, _ => do
    let (b, ok) ← tryWrite (s.buffer s.activeBuffer) t outcome
    let s := s.setBuffer s.activeBuffer b
    return { s with serializer := if ok then .idle else .swapping t }
  | .rewriting t, _ => do
    let (b, ok) ← tryWrite (s.buffer s.activeBuffer) t outcome
    let s := s.setBuffer s.activeBuffer b
    return { s with
      serializer := .idle
      dropped := if ok then s.dropped else s.dropped ++ [t] }
  | _, _ => none

/-- `SwapBuffers`; if the other buffer is full the trace is dropped. -/
def swapBuffers (s : State) : Option State :=
  match s.serializer with
  | .swapping t =>
    if (s.buffer s.activeBuffer.other).isFull then
      some { s with serializer := .idle, dropped := s.dropped ++ [t] }
    else some { s with activeBuffer := s.activeBuffer.other, serializer := .rewriting t }
  | _ => none

/-! ## Flushing -/

/-- `FlushTracesAsync` is called. Without serialization thread, a trace that another thread
is still writing is not enqueued yet. -/
def flushTracesAsync (s : State) (p : FlusherId) : Option State :=
  match (s.flusher p).pc with
  | .notStarted =>
    if s.running then
      let items := s.pendingTraces ++ [.watermark p]
      some ({ s with pendingTraces := items }.setFlusher p ⟨.awaitingWatermark, true, s.next⟩)
    else some (s.setFlusher p ⟨.reading, true, s.held.getD s.next⟩)
  | _ => none

/-- The flush loop calls `FlushBuffers`. -/
def flushLoop (s : State) (p : FlusherId) : Option State :=
  match (s.flusher p).pc with
  | .notStarted => some (s.setFlusher p ⟨.reading, false, 0⟩)
  | _ => none

/-- The task has completed. -/
def taskDone (s : State) (side : Side) : Option FlusherId → Bool
  | none => true
  | some p => s.flushPc p side = .done

/-- `InternalBufferFlush` until it awaits: it returns at once if the buffer is locked. -/
def internalBufferFlush (s : State) (p : FlusherId) (side : Side) : State :=
  match (s.buffer side).locked with
  | some _ => s.setFlushPc p side .done
  | none => (s.setBuffer side { s.buffer side with locked := some p }).setFlushPc p side .locked

/-- The next step of `FlushBuffers`. -/
def advance (s : State) (p : FlusherId) : Option State :=
  match (s.flusher p).pc with
  | .notStarted | .awaitingWatermark | .completed => none
  | .reading => some (s.setPc p (.checking s.activeBuffer.other))
  | .checking fallback =>
    if (s.buffer fallback).isFull || (s.flusher p).flushAllBuffers then
      some (s.setPc p (.fetching fallback false))
    else some (s.setPc p (.fetching fallback.other true))
  | .fetching side main => some (s.setPc p (.awaitingPrevious side (s.flushTask side) main))
  | .awaitingPrevious side task main =>
    if s.taskDone side task then some (s.setPc p (.flushing side main)) else none
  | .flushing side main => some ((s.internalBufferFlush p side).setPc p (.storing side main))
  | .storing side main =>
    if s.flushPc p side = .locked then none
    else
      let flushTask := Function.update s.flushTask side (some p)
      some ({ s with flushTask := flushTask }.setPc p (.awaitingFlush side main))
  | .awaitingFlush side main =>
    if s.taskDone side (some p) then
      some (s.setPc p (if main then .completed else .fetching side.other true))
    else none

/-- `InternalBufferFlush` calls `SendTracesAsync`, unless there is no trace. -/
def send (s : State) (p : FlusherId) (side : Side) : Option State :=
  match s.flushPc p side with
  | .locked =>
    some (s.setFlushPc p side (if (s.buffer side).traces = [] then .clearing else .sending))
  | _ => none

inductive SendOutcome where
  | success
  | failure
  | threw

/-- `SendTracesAsync` finishes, and drops are counted. -/
def finishSend (s : State) (p : FlusherId) (side : Side) (outcome : SendOutcome) : Option State :=
  match s.flushPc p side with
  | .sending =>
    let traces := (s.buffer side).traces
    let s := s.setFlushPc p side .clearing
    match outcome with
    | .success => some { s with sent := s.sent ++ traces }
    | .failure => some { s with sent := s.sent ++ traces, dropped := s.dropped ++ traces }
    | .threw => some { s with dropped := s.dropped ++ traces }
  | _ => none

/-- `buffer.Clear()` in the finally, and the task completes. -/
def clear (s : State) (p : FlusherId) (side : Side) : Option State :=
  match s.flushPc p side with
  | .clearing => some ((s.setBuffer side .empty).setFlushPc p side .done)
  | _ => none

inductive Event where
  | writeTrace
  | dequeue
  | serialize (outcome : WriteOutcome)
  | swapBuffers
  | flushTracesAsync (p : FlusherId)
  | flushLoop (p : FlusherId)
  | advance (p : FlusherId)
  | send (p : FlusherId) (side : Side)
  | finishSend (p : FlusherId) (side : Side) (outcome : SendOutcome)
  | clear (p : FlusherId) (side : Side)

def step (s : State) : Event → Option State
  | .writeTrace => s.writeTrace
  | .dequeue => s.dequeue
  | .serialize outcome => s.serialize outcome
  | .swapBuffers => s.swapBuffers
  | .flushTracesAsync p => s.flushTracesAsync p
  | .flushLoop p => s.flushLoop p
  | .advance p => s.advance p
  | .send p side => s.send p side
  | .finishSend p side outcome => s.finishSend p side outcome
  | .clear p side => s.clear p side

end State

end DdTrace.Agent
