import DdTrace.Agent.AgentWriter

/-!
# The buffers of AgentWriter and their monitors

`SerializeTrace`, `SpanBuffer` and `InternalBufferFlush` again, now with the monitor of
each buffer: `TryWrite` fails to enter a monitor only while another thread has it, and
`Lock` and `Clear` wait for it. Any number of threads serialize: the serialization thread
while it runs, the callers of `WriteTrace` afterwards. A read or write of `_activeBuffer`
or of `IsFull` outside a monitor is a step of its own.
-/

namespace DdTrace.Agent

/-- A thread that serializes. -/
abbrev WriterId := ℕ

/-- The serialization thread. -/
def serializationThread : WriterId := 0

inductive MonitorHolder where
  | writer (w : WriterId)
  | flusher (p : FlusherId)
  deriving DecidableEq

/-- `SpanBuffer` with its `_syncRoot`. -/
structure SharedBuffer where
  monitor : Option MonitorHolder
  traces : List Trace
  isFull : Bool
  locked : Option FlusherId

/-- How far `SerializeTrace` has come; `again` tells its second `TryWrite` from the first. -/
inductive SerializePhase where
  | starting
  /-- About to call `Monitor.TryEnter`. -/
  | entering (side : Side) (again : Bool)
  /-- About to test `_locked`. -/
  | inside (side : Side) (again : Bool)
  /-- In the formatter and `EnsureCapacity`. -/
  | formatting (side : Side) (again : Bool)
  /-- About to call `Monitor.Exit` and return `ok`. -/
  | leaving (side : Side) (again ok : Bool)
  /-- About to read `_activeBuffer` in `SwapBuffers`. -/
  | swapReading
  /-- About to read `IsFull` of the other buffer. -/
  | swapChecking (side : Side)
  /-- About to write `_activeBuffer`. -/
  | swapWriting (side : Side)
  /-- About to read the `_activeBuffer` that `SwapBuffers` returns. -/
  | rereading
  /-- About to call `IncrementDrops(1)`. -/
  | dropping
  deriving DecidableEq

inductive WriterPc where
  | idle
  /-- `WriteTrace` is about to enqueue. -/
  | enqueuing (t : Trace)
  | serializing (t : Trace) (phase : SerializePhase)
  deriving DecidableEq

/-- How far an `InternalBufferFlush` has come. -/
inductive FlushPhase where
  | notStarted
  /-- In `Lock`, before the monitor. -/
  | entering
  /-- About to test and set `_locked`. -/
  | locking
  /-- About to leave the monitor; `ok` is what `Lock` returns. -/
  | leaving (ok : Bool)
  | locked
  /-- Awaits `SendTracesAsync`. -/
  | sending
  /-- In `Clear`, before the monitor. -/
  | enteringClear
  | clearing
  | leavingClear
  | done
  deriving DecidableEq

/-- `InternalBufferFlush` has returned its task. -/
def FlushPhase.returned : FlushPhase → Bool
  | .sending | .enteringClear | .clearing | .leavingClear | .done => true
  | _ => false

/-- `watermarkPassed` tells which `FlushTracesAsync` calls the loop has called back. `kept` and
`dropped` are the traces reported by `IncrementKeeps` and `IncrementDrops`, `lost` those
whose `SerializeTrace` threw. -/
structure SharedBuffers where
  running : Bool
  processExit : Bool
  next : Trace
  pendingTraces : List WorkItem
  writer : WriterId → WriterPc
  buffer : Side → SharedBuffer
  activeBuffer : Side
  flushTask : Side → Option FlusherId
  flusher : FlusherId → FlusherPc
  flushAllBuffers : FlusherId → Bool
  watermarkPassed : FlusherId → Bool
  flushPc : FlusherId → Side → FlushPhase
  kept : List Trace
  dropped : List Trace
  lost : List Trace

def WorkItem.toTrace : WorkItem → Option Trace
  | .trace t => some t
  | .watermark _ => none

namespace SharedBuffers

def init (running : Bool) : SharedBuffers where
  running := running
  processExit := false
  next := 0
  pendingTraces := []
  writer _ := .idle
  buffer _ := ⟨none, [], false, none⟩
  activeBuffer := .front
  flushTask _ := none
  flusher _ := .notStarted
  flushAllBuffers _ := false
  watermarkPassed _ := false
  flushPc _ _ := .notStarted
  kept := []
  dropped := []
  lost := []

def setWriter (s : SharedBuffers) (w : WriterId) (pc : WriterPc) : SharedBuffers :=
  { s with writer := Function.update s.writer w pc }

def setBuffer (s : SharedBuffers) (side : Side) (b : SharedBuffer) : SharedBuffers :=
  { s with buffer := Function.update s.buffer side b }

def setMonitor (s : SharedBuffers) (side : Side) (holder : Option MonitorHolder) : SharedBuffers :=
  s.setBuffer side { s.buffer side with monitor := holder }

def setFlusher (s : SharedBuffers) (p : FlusherId) (pc : FlusherPc) : SharedBuffers :=
  { s with flusher := Function.update s.flusher p pc }

def setFlushPc (s : SharedBuffers) (p : FlusherId) (side : Side) (phase : FlushPhase) :
    SharedBuffers :=
  { s with flushPc := Function.update s.flushPc p (Function.update (s.flushPc p) side phase) }

/-! ## Writing traces -/

/-- `WriteTrace` reads `_serializationTask.IsCompleted`. -/
def writeTrace (s : SharedBuffers) (w : WriterId) : Option SharedBuffers :=
  match s.writer w with
  | .idle =>
    if w = serializationThread then none
    else if s.running then some ({ s with next := s.next + 1 }.setWriter w (.enqueuing s.next))
    else some ({ s with next := s.next + 1 }.setWriter w (.serializing s.next .starting))
  | _ => none

def enqueue (s : SharedBuffers) (w : WriterId) : Option SharedBuffers :=
  match s.writer w with
  | .enqueuing t =>
    some ({ s with pendingTraces := s.pendingTraces ++ [WorkItem.trace t] }.setWriter w .idle)
  | _ => none

/-- `_pendingTraces.TryDequeue` and what the loop does with the item. -/
def dequeue (s : SharedBuffers) : Option SharedBuffers :=
  if s.running then
    match s.writer serializationThread, s.pendingTraces with
    | .idle, .trace t :: items =>
      some ({ s with pendingTraces := items }.setWriter serializationThread (.serializing t .starting))
    | .idle, .watermark p :: items =>
      some { s with
        pendingTraces := items
        watermarkPassed := Function.update s.watermarkPassed p true }
    | _, _ => none
  else none

/-- The loop has seen `_processExit` and returns. -/
def exit (s : SharedBuffers) : Option SharedBuffers :=
  match s.writer serializationThread with
  | .idle => if s.running ∧ s.processExit then some { s with running := false } else none
  | _ => none

/-- After a `TryWrite` that returned false. -/
def refused (again : Bool) : SerializePhase := if again then .dropping else .swapReading

/-- The next step of `SerializeTrace`; `fits` is what `EnsureCapacity` answers. -/
def serialize (s : SharedBuffers) (w : WriterId) (fits : Bool) : Option SharedBuffers :=
  match s.writer w with
  | .serializing t phase =>
    let go (s : SharedBuffers) (phase : SerializePhase) := some (s.setWriter w (.serializing t phase))
    match phase with
    | .starting => go s (.entering s.activeBuffer false)
    | .entering side again =>
      match (s.buffer side).monitor with
      | none => go (s.setMonitor side (some (.writer w))) (.inside side again)
      | some _ => go s (refused again)
    | .inside side again =>
      if (s.buffer side).locked.isSome then go s (.leaving side again false)
      else go s (.formatting side again)
    | .formatting side again =>
      let b := s.buffer side
      if fits then go (s.setBuffer side { b with traces := b.traces ++ [t] }) (.leaving side again true)
      else go (s.setBuffer side { b with isFull := true }) (.leaving side again false)
    | .leaving side again ok =>
      let s := s.setMonitor side none
      if ok then some (s.setWriter w .idle) else go s (refused again)
    | .swapReading => go s (.swapChecking s.activeBuffer)
    | .swapChecking side =>
      go s (if (s.buffer side.other).isFull then .dropping else .swapWriting side)
    | .swapWriting side => go { s with activeBuffer := side.other } .rereading
    | .rereading => go s (.entering s.activeBuffer true)
    | .dropping => some ({ s with dropped := s.dropped ++ [t] }.setWriter w .idle)
  | _ => none

/-- The keep rate, the formatter or `EnsureCapacity` throws: the exception leaves `TryWrite`
through its finally, and the loop logs it or the caller of `WriteTrace` gets it. -/
def throw (s : SharedBuffers) (w : WriterId) : Option SharedBuffers :=
  match s.writer w with
  | .serializing t .starting => some ({ s with lost := s.lost ++ [t] }.setWriter w .idle)
  | .serializing t (.formatting side _) =>
    some ({ s with lost := s.lost ++ [t] }.setMonitor side none |>.setWriter w .idle)
  | _ => none

/-! ## Flushing -/

/-- `FlushTracesAsync` is called, or `FlushAndCloseAsync` flushes what is left. -/
def flushTracesAsync (s : SharedBuffers) (p : FlusherId) : Option SharedBuffers :=
  match s.flusher p with
  | .notStarted =>
    let s := { s with flushAllBuffers := Function.update s.flushAllBuffers p true }
    if s.running then
      some ({ s with pendingTraces := s.pendingTraces ++ [WorkItem.watermark p] }.setFlusher p
        .awaitingWatermark)
    else some (s.setFlusher p .reading)
  | _ => none

/-- The flush loop calls `FlushBuffers`. -/
def flushLoop (s : SharedBuffers) (p : FlusherId) : Option SharedBuffers :=
  match s.flusher p with
  | .notStarted => some (s.setFlusher p .reading)
  | _ => none

/-- The task has completed. -/
def taskDone (s : SharedBuffers) (side : Side) : Option FlusherId → Bool
  | none => true
  | some p => s.flushPc p side = .done

/-- The next step of `FlushBuffers`. -/
def advance (s : SharedBuffers) (p : FlusherId) : Option SharedBuffers :=
  match s.flusher p with
  | .notStarted | .completed => none
  | .awaitingWatermark => if s.watermarkPassed p then some (s.setFlusher p .reading) else none
  | .reading => some (s.setFlusher p (.checking s.activeBuffer.other))
  | .checking fallback =>
    if (s.buffer fallback).isFull || s.flushAllBuffers p then
      some (s.setFlusher p (.fetching fallback false))
    else some (s.setFlusher p (.fetching fallback.other true))
  | .fetching side main => some (s.setFlusher p (.awaitingPrevious side (s.flushTask side) main))
  | .awaitingPrevious side task main =>
    if s.taskDone side task then some (s.setFlusher p (.flushing side main)) else none
  | .flushing side main => some ((s.setFlushPc p side .entering).setFlusher p (.storing side main))
  | .storing side main =>
    if (s.flushPc p side).returned then
      some ({ s with flushTask := Function.update s.flushTask side (some p) }.setFlusher p
        (.awaitingFlush side main))
    else none
  | .awaitingFlush side main =>
    if s.taskDone side (some p) then
      some (s.setFlusher p (if main then .completed else .fetching side.other true))
    else none

/-- The next step of `InternalBufferFlush`; `outcome` is that of `SendTracesAsync`, and `threw`
also when `_statsd` throws before it. -/
def flush (s : SharedBuffers) (p : FlusherId) (side : Side) (outcome : State.SendOutcome) :
    Option SharedBuffers :=
  let b := s.buffer side
  match s.flushPc p side with
  | .notStarted | .done => none
  | .entering =>
    if b.monitor = none then
      some ((s.setMonitor side (some (.flusher p))).setFlushPc p side .locking)
    else none
  | .locking =>
    if b.locked.isSome then some (s.setFlushPc p side (.leaving false))
    else some ((s.setBuffer side { b with locked := some p }).setFlushPc p side (.leaving true))
  | .leaving ok =>
    some ((s.setMonitor side none).setFlushPc p side (if ok then .locked else .done))
  | .locked =>
    match outcome with
    | .threw => some ({ s with dropped := s.dropped ++ b.traces }.setFlushPc p side .enteringClear)
    | _ => some (s.setFlushPc p side (if b.traces = [] then .enteringClear else .sending))
  | .sending =>
    match outcome with
    | .success => some ({ s with kept := s.kept ++ b.traces }.setFlushPc p side .enteringClear)
    | _ => some ({ s with dropped := s.dropped ++ b.traces }.setFlushPc p side .enteringClear)
  | .enteringClear =>
    if b.monitor = none then
      some ((s.setMonitor side (some (.flusher p))).setFlushPc p side .clearing)
    else none
  | .clearing =>
    some ((s.setBuffer side { b with traces := [], isFull := false, locked := none }).setFlushPc p
      side .leavingClear)
  | .leavingClear => some ((s.setMonitor side none).setFlushPc p side .done)

inductive Event where
  | writeTrace (w : WriterId)
  | enqueue (w : WriterId)
  | dequeue
  | processExit
  | exit
  | serialize (w : WriterId) (fits : Bool)
  | throw (w : WriterId)
  | flushTracesAsync (p : FlusherId)
  | flushLoop (p : FlusherId)
  | advance (p : FlusherId)
  | flush (p : FlusherId) (side : Side) (outcome : State.SendOutcome)

def step (s : SharedBuffers) : Event → Option SharedBuffers
  | .writeTrace w => s.writeTrace w
  | .enqueue w => s.enqueue w
  | .dequeue => s.dequeue
  | .processExit => some { s with processExit := true }
  | .exit => s.exit
  | .serialize w fits => s.serialize w fits
  | .throw w => s.throw w
  | .flushTracesAsync p => s.flushTracesAsync p
  | .flushLoop p => s.flushLoop p
  | .advance p => s.advance p
  | .flush p side outcome => s.flush p side outcome

/-! ## Inversion of the steps -/

variable {s t : SharedBuffers} {w v : WriterId} {p q : FlusherId} {side : Side} {trace : Trace}
  {pc : WriterPc} {phase : FlushPhase} {event : Event} {fits : Bool} {outcome : State.SendOutcome}

theorem writeTrace_cases (h : s.writeTrace w = some t) : s.writer w = .idle ∧
    (s.running = true ∧ t = { s with next := s.next + 1 }.setWriter w (.enqueuing s.next) ∨
      s.running = false ∧
        t = { s with next := s.next + 1 }.setWriter w (.serializing s.next .starting)) := by
  unfold writeTrace at h
  split at h
  · rename_i hw
    split_ifs at h with hthread hrun
    · exact ⟨hw, .inl ⟨hrun, (Option.some.inj h).symm⟩⟩
    · exact ⟨hw, .inr ⟨by simpa using hrun, (Option.some.inj h).symm⟩⟩
  · cases h

theorem enqueue_cases (h : s.enqueue w = some t) : ∃ trace, s.writer w = .enqueuing trace ∧
    t = { s with pendingTraces := s.pendingTraces ++ [WorkItem.trace trace] }.setWriter w .idle := by
  unfold enqueue at h
  split at h
  · rename_i trace hw
    exact ⟨trace, hw, (Option.some.inj h).symm⟩
  · cases h

theorem dequeue_cases (h : s.dequeue = some t) :
    s.running = true ∧ s.writer serializationThread = .idle ∧ ∃ item items,
      s.pendingTraces = item :: items ∧
      ((∃ trace, item = .trace trace ∧ t = { s with pendingTraces := items }.setWriter
          serializationThread (.serializing trace .starting)) ∨
        ∃ p, item = .watermark p ∧ t = { s with
          pendingTraces := items
          watermarkPassed := Function.update s.watermarkPassed p true }) := by
  unfold dequeue at h
  split at h
  · rename_i hrun
    split at h
    · rename_i trace items hidle hitems
      exact ⟨hrun, hidle, _, items, hitems, .inl ⟨trace, rfl, (Option.some.inj h).symm⟩⟩
    · rename_i p items hidle hitems
      exact ⟨hrun, hidle, _, items, hitems, .inr ⟨p, rfl, (Option.some.inj h).symm⟩⟩
    · cases h
  · cases h

theorem exit_cases (h : s.exit = some t) : t = { s with running := false } := by
  unfold exit at h
  split at h
  · split_ifs at h
    exact (Option.some.inj h).symm
  · cases h

theorem throw_cases (h : s.throw w = some t) : ∃ trace,
    s.writer w = .serializing trace .starting ∧
      t = { s with lost := s.lost ++ [trace] }.setWriter w .idle ∨
    ∃ side again, s.writer w = .serializing trace (.formatting side again) ∧
      t = ({ s with lost := s.lost ++ [trace] }.setMonitor side none).setWriter w .idle := by
  unfold throw at h
  split at h
  · rename_i trace hw
    exact ⟨trace, .inl ⟨hw, (Option.some.inj h).symm⟩⟩
  · rename_i trace side again hw
    exact ⟨trace, .inr ⟨side, again, hw, (Option.some.inj h).symm⟩⟩
  · cases h

/-- The steps of `SerializeTrace`, by the phase they leave. -/
inductive Serialized (s : SharedBuffers) (w : WriterId) (trace : Trace) :
    SerializePhase → SharedBuffers → Prop where
  | start : Serialized s w trace .starting
      (s.setWriter w (.serializing trace (.entering s.activeBuffer false)))
  | enter (side : Side) (again : Bool) (hfree : (s.buffer side).monitor = none) :
      Serialized s w trace (.entering side again)
        ((s.setMonitor side (some (.writer w))).setWriter w (.serializing trace (.inside side again)))
  | busy (side : Side) (again : Bool) (x : MonitorHolder) (hx : (s.buffer side).monitor = some x) :
      Serialized s w trace (.entering side again)
        (s.setWriter w (.serializing trace (refused again)))
  | locked (side : Side) (again : Bool) (hlocked : (s.buffer side).locked.isSome) :
      Serialized s w trace (.inside side again)
        (s.setWriter w (.serializing trace (.leaving side again false)))
  | unlocked (side : Side) (again : Bool) (hlocked : (s.buffer side).locked = none) :
      Serialized s w trace (.inside side again)
        (s.setWriter w (.serializing trace (.formatting side again)))
  | write (side : Side) (again : Bool) : Serialized s w trace (.formatting side again)
      ((s.setBuffer side { s.buffer side with traces := (s.buffer side).traces ++ [trace] }).setWriter
        w (.serializing trace (.leaving side again true)))
  | full (side : Side) (again : Bool) : Serialized s w trace (.formatting side again)
      ((s.setBuffer side { s.buffer side with isFull := true }).setWriter
        w (.serializing trace (.leaving side again false)))
  | written (side : Side) (again : Bool) : Serialized s w trace (.leaving side again true)
      ((s.setMonitor side none).setWriter w .idle)
  | refuse (side : Side) (again : Bool) : Serialized s w trace (.leaving side again false)
      ((s.setMonitor side none).setWriter w (.serializing trace (refused again)))
  | readActive : Serialized s w trace .swapReading
      (s.setWriter w (.serializing trace (.swapChecking s.activeBuffer)))
  | check (side : Side) : Serialized s w trace (.swapChecking side)
      (s.setWriter w (.serializing trace
        (if (s.buffer side.other).isFull then .dropping else .swapWriting side)))
  | swap (side : Side) : Serialized s w trace (.swapWriting side)
      ({ s with activeBuffer := side.other }.setWriter w (.serializing trace .rereading))
  | reread : Serialized s w trace .rereading
      (s.setWriter w (.serializing trace (.entering s.activeBuffer true)))
  | drop : Serialized s w trace .dropping
      ({ s with dropped := s.dropped ++ [trace] }.setWriter w .idle)

theorem serialize_cases (h : s.serialize w fits = some t) :
    ∃ trace phase, s.writer w = .serializing trace phase ∧ Serialized s w trace phase t := by
  unfold serialize at h
  split at h
  case h_2 => cases h
  case h_1 trace phase hw =>
    refine ⟨trace, phase, hw, ?_⟩
    cases phase with
    | entering side again =>
      dsimp only at h
      split at h
      · rename_i hfree
        obtain rfl := Option.some.inj h
        exact .enter side again hfree
      · rename_i x hx
        obtain rfl := Option.some.inj h
        exact .busy side again x hx
    | inside side again =>
      dsimp only at h
      split at h
      · rename_i hlocked
        obtain rfl := Option.some.inj h
        exact .locked side again hlocked
      · rename_i hlocked
        obtain rfl := Option.some.inj h
        exact .unlocked side again (Option.not_isSome_iff_eq_none.1 hlocked)
    | formatting side again =>
      cases fits with
      | true =>
        obtain rfl := Option.some.inj h
        exact .write side again
      | false =>
        obtain rfl := Option.some.inj h
        exact .full side again
    | leaving side again ok =>
      cases ok with
      | true =>
        obtain rfl := Option.some.inj h
        exact .written side again
      | false =>
        obtain rfl := Option.some.inj h
        exact .refuse side again
    | starting =>
      obtain rfl := Option.some.inj h
      exact .start
    | swapReading =>
      obtain rfl := Option.some.inj h
      exact .readActive
    | swapChecking side =>
      obtain rfl := Option.some.inj h
      exact .check side
    | swapWriting side =>
      obtain rfl := Option.some.inj h
      exact .swap side
    | rereading =>
      obtain rfl := Option.some.inj h
      exact .reread
    | dropping =>
      obtain rfl := Option.some.inj h
      exact .drop

/-- The steps of `InternalBufferFlush`, by the phase they leave. -/
inductive Flushed (s : SharedBuffers) (p : FlusherId) (side : Side) :
    FlushPhase → SharedBuffers → Prop where
  | enter (hfree : (s.buffer side).monitor = none) : Flushed s p side .entering
      ((s.setMonitor side (some (.flusher p))).setFlushPc p side .locking)
  | refuse (hlocked : (s.buffer side).locked.isSome) : Flushed s p side .locking
      (s.setFlushPc p side (.leaving false))
  | lock (hlocked : (s.buffer side).locked = none) : Flushed s p side .locking
      ((s.setBuffer side { s.buffer side with locked := some p }).setFlushPc p side (.leaving true))
  | leave (ok : Bool) : Flushed s p side (.leaving ok)
      ((s.setMonitor side none).setFlushPc p side (if ok then .locked else .done))
  | send : Flushed s p side .locked
      (s.setFlushPc p side (if (s.buffer side).traces = [] then .enteringClear else .sending))
  | throw : Flushed s p side .locked
      ({ s with dropped := s.dropped ++ (s.buffer side).traces }.setFlushPc p side .enteringClear)
  | keep : Flushed s p side .sending
      ({ s with kept := s.kept ++ (s.buffer side).traces }.setFlushPc p side .enteringClear)
  | drop : Flushed s p side .sending
      ({ s with dropped := s.dropped ++ (s.buffer side).traces }.setFlushPc p side .enteringClear)
  | enterClear (hfree : (s.buffer side).monitor = none) : Flushed s p side .enteringClear
      ((s.setMonitor side (some (.flusher p))).setFlushPc p side .clearing)
  | clear : Flushed s p side .clearing
      ((s.setBuffer side { s.buffer side with traces := [], isFull := false, locked := none }).setFlushPc
        p side .leavingClear)
  | leaveClear : Flushed s p side .leavingClear
      ((s.setMonitor side none).setFlushPc p side .done)

theorem flush_cases (h : s.flush p side outcome = some t) :
    Flushed s p side (s.flushPc p side) t := by
  unfold flush at h
  generalize s.flushPc p side = phase at h ⊢
  cases phase with
  | notStarted | done => cases h
  | entering =>
    dsimp only at h
    split at h
    · rename_i hfree
      obtain rfl := Option.some.inj h
      exact .enter hfree
    · cases h
  | locking =>
    dsimp only at h
    split at h
    · rename_i hlocked
      obtain rfl := Option.some.inj h
      exact .refuse hlocked
    · rename_i hlocked
      obtain rfl := Option.some.inj h
      exact .lock (Option.not_isSome_iff_eq_none.1 hlocked)
  | leaving ok =>
    obtain rfl := Option.some.inj h
    exact .leave ok
  | locked =>
    cases outcome with
    | threw =>
      obtain rfl := Option.some.inj h
      exact .throw
    | success | failure =>
      obtain rfl := Option.some.inj h
      exact .send
  | sending =>
    cases outcome with
    | success =>
      obtain rfl := Option.some.inj h
      exact .keep
    | failure | threw =>
      obtain rfl := Option.some.inj h
      exact .drop
  | enteringClear =>
    dsimp only at h
    split at h
    · rename_i hfree
      obtain rfl := Option.some.inj h
      exact .enterClear hfree
    · cases h
  | clearing =>
    obtain rfl := Option.some.inj h
    exact .clear
  | leavingClear =>
    obtain rfl := Option.some.inj h
    exact .leaveClear

/-- What the callers of `FlushBuffers` leave to the other threads. -/
structure SameTraces (s t : SharedBuffers) : Prop where
  running : t.running = s.running
  next : t.next = s.next
  queue : t.pendingTraces.filterMap WorkItem.toTrace = s.pendingTraces.filterMap WorkItem.toTrace
  writer : t.writer = s.writer
  buffer : t.buffer = s.buffer
  activeBuffer : t.activeBuffer = s.activeBuffer
  kept : t.kept = s.kept
  dropped : t.dropped = s.dropped
  lost : t.lost = s.lost

theorem flushTracesAsync_sameTraces (h : s.flushTracesAsync p = some t) : SameTraces s t := by
  unfold flushTracesAsync at h
  split at h
  · dsimp only at h
    split at h
    · obtain rfl := Option.some.inj h
      constructor <;> first | rfl | simp [setFlusher, WorkItem.toTrace]
    · obtain rfl := Option.some.inj h
      constructor <;> rfl
  · cases h

theorem flushLoop_sameTraces (h : s.flushLoop p = some t) : SameTraces s t := by
  unfold flushLoop at h
  split at h
  · obtain rfl := Option.some.inj h
    constructor <;> rfl
  · cases h

theorem flushTracesAsync_flushPc (h : s.flushTracesAsync p = some t) : t.flushPc = s.flushPc := by
  unfold flushTracesAsync at h
  split at h
  · dsimp only at h
    split at h <;> obtain rfl := Option.some.inj h <;> rfl
  · cases h

theorem flushLoop_flushPc (h : s.flushLoop p = some t) : t.flushPc = s.flushPc := by
  unfold flushLoop at h
  split at h
  · obtain rfl := Option.some.inj h
    rfl
  · cases h

theorem advance_sameTraces (h : s.advance p = some t) : SameTraces s t := by
  unfold advance at h
  split at h
  case h_1 | h_2 => cases h
  case h_4 | h_6 | h_8 => obtain rfl := Option.some.inj h; constructor <;> rfl
  case h_5 => split at h <;> obtain rfl := Option.some.inj h <;> constructor <;> rfl
  all_goals
    split at h
    · obtain rfl := Option.some.inj h
      constructor <;> rfl
    · cases h

/-- A caller of `FlushBuffers` starts flushes and takes no other part in them. -/
theorem advance_flushPc (h : s.advance p = some t) {x : Side} (q : FlusherId) :
    t.flushPc q x = s.flushPc q x ∨ t.flushPc q x = .entering := by
  unfold advance at h
  split at h
  case h_1 | h_2 => cases h
  case h_4 | h_6 => obtain rfl := Option.some.inj h; exact .inl rfl
  case h_5 => split at h <;> obtain rfl := Option.some.inj h <;> exact .inl rfl
  case h_8 side main hp =>
    obtain rfl := Option.some.inj h
    by_cases hq : q = p
    · subst hq
      by_cases hx : x = side
      · subst hx
        exact .inr (by simp [setFlusher, setFlushPc])
      · exact .inl (by simp [setFlusher, setFlushPc, Function.update_of_ne hx])
    · exact .inl (by simp [setFlusher, setFlushPc, Function.update_of_ne hq])
  all_goals
    split at h
    · obtain rfl := Option.some.inj h
      exact .inl rfl
    · cases h

end SharedBuffers

end DdTrace.Agent
