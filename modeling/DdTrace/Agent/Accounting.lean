import DdTrace.Agent.Monitors
import DdTrace.Lib.Ledger
import DdTrace.Lib.Run

/-!
# Where the traces are

Every trace given to `WriteTrace` is in one account: the queue, the hands of a thread, a
buffer, what `IncrementKeeps` and `IncrementDrops` have reported, or the traces that an
exception took from `SerializeTrace`. A flush takes the traces out of the account of its
buffer when it reports them, before `Clear` empties the buffer.
-/

namespace DdTrace.Agent

open Lib

inductive Place where
  | pending
  | held (w : WriterId)
  | buffered (side : Side)
  | kept
  | dropped
  | lost
  deriving DecidableEq

/-- The trace that the thread has yet to enqueue, write or drop. -/
def WriterPc.held : WriterPc → List Trace
  | .idle => []
  | .enqueuing t => [t]
  | .serializing t phase =>
    match phase with
    | .leaving _ _ true => []
    | _ => [t]

/-- The flush has reported the traces of its buffer, which it has not cleared. -/
def FlushPhase.reported : FlushPhase → Bool
  | .enteringClear | .clearing => true
  | _ => false

/-- An exception leaves a `SerializeTrace`. -/
def SharedBuffers.Event.throws : SharedBuffers.Event → Bool
  | .throw _ => true
  | _ => false

namespace SharedBuffers

def reported (s : SharedBuffers) (side : Side) : Bool :=
  match (s.buffer side).locked with
  | none => false
  | some p => (s.flushPc p side).reported

def account (s : SharedBuffers) : Place → List Trace
  | .pending => s.pendingTraces.filterMap WorkItem.toTrace
  | .held w => (s.writer w).held
  | .buffered side => if s.reported side then [] else (s.buffer side).traces
  | .kept => s.kept
  | .dropped => s.dropped
  | .lost => s.lost

/-- No `SerializeTrace` and no `InternalBufferFlush` is in progress. -/
def Quiescent (s : SharedBuffers) : Prop :=
  (∀ w, s.writer w = .idle) ∧ ∀ p side, ¬ (s.flushPc p side).InProgress

/-- The traces that are pending or buffered, and those reported. -/
def accounted (s : SharedBuffers) : List Trace :=
  s.pendingTraces.filterMap WorkItem.toTrace ++ ((s.buffer .front).traces ++
    ((s.buffer .back).traces ++ (s.kept ++ s.dropped)))

/-- Each trace given to `WriteTrace` is in one of these places, once. -/
def CountedOnce (s : SharedBuffers) : Prop := ∀ trace < s.next, s.accounted.count trace = 1

variable {s t : SharedBuffers} {w v : WriterId} {p q : FlusherId} {side x : Side} {trace : Trace}
  {pc : WriterPc} {phase : FlushPhase} {event : Event} {outcome : State.SendOutcome} {fits : Bool}

/-! ## The accounts after a step -/

@[simp] theorem account_setWriter :
    (s.setWriter w pc).account = Function.update s.account (.held w) pc.held := by
  funext place
  cases place with
  | held v =>
    by_cases hv : v = w
    · subst hv
      simp [account, setWriter]
    · simp [account, setWriter, hv]
  | _ => rfl

theorem account_queue (s : SharedBuffers) (items : List WorkItem) :
    { s with pendingTraces := items }.account =
      Function.update s.account .pending (items.filterMap WorkItem.toTrace) := by
  funext place
  cases place <;> rfl

theorem account_kept (s : SharedBuffers) (traces : List Trace) :
    { s with kept := traces }.account = Function.update s.account .kept traces := by
  funext place
  cases place <;> rfl

theorem account_dropped (s : SharedBuffers) (traces : List Trace) :
    { s with dropped := traces }.account = Function.update s.account .dropped traces := by
  funext place
  cases place <;> rfl

theorem account_lost (s : SharedBuffers) (traces : List Trace) :
    { s with lost := traces }.account = Function.update s.account .lost traces := by
  funext place
  cases place <;> rfl

theorem account_of (hq : t.pendingTraces.filterMap WorkItem.toTrace =
      s.pendingTraces.filterMap WorkItem.toTrace) (hw : t.writer = s.writer)
    (hb : ∀ side, t.account (.buffered side) = s.account (.buffered side))
    (hk : t.kept = s.kept) (hd : t.dropped = s.dropped) (hl : t.lost = s.lost) :
    t.account = s.account := by
  funext place
  cases place with
  | pending => exact hq
  | held w => simp only [account, hw]
  | buffered side => exact hb side
  | kept => exact hk
  | dropped => exact hd
  | lost => exact hl

theorem buffered_of (ht : (t.buffer x).traces = (s.buffer x).traces)
    (hl : (t.buffer x).locked = (s.buffer x).locked)
    (hf : ∀ p, (s.buffer x).locked = some p → (t.flushPc p x).reported = (s.flushPc p x).reported) :
    t.account (.buffered x) = s.account (.buffered x) := by
  have hr : t.reported x = s.reported x := by
    unfold reported
    rw [hl]
    split
    · rfl
    · rename_i p hp
      exact hf p hp
  simp only [account, hr, ht]

@[simp] theorem account_setMonitor {holder : Option MonitorHolder} :
    (s.setMonitor side holder).account = s.account := by
  refine account_of rfl rfl (fun x => ?_) rfl rfl rfl
  by_cases hx : x = side
  · subst hx
    exact buffered_of (by simp [setMonitor]) (by simp [setMonitor]) fun _ _ => rfl
  · have hb : (s.setMonitor side holder).buffer x = s.buffer x := setBuffer_buffer_of_ne hx
    exact buffered_of (by rw [hb]) (by rw [hb]) fun _ _ => rfl

/-- A step of a flush that reports nothing. -/
theorem account_setFlushPc
    (h : (s.buffer side).locked = some p → phase.reported = (s.flushPc p side).reported) :
    (s.setFlushPc p side phase).account = s.account := by
  refine account_of rfl rfl (fun x => buffered_of rfl rfl fun q hq => ?_) rfl rfl rfl
  by_cases hx : x = side
  · subst hx
    by_cases hqp : q = p
    · subst hqp
      rw [setFlushPc_self]
      exact h hq
    · simp [setFlushPc, hqp]
  · rw [setFlushPc_of_ne hx]

/-- The flush reports what it has locked. -/
theorem account_report (hl : (s.buffer side).locked = some p) (hphase : phase.reported = true) :
    (s.setFlushPc p side phase).account = Function.update s.account (.buffered side) [] := by
  funext place
  cases place with
  | buffered x =>
    by_cases hx : x = side
    · subst hx
      simp [account, reported, setFlushPc, hl, hphase]
    · rw [Function.update_of_ne (by simpa using hx)]
      exact buffered_of rfl rfl fun q _ => by rw [setFlushPc_of_ne hx]
  | _ => rfl

/-- A write that leaves the buffer unlocked. -/
theorem account_write {b : SharedBuffer} (hb : b.locked = none) : (s.setBuffer side b).account =
      Function.update s.account (.buffered side) b.traces := by
  funext place
  cases place with
  | buffered x =>
    by_cases hx : x = side
    · subst hx
      simp [account, reported, setBuffer, hb]
    · rw [Function.update_of_ne (by simpa using hx)]
      have hbx : (s.setBuffer side b).buffer x = s.buffer x := setBuffer_buffer_of_ne hx
      exact buffered_of (by rw [hbx]) (by rw [hbx]) fun _ _ => rfl
  | _ => rfl

/-- `Lock` and `Clear` touch no other buffer. -/
theorem account_lockStep {b : SharedBuffer}
    (h : ((s.setBuffer side b).setFlushPc p side phase).account (.buffered side) =
      s.account (.buffered side)) :
    ((s.setBuffer side b).setFlushPc p side phase).account = s.account := by
  refine account_of rfl rfl (fun x => ?_) rfl rfl rfl
  by_cases hx : x = side
  · subst hx
    exact h
  · have hbx : ((s.setBuffer side b).setFlushPc p side phase).buffer x = s.buffer x :=
      setBuffer_buffer_of_ne hx
    refine buffered_of (by rw [hbx]) (by rw [hbx]) fun q _ => ?_
    rw [setFlushPc_of_ne hx]
    rfl

theorem account_unlocked (hl : (s.buffer side).locked = none) :
    s.account (.buffered side) = (s.buffer side).traces := by
  simp [account, reported, hl]

theorem account_locked (hl : (s.buffer side).locked = some p)
    (hp : (s.flushPc p side).reported = false) :
    s.account (.buffered side) = (s.buffer side).traces := by
  simp [account, reported, hl, hp]

/-! ## Steps -/

theorem held_refused {again : Bool} :
    WriterPc.held (.serializing trace (refused again)) = [trace] := by
  cases again <;> rfl

/-- While a thread keeps its trace, its steps move nothing. -/
theorem account_keep (h : (s.writer w).held = pc.held) :
    (s.setWriter w pc).account = s.account := by
  rw [account_setWriter, ← h]
  exact Function.update_eq_self _ _

theorem moved_serialize (h : s.MonitorInv) (hs : s.serialize w fits = some t) :
    Moved s.account t.account := by
  obtain ⟨trace, phase, hw, hcase⟩ := serialize_cases hs
  cases hcase with
  | start | locked | unlocked | readActive | swap | reread =>
    exact .of_eq (account_keep (by rw [hw]; rfl))
  | busy side again =>
    exact .of_eq (account_keep (by rw [hw, held_refused]; rfl))
  | check side =>
    refine .of_eq (account_keep ?_)
    rw [hw]
    split <;> rfl
  | enter side again =>
    refine .of_eq ((account_keep ?_).trans account_setMonitor)
    show (s.writer w).held = _
    rw [hw]
    rfl
  | written side again =>
    refine .of_eq ((account_keep ?_).trans account_setMonitor)
    show (s.writer w).held = _
    rw [hw]
    rfl
  | refuse side again =>
    refine .of_eq ((account_keep ?_).trans account_setMonitor)
    show (s.writer w).held = _
    rw [hw, held_refused]
    rfl
  | full side again =>
    have hl := h.unlocked side w trace again hw
    refine .of_eq ((account_keep ?_).trans ?_)
    · show (s.writer w).held = _
      rw [hw]
      rfl
    · rw [account_write (b := { s.buffer side with isFull := true }) hl]
      exact Function.update_eq_self_iff.2 (account_unlocked hl).symm
  | write side again =>
    have hl := h.unlocked side w trace again hw
    have hheld : s.account (.held w) = [trace] ++ [] := by simp only [account, hw]; rfl
    have hm := Moved.move (Place.held w) (.buffered side) [trace] [] (by simp) hheld
    rw [account_unlocked hl] at hm
    rw [account_setWriter, account_write
      (b := { s.buffer side with traces := (s.buffer side).traces ++ [trace] }) hl]
    exact hm
  | drop =>
    have hheld : s.account (.held w) = [trace] ++ [] := by simp only [account, hw]; rfl
    rw [account_setWriter, account_dropped s (s.dropped ++ [trace])]
    exact .move (Place.held w) .dropped [trace] [] (by simp) hheld

theorem moved_throw (hs : s.throw w = some t) : Moved s.account t.account := by
  obtain ⟨trace, hcase⟩ := throw_cases hs
  have hheld : s.account (.held w) = [trace] ++ [] := by
    rcases hcase with ⟨hw, -⟩ | ⟨side, again, hw, -⟩
    · simp only [account, hw]
      rfl
    · simp only [account, hw]
      rfl
  have hm := Moved.move (Place.held w) .lost [trace] [] (by simp) hheld
  rcases hcase with ⟨-, rfl⟩ | ⟨side, again, -, rfl⟩
  · rw [account_setWriter, account_lost s (s.lost ++ [trace])]
    exact hm
  · rw [account_setWriter, account_setMonitor, account_lost s (s.lost ++ [trace])]
    exact hm

/-- A flush reports all traces of the buffer it has locked, and only then. -/
theorem moved_flush (h : s.MonitorInv) (hs : s.flush p side outcome = some t) :
    Moved s.account t.account := by
  have hcase := flush_cases hs
  have hlock := h.lock side p
  have hcleared := h.cleared side p
  generalize hp : s.flushPc p side = phase at hcase hlock hcleared
  -- its report moves the traces of the buffer
  have hreport : ∀ (r : SharedBuffers) (place : Place), place ≠ .buffered side → phase.HasLock →
      phase.reported = false → r.buffer = s.buffer →
      r.account = Function.update s.account place (s.account place ++ (s.buffer side).traces) →
      Moved s.account (r.setFlushPc p side .enteringClear).account := by
    intro r place hne hhas hrep hb hr
    have hl := hlock.1 hhas
    have hall : s.account (.buffered side) = (s.buffer side).traces ++ [] := by
      rw [account_locked hl (by rw [hp]; exact hrep), List.append_nil]
    rw [account_report (by rw [hb]; exact hl) rfl, hr]
    exact .move (Place.buffered side) place _ [] (Ne.symm hne) hall
  cases hcase with
  | enter hfree =>
    refine .of_eq ((account_setFlushPc fun _ => ?_).trans account_setMonitor)
    show _ = (s.flushPc p side).reported
    rw [hp]
    rfl
  | enterClear hfree =>
    refine .of_eq ((account_setFlushPc fun _ => ?_).trans account_setMonitor)
    show _ = (s.flushPc p side).reported
    rw [hp]
    rfl
  | leave ok =>
    refine .of_eq ((account_setFlushPc fun _ => ?_).trans account_setMonitor)
    show _ = (s.flushPc p side).reported
    rw [hp]
    cases ok <;> rfl
  | leaveClear =>
    refine .of_eq ((account_setFlushPc fun _ => ?_).trans account_setMonitor)
    show _ = (s.flushPc p side).reported
    rw [hp]
    rfl
  | refuse hlocked =>
    refine .of_eq (account_setFlushPc fun _ => ?_)
    rw [hp]
    rfl
  | send =>
    by_cases hempty : (s.buffer side).traces = []
    · rw [if_pos hempty, account_report (hlock.1 trivial) rfl]
      refine .of_eq (Function.update_eq_self_iff.2 ?_)
      rw [account_locked (hlock.1 trivial) (by rw [hp]; rfl), hempty]
    · rw [if_neg hempty]
      refine .of_eq (account_setFlushPc fun _ => ?_)
      rw [hp]
      rfl
  | lock hlocked =>
    refine .of_eq (account_lockStep ?_)
    rw [account_unlocked hlocked]
    simp [account, SharedBuffers.reported, setFlushPc, setBuffer, FlushPhase.reported]
  | clear =>
    refine .of_eq (account_lockStep ?_)
    simp [account, SharedBuffers.reported, setFlushPc, setBuffer, hlock.1 trivial, hp,
      FlushPhase.reported]
  | throw => exact hreport _ .dropped (by simp) trivial rfl rfl (account_dropped s _)
  | keep => exact hreport _ .kept (by simp) trivial rfl rfl (account_kept s _)
  | drop => exact hreport _ .dropped (by simp) trivial rfl rfl (account_dropped s _)

/-- The callers of `FlushBuffers` move nothing. -/
theorem account_same (ht : t.MonitorInv) (hs : SameTraces s t)
    (hf : ∀ q x, t.flushPc q x = s.flushPc q x ∨ t.flushPc q x = .entering) :
    t.account = s.account := by
  refine account_of hs.queue hs.writer (fun x => ?_) hs.kept hs.dropped hs.lost
  refine buffered_of (by rw [hs.buffer]) (by rw [hs.buffer]) fun q hq => ?_
  rcases hf q x with he | he
  · rw [he]
  · -- the flush that has the lock is not at its start
    have hlock := (ht.lock x q).2 (by rw [hs.buffer]; exact hq)
    rw [he] at hlock
    exact hlock.elim

theorem moved_enqueue (hs : s.enqueue w = some t) : Moved s.account t.account := by
  obtain ⟨trace, hw, rfl⟩ := enqueue_cases hs
  have hheld : s.account (.held w) = [trace] ++ [] := by simp only [account, hw]; rfl
  have hm := Moved.move (Place.held w) .pending [trace] [] (by simp) hheld
  rw [account_setWriter, account_queue s (s.pendingTraces ++ [WorkItem.trace trace]),
    List.filterMap_append]
  exact hm

theorem moved_dequeue (hs : s.dequeue = some t) : Moved s.account t.account := by
  obtain ⟨-, hidle, item, items, hitems, ⟨trace, rfl, rfl⟩ | ⟨p, rfl, rfl⟩⟩ := dequeue_cases hs
  · have hqueue : s.account .pending = [trace] ++ items.filterMap WorkItem.toTrace := by
      simp [account, hitems, WorkItem.toTrace]
    have hheld : s.account (.held serializationThread) = [] := by simp [account, hidle, WriterPc.held]
    have hm := Moved.move Place.pending (.held serializationThread) [trace] _ (by simp) hqueue
    rw [hheld, Function.update_comm (by simp)] at hm
    rw [account_setWriter, account_queue s items]
    exact hm
  · refine .of_eq (account_of ?_ rfl (fun _ => rfl) rfl rfl rfl)
    rw [hitems]
    rfl

/-- Every step but the call of `WriteTrace` moves traces from one place to another. -/
theorem moved_step (h : s.MonitorInv) (hs : s.step event = some t)
    (hnew : ∀ w, event ≠ .writeTrace w) : Moved s.account t.account := by
  have ht := h.step hs
  cases event with
  | writeTrace w => exact absurd rfl (hnew w)
  | enqueue w => exact moved_enqueue hs
  | dequeue => exact moved_dequeue hs
  | processExit =>
    obtain rfl := Option.some.inj hs
    exact .stay
  | exit =>
    obtain rfl := exit_cases hs
    exact .stay
  | serialize w fits => exact moved_serialize h hs
  | throw w => exact moved_throw hs
  | flushTracesAsync p =>
    refine .of_eq (account_same ht (flushTracesAsync_sameTraces hs) fun q x => .inl ?_)
    rw [flushTracesAsync_flushPc hs]
  | flushLoop p =>
    refine .of_eq (account_same ht (flushLoop_sameTraces hs) fun q x => .inl ?_)
    rw [flushLoop_flushPc hs]
  | advance p => exact .of_eq (account_same ht (advance_sameTraces hs) fun q _ => advance_flushPc hs q)
  | flush p side outcome => exact moved_flush h hs

/-! ## Runs -/

/-- Every trace given so far is in one place. -/
def Ledger (s : SharedBuffers) : Prop := Once (· < s.next) s.account

theorem ledger_init (running : Bool) : (init running).Ledger where
  nodup place := by cases place <;> exact .nil
  unique i j a h := by cases i <;> cases h
  given a := ⟨fun h => absurd h (Nat.not_lt_zero a), fun ⟨i, h⟩ => by cases i <;> cases h⟩

/-- A call of `WriteTrace` has its new trace in hand. -/
theorem Ledger.writeTrace (h : s.Ledger) (hs : s.writeTrace w = some t) : t.Ledger := by
  obtain ⟨hidle, hcase⟩ := writeTrace_cases hs
  have hheld : s.account (.held w) = [] := by simp only [account, hidle]; rfl
  have hnew := Once.deposit (i := Place.held w) h (Nat.lt_irrefl s.next)
  rw [hheld] at hnew
  have hlt : (fun x => x < s.next ∨ x = s.next) = (· < s.next + 1) := by
    funext x
    exact propext Nat.lt_succ_iff_lt_or_eq.symm
  rw [hlt] at hnew
  rcases hcase with ⟨-, rfl⟩ | ⟨-, rfl⟩
  · unfold Ledger
    rw [account_setWriter]
    exact hnew
  · unfold Ledger
    rw [account_setWriter]
    exact hnew

theorem step_next_lost (hs : s.step event = some t) :
    ((∀ w, event ≠ .writeTrace w) → t.next = s.next) ∧
      t.lost.length = s.lost.length + if event.throws then 1 else 0 := by
  cases event with
  | writeTrace w =>
    refine ⟨fun h => absurd rfl (h w), ?_⟩
    obtain ⟨-, ⟨-, rfl⟩ | ⟨-, rfl⟩⟩ := writeTrace_cases hs <;> rfl
  | enqueue w =>
    obtain ⟨trace, -, rfl⟩ := enqueue_cases hs
    exact ⟨fun _ => rfl, rfl⟩
  | dequeue =>
    obtain ⟨-, -, item, items, -, ⟨trace, -, rfl⟩ | ⟨p, -, rfl⟩⟩ := dequeue_cases hs <;>
      exact ⟨fun _ => rfl, rfl⟩
  | processExit =>
    obtain rfl := Option.some.inj hs
    exact ⟨fun _ => rfl, rfl⟩
  | exit =>
    obtain rfl := exit_cases hs
    exact ⟨fun _ => rfl, rfl⟩
  | serialize w fits =>
    obtain ⟨trace, phase, -, hcase⟩ := serialize_cases hs
    cases hcase <;> exact ⟨fun _ => rfl, rfl⟩
  | throw w =>
    obtain ⟨trace, ⟨-, rfl⟩ | ⟨side, again, -, rfl⟩⟩ := throw_cases hs <;>
      exact ⟨fun _ => rfl, List.length_append⟩
  | flushTracesAsync p =>
    have hsame := flushTracesAsync_sameTraces hs
    exact ⟨fun _ => hsame.next, by rw [hsame.lost]; rfl⟩
  | flushLoop p =>
    have hsame := flushLoop_sameTraces hs
    exact ⟨fun _ => hsame.next, by rw [hsame.lost]; rfl⟩
  | advance p =>
    have hsame := advance_sameTraces hs
    exact ⟨fun _ => hsame.next, by rw [hsame.lost]; rfl⟩
  | flush p side outcome =>
    have hcase := flush_cases hs
    generalize s.flushPc p side = phase at hcase
    cases hcase <;> exact ⟨fun _ => rfl, rfl⟩

theorem Ledger.step (h : s.Ledger) (hm : s.MonitorInv) (hs : s.step event = some t) :
    t.Ledger := by
  by_cases hnew : ∃ w, event = .writeTrace w
  · obtain ⟨w, rfl⟩ := hnew
    exact h.writeTrace hs
  · have hnew : ∀ w, event ≠ .writeTrace w := fun w he => hnew ⟨w, he⟩
    unfold Ledger
    rw [(step_next_lost hs).1 hnew]
    exact h.moved (moved_step hm hs hnew)

theorem run_ledger {running : Bool} {events : List Event}
    (hr : Run (stepOf step) (init running) events t) : t.MonitorInv ∧ t.Ledger :=
  hr.invariant (I := fun s => s.MonitorInv ∧ s.Ledger) (C := fun _ _ => True)
    (fun _ _ _ h _ hs => ⟨h.1.step hs, h.2.step h.1 hs⟩) (fun _ _ _ _ _ _ => trivial)
    ⟨monitorInv_init running, ledger_init running⟩

theorem run_lost {events : List Event} (hr : Run (stepOf step) s events t) :
    t.lost.length = s.lost.length + events.countP Event.throws := by
  induction hr with
  | nil => rfl
  | cons hs _ ih =>
    rw [ih, (step_next_lost hs).2, List.countP_cons]
    omega

/-! ## Quiescent states -/

theorem Quiescent.buffered (hq : s.Quiescent) (hm : s.MonitorInv) :
    s.account (.buffered side) = (s.buffer side).traces := by
  cases hl : (s.buffer side).locked with
  | none => exact account_unlocked hl
  | some p =>
    have hlock := (hm.lock side p).2 hl
    refine absurd ⟨fun he => ?_, fun he => ?_⟩ (hq.2 p side) <;>
      exact (he ▸ hlock : FlushPhase.HasLock _)

theorem Quiescent.accounted_eq (hq : s.Quiescent) (hm : s.MonitorInv) : s.accounted =
    [Place.pending, .buffered .front, .buffered .back, .kept, .dropped].flatMap s.account := by
  simp only [List.flatMap_cons, List.flatMap_nil, hq.buffered hm, List.append_nil]
  rfl

/-- At a quiescent point the traces not accounted for are the lost ones. -/
theorem Quiescent.countedOnce_iff_lost (hq : s.Quiescent) (hm : s.MonitorInv) (h : s.Ledger) :
    s.CountedOnce ↔ s.lost = [] := by
  unfold CountedOnce
  rw [hq.accounted_eq hm]
  have hplaces : [Place.pending, .buffered .front, .buffered .back, .kept, .dropped].Nodup := by
    decide
  have hone := Once.count_eq_one_iff h hplaces
  constructor
  · intro hall
    refine List.eq_nil_iff_forall_not_mem.2 fun trace hlost => ?_
    obtain ⟨place, hplace, hmem⟩ := (hone trace).1 (hall trace ((h.given trace).2 ⟨.lost, hlost⟩))
    obtain rfl := h.unique place .lost trace hmem hlost
    simp at hplace
  · intro hlost trace htrace
    obtain ⟨place, hmem⟩ := (h.given trace).1 htrace
    refine (hone trace).2 ⟨place, ?_, hmem⟩
    cases place with
    | pending | kept | dropped => simp
    | buffered side => cases side <;> simp
    | held w =>
      simp only [account, hq.1 w] at hmem
      cases hmem
    | lost =>
      simp only [account, hlost] at hmem
      cases hmem

/-- A trace is counted in exactly one place as long as no `SerializeTrace` has thrown. -/
theorem countedOnce_iff (running : Bool) (events : List Event) (s : SharedBuffers)
    (hr : Run (stepOf step) (init running) events s) (hq : s.Quiescent) :
    s.CountedOnce ↔ ∀ w, Event.throw w ∉ events := by
  obtain ⟨hm, hledger⟩ := run_ledger hr
  rw [hq.countedOnce_iff_lost hm hledger, ← List.length_eq_zero_iff, run_lost hr]
  have hzero : (init running).lost.length = 0 := rfl
  rw [hzero, Nat.zero_add, List.countP_eq_zero]
  constructor
  · intro h w hw
    exact h _ hw rfl
  · intro h event hevent
    cases event with
    | throw w => exact absurd hevent (h w)
    | _ => exact Bool.false_ne_true

/-- Trace 0 is in the front buffer and trace 1 in the queue. -/
def bufferedRun : List Event :=
  [.writeTrace 1, .enqueue 1, .dequeue, .serialize 0 true, .serialize 0 true, .serialize 0 true,
    .serialize 0 true, .serialize 0 true, .writeTrace 2, .enqueue 2]

theorem countedOnce_buffered : ∃ s, Run (stepOf step) (init true) bufferedRun s ∧ s.next = 2 ∧
    s.CountedOnce := by
  have hr : Run (stepOf step) (init true) bufferedRun _ :=
    .cons rfl <| .cons rfl <| .cons rfl <| .cons rfl <| .cons rfl <| .cons rfl <| .cons rfl <|
      .cons rfl <| .cons rfl <| .cons rfl <| .nil _
  refine ⟨_, hr, rfl, (countedOnce_iff true bufferedRun _ hr ⟨fun w => ?_, fun p side h => h.1 rfl⟩).2
    fun w hw => ?_⟩
  · match w with
    | 0 | 1 | 2 => rfl
    | n + 3 => rfl
  · simp [bufferedRun] at hw

/-- The serialization thread dequeues a trace and the formatter throws: the loop logs the
exception and counts nothing. -/
theorem thrown_not_counted : ¬ ∀ running events s,
    Run (stepOf step) (init running) events s → s.Quiescent → s.CountedOnce := by
  intro h
  have h := h true [.writeTrace 1, .enqueue 1, .dequeue, .serialize 0 true, .serialize 0 true,
      .serialize 0 true, .throw 0] _
    (.cons rfl <| .cons rfl <| .cons rfl <| .cons rfl <| .cons rfl <| .cons rfl <| .cons rfl <|
      .nil _) ⟨fun w => ?_, fun p side h => h.1 rfl⟩ 0 (by decide)
  · cases h
  · match w with
    | 0 | 1 => rfl
    | n + 2 => rfl

end SharedBuffers

end DdTrace.Agent
