import DdTrace.Agent.AgentWriter
import DdTrace.Lib.Signal
import Mathlib.Data.List.Infix

/-!
# Waking the serialization loop

`SerializeTracesLoop` against any number of `WriteTrace`, `FlushTracesAsync` and
`FlushAndCloseAsync` calls. A call enqueues, then tests and sets `_serializationMutex`
in separate steps; the loop waits for the event, and resets it before it looks at the
queue again. So the items of completed calls are behind a set event or seen by the next
`TryDequeue` (`LoopInv`), and the loop gets to each item in a bounded number of its own
steps (`LoopPc.toDequeue`).
-/

namespace DdTrace.Agent

open Lib

abbrev CallId := ℕ

inductive CallKind where
  | writeTrace
  | flushTracesAsync
  | flushAndCloseAsync

/-- The call that enqueued the item. -/
def WorkItem.call : WorkItem → CallId
  | .trace k | .watermark k => k

/-- How far `SerializeTracesLoop` has come; the argument is `hasDequeuedTraces`. -/
inductive LoopPc where
  /-- About to call `TryDequeue`. -/
  | dequeuing (hasDequeuedTraces : Bool)
  | serializing
  | callingBack (hasDequeuedTraces : Bool)
  /-- About to read `_processExit`. -/
  | checkingExit (hasDequeuedTraces : Bool)
  | sleeping
  | waiting
  | resetting
  | exited
  deriving DecidableEq

/-- The loop found the queue empty, and does not look again before it waits. -/
def LoopPc.Idle (pc : LoopPc) : Prop := pc = .checkingExit false ∨ pc = .waiting

/-- How many steps the loop takes at most until it has dequeued from a queue that is not
empty. -/
def LoopPc.toDequeue : LoopPc → ℕ
  | .dequeuing _ | .exited => 1
  | .callingBack _ | .sleeping | .resetting => 2
  | .checkingExit true | .waiting => 3
  | .serializing | .checkingExit false => 4

theorem LoopPc.toDequeue_le (pc : LoopPc) : pc.toDequeue ≤ 4 := by
  unfold toDequeue
  split <;> omega

/-- `dequeued` are the items that the loop has dequeued. -/
structure SerializationLoop where
  pendingTraces : List WorkItem
  serializationMutex : Signal CallId
  processExit : Bool
  pc : LoopPc
  dequeued : List WorkItem

namespace SerializationLoop

def init : SerializationLoop where
  pendingTraces := []
  serializationMutex := ⟨false, fun _ => .notStarted⟩
  processExit := false
  pc := .dequeuing false
  dequeued := []

def setCall (s : SerializationLoop) (k : CallId) (pc : Signaller) : SerializationLoop :=
  { s with serializationMutex := s.serializationMutex.setCall k pc }

variable (kind : CallId → CallKind)

/-- The call reads `_serializationTask.IsCompleted`, or sets `_processExit`. -/
def start (s : SerializationLoop) (k : CallId) : Option SerializationLoop :=
  match s.serializationMutex.call k, kind k with
  | .notStarted, .flushAndCloseAsync =>
    if s.processExit then some (s.setCall k .completed)
    else some ({ s with processExit := true }.setCall k .setting)
  | .notStarted, _ => some (s.setCall k (if s.pc = .exited then .completed else .publishing))
  | _, _ => none

/-- `_pendingTraces.Enqueue`. `WriteWatermark` sets the event without testing it. -/
def enqueue (s : SerializationLoop) (k : CallId) : Option SerializationLoop :=
  match s.serializationMutex.call k, kind k with
  | .publishing, .writeTrace =>
    some ({ s with pendingTraces := s.pendingTraces ++ [WorkItem.trace k] }.setCall k .testing)
  | .publishing, .flushTracesAsync =>
    some ({ s with pendingTraces := s.pendingTraces ++ [WorkItem.watermark k] }.setCall k .setting)
  | _, _ => none

/-- The next step of `SerializeTracesLoop`; `SerializeTrace` may throw. -/
def loop (s : SerializationLoop) (threw : Bool) : Option SerializationLoop :=
  match s.pc with
  | .dequeuing h =>
    match s.pendingTraces with
    | [] => some { s with pc := .checkingExit h }
    | x :: items =>
      let pc := match x with
        | .trace _ => .serializing
        | .watermark _ => .callingBack h
      some { s with pendingTraces := items, dequeued := s.dequeued ++ [x], pc }
  | .serializing => some { s with pc := if threw then .checkingExit true else .dequeuing true }
  | .callingBack h => some { s with pc := .dequeuing h }
  | .checkingExit h =>
    some { s with pc := if s.processExit then .exited else if h then .sleeping else .waiting }
  | .sleeping => some { s with pc := .dequeuing false }
  | .waiting => if s.serializationMutex.isSet then some { s with pc := .resetting } else none
  | .resetting =>
    some { s with serializationMutex := s.serializationMutex.reset, pc := .dequeuing false }
  | .exited => none

inductive LoopEvent where
  | start (k : CallId)
  | enqueue (k : CallId)
  | test (k : CallId)
  | set (k : CallId)
  | loop (threw : Bool)

def LoopEvent.isLoop : LoopEvent → Bool
  | .loop _ => true
  | _ => false

def step (s : SerializationLoop) : LoopEvent → Option SerializationLoop
  | .start k => s.start kind k
  | .enqueue k => s.enqueue kind k
  | .test k => (s.serializationMutex.test k).map fun e => { s with serializationMutex := e }
  | .set k => (s.serializationMutex.set k).map fun e => { s with serializationMutex := e }
  | .loop threw => s.loop threw

/-- The loop is in `Wait`, and the event is unset. -/
def Blocked (s : SerializationLoop) : Prop :=
  s.pc = .waiting ∧ s.serializationMutex.isSet = false

/-- An item of the call is in the queue. -/
def Queued (s : SerializationLoop) (k : CallId) : Prop := ∃ x ∈ s.pendingTraces, x.call = k

/-- A blocked loop has overlooked no item: the call of each is before its set, and its own
steps wake the loop. A loop that is not blocked steps, and dequeues the items in order,
each within four steps of the loop. -/
structure NoLostWakeUp (s : SerializationLoop) : Prop where
  blocked : s.Blocked → ∀ k, s.Queued k → (s.serializationMutex.call k).InFlight
  wakes : s.Blocked → ∀ k, s.Queued k → ∃ events t,
    (∀ e ∈ events, e = .test k ∨ e = .set k) ∧ Run (stepOf (step kind)) s events t ∧ ¬ t.Blocked
  steps : ¬ s.Blocked → s.pc ≠ .exited → ∀ threw, (s.loop threw).isSome
  exits : s.pc = .exited → s.processExit = true
  dequeues : ∀ items behind events t, s.pendingTraces = items ++ behind →
    Run (stepOf (step kind)) s events t → 4 * items.length ≤ events.countP LoopEvent.isLoop →
    s.dequeued ++ items <+: t.dequeued

variable {kind} {s t : SerializationLoop} {k j : CallId} {threw : Bool} {event : LoopEvent}

/-! ## What a step does -/

theorem start_eq_some (h : s.start kind k = some t) : s.serializationMutex.call k = .notStarted ∧
    ∃ exit pc, (s.processExit = true → exit = true) ∧
      t = { s with processExit := exit }.setCall k pc := by
  unfold start at h
  split at h
  · refine ⟨‹_›, ?_⟩
    split at h
    · exact ⟨s.processExit, _, id, (Option.some.inj h).symm⟩
    · exact ⟨true, _, fun _ => rfl, (Option.some.inj h).symm⟩
  · exact ⟨‹_›, s.processExit, _, id, (Option.some.inj h).symm⟩
  · cases h

theorem enqueue_eq_some (h : s.enqueue kind k = some t) :
    s.serializationMutex.call k = .publishing ∧ ∃ x pc, x.call = k ∧ pc.InFlight ∧
      t = { s with pendingTraces := s.pendingTraces ++ [x] }.setCall k pc := by
  unfold enqueue at h
  split at h
  · exact ⟨‹_›, .trace k, _, rfl, Signaller.inFlight_testing, (Option.some.inj h).symm⟩
  · exact ⟨‹_›, .watermark k, _, rfl, Signaller.inFlight_setting, (Option.some.inj h).symm⟩
  · cases h

/-- A step of a call leaves the loop where it is. -/
theorem step_call (h : s.step kind event = some t) (hc : event.isLoop = false) :
    t.pc = s.pc ∧ t.dequeued = s.dequeued ∧ s.pendingTraces <+: t.pendingTraces := by
  cases event with
  | start k =>
    obtain ⟨-, exit, pc, -, rfl⟩ := start_eq_some h
    exact ⟨rfl, rfl, List.prefix_rfl⟩
  | enqueue k =>
    obtain ⟨-, x, pc, -, -, rfl⟩ := enqueue_eq_some h
    exact ⟨rfl, rfl, List.prefix_append ..⟩
  | test k | set k =>
    obtain ⟨e, -, rfl⟩ := Option.map_eq_some_iff.1 h
    exact ⟨rfl, rfl, List.prefix_rfl⟩
  | loop threw => cases hc

/-- The loop dequeues, finds the queue empty, or comes nearer to its next `TryDequeue`. -/
theorem loop_cases (h : s.loop threw = some t) :
    (∃ x items pc, s.pendingTraces = x :: items ∧ (∃ hd, s.pc = .dequeuing hd) ∧
      (pc = .serializing ∨ ∃ hd, pc = .callingBack hd) ∧
      t = { s with pendingTraces := items, dequeued := s.dequeued ++ [x], pc }) ∨
    (∃ hd, s.pc = .dequeuing hd ∧ s.pendingTraces = [] ∧ t = { s with pc := .checkingExit hd }) ∨
    ∃ e pc, e.call = s.serializationMutex.call ∧ pc.toDequeue < s.pc.toDequeue ∧
      (pc.Idle → s.pc.Idle ∧ e = s.serializationMutex) ∧ (pc = .exited → s.processExit = true) ∧
      t = { s with serializationMutex := e, pc } := by
  unfold loop at h
  split at h
  case h_1 hd hpc =>
    split at h
    · rename_i hp
      exact .inr (.inl ⟨hd, hpc, hp, (Option.some.inj h).symm⟩)
    · rename_i x items hp
      refine .inl ⟨x, items, _, hp, ⟨hd, hpc⟩, ?_, (Option.some.inj h).symm⟩
      cases x with
      | trace => exact .inl rfl
      | watermark => exact .inr ⟨hd, rfl⟩
  case h_2 hpc =>
    refine .inr (.inr ⟨_, _, rfl, ?_, ?_, ?_, (Option.some.inj h).symm⟩)
    · cases threw <;> simp [hpc, LoopPc.toDequeue]
    · cases threw <;> simp [LoopPc.Idle]
    · cases threw <;> simp
  case h_3 hd hpc =>
    refine .inr (.inr ⟨_, _, rfl, ?_, ?_, ?_, (Option.some.inj h).symm⟩) <;>
      simp [hpc, LoopPc.toDequeue, LoopPc.Idle]
  case h_4 hd hpc =>
    refine .inr (.inr ⟨_, _, rfl, ?_, ?_, ?_, (Option.some.inj h).symm⟩) <;>
      cases hd <;> cases s.processExit <;> simp [hpc, LoopPc.toDequeue, LoopPc.Idle]
  case h_5 hpc =>
    refine .inr (.inr ⟨_, _, rfl, ?_, ?_, ?_, (Option.some.inj h).symm⟩) <;>
      simp [hpc, LoopPc.toDequeue, LoopPc.Idle]
  case h_6 hpc =>
    split at h
    · refine .inr (.inr ⟨_, _, rfl, ?_, ?_, ?_, (Option.some.inj h).symm⟩) <;>
        simp [hpc, LoopPc.toDequeue, LoopPc.Idle]
    · cases h
  case h_7 hpc =>
    refine .inr (.inr ⟨s.serializationMutex.reset, _, rfl, ?_, ?_, ?_, (Option.some.inj h).symm⟩) <;>
      simp [hpc, LoopPc.toDequeue, LoopPc.Idle]
  case h_8 => cases h

/-! ## The items in the queue are announced -/

structure LoopInv (s : SerializationLoop) : Prop where
  published : ∀ k, s.Queued k → (s.serializationMutex.call k).Published
  announced : s.pc.Idle → s.serializationMutex.Announced s.Queued
  exits : s.pc = .exited → s.processExit = true

theorem loopInv_init : LoopInv init where
  published := by
    rintro k ⟨x, hx, -⟩
    cases hx
  announced := by
    rintro (h | h) <;> cases h
  exits := by
    intro h
    cases h

theorem LoopInv.not_queued (h : s.LoopInv) (hk : ¬ (s.serializationMutex.call k).Published) :
    ¬ s.Queued k :=
  fun hq => hk (h.published k hq)

theorem LoopInv.start (h : s.LoopInv) (hs : s.start kind k = some t) : t.LoopInv := by
  obtain ⟨hk, exit, pc, hexit, rfl⟩ := start_eq_some hs
  have hnot : ¬ s.Queued k := by
    apply h.not_queued
    rw [hk]
    rintro ((e | e) | e) <;> cases e
  refine ⟨fun j hj => ?_, fun hpc => (h.announced hpc).setCall (absurd · hnot) fun _ _ => id,
    fun hpc => hexit (h.exits hpc)⟩
  have hjk : j ≠ k := by
    rintro rfl
    exact hnot hj
  have := h.published j hj
  rwa [← Signal.setCall_call_of_ne hjk] at this

theorem LoopInv.enqueue (h : s.LoopInv) (hs : s.enqueue kind k = some t) : t.LoopInv := by
  obtain ⟨-, x, pc, rfl, hpc, rfl⟩ := enqueue_eq_some hs
  -- the queue has grown by the item of `k`
  have hqueued : ∀ j, ({ s with pendingTraces := s.pendingTraces ++ [x] }.setCall x.call pc).Queued j →
      s.Queued j ∨ j = x.call := by
    rintro j ⟨y, hy, rfl⟩
    rcases List.mem_append.1 hy with hy | hy
    · exact .inl ⟨y, hy, rfl⟩
    · rw [List.mem_singleton.1 hy]
      exact .inr rfl
  refine ⟨fun j hj => ?_, fun hidle => (h.announced hidle).setCall (fun _ => hpc.not_completed)
    fun j hjk hj => (hqueued j hj).resolve_right hjk, h.exits⟩
  by_cases hjk : j = x.call
  · subst hjk
    rw [setCall, Signal.setCall_call_self]
    exact .inl hpc
  · rw [setCall, Signal.setCall_call_of_ne hjk]
    exact h.published j ((hqueued j hj).resolve_right hjk)

theorem LoopInv.loop (h : s.LoopInv) (hs : s.loop threw = some t) : t.LoopInv := by
  rcases loop_cases hs with ⟨x, items, pc, hp, -, hpc, rfl⟩ | ⟨hd, -, hp, rfl⟩ |
    ⟨e, pc, hcall, -, hidle, hexit, rfl⟩
  · refine ⟨fun k ⟨y, hy, hk⟩ => h.published k ⟨y, hp ▸ .tail _ hy, hk⟩, fun hidle => ?_, fun he => ?_⟩
    · rcases hidle with rfl | rfl <;> rcases hpc with hpc | ⟨hd, hpc⟩ <;> cases hpc
    · subst he
      rcases hpc with hpc | ⟨hd, hpc⟩ <;> cases hpc
  · refine ⟨h.published, fun _ => Signal.announced_of_none ?_, fun he => (by cases he)⟩
    rintro k ⟨x, hx, -⟩
    rw [hp] at hx
    cases hx
  · refine ⟨fun k hk => ?_, fun hi => ?_, fun he => hexit he⟩
    · rw [hcall]
      exact h.published k hk
    · obtain ⟨hpc, rfl⟩ := hidle hi
      exact h.announced hpc

theorem LoopInv.step (h : s.LoopInv) (hs : s.step kind event = some t) : t.LoopInv := by
  cases event with
  | start k => exact h.start hs
  | enqueue k => exact h.enqueue hs
  | test k =>
    obtain ⟨e, he, rfl⟩ := Option.map_eq_some_iff.1 hs
    exact ⟨fun j hj => Signal.call_test he (.inl Signaller.inFlight_setting) (.inr rfl) (h.published j hj),
      fun hidle => (h.announced hidle).test he, h.exits⟩
  | set k =>
    obtain ⟨e, he, rfl⟩ := Option.map_eq_some_iff.1 hs
    exact ⟨fun j hj => Signal.call_set he (.inr rfl) (h.published j hj),
      fun _ => Signal.Announced.set he, h.exits⟩
  | loop threw => exact h.loop hs

/-! ## A blocked loop is woken -/

theorem LoopInv.blocked (h : s.LoopInv) (hb : s.Blocked) (hk : s.Queued k) :
    (s.serializationMutex.call k).InFlight :=
  (h.published k hk).inFlight (h.announced (.inr hb.1) hb.2 k hk)

theorem not_blocked_of_isSet (h : s.serializationMutex.isSet = true) : ¬ s.Blocked := by
  rintro ⟨-, hb⟩
  rw [h] at hb
  cases hb

theorem set_wakes (kind : CallId → CallKind) (h : s.serializationMutex.call k = .setting) :
    ∃ t, s.step kind (.set k) = some t ∧ ¬ t.Blocked := by
  let e : Signal CallId := Signal.setCall { s.serializationMutex with isSet := true } k .completed
  have hset : s.serializationMutex.set k = some e := by
    simp only [Signal.set, h, e]
  refine ⟨{ s with serializationMutex := e }, ?_, not_blocked_of_isSet rfl⟩
  simp only [SerializationLoop.step, hset, Option.map_some]

theorem wakes (hb : s.Blocked) (hk : (s.serializationMutex.call k).InFlight) :
    ∃ events t, (∀ e ∈ events, e = .test k ∨ e = .set k) ∧
      Run (stepOf (step kind)) s events t ∧ ¬ t.Blocked := by
  rcases hk with hk | hk
  · -- the call tests the unset event, then sets it
    let u : SerializationLoop := s.setCall k .setting
    have htest : s.step kind (.test k) = some u := by
      simp only [SerializationLoop.step, Signal.test, hk, hb.2, Option.map_some]
      rfl
    obtain ⟨t, hset, ht⟩ := set_wakes kind (s := u) (k := k) Signal.setCall_call_self
    exact ⟨[.test k, .set k], t, by simp, .cons htest (.cons hset (.nil t)), ht⟩
  · obtain ⟨t, hset, ht⟩ := set_wakes kind hk
    exact ⟨[.set k], t, by simp, .cons hset (.nil t), ht⟩

theorem loop_isSome (hb : ¬ s.Blocked) (hpc : s.pc ≠ .exited) : (s.loop threw).isSome := by
  unfold SerializationLoop.loop
  split
  case h_1 => split <;> rfl
  case h_6 hw =>
    have hset : s.serializationMutex.isSet = true := by
      by_contra hf
      exact hb ⟨hw, Bool.eq_false_iff.2 hf⟩
    rw [if_pos hset]
    rfl
  case h_8 he => exact absurd he hpc
  all_goals rfl

/-! ## The loop gets to every item -/

/-- Steps of the loop until it has dequeued `n` items at most, counted from the start. -/
def toDequeue (s : SerializationLoop) (n : ℕ) : ℕ :=
  if n ≤ s.dequeued.length then 0
  else 4 * (n - s.dequeued.length - 1) + s.pc.toDequeue

theorem toDequeue_le (n : ℕ) : s.toDequeue n ≤ 4 * (n - s.dequeued.length) := by
  unfold toDequeue
  have := s.pc.toDequeue_le
  split <;> omega

/-- The items in the order in which they are enqueued. -/
def items (s : SerializationLoop) : List WorkItem := s.dequeued ++ s.pendingTraces

theorem items_loop (h : s.loop threw = some t) : t.items = s.items := by
  rcases loop_cases h with ⟨x, rest, pc, hp, -, -, rfl⟩ | ⟨hd, -, -, rfl⟩ |
    ⟨e, pc, -, -, -, -, rfl⟩
  · simp [items, hp]
  · rfl
  · rfl

theorem toDequeue_loop {n : ℕ} (h : s.loop threw = some t) (hn : n ≤ s.items.length) :
    t.toDequeue n ≤ s.toDequeue n - 1 := by
  rcases loop_cases h with ⟨x, rest, pc, hp, ⟨hd, hpc⟩, -, rfl⟩ | ⟨hd, -, hp, rfl⟩ |
    ⟨e, pc, -, hlt, -, -, rfl⟩
  · -- one item less, and up to four steps to the next one
    have := pc.toDequeue_le
    have : s.pc.toDequeue = 1 := by
      rw [hpc]
      rfl
    simp only [toDequeue, List.length_append, List.length_singleton]
    split <;> split <;> omega
  · simp only [SerializationLoop.items, hp, List.append_nil] at hn
    simp [toDequeue, hn]
  · simp only [toDequeue]
    split
    · exact Nat.zero_le _
    · omega

/-- Along a run the queue keeps its order, and each step of the loop brings the `n`-th item
nearer. -/
theorem run_toDequeue {n : ℕ} {events : List LoopEvent}
    (h : Run (stepOf (step kind)) s events t) (hn : n ≤ s.items.length) :
    s.items <+: t.items ∧ t.toDequeue n ≤ s.toDequeue n - events.countP LoopEvent.isLoop := by
  induction h with
  | nil s => exact ⟨List.prefix_rfl, le_rfl⟩
  | @cons s u t event events hstep _ ih =>
    cases hev : event.isLoop with
    | false =>
      obtain ⟨hpc, hd, hq⟩ := step_call hstep hev
      have hitems : s.items <+: u.items := by
        unfold items
        rw [hd]
        exact (List.prefix_append_right_inj _).2 hq
      obtain ⟨hpre, hle⟩ := ih (hn.trans hitems.length_le)
      refine ⟨hitems.trans hpre, ?_⟩
      have : u.toDequeue n = s.toDequeue n := by
        unfold toDequeue
        rw [hpc, hd]
      rw [List.countP_cons_of_neg (by simp [hev])]
      omega
    | true =>
      obtain ⟨threw, rfl⟩ : ∃ threw, event = .loop threw := by
        cases event with
        | loop threw => exact ⟨threw, rfl⟩
        | _ => cases hev
      have hitems := items_loop hstep
      obtain ⟨hpre, hle⟩ := ih (hitems ▸ hn)
      have := toDequeue_loop hstep hn
      rw [List.countP_cons_of_pos hev]
      exact ⟨hitems ▸ hpre, by omega⟩

theorem dequeues {items behind : List WorkItem} {events : List LoopEvent}
    (hp : s.pendingTraces = items ++ behind) (h : Run (stepOf (step kind)) s events t)
    (hn : 4 * items.length ≤ events.countP LoopEvent.isLoop) :
    s.dequeued ++ items <+: t.dequeued := by
  have hpre : s.dequeued ++ items <+: s.items := by
    unfold SerializationLoop.items
    rw [hp, ← List.append_assoc]
    exact List.prefix_append ..
  obtain ⟨hitems, hle⟩ := run_toDequeue h hpre.length_le
  have hs := s.toDequeue_le (s.dequeued ++ items).length
  rw [List.length_append] at hs hle
  have hzero : t.toDequeue (s.dequeued.length + items.length) = 0 := by omega
  have hlen : (s.dequeued ++ items).length ≤ t.dequeued.length := by
    rw [List.length_append]
    by_contra hlt
    have hpos : 1 ≤ t.pc.toDequeue := by
      unfold LoopPc.toDequeue
      split <;> omega
    rw [toDequeue, if_neg hlt] at hzero
    omega
  exact List.prefix_of_prefix_length_le (hpre.trans hitems) (List.prefix_append ..) hlen

theorem LoopInv.noLostWakeUp (h : s.LoopInv) : s.NoLostWakeUp kind where
  blocked hb _ hk := h.blocked hb hk
  wakes hb _ hk := SerializationLoop.wakes hb (h.blocked hb hk)
  steps hb hpc _ := loop_isSome hb hpc
  exits := h.exits
  dequeues _ _ _ _ hp hr hn := SerializationLoop.dequeues hp hr hn

/-- Over every run of the loop and its callers, no accepted item waits for a wake-up. -/
theorem serializationLoop_noLostWakeUp (kind : CallId → CallKind) (events : List LoopEvent) :
    EachState (stepOf (step kind)) (NoLostWakeUp kind) init events :=
  EachState.of_invariant (C := fun _ _ => True) (fun _ _ _ h _ hs => h.step hs)
    (fun _ h => h.noLostWakeUp) (fun _ _ _ _ _ _ => trivial) loopInv_init

end SerializationLoop

end DdTrace.Agent
