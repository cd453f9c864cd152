import DdTrace.Agent.Monitors
import DdTrace.Lib.Run

/-!
# Traces in the buffer that is not active

`FlushBuffers` sends the fallback buffer only when it is full, so a trace left in a buffer
that is neither active nor full, locked or being flushed stays there. A thread that
serializes alone swaps a buffer away only for one of these reasons (`PhaseOk`). With two
threads, the second swaps it away because the first is writing into it.
-/

namespace DdTrace.Agent

open Lib

/-- A `SerializeTrace` call is in progress. -/
def WriterPc.Serializes : WriterPc → Prop
  | .serializing _ _ => True
  | _ => False

namespace SharedBuffers

/-- The buffer is empty, or full, locked or being flushed. -/
def Settled (s : SharedBuffers) (side : Side) : Prop :=
  (s.buffer side).traces ≠ [] →
    (s.buffer side).isFull = true ∨ (s.buffer side).locked.isSome ∨
      ∃ p, (s.flushPc p side).InProgress

def NotStranded (s : SharedBuffers) : Prop := s.Settled s.activeBuffer.other

/-- A step leaves a locked buffer alone, unless it clears and unlocks it. -/
def LeavesLocked (s : SharedBuffers) (event : Event) : Prop :=
  ∀ t, s.step event = some t → ∀ side, (s.buffer side).locked.isSome →
    (t.buffer side).traces = (s.buffer side).traces ∧ (t.buffer side).isFull = (s.buffer side).isFull ∨
    (t.buffer side).traces = [] ∧ (t.buffer side).locked = none

/-- No caller of `WriteTrace` starts to serialize while another thread does. -/
def Alone (s : SharedBuffers) : Event → Prop
  | .writeTrace _ => s.running = false → ∀ v, ¬ (s.writer v).Serializes
  | _ => True

variable {s t : SharedBuffers} {w v : WriterId} {p q : FlusherId} {side x : Side} {trace : Trace}
  {pc : WriterPc} {phase : SerializePhase} {event : Event} {fits : Bool}
  {outcome : State.SendOutcome}

/-! ## Buffers that stay settled -/

theorem Settled.mono (h : s.Settled x) (ht : (t.buffer x).traces = (s.buffer x).traces)
    (hfull : (s.buffer x).isFull = true → (t.buffer x).isFull = true)
    (hl : (t.buffer x).locked = (s.buffer x).locked)
    (hf : ∀ p, (s.flushPc p x).InProgress → (t.flushPc p x).InProgress) : t.Settled x := by
  intro hne
  rw [ht] at hne
  rcases h hne with h | h | ⟨p, h⟩
  · exact .inl (hfull h)
  · exact .inr (.inl (by rwa [hl]))
  · exact .inr (.inr ⟨p, hf p h⟩)

theorem Settled.of_buffer (h : s.Settled x) (hb : t.buffer = s.buffer)
    (hf : ∀ p, (s.flushPc p x).InProgress → (t.flushPc p x).InProgress) : t.Settled x :=
  h.mono (by rw [hb]) (by rw [hb]; exact id) (by rw [hb]) hf

theorem settled_of_locked (h : (s.buffer x).locked.isSome) : s.Settled x := fun _ => .inr (.inl h)

theorem settled_of_full (h : (s.buffer x).isFull = true) : s.Settled x := fun _ => .inl h

/-- The monitor of a buffer does not matter. -/
theorem Settled.setMonitor {holder : Option MonitorHolder} (h : s.Settled x) :
    (s.setMonitor side holder).Settled x := by
  by_cases hx : x = side
  · subst hx
    apply h.mono <;> simp [SharedBuffers.setMonitor, setBuffer]
  · have hb : (s.setMonitor side holder).buffer x = s.buffer x := setBuffer_buffer_of_ne hx
    exact h.mono (by rw [hb]) (by rw [hb]; exact id) (by rw [hb]) fun _ => id

/-- A flush leaves its buffer in progress, locked by another flush, or cleared. -/
theorem settled_flush (h : s.MonitorInv) (hs : s.flush p side outcome = some t) :
    t.Settled side ∧ ∀ x, x ≠ side → s.Settled x → t.Settled x := by
  have hcase := flush_cases hs
  generalize hp : s.flushPc p side = old at hcase
  have hprogress : ∀ (r : SharedBuffers) (phase : FlushPhase), phase.InProgress →
      (r.setFlushPc p side phase).Settled side :=
    fun r phase hphase _ => .inr (.inr ⟨p, by rwa [setFlushPc_self]⟩)
  have hkeep : ∀ (b : SharedBuffer) (phase : FlushPhase) (x : Side), x ≠ side → s.Settled x →
      ((s.setBuffer side b).setFlushPc p side phase).Settled x := by
    intro b phase x hx hset
    have hbx : ((s.setBuffer side b).setFlushPc p side phase).buffer x = s.buffer x :=
      setBuffer_buffer_of_ne hx
    refine hset.mono (by rw [hbx]) (by rw [hbx]; exact id) (by rw [hbx]) fun q hq => ?_
    rwa [setFlushPc_of_ne hx]
  have hmove : ∀ (r : SharedBuffers) (phase : FlushPhase), r.buffer = s.buffer →
      r.flushPc = s.flushPc → ∀ x, x ≠ side → s.Settled x → (r.setFlushPc p side phase).Settled x := by
    intro r phase hb hf x hx hset
    refine hset.of_buffer hb fun q hq => ?_
    rwa [setFlushPc_of_ne hx, hf]
  cases hcase with
  | enter | lock | enterClear | clear => exact ⟨hprogress _ _ (by decide), hkeep _ _⟩
  | refuse => exact ⟨hprogress _ _ (by decide), hmove s _ rfl rfl⟩
  | throw | keep | drop => exact ⟨hprogress _ _ (by decide), hmove _ _ rfl rfl⟩
  | send =>
    refine ⟨hprogress _ _ ?_, hmove s _ rfl rfl⟩
    split <;> decide
  | leave ok =>
    refine ⟨?_, hkeep _ _⟩
    cases ok with
    | true => exact hprogress _ .locked (by decide)
    | false =>
      apply settled_of_locked
      simpa [setMonitor] using h.refused side p hp
  | leaveClear =>
    refine ⟨fun hne => absurd ?_ hne, hkeep _ _⟩
    simpa [setMonitor] using h.cleared side p hp

/-- A step of `SerializeTrace` unsettles only the buffer it writes into. -/
theorem settled_serialized (hs : Serialized s w trace phase t)
    (hx : ∀ again, phase ≠ .formatting x again) (hset : s.Settled x) : t.Settled x := by
  have hkeep : ∀ (b : SharedBuffer) (pc : WriterPc) (side : Side), x ≠ side →
      ((s.setBuffer side b).setWriter w pc).Settled x := by
    intro b pc side hne
    have hbx : ((s.setBuffer side b).setWriter w pc).buffer x = s.buffer x :=
      setBuffer_buffer_of_ne hne
    exact hset.mono (by rw [hbx]) (by rw [hbx]; exact id) (by rw [hbx]) fun _ => id
  cases hs with
  | enter | written | refuse => exact hset.setMonitor.of_buffer rfl fun _ => id
  | write side again | full side again =>
    refine hkeep _ _ _ ?_
    rintro rfl
    exact hx again rfl
  | _ => exact hset.of_buffer rfl fun _ => id

/-! ## A thread that serializes alone -/

/-- The buffer that `SerializeTrace` works on is the active one, and settled once its first
`TryWrite` has failed. -/
def PhaseOk (s : SharedBuffers) : SerializePhase → Prop
  | .starting | .rereading | .dropping => True
  | .entering side _ | .inside side _ | .formatting side _ | .leaving side _ true =>
    side = s.activeBuffer
  | .leaving side _ false | .swapChecking side | .swapWriting side =>
    side = s.activeBuffer ∧ s.Settled side
  | .swapReading => s.Settled s.activeBuffer

theorem PhaseOk.mono (h : s.PhaseOk phase) (ha : t.activeBuffer = s.activeBuffer)
    (hset : ∀ x, s.Settled x → t.Settled x) : t.PhaseOk phase := by
  cases phase with
  | starting | rereading | dropping => trivial
  | entering side again | inside side again | formatting side again => exact h.trans ha.symm
  | leaving side again ok =>
    cases ok with
    | true => exact h.trans ha.symm
    | false => exact ⟨h.1.trans ha.symm, hset side h.2⟩
  | swapChecking side | swapWriting side => exact ⟨h.1.trans ha.symm, hset side h.2⟩
  | swapReading =>
    show t.Settled t.activeBuffer
    rw [ha]
    exact hset _ h

structure AloneInv (s : SharedBuffers) : Prop where
  monitors : s.MonitorInv
  single : ∀ v w, (s.writer v).Serializes → (s.writer w).Serializes → v = w
  running : s.running = true → ∀ v, (s.writer v).Serializes → v = serializationThread
  phase : ∀ w trace phase, s.writer w = .serializing trace phase → s.PhaseOk phase
  inactive : s.NotStranded

theorem aloneInv_init (running : Bool) : AloneInv (init running) where
  monitors := monitorInv_init running
  single _ _ h := h.elim
  running _ _ h := h.elim
  phase _ _ _ h := by cases h
  inactive := fun hne => absurd rfl hne

/-- A step of another thread. -/
theorem AloneInv.frame (h : s.AloneInv) (hm : t.MonitorInv)
    (hw : ∀ v, (t.writer v).Serializes → t.writer v = s.writer v)
    (hr : t.running = true → s.running = true) (ha : t.activeBuffer = s.activeBuffer)
    (hset : ∀ x, s.Settled x → t.Settled x) : t.AloneInv where
  monitors := hm
  single v w hv hw' := h.single v w (hw v hv ▸ hv) (hw w hw' ▸ hw')
  running ht v hv := h.running (hr ht) v (hw v hv ▸ hv)
  phase w trace phase hp := by
    have hser : (t.writer w).Serializes := by rw [hp]; trivial
    exact (h.phase w trace phase ((hw w hser).symm.trans hp)).mono ha hset
  inactive := by
    unfold NotStranded
    rw [ha]
    exact hset _ h.inactive

/-- A step of the thread that serializes. -/
theorem AloneInv.move (hm : t.MonitorInv)
    (hw : t.writer = Function.update s.writer w pc) (hr : t.running = s.running)
    (hthread : pc.Serializes → s.running = true → w = serializationThread)
    (hold : ∀ v, (s.writer v).Serializes → v = w) (hin : t.NotStranded)
    (hphase : ∀ trace phase, pc = .serializing trace phase → t.PhaseOk phase) : t.AloneInv := by
  have hself : ∀ v, (t.writer v).Serializes → v = w ∧ pc.Serializes := by
    intro v hv
    rw [hw] at hv
    by_cases hvw : v = w
    · subst hvw
      rw [Function.update_self] at hv
      exact ⟨rfl, hv⟩
    · rw [Function.update_of_ne hvw] at hv
      exact absurd (hold v hv) hvw
  refine ⟨hm, fun v u hv hu => (hself v hv).1.trans (hself u hu).1.symm, fun ht v hv => ?_,
    fun v trace phase hv => ?_, hin⟩
  · obtain ⟨rfl, hpc⟩ := hself v hv
    exact hthread hpc (hr ▸ ht)
  · have hser : (t.writer v).Serializes := by rw [hv]; trivial
    obtain ⟨rfl, -⟩ := hself v hser
    rw [hw, Function.update_self] at hv
    exact hphase trace phase hv

/-- `TryEnter` fails only because a flush has the monitor. -/
theorem AloneInv.settled_of_busy {holder : MonitorHolder} (h : s.AloneInv)
    (hw : (s.writer w).Serializes) (hnot : ¬ (s.writer w).InMonitor side)
    (hx : (s.buffer side).monitor = some holder) : s.Settled side := by
  have hh := (h.monitors.monitor side holder).2 hx
  cases holder with
  | writer v =>
    have hv : (s.writer v).Serializes := by
      simp only [Holds] at hh
      cases hpc : s.writer v with
      | serializing => trivial
      | idle | enqueuing => rw [hpc] at hh; exact hh.elim
    obtain rfl := h.single v w hv hw
    exact absurd hh hnot
  | flusher p =>
    simp only [Holds] at hh
    refine fun _ => .inr (.inr ⟨p, ?_⟩)
    refine ⟨fun he => ?_, fun he => ?_⟩ <;> exact (he ▸ hh : FlushPhase.InMonitor _)

theorem AloneInv.serialize (h : s.AloneInv) (hs : s.serialize w fits = some t) : t.AloneInv := by
  have hm := h.monitors.serialize hs
  obtain ⟨trace, phase, hw, hcase⟩ := serialize_cases hs
  have hser : (s.writer w).Serializes := by rw [hw]; trivial
  have hold : ∀ v, (s.writer v).Serializes → v = w := fun v hv => h.single v w hv hser
  have hthread : ∀ pc : WriterPc, pc.Serializes → s.running = true → w = serializationThread :=
    fun _ _ hr => h.running hr w hser
  have hok := h.phase w trace phase hw
  -- the buffer that is not active is not the one written into
  have hin : t.activeBuffer = s.activeBuffer → t.NotStranded := by
    intro ha
    unfold NotStranded
    rw [ha]
    refine settled_serialized hcase (fun again he => ?_) h.inactive
    subst he
    exact Side.ne_other _ hok.symm
  cases hcase with
  | start =>
    refine AloneInv.move hm rfl rfl (hthread _) hold (hin rfl) fun _ _ he => ?_
    cases he
    rfl
  | enter side again =>
    refine AloneInv.move hm rfl rfl (hthread _) hold (hin rfl) fun _ _ he => ?_
    cases he
    exact hok
  | busy side again x hx =>
    refine AloneInv.move hm rfl rfl (hthread _) hold (hin rfl) fun _ _ he => ?_
    cases he
    cases again with
    | true => trivial
    | false =>
      have hset := h.settled_of_busy hser (by rw [hw]; exact id) hx
      obtain rfl : side = s.activeBuffer := hok
      exact hset.of_buffer rfl fun _ => id
  | locked side again hlocked =>
    refine AloneInv.move hm rfl rfl (hthread _) hold (hin rfl) fun _ _ he => ?_
    cases he
    exact ⟨hok, settled_of_locked hlocked⟩
  | unlocked side again =>
    refine AloneInv.move hm rfl rfl (hthread _) hold (hin rfl) fun _ _ he => ?_
    cases he
    exact hok
  | write side again =>
    refine AloneInv.move hm rfl rfl (hthread _) hold (hin rfl) fun _ _ he => ?_
    cases he
    exact hok
  | full side again =>
    refine AloneInv.move hm rfl rfl (hthread _) hold (hin rfl) fun _ _ he => ?_
    cases he
    exact ⟨hok, settled_of_full (by simp)⟩
  | written side again => exact AloneInv.move hm rfl rfl (hthread _) hold (hin rfl) fun _ _ he => by cases he
  | refuse side again =>
    refine AloneInv.move hm rfl rfl (hthread _) hold (hin rfl) fun _ _ he => ?_
    cases he
    cases again with
    | true => trivial
    | false =>
      obtain ⟨rfl, hset⟩ := hok
      exact settled_serialized (.refuse s.activeBuffer false) (by simp) hset
  | readActive =>
    refine AloneInv.move hm rfl rfl (hthread _) hold (hin rfl) fun _ _ he => ?_
    cases he
    exact ⟨rfl, hok.of_buffer rfl fun _ => id⟩
  | check side =>
    refine AloneInv.move hm rfl rfl (hthread _) hold (hin rfl) fun _ _ he => ?_
    cases he
    split
    · trivial
    · exact ⟨hok.1, hok.2.of_buffer rfl fun _ => id⟩
  | swap side =>
    -- the buffer left behind is settled
    refine AloneInv.move hm rfl rfl (hthread _) hold ?_ fun _ _ he => ?_
    · show Settled _ side.other.other
      rw [Side.other_other]
      exact hok.2.of_buffer rfl fun _ => id
    · cases he
      trivial
  | reread =>
    refine AloneInv.move hm rfl rfl (hthread _) hold (hin rfl) fun _ _ he => ?_
    cases he
    rfl
  | drop => exact AloneInv.move hm rfl rfl (hthread _) hold (hin rfl) fun _ _ he => by cases he

theorem AloneInv.throw (h : s.AloneInv) (hs : s.throw w = some t) : t.AloneInv := by
  have hm := h.monitors.throw hs
  have hthrow : ∀ r : SharedBuffers, r.writer = s.writer → r.running = s.running →
      r.activeBuffer = s.activeBuffer → (∀ x, s.Settled x → r.Settled x) →
      (s.writer w).Serializes → (r.setWriter w .idle).MonitorInv → (r.setWriter w .idle).AloneInv := by
    intro r hw hr ha hset hser hm
    refine AloneInv.move (w := w) hm (by rw [← hw]; rfl) hr (fun hf : WriterPc.Serializes .idle => hf.elim)
      (fun v hv => h.single v w hv hser) ?_ fun _ _ he => by cases he
    show Settled _ (r.activeBuffer.other)
    rw [ha]
    exact (hset _ h.inactive).of_buffer rfl fun _ => id
  obtain ⟨trace, ⟨hw, rfl⟩ | ⟨side, again, hw, rfl⟩⟩ := throw_cases hs
  · exact hthrow _ rfl rfl rfl (fun x hx => hx.of_buffer rfl fun _ => id) (by rw [hw]; trivial) hm
  · refine hthrow _ rfl rfl rfl (fun x hx => ?_) (by rw [hw]; trivial) hm
    exact (hx.setMonitor ).of_buffer rfl fun _ => id

theorem AloneInv.flush (h : s.AloneInv) (hs : s.flush p side outcome = some t) : t.AloneInv := by
  obtain ⟨hside, hother⟩ := settled_flush h.monitors hs
  have hsame : t.writer = s.writer ∧ t.running = s.running ∧ t.activeBuffer = s.activeBuffer := by
    have hcase := flush_cases hs
    generalize s.flushPc p side = old at hcase
    cases hcase <;> exact ⟨rfl, rfl, rfl⟩
  obtain ⟨hw, hr, ha⟩ := hsame
  refine h.frame (h.monitors.flush hs) (fun v _ => by rw [hw]) (fun hf => hr ▸ hf) ha fun x hx => ?_
  by_cases hxs : x = side
  · exact hxs ▸ hside
  · exact hother x hxs hx

/-- A caller of `WriteTrace`, or the serialization thread with an item of its queue, starts to
serialize while nobody does. -/
theorem AloneInv.begin (h : s.AloneInv) (hm : t.MonitorInv)
    (hw : t.writer = Function.update s.writer w (.serializing trace .starting))
    (hr : t.running = s.running) (ha : t.activeBuffer = s.activeBuffer)
    (hset : ∀ x, s.Settled x → t.Settled x)
    (hthread : s.running = true → w = serializationThread)
    (hnone : ∀ v, ¬ (s.writer v).Serializes) : t.AloneInv := by
  refine AloneInv.move hm hw hr (fun _ => hthread) (fun v hv => absurd hv (hnone v)) ?_
    fun _ _ he => ?_
  · unfold NotStranded
    rw [ha]
    exact hset _ h.inactive
  · cases he
    trivial

theorem AloneInv.writeTrace (h : s.AloneInv) (hc : s.Alone (.writeTrace w))
    (hm : t.MonitorInv) (hs : s.writeTrace w = some t) : t.AloneInv := by
  obtain ⟨-, ⟨hrun, rfl⟩ | ⟨hstop, rfl⟩⟩ := writeTrace_cases hs
  · refine h.frame hm (fun v hv => ?_) id rfl fun x hx => hx.of_buffer rfl fun _ => id
    by_cases hvw : v = w
    · subst hvw
      simp [setWriter, WriterPc.Serializes] at hv
    · exact Function.update_of_ne hvw _ _
  · refine h.begin hm rfl rfl rfl (fun x hx => hx.of_buffer rfl fun _ => id) (fun hr => ?_)
      (hc hstop)
    rw [hstop] at hr
    cases hr

theorem AloneInv.enqueue (h : s.AloneInv) (hm : t.MonitorInv) (hs : s.enqueue w = some t) :
    t.AloneInv := by
  obtain ⟨trace, -, rfl⟩ := enqueue_cases hs
  refine h.frame hm (fun v hv => ?_) id rfl fun x hx => hx.of_buffer rfl fun _ => id
  by_cases hvw : v = w
  · subst hvw
    simp [setWriter, WriterPc.Serializes] at hv
  · exact Function.update_of_ne hvw _ _

theorem AloneInv.dequeue (h : s.AloneInv) (hm : t.MonitorInv) (hs : s.dequeue = some t) :
    t.AloneInv := by
  obtain ⟨hrun, hidle, item, items, -, ⟨trace, -, rfl⟩ | ⟨p, -, rfl⟩⟩ := dequeue_cases hs
  · refine h.begin hm rfl rfl rfl (fun x hx => hx.of_buffer rfl fun _ => id) (fun _ => rfl)
      fun v hv => ?_
    obtain rfl := h.running hrun v hv
    rw [hidle] at hv
    exact hv
  · exact h.frame hm (fun _ _ => rfl) id rfl fun x hx => hx.of_buffer rfl fun _ => id

theorem AloneInv.exit (h : s.AloneInv) (hm : t.MonitorInv) (hs : s.exit = some t) :
    t.AloneInv := by
  obtain rfl := exit_cases hs
  exact h.frame hm (fun _ _ => rfl) (fun hf => by cases hf) rfl
    fun x hx => hx.of_buffer rfl fun _ => id

/-- A step of a caller of `FlushBuffers`. -/
theorem AloneInv.control (h : s.AloneInv) (hm : t.MonitorInv) (hsame : SameTraces s t)
    (hf : ∀ q x, (s.flushPc q x).InProgress → (t.flushPc q x).InProgress) : t.AloneInv :=
  h.frame hm (fun _ _ => by rw [hsame.writer]) (fun hr => hsame.running ▸ hr) hsame.activeBuffer
    fun x hx => hx.of_buffer hsame.buffer fun q => hf q x

theorem advance_inProgress (hs : s.advance p = some t) (q : FlusherId) (x : Side)
    (h : (s.flushPc q x).InProgress) : (t.flushPc q x).InProgress := by
  rcases advance_flushPc hs q with he | he
  · rwa [he]
  · rw [he]
    decide

theorem AloneInv.step (h : s.AloneInv) (hc : s.Alone event) (hs : s.step event = some t) :
    t.AloneInv := by
  have hm := h.monitors.step hs
  cases event with
  | writeTrace w => exact h.writeTrace hc hm hs
  | enqueue w => exact h.enqueue hm hs
  | dequeue => exact h.dequeue hm hs
  | processExit =>
    obtain rfl := Option.some.inj hs
    exact h.frame hm (fun _ _ => rfl) id rfl fun x hx => hx.of_buffer rfl fun _ => id
  | exit => exact h.exit hm hs
  | serialize w fits => exact h.serialize hs
  | throw w => exact h.throw hs
  | flushTracesAsync p =>
    refine h.control hm (flushTracesAsync_sameTraces hs) fun q x hq => ?_
    rwa [flushTracesAsync_flushPc hs]
  | flushLoop p =>
    refine h.control hm (flushLoop_sameTraces hs) fun q x hq => ?_
    rwa [flushLoop_flushPc hs]
  | advance p => exact h.control hm (advance_sameTraces hs) (advance_inProgress hs)
  | flush p side outcome => exact h.flush hs

/-! ## Locked buffers -/

theorem setMonitor_traces {holder : Option MonitorHolder} :
    ((s.setMonitor side holder).buffer x).traces = (s.buffer x).traces ∧
      ((s.setMonitor side holder).buffer x).isFull = (s.buffer x).isFull := by
  by_cases hx : x = side
  · subst hx
    simp [setMonitor]
  · rw [setMonitor, setBuffer_buffer_of_ne hx]
    exact ⟨rfl, rfl⟩

/-- `TryWrite` changes only the buffer that it formats into. -/
theorem serialized_traces (hs : Serialized s w trace phase t)
    (hx : ∀ again, phase ≠ .formatting x again) :
    (t.buffer x).traces = (s.buffer x).traces ∧ (t.buffer x).isFull = (s.buffer x).isFull := by
  cases hs with
  | enter | written | refuse => exact setMonitor_traces
  | write side again | full side again =>
    have hne : x ≠ side := by
      rintro rfl
      exact hx again rfl
    rw [setWriter_buffer, setBuffer_buffer_of_ne hne]
    exact ⟨rfl, rfl⟩
  | _ => exact ⟨rfl, rfl⟩

theorem flush_traces (hs : s.flush p side outcome = some t) (x : Side) :
    (t.buffer x).traces = (s.buffer x).traces ∧ (t.buffer x).isFull = (s.buffer x).isFull ∨
      (t.buffer x).traces = [] ∧ (t.buffer x).locked = none := by
  have hcase := flush_cases hs
  generalize s.flushPc p side = old at hcase
  cases hcase with
  | enter | leave | enterClear | leaveClear => exact .inl setMonitor_traces
  | refuse | send | throw | keep | drop => exact .inl ⟨rfl, rfl⟩
  | lock | clear =>
    by_cases hx : x = side
    · subst hx
      simp
    · rw [setFlushPc_buffer, setBuffer_buffer_of_ne hx]
      exact .inl ⟨rfl, rfl⟩

theorem MonitorInv.leavesLocked (h : s.MonitorInv) (event : Event) : s.LeavesLocked event := by
  intro t hs side hlocked
  have hsame : t.buffer = s.buffer → (t.buffer side).traces = (s.buffer side).traces ∧
      (t.buffer side).isFull = (s.buffer side).isFull := by
    intro hb
    rw [hb]
    exact ⟨rfl, rfl⟩
  cases event with
  | serialize w fits =>
    obtain ⟨trace, phase, hw, hcase⟩ := serialize_cases hs
    refine .inl (serialized_traces hcase fun again he => ?_)
    subst he
    rw [h.unlocked side w trace again hw] at hlocked
    cases hlocked
  | throw w =>
    obtain ⟨trace, ⟨-, rfl⟩ | ⟨x, again, -, rfl⟩⟩ := throw_cases hs
    · exact .inl ⟨rfl, rfl⟩
    · exact .inl (setMonitor_traces (s := { s with lost := _ }))
  | flush p x outcome => exact flush_traces hs side
  | flushTracesAsync p => exact .inl (hsame (flushTracesAsync_sameTraces hs).buffer)
  | flushLoop p => exact .inl (hsame (flushLoop_sameTraces hs).buffer)
  | advance p => exact .inl (hsame (advance_sameTraces hs).buffer)
  | processExit =>
    obtain rfl := Option.some.inj hs
    exact .inl ⟨rfl, rfl⟩
  | writeTrace w => obtain ⟨-, ⟨-, rfl⟩ | ⟨-, rfl⟩⟩ := writeTrace_cases hs <;> exact .inl ⟨rfl, rfl⟩
  | enqueue w =>
    obtain ⟨trace, -, rfl⟩ := enqueue_cases hs
    exact .inl ⟨rfl, rfl⟩
  | dequeue =>
    obtain ⟨-, -, item, items, -, ⟨trace, -, rfl⟩ | ⟨p, -, rfl⟩⟩ := dequeue_cases hs <;>
      exact .inl ⟨rfl, rfl⟩
  | exit =>
    obtain rfl := exit_cases hs
    exact .inl ⟨rfl, rfl⟩

/-- No trace is stranded in a run in which nobody calls `SerializeTrace` next to another
thread, and no run writes into a locked buffer. -/
theorem not_stranded (running : Bool) (events : List Event) :
    (EachStep (stepOf step) Alone (init running) events →
      EachState (stepOf step) NotStranded (init running) events) ∧
    EachStep (stepOf step) LeavesLocked (init running) events := by
  refine ⟨fun hc => ?_, ?_⟩
  · exact EachState.of_invariant (fun _ _ _ h hc hs => AloneInv.step h hc hs)
      (fun _ h => h.inactive) hc (aloneInv_init running)
  · intro pre event post s _ hr
    have hm : s.MonitorInv := hr.invariant (C := fun _ _ => True)
      (fun _ _ _ h _ hs => MonitorInv.step h hs) (fun _ _ _ _ _ _ => trivial)
      (monitorInv_init running)
    exact hm.leavesLocked event

/-- The serialization thread has returned. The call with trace 0 is in the formatter when the
one with trace 1 finds the monitor taken and swaps the buffers. -/
theorem stranded : ¬ ∀ running events,
    EachState (stepOf step) NotStranded (init running) events := by
  intro h
  have h := h true
    [.processExit, .exit, .writeTrace 1, .writeTrace 2,
      .serialize 1 true, .serialize 1 true, .serialize 1 true,
      .serialize 2 true, .serialize 2 true, .serialize 2 true, .serialize 2 true,
      .serialize 2 true, .serialize 1 true, .serialize 1 true]
    _ [] _ (List.append_nil _).symm
    (.cons rfl <| .cons rfl <| .cons rfl <| .cons rfl <| .cons rfl <| .cons rfl <| .cons rfl <|
      .cons rfl <| .cons rfl <| .cons rfl <| .cons rfl <| .cons rfl <| .cons rfl <| .cons rfl <|
      .nil _)
  rcases h (by decide) with h | h | ⟨p, h, -⟩
  · cases h
  · cases h
  · exact h rfl

end SharedBuffers

end DdTrace.Agent
