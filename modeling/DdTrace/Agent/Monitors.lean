import DdTrace.Agent.SharedBuffers

/-!
# What the monitors of the buffers give

Whatever the threads do (`MonitorInv`): the holder of a monitor is the thread inside, the
owner of `_locked` is the flush between `Lock` and `Clear`, no formatter runs in a locked
buffer, and a buffer that has been cleared is empty until its monitor is left.
-/

namespace DdTrace.Agent

/-- The thread has the monitor of the buffer. -/
def WriterPc.InMonitor (pc : WriterPc) (side : Side) : Prop :=
  match pc with
  | .serializing _ (.inside x _) | .serializing _ (.formatting x _)
  | .serializing _ (.leaving x _ _) => x = side
  | _ => False

def FlushPhase.InMonitor : FlushPhase → Prop
  | .locking | .leaving _ | .clearing | .leavingClear => True
  | _ => False

def FlushPhase.InProgress (phase : FlushPhase) : Prop := phase ≠ .notStarted ∧ phase ≠ .done

instance (phase : FlushPhase) : Decidable phase.InProgress := inferInstanceAs (Decidable (_ ∧ _))

/-- The flush is between `Lock` and `Clear`. -/
def FlushPhase.HasLock : FlushPhase → Prop
  | .leaving true | .locked | .sending | .enteringClear | .clearing => True
  | _ => False

/-- The `FlushBuffers` call has not come to its flush of the buffer. -/
def FlusherPc.Unflushed (pc : FlusherPc) (side : Side) : Prop :=
  match pc with
  | .notStarted | .awaitingWatermark | .reading | .checking _ => True
  | .fetching x main | .awaitingPrevious x _ main | .flushing x main => side = x ∨ main = false
  | .storing x main | .awaitingFlush x main => side ≠ x ∧ main = false
  | .completed => False

theorem Side.ne_other (side : Side) : side ≠ side.other := by
  cases side <;> decide

theorem Side.other_other (side : Side) : side.other.other = side := by
  cases side <;> rfl

namespace SharedBuffers

/-- The thread has the monitor of the buffer. -/
def Holds (s : SharedBuffers) (side : Side) : MonitorHolder → Prop
  | .writer w => (s.writer w).InMonitor side
  | .flusher p => (s.flushPc p side).InMonitor

structure MonitorInv (s : SharedBuffers) : Prop where
  monitor : ∀ side x, s.Holds side x ↔ (s.buffer side).monitor = some x
  lock : ∀ side p, (s.flushPc p side).HasLock ↔ (s.buffer side).locked = some p
  unlocked : ∀ side w t again, s.writer w = .serializing t (.formatting side again) →
    (s.buffer side).locked = none
  refused : ∀ side p, s.flushPc p side = .leaving false → (s.buffer side).locked.isSome
  cleared : ∀ side p, s.flushPc p side = .leavingClear → (s.buffer side).traces = []
  unflushed : ∀ side p, (s.flusher p).Unflushed side → s.flushPc p side = .notStarted

variable {s t : SharedBuffers} {w v : WriterId} {p q : FlusherId} {side : Side} {trace : Trace}
  {pc : WriterPc} {phase : FlushPhase} {event : Event} {fits : Bool} {outcome : State.SendOutcome}

theorem monitorInv_init (running : Bool) : MonitorInv (init running) where
  monitor side x := by
    cases x with
    | writer w => exact ⟨False.elim, fun h => by cases h⟩
    | flusher p => exact ⟨False.elim, fun h => by cases h⟩
  lock _ _ := ⟨False.elim, fun h => by cases h⟩
  unlocked _ _ _ _ h := by cases h
  refused _ _ h := by cases h
  cleared _ _ h := by cases h
  unflushed _ _ _ := rfl

theorem MonitorInv.unique (h : s.MonitorInv) {x y : MonitorHolder} (hx : s.Holds side x)
    (hy : s.Holds side y) : x = y :=
  Option.some.inj (((h.monitor side x).1 hx).symm.trans ((h.monitor side y).1 hy))

/-- What a thread may do to a monitor: leave it alone, enter it when it is free, exit it. -/
def MonitorStep (s t : SharedBuffers) (x : MonitorHolder) (side : Side) : Prop :=
  (t.buffer side).monitor = (s.buffer side).monitor ∧ (t.Holds side x ↔ s.Holds side x) ∨
  (s.buffer side).monitor = none ∧ (t.buffer side).monitor = some x ∧ t.Holds side x ∨
  s.Holds side x ∧ (t.buffer side).monitor = none ∧ ¬ t.Holds side x

/-- What one may do to a cell that has the name of its owner: leave it alone, take it when it is
free, give it back. It has the name of its owner then. -/
theorem owner_step {α : Type} {owner owner' : Option α} {owns : α → Prop} (owns' : α → Prop)
    {x : α} (h : ∀ y, owns y ↔ owner = some y) (hother : ∀ y, y ≠ x → (owns' y ↔ owns y))
    (hstep : owner' = owner ∧ (owns' x ↔ owns x) ∨
      owner = none ∧ owner' = some x ∧ owns' x ∨
      owns x ∧ owner' = none ∧ ¬ owns' x) (y : α) :
    owns' y ↔ owner' = some y := by
  by_cases hyx : y = x
  · subst hyx
    rcases hstep with ⟨hm, hh⟩ | ⟨-, hm, hh⟩ | ⟨-, hm, hh⟩
    · rw [hh, hm]
      exact h y
    · exact iff_of_true hh hm
    · exact iff_of_false hh (by simp [hm])
  · rw [hother y hyx, h y]
    rcases hstep with ⟨hm, -⟩ | ⟨hfree, hm, -⟩ | ⟨hx, hm, -⟩
    · rw [hm]
    · rw [hfree, hm]
      exact iff_of_false (by simp) (by simpa using Ne.symm hyx)
    · rw [(h x).1 hx, hm]
      exact iff_of_false (by simpa using Ne.symm hyx) (by simp)

theorem MonitorInv.monitor_step (h : s.MonitorInv) {x : MonitorHolder}
    (hother : ∀ side y, y ≠ x → (t.Holds side y ↔ s.Holds side y))
    (hstep : ∀ side, s.MonitorStep t x side) (side : Side) (y : MonitorHolder) :
    t.Holds side y ↔ (t.buffer side).monitor = some y :=
  owner_step (t.Holds side) (h.monitor side) (hother side) (hstep side) y

/-- A step of a writer: it changes the traces only in its monitor, and formats only in a buffer
it has found unlocked. -/
theorem MonitorInv.writerStep (h : s.MonitorInv)
    (hw : t.writer = Function.update s.writer w pc) (hf : t.flushPc = s.flushPc)
    (hfl : t.flusher = s.flusher) (hm : ∀ side, s.MonitorStep t (.writer w) side)
    (hl : ∀ side, (t.buffer side).locked = (s.buffer side).locked)
    (ht : ∀ side, (t.buffer side).traces = (s.buffer side).traces ∨ s.Holds side (.writer w))
    (hformat : ∀ side trace again, pc = .serializing trace (.formatting side again) →
      (s.buffer side).locked = none) : t.MonitorInv where
  monitor := by
    refine h.monitor_step (fun side y hy => ?_) hm
    cases y with
    | writer v =>
      have hv : v ≠ w := by
        rintro rfl
        exact hy rfl
      simp only [Holds, hw, Function.update_of_ne hv]
    | flusher p => simp only [Holds, hf]
  lock side p := by
    rw [hf, hl]
    exact h.lock side p
  unlocked side v trace again hv := by
    rw [hl]
    rw [hw] at hv
    by_cases hvw : v = w
    · subst hvw
      rw [Function.update_self] at hv
      exact hformat side trace again hv
    · rw [Function.update_of_ne hvw] at hv
      exact h.unlocked side v trace again hv
  refused side p hp := by
    rw [hl]
    exact h.refused side p (hf ▸ hp)
  cleared side p hp := by
    rw [hf] at hp
    rcases ht side with ht | hh
    · rw [ht]
      exact h.cleared side p hp
    · have hx : s.Holds side (.flusher p) := by
        simp only [Holds, hp, FlushPhase.InMonitor]
      cases h.unique hh hx
  unflushed side p hp := by
    rw [hf]
    exact h.unflushed side p (hfl ▸ hp)

/-- A step of a flush: it changes its buffer only in the monitor. -/
theorem MonitorInv.flushStep (h : s.MonitorInv) (hw : t.writer = s.writer)
    (hf : t.flushPc = Function.update s.flushPc p (Function.update (s.flushPc p) side phase))
    (hfl : t.flusher = s.flusher) (hb : ∀ x, x ≠ side → t.buffer x = s.buffer x)
    (hm : s.MonitorStep t (.flusher p) side) (hstarted : s.flushPc p side ≠ .notStarted)
    (hl : (t.buffer side).locked = (s.buffer side).locked ∧
        (phase.HasLock ↔ (s.flushPc p side).HasLock) ∨
      (s.flushPc p side).InMonitor ∧ ((s.buffer side).locked = none ∧
        (t.buffer side).locked = some p ∧ phase.HasLock ∨
        (s.flushPc p side).HasLock ∧ (t.buffer side).locked = none ∧ ¬ phase.HasLock))
    (ht : (t.buffer side).traces = (s.buffer side).traces ∨ (s.flushPc p side).InMonitor)
    (hrefused : phase = .leaving false → (t.buffer side).locked.isSome)
    (hcleared : phase = .leavingClear → (t.buffer side).traces = []) : t.MonitorInv := by
  have hself : t.flushPc p side = phase := by rw [hf]; simp
  have hne : ∀ q x, q ≠ p ∨ x ≠ side → t.flushPc q x = s.flushPc q x := by
    intro q x hqx
    rw [hf]
    by_cases hq : q = p
    · subst hq
      rw [Function.update_self, Function.update_of_ne (hqx.resolve_left fun hn => hn rfl)]
    · rw [Function.update_of_ne hq]
  -- another flush in the monitor of `side` keeps `p` out
  have hout : ∀ q, q ≠ p → (s.flushPc q side).InMonitor → ¬ (s.flushPc p side).InMonitor := by
    intro q hqp hq hp
    have hpq : MonitorHolder.flusher p = .flusher q := h.unique (x := .flusher p) hp hq
    cases hpq
    exact hqp rfl
  refine ⟨h.monitor_step (x := .flusher p) (fun x y hy => ?_) fun x => ?_, fun x q => ?_,
    fun x v trace again hv => ?_, fun x q hq => ?_, fun x q hq => ?_, fun x q hq => ?_⟩
  · cases y with
    | writer v => simp only [Holds, hw]
    | flusher q =>
      have hqp : q ≠ p := by
        rintro rfl
        exact hy rfl
      simp only [Holds, hne q x (.inl hqp)]
  · by_cases hx : x = side
    · subst hx
      exact hm
    · exact .inl ⟨by rw [hb x hx], by simp only [Holds, hne p x (.inr hx)]⟩
  · by_cases hx : x = side
    · subst hx
      refine owner_step (fun q => (t.flushPc q x).HasLock) (x := p) (h.lock x)
        (fun q hqp => ?_) ?_ q
      · rw [hne q x (.inl hqp)]
      · rw [hself]
        exact hl.imp_right fun hl => hl.2
    · rw [hne q x (.inr hx), hb x hx]
      exact h.lock x q
  · rw [hw] at hv
    have hnone := h.unlocked x v trace again hv
    by_cases hx : x = side
    · subst hx
      rcases hl with ⟨hl, -⟩ | ⟨hp, -⟩
      · rw [hl]
        exact hnone
      · have hv : s.Holds x (.writer v) := by simp only [Holds, hv, WriterPc.InMonitor]
        cases h.unique (y := .flusher p) hv hp
    · rw [hb x hx]
      exact hnone
  · by_cases hx : x = side
    · subst hx
      by_cases hqp : q = p
      · subst hqp
        exact hrefused (hself.symm.trans hq)
      · rw [hne q x (.inl hqp)] at hq
        rcases hl with ⟨hl, -⟩ | ⟨hp, -⟩
        · rw [hl]
          exact h.refused x q hq
        · exact absurd hp (hout q hqp (by rw [hq]; trivial))
    · rw [hne q x (.inr hx)] at hq
      rw [hb x hx]
      exact h.refused x q hq
  · by_cases hx : x = side
    · subst hx
      by_cases hqp : q = p
      · subst hqp
        exact hcleared (hself.symm.trans hq)
      · rw [hne q x (.inl hqp)] at hq
        rcases ht with ht | hp
        · rw [ht]
          exact h.cleared x q hq
        · exact absurd hp (hout q hqp (by rw [hq]; trivial))
    · rw [hne q x (.inr hx)] at hq
      rw [hb x hx]
      exact h.cleared x q hq
  · rw [hfl] at hq
    have hnot := h.unflushed x q hq
    by_cases hqx : q ≠ p ∨ x ≠ side
    · rw [hne q x hqx]
      exact hnot
    · obtain ⟨rfl, rfl⟩ := not_or.1 hqx |>.imp not_not.1 not_not.1
      exact absurd hnot hstarted

@[simp] theorem setWriter_buffer : (s.setWriter w pc).buffer = s.buffer := rfl

@[simp] theorem setFlushPc_buffer : (s.setFlushPc p side phase).buffer = s.buffer := rfl

@[simp] theorem setBuffer_buffer_self {b : SharedBuffer} : (s.setBuffer side b).buffer side = b :=
  Function.update_self ..

theorem setBuffer_buffer_of_ne {b : SharedBuffer} {x : Side} (h : x ≠ side) :
    (s.setBuffer side b).buffer x = s.buffer x :=
  Function.update_of_ne h ..

theorem setFlushPc_self : (s.setFlushPc p side phase).flushPc p side = phase := by
  simp [setFlushPc]

theorem setFlushPc_of_ne {x : Side} (h : x ≠ side) :
    (s.setFlushPc p side phase).flushPc q x = s.flushPc q x := by
  by_cases hq : q = p
  · subst hq
    simp [setFlushPc, Function.update_of_ne h]
  · simp [setFlushPc, Function.update_of_ne hq]

theorem setFlusher_flusher_self {pc : FlusherPc} : (s.setFlusher p pc).flusher p = pc :=
  Function.update_self ..

theorem setFlusher_flusher_of_ne {pc : FlusherPc} (h : q ≠ p) :
    (s.setFlusher p pc).flusher q = s.flusher q :=
  Function.update_of_ne h ..

theorem holds_writer (h : t.writer = Function.update s.writer w pc) :
    t.Holds side (.writer w) ↔ pc.InMonitor side := by
  simp only [Holds, h, Function.update_self]

/-- A step of a writer outside the buffers. -/
theorem MonitorInv.writerMove (h : s.MonitorInv) (hw : t.writer = Function.update s.writer w pc)
    (hb : t.buffer = s.buffer) (hf : t.flushPc = s.flushPc) (hfl : t.flusher = s.flusher)
    (hin : ∀ side, pc.InMonitor side ↔ (s.writer w).InMonitor side)
    (hformat : ∀ side trace again, pc = .serializing trace (.formatting side again) →
      (s.buffer side).locked = none) : t.MonitorInv := by
  refine h.writerStep hw hf hfl (fun side => .inl ⟨by rw [hb], ?_⟩) (fun side => by rw [hb])
    (fun side => .inl (by rw [hb])) hformat
  rw [holds_writer hw]
  exact hin side

/-- A step of a writer at one buffer. -/
theorem MonitorInv.writerAt {b : SharedBuffer} (h : s.MonitorInv)
    (hw : t.writer = Function.update s.writer w pc) (hb : t.buffer = Function.update s.buffer side b)
    (hf : t.flushPc = s.flushPc) (hfl : t.flusher = s.flusher)
    (hin : ∀ x, x ≠ side → (pc.InMonitor x ↔ (s.writer w).InMonitor x))
    (hm : b.monitor = (s.buffer side).monitor ∧ (pc.InMonitor side ↔ (s.writer w).InMonitor side) ∨
      (s.buffer side).monitor = none ∧ b.monitor = some (.writer w) ∧ pc.InMonitor side ∨
      (s.writer w).InMonitor side ∧ b.monitor = none ∧ ¬ pc.InMonitor side)
    (hl : b.locked = (s.buffer side).locked)
    (ht : b.traces = (s.buffer side).traces ∨ (s.writer w).InMonitor side)
    (hformat : ∀ x trace again, pc ≠ .serializing trace (.formatting x again)) : t.MonitorInv := by
  have hself : t.buffer side = b := by rw [hb, Function.update_self]
  have hne : ∀ x, x ≠ side → t.buffer x = s.buffer x := by
    intro x hx
    rw [hb, Function.update_of_ne hx]
  refine h.writerStep hw hf hfl (fun x => ?_) (fun x => ?_) (fun x => ?_)
    fun x trace again he => absurd he (hformat x trace again)
  · by_cases hx : x = side
    · subst hx
      unfold MonitorStep
      rw [hself, holds_writer hw]
      exact hm
    · left
      rw [hne x hx, holds_writer hw]
      exact ⟨rfl, hin x hx⟩
  · by_cases hx : x = side
    · subst hx
      rw [hself, hl]
    · rw [hne x hx]
  · by_cases hx : x = side
    · subst hx
      rw [hself]
      exact ht
    · exact .inl (by rw [hne x hx])

theorem refused_not_inMonitor {again : Bool} :
    ¬ (WriterPc.serializing trace (refused again)).InMonitor side := by
  cases again <;> exact id

theorem refused_ne_formatting {again again' : Bool} :
    refused again ≠ .formatting side again' := by
  cases again <;> simp [refused]

theorem MonitorInv.serialize (h : s.MonitorInv) (hs : s.serialize w fits = some t) :
    t.MonitorInv := by
  obtain ⟨trace, phase, hw, hcase⟩ := serialize_cases hs
  cases hcase with
  | enter side again hfree =>
    refine h.writerAt rfl rfl rfl rfl (fun x hx => ?_) (.inr (.inl ⟨hfree, rfl, rfl⟩)) rfl (.inl rfl)
      (by simp)
    rw [hw]
    exact iff_of_false (fun he => hx he.symm) id
  | write side again =>
    refine h.writerAt rfl rfl rfl rfl (fun x hx => ?_) (.inl ⟨rfl, ?_⟩) rfl (.inr ?_) (by simp)
    · rw [hw]; rfl
    · rw [hw]; rfl
    · rw [hw]; rfl
  | full side again =>
    refine h.writerAt rfl rfl rfl rfl (fun x hx => ?_) (.inl ⟨rfl, ?_⟩) rfl (.inl rfl) (by simp)
    · rw [hw]; rfl
    · rw [hw]; rfl
  | written side again =>
    refine h.writerAt rfl rfl rfl rfl (fun x hx => ?_) (.inr (.inr ⟨?_, rfl, id⟩)) rfl (.inl rfl)
      (by simp)
    · rw [hw]
      exact iff_of_false id fun he => hx he.symm
    · rw [hw]; rfl
  | refuse side again =>
    refine h.writerAt rfl rfl rfl rfl (fun x hx => ?_)
      (.inr (.inr ⟨?_, rfl, refused_not_inMonitor⟩)) rfl (.inl rfl) (by simp [refused_ne_formatting])
    · rw [hw]
      exact iff_of_false refused_not_inMonitor fun he => hx he.symm
    · rw [hw]; rfl
  | unlocked side again hlocked =>
    refine h.writerMove rfl rfl rfl rfl (fun x => by rw [hw]; rfl) fun x tr again' he => ?_
    cases he
    exact hlocked
  | locked side again hlocked =>
    exact h.writerMove rfl rfl rfl rfl (fun x => by rw [hw]; rfl) (by simp)
  | busy side again x hx =>
    refine h.writerMove rfl rfl rfl rfl (fun x => ?_) (by simp [refused_ne_formatting])
    rw [hw]
    exact iff_of_false refused_not_inMonitor id
  | check side =>
    refine h.writerMove rfl rfl rfl rfl (fun x => ?_) fun x tr again he => ?_
    · rw [hw]
      split <;> exact Iff.rfl
    · split at he <;> cases he
  | start | readActive | swap side | reread | drop =>
    exact h.writerMove rfl rfl rfl rfl (fun x => by rw [hw]; rfl) (by simp)

theorem MonitorInv.throw (h : s.MonitorInv) (hs : s.throw w = some t) : t.MonitorInv := by
  obtain ⟨trace, ⟨hw, rfl⟩ | ⟨side, again, hw, rfl⟩⟩ := throw_cases hs
  · exact h.writerMove rfl rfl rfl rfl (fun x => by rw [hw]; rfl) (by simp)
  · refine h.writerAt rfl rfl rfl rfl (fun x hx => ?_) (.inr (.inr ⟨?_, rfl, id⟩)) rfl (.inl rfl)
      (by simp)
    · rw [hw]
      exact iff_of_false id fun he => hx he.symm
    · rw [hw]
      rfl

theorem holds_flusher
    (h : t.flushPc = Function.update s.flushPc p (Function.update (s.flushPc p) side phase)) :
    t.Holds side (.flusher p) ↔ phase.InMonitor := by
  simp only [Holds, h, Function.update_self]

theorem MonitorInv.flush (h : s.MonitorInv) (hs : s.flush p side outcome = some t) :
    t.MonitorInv := by
  have hcase := flush_cases hs
  generalize hp : s.flushPc p side = old at hcase
  have hin : s.Holds side (.flusher p) ↔ old.InMonitor := by simp only [Holds, hp]
  have hne : ∀ b x, x ≠ side → (s.setBuffer side b).buffer x = s.buffer x :=
    fun b x hx => setBuffer_buffer_of_ne hx
  cases hcase with
  | enter hfree | enterClear hfree =>
    refine h.flushStep rfl rfl rfl (hne _) (.inr (.inl ⟨hfree, ?_, ?_⟩)) (by simp [hp])
      (.inl ⟨?_, ?_⟩) (.inl ?_) (by simp) (by simp)
    · simp [setMonitor]
    · rw [holds_flusher rfl]; trivial
    · simp [setMonitor]
    · rw [hp]; rfl
    · simp [setMonitor]
  | refuse hlocked =>
    refine h.flushStep rfl rfl rfl (fun _ _ => rfl) (.inl ⟨rfl, ?_⟩) (by simp [hp])
      (.inl ⟨rfl, ?_⟩) (.inl rfl) (fun _ => hlocked) (by simp)
    · rw [holds_flusher rfl, hin]; rfl
    · rw [hp]; rfl
  | lock hlocked =>
    refine h.flushStep rfl rfl rfl (hne _) (.inl ⟨?_, ?_⟩) (by simp [hp])
      (.inr ⟨?_, .inl ⟨hlocked, ?_, trivial⟩⟩) (.inl ?_) (by simp) (by simp)
    · simp
    · rw [holds_flusher rfl, hin]; rfl
    · rw [hp]; trivial
    · simp
    · simp
  | leave ok =>
    refine h.flushStep rfl rfl rfl (hne _) (.inr (.inr ⟨?_, ?_, ?_⟩)) (by simp [hp])
      (.inl ⟨?_, ?_⟩) (.inl ?_) ?_ ?_
    · rw [hin]; trivial
    · simp [setMonitor]
    · rw [holds_flusher rfl]
      cases ok <;> exact id
    · simp [setMonitor]
    · rw [hp]
      cases ok <;> exact Iff.rfl
    · simp [setMonitor]
    · cases ok <;> simp
    · cases ok <;> simp
  | send =>
    refine h.flushStep rfl rfl rfl (fun _ _ => rfl) (.inl ⟨rfl, ?_⟩) (by simp [hp])
      (.inl ⟨rfl, ?_⟩) (.inl rfl) ?_ ?_
    · rw [holds_flusher rfl, hin]
      split <;> exact Iff.rfl
    · rw [hp]
      split <;> exact Iff.rfl
    · split <;> simp
    · split <;> simp
  | throw | keep | drop =>
    refine h.flushStep rfl rfl rfl (fun _ _ => rfl) (.inl ⟨rfl, ?_⟩) (by simp [hp])
      (.inl ⟨rfl, ?_⟩) (.inl rfl) (by simp) (by simp)
    · rw [holds_flusher rfl, hin]; rfl
    · rw [hp]; rfl
  | clear =>
    refine h.flushStep rfl rfl rfl (hne _) (.inl ⟨?_, ?_⟩) (by simp [hp])
      (.inr ⟨?_, .inr ⟨?_, ?_, id⟩⟩) (.inr ?_) (by simp) ?_
    · simp
    · rw [holds_flusher rfl, hin]; rfl
    · rw [hp]; trivial
    · rw [hp]; trivial
    · simp
    · rw [hp]; trivial
    · simp
  | leaveClear =>
    refine h.flushStep rfl rfl rfl (hne _) (.inr (.inr ⟨?_, ?_, ?_⟩)) (by simp [hp])
      (.inl ⟨?_, ?_⟩) (.inl ?_) (by simp) (by simp)
    · rw [hin]; trivial
    · simp [setMonitor]
    · rw [holds_flusher rfl]; exact id
    · simp [setMonitor]
    · rw [hp]; rfl
    · simp [setMonitor]

/-- A step of `FlushBuffers`, which may start an `InternalBufferFlush`. -/
theorem MonitorInv.control (h : s.MonitorInv) (hw : t.writer = s.writer) (hb : t.buffer = s.buffer)
    (hf : ∀ q x, t.flushPc q x = s.flushPc q x ∨
      s.flushPc q x = .notStarted ∧ t.flushPc q x = .entering)
    (hun : ∀ q x, (t.flusher q).Unflushed x → t.flushPc q x = .notStarted) : t.MonitorInv where
  monitor side x := by
    rw [hb, ← h.monitor side x]
    cases x with
    | writer w => simp only [Holds, hw]
    | flusher q =>
      simp only [Holds]
      rcases hf q side with he | ⟨he, he'⟩
      · rw [he]
      · rw [he, he']; rfl
  lock side q := by
    rw [hb, ← h.lock side q]
    rcases hf q side with he | ⟨he, he'⟩
    · rw [he]
    · rw [he, he']; rfl
  unlocked side w trace again hv := by
    rw [hb]
    exact h.unlocked side w trace again (hw ▸ hv)
  refused side q hq := by
    rw [hb]
    rcases hf q side with he | ⟨-, he'⟩
    · exact h.refused side q (he.symm.trans hq)
    · cases he'.symm.trans hq
  cleared side q hq := by
    rw [hb]
    rcases hf q side with he | ⟨-, he'⟩
    · exact h.cleared side q (he.symm.trans hq)
    · cases he'.symm.trans hq
  unflushed side q hq := hun q side hq

theorem MonitorInv.same (h : s.MonitorInv) (hw : t.writer = s.writer) (hb : t.buffer = s.buffer)
    (hf : t.flushPc = s.flushPc) (hfl : t.flusher = s.flusher) : t.MonitorInv :=
  h.control hw hb (fun q x => .inl (by rw [hf])) fun q x hq => by
    rw [hf]
    exact h.unflushed x q (hfl ▸ hq)

theorem MonitorInv.setFlusher {pc : FlusherPc} (h : s.MonitorInv)
    (hun : ∀ x, pc.Unflushed x → (s.flusher p).Unflushed x) : (s.setFlusher p pc).MonitorInv := by
  refine h.control rfl rfl (fun _ _ => .inl rfl) fun q x hq => ?_
  by_cases hqp : q = p
  · subst hqp
    rw [setFlusher_flusher_self] at hq
    exact h.unflushed x q (hun x hq)
  · rw [setFlusher_flusher_of_ne hqp] at hq
    exact h.unflushed x q hq

/-- `InternalBufferFlush` starts once for each call of `FlushBuffers` and each buffer. -/
theorem MonitorInv.begin {main : Bool} (h : s.MonitorInv)
    (hp : s.flusher p = .flushing side main) :
    ((s.setFlushPc p side .entering).setFlusher p (.storing side main)).MonitorInv := by
  have hun : ∀ x, x = side ∨ main = false → s.flushPc p x = .notStarted := by
    intro x hx
    apply h.unflushed x p
    rw [hp]
    exact hx
  refine h.control rfl rfl (fun q x => ?_) fun q x hq => ?_
  · by_cases hqp : q = p
    · subst hqp
      by_cases hx : x = side
      · subst hx
        exact .inr ⟨hun x (.inl rfl), by simp [setFlushPc, SharedBuffers.setFlusher]⟩
      · exact .inl (by simp [setFlushPc, SharedBuffers.setFlusher, Function.update_of_ne hx])
    · exact .inl (by simp [setFlushPc, SharedBuffers.setFlusher, Function.update_of_ne hqp])
  · by_cases hqp : q = p
    · subst hqp
      rw [setFlusher_flusher_self] at hq
      obtain ⟨hx, hmain⟩ := hq
      simpa [setFlushPc, SharedBuffers.setFlusher, Function.update_of_ne hx] using hun x (.inr hmain)
    · rw [setFlusher_flusher_of_ne hqp] at hq
      simpa [setFlushPc, SharedBuffers.setFlusher, Function.update_of_ne hqp] using
        h.unflushed x q hq

theorem MonitorInv.advance (h : s.MonitorInv) (hs : s.advance p = some t) : t.MonitorInv := by
  unfold SharedBuffers.advance at hs
  split at hs
  case h_1 | h_2 => cases hs
  case h_3 hp =>
    split at hs
    · obtain rfl := Option.some.inj hs
      exact h.setFlusher fun x _ => by rw [hp]; trivial
    · cases hs
  case h_4 hp =>
    obtain rfl := Option.some.inj hs
    exact h.setFlusher fun x _ => by rw [hp]; trivial
  case h_5 fallback hp =>
    split at hs
    all_goals
      obtain rfl := Option.some.inj hs
      exact h.setFlusher fun x _ => by rw [hp]; trivial
  case h_6 side main hp =>
    obtain rfl := Option.some.inj hs
    exact h.setFlusher fun x hx => by rw [hp]; exact hx
  case h_7 side task main hp =>
    split at hs
    · obtain rfl := Option.some.inj hs
      exact h.setFlusher fun x hx => by rw [hp]; exact hx
    · cases hs
  case h_8 side main hp =>
    obtain rfl := Option.some.inj hs
    exact h.begin hp
  case h_9 side main hp =>
    split at hs
    · obtain rfl := Option.some.inj hs
      have hstore : { s with flushTask := Function.update s.flushTask side (some p) }.MonitorInv :=
        h.same rfl rfl rfl rfl
      exact hstore.setFlusher fun x hx => by
        rw [show ({ s with flushTask := _ } : SharedBuffers).flusher p = _ from hp]
        exact hx
    · cases hs
  case h_10 side main hp =>
    split at hs
    · obtain rfl := Option.some.inj hs
      refine h.setFlusher fun x hx => ?_
      rw [hp]
      cases main with
      | true => cases hx
      | false =>
        rcases hx with rfl | hx
        · exact ⟨(Side.ne_other side).symm, rfl⟩
        · cases hx
    · cases hs

theorem MonitorInv.step (h : s.MonitorInv) (hs : s.step event = some t) : t.MonitorInv := by
  cases event with
  | serialize w fits => exact h.serialize hs
  | throw w => exact h.throw hs
  | flush p side outcome => exact h.flush hs
  | advance p => exact h.advance hs
  | processExit =>
    obtain rfl := Option.some.inj hs
    exact h.same rfl rfl rfl rfl
  | exit =>
    obtain rfl := exit_cases hs
    exact h.same rfl rfl rfl rfl
  | writeTrace w =>
    obtain ⟨hw, ⟨-, rfl⟩ | ⟨-, rfl⟩⟩ := writeTrace_cases hs
    all_goals exact h.writerMove rfl rfl rfl rfl (fun x => by rw [hw]; rfl) (by simp)
  | enqueue w =>
    obtain ⟨trace, hw, rfl⟩ := enqueue_cases hs
    exact h.writerMove rfl rfl rfl rfl (fun x => by rw [hw]; rfl) (by simp)
  | dequeue =>
    obtain ⟨-, hw, item, items, -, ⟨trace, -, rfl⟩ | ⟨p, -, rfl⟩⟩ := dequeue_cases hs
    · exact h.writerMove rfl rfl rfl rfl (fun x => by rw [hw]; rfl) (by simp)
    · exact h.same rfl rfl rfl rfl
  | flushLoop p =>
    simp only [SharedBuffers.step, flushLoop] at hs
    split at hs
    · rename_i hp
      obtain rfl := Option.some.inj hs
      exact h.setFlusher fun x _ => by rw [hp]; trivial
    · cases hs
  | flushTracesAsync p =>
    simp only [SharedBuffers.step, flushTracesAsync] at hs
    split at hs
    · rename_i hp
      split at hs
      all_goals
        obtain rfl := Option.some.inj hs
        refine h.control rfl rfl (fun _ _ => .inl rfl) fun q x hq => ?_
        by_cases hqp : q = p
        · subst hqp
          exact h.unflushed x q (by rw [hp]; trivial)
        · rw [setFlusher_flusher_of_ne hqp] at hq
          exact h.unflushed x q hq
    · cases hs

end SharedBuffers

end DdTrace.Agent
