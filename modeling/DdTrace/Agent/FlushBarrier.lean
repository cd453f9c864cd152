import DdTrace.Agent.AgentWriter
import Mathlib.Data.List.Basic

/-!
# FlushTracesAsync as a barrier

When `FlushTracesAsync` completes, the traces enqueued before it was called
should be sent or dropped. They are behind its watermark, so they have passed
the serializer when it reads the active buffer (`Passed`); after each of its two
flushes they are out of that buffer (`Clean`). A flush that finds the buffer
locked returns at once and breaks the second part if the lock holder still has
such a trace: `Barrier` is the condition that this does not happen.
-/

namespace DdTrace.Agent

/-- The flush is between `Lock` and `Clear`. -/
def FlushPc.HasLock (pc : FlushPc) : Prop := pc ≠ .notStarted ∧ pc ≠ .done

namespace State

/-- The trace is in a finished `SendTracesAsync` call or counted as dropped. -/
def Settled (s : State) (t : Trace) : Prop := t ∈ s.sent ∨ t ∈ s.dropped

/-- The serializer is done with the traces below `n`. -/
structure Passed (s : State) (n : Trace) : Prop where
  pending : ∀ t, .trace t ∈ s.pendingTraces → n ≤ t
  held : ∀ t, s.held = some t → n ≤ t

/-- No trace below `n` is in the buffer. -/
def Clean (s : State) (n : Trace) (side : Side) : Prop := ∀ t ∈ (s.buffer side).traces, n ≤ t

/-- The watermark of `p` is once in the queue, and no trace below `n` is behind it. -/
def Behind (items : List WorkItem) (p : FlusherId) (n : Trace) : Prop :=
  ∃ ahead behind, items = ahead ++ .watermark p :: behind ∧ .watermark p ∉ ahead ∧
    .watermark p ∉ behind ∧ ∀ t, .trace t ∈ behind → n ≤ t

theorem Behind.append {items : List WorkItem} {p : FlusherId} {n : Trace} (h : Behind items p n)
    {x : WorkItem} (hp : x ≠ .watermark p) (hx : ∀ t, x = .trace t → n ≤ t) :
    Behind (items ++ [x]) p n := by
  obtain ⟨ahead, behind, rfl, hmem, hmem', hn⟩ := h
  refine ⟨ahead, behind ++ [x], by simp, hmem, fun hm => ?_, fun t ht => ?_⟩
  · rcases List.mem_append.1 hm with hm | hm
    · exact hmem' hm
    · exact hp (List.mem_singleton.1 hm).symm
  · rcases List.mem_append.1 ht with ht | ht
    · exact hn t ht
    · exact hx t (List.mem_singleton.1 ht).symm

theorem Behind.tail {items : List WorkItem} {p : FlusherId} {n : Trace} {x : WorkItem}
    (h : Behind (x :: items) p n) (hx : x ≠ .watermark p) : Behind items p n := by
  obtain ⟨_ | ⟨y, ahead⟩, behind, he, hmem, hrest⟩ := h
  · exact absurd (List.cons_eq_cons.1 he).1 hx
  · exact ⟨ahead, behind, (List.cons_eq_cons.1 he).2, fun hm => hmem (.tail _ hm), hrest⟩

theorem Behind.head {items : List WorkItem} {p : FlusherId} {n : Trace}
    (h : Behind (.watermark p :: items) p n) :
    .watermark p ∉ items ∧ ∀ t, .trace t ∈ items → n ≤ t := by
  obtain ⟨_ | ⟨y, ahead⟩, behind, he, hmem, hrest⟩ := h
  · rw [(List.cons_eq_cons.1 he).2]; exact hrest
  · rw [(List.cons_eq_cons.1 he).1] at hmem
    exact absurd (.head _) hmem

theorem behind_new {items : List WorkItem} {p : FlusherId} (hp : .watermark p ∉ items)
    (n : Trace) : Behind (items ++ [.watermark p]) p n :=
  ⟨items, [], rfl, hp, fun h => (by cases h), fun t ht => by cases ht⟩

/-- How far the traces below `n` are when the flusher `p` is at `pc`. -/
def PcOk (s : State) (p : FlusherId) (n : Trace) : FlusherPc → Prop
  | .notStarted => True
  | .awaitingWatermark => Behind s.pendingTraces p n
  | .reading | .checking _ => s.Passed n
  | .fetching side main | .awaitingPrevious side _ main | .flushing side main =>
    s.Passed n ∧ (main = true → s.Clean n side.other)
  | .storing side main | .awaitingFlush side main =>
    s.Passed n ∧ (main = true → s.Clean n side.other) ∧
      (s.flushPc p side = .done → s.Clean n side)
  | .completed => s.Passed n ∧ ∀ side, s.Clean n side

structure Inv (s : State) : Prop where
  located : ∀ t < s.next, .trace t ∈ s.pendingTraces ∨ s.held = some t ∨
    (∃ side, t ∈ (s.buffer side).traces) ∨ s.Settled t
  numbered : ∀ t, .trace t ∈ s.pendingTraces ∨ s.held = some t → t < s.next
  inline : s.running = false → s.pendingTraces = []
  watermark : ∀ p, .watermark p ∈ s.pendingTraces → (s.flusher p).pc = .awaitingWatermark
  before_le : ∀ p, (s.flusher p).before ≤ s.next
  loop : ∀ p, (s.flusher p).flushAllBuffers = false → (s.flusher p).before = 0
  /-- A flush between `Lock` and `Clear` has the lock. -/
  lock : ∀ p side, (s.flushPc p side).HasLock → (s.buffer side).locked = some p
  clearing : ∀ p side, s.flushPc p side = .clearing →
    ∀ t ∈ (s.buffer side).traces, s.Settled t
  pcs : ∀ p, s.PcOk p (s.flusher p).before (s.flusher p).pc

theorem inv_init (running : Bool) : Inv (init running) := by
  refine ⟨?_, ?_, fun _ => rfl, ?_, fun _ => Nat.le_refl 0, fun _ _ => rfl, ?_, ?_, fun _ => trivial⟩
  · intro t ht; cases ht
  · rintro t (ht | ht) <;> cases ht
  · intro p hp; cases hp
  · intro p side h; exact absurd rfl h.1
  · intro p side h; cases h

/-! ## What a step keeps -/

variable {s t : State} {p : FlusherId} {n : Trace} {pc : FlusherPc}

theorem Passed.mono (h : s.Passed n)
    (hitem : ∀ x, .trace x ∈ t.pendingTraces ∨ t.held = some x →
      .trace x ∈ s.pendingTraces ∨ s.held = some x ∨ n ≤ x) : t.Passed n :=
  ⟨fun x hx => (hitem x (.inl hx)).elim (h.pending x) fun h' => h'.elim (h.held x) id,
    fun x hx => (hitem x (.inr hx)).elim (h.pending x) fun h' => h'.elim (h.held x) id⟩

theorem Clean.mono {side : Side} (h : s.Clean n side) (hp : s.Passed n)
    (hbuf : ∀ x ∈ (t.buffer side).traces, x ∈ (s.buffer side).traces ∨ s.held = some x) :
    t.Clean n side :=
  fun x hx => (hbuf x hx).elim (h x) (hp.held x)

/-- A step that moves only traces of the serializer, and completes a flush of `p` only with
a clean buffer, keeps what is known about `p`. -/
theorem PcOk.mono (h : s.PcOk p n pc)
    (hwait : Behind s.pendingTraces p n → Behind t.pendingTraces p n)
    (hitem : ∀ x, .trace x ∈ t.pendingTraces ∨ t.held = some x →
      .trace x ∈ s.pendingTraces ∨ s.held = some x ∨ n ≤ x)
    (hbuf : ∀ side, ∀ x ∈ (t.buffer side).traces,
      x ∈ (s.buffer side).traces ∨ s.held = some x)
    (hdone : ∀ side, t.flushPc p side = .done → s.flushPc p side = .done ∨ t.Clean n side) :
    t.PcOk p n pc := by
  cases pc with
  | notStarted => trivial
  | awaitingWatermark => exact hwait h
  | reading => exact Passed.mono h hitem
  | checking fallback => exact Passed.mono h hitem
  | fetching side main =>
    exact ⟨h.1.mono hitem, fun hm => (h.2 hm).mono h.1 (hbuf _)⟩
  | awaitingPrevious side task main =>
    exact ⟨h.1.mono hitem, fun hm => (h.2 hm).mono h.1 (hbuf _)⟩
  | flushing side main =>
    exact ⟨h.1.mono hitem, fun hm => (h.2 hm).mono h.1 (hbuf _)⟩
  | storing side main =>
    exact ⟨h.1.mono hitem, fun hm => (h.2.1 hm).mono h.1 (hbuf _), fun hd =>
      (hdone side hd).elim (fun hd => (h.2.2 hd).mono h.1 (hbuf _)) id⟩
  | awaitingFlush side main =>
    exact ⟨h.1.mono hitem, fun hm => (h.2.1 hm).mono h.1 (hbuf _), fun hd =>
      (hdone side hd).elim (fun hd => (h.2.2 hd).mono h.1 (hbuf _)) id⟩
  | completed => exact ⟨h.1.mono hitem, fun side => (h.2 side).mono h.1 (hbuf side)⟩

/-- As `PcOk.mono`, for a step that leaves the queue and the flushes alone. -/
theorem PcOk.of_buffers (h : s.PcOk p n pc) (hq : t.pendingTraces = s.pendingTraces)
    (hheld : ∀ x, t.held = some x → s.held = some x)
    (hbuf : ∀ side, ∀ x ∈ (t.buffer side).traces,
      x ∈ (s.buffer side).traces ∨ s.held = some x)
    (hflush : t.flushPc p = s.flushPc p) : t.PcOk p n pc := by
  refine h.mono (by rw [hq]; exact id) (fun x hx => ?_) hbuf
    (fun side hd => .inl (by rw [← hflush]; exact hd))
  rw [hq] at hx
  exact hx.imp id fun hx => .inl (hheld x hx)

theorem Inv.writeTrace (h : Inv s) (ht : s.writeTrace = some t) : Inv t := by
  have hlt : ∀ x, x < s.next → x < s.next + 1 := fun _ => Nat.lt_succ_of_lt
  unfold State.writeTrace at ht
  split at ht
  · rename_i hrun
    cases ht
    -- the new trace joins the queue behind every watermark
    have hmem : ∀ x, .trace x ∈ s.pendingTraces ++ [.trace s.next] →
        .trace x ∈ s.pendingTraces ∨ x = s.next := by
      intro x hx
      simpa using hx
    refine ⟨fun x hx => ?_, fun x hx => ?_, fun hr => ?_, fun p hp => ?_, fun p => ?_, h.loop, h.lock,
      h.clearing, fun p => ?_⟩
    · rcases Nat.lt_succ_iff_lt_or_eq.1 hx with hx | rfl
      · exact (h.located x hx).imp (List.mem_append_left _) id
      · exact .inl (by simp)
    · rcases hx with hx | hx
      · rcases hmem x hx with hx | rfl
        · exact hlt x (h.numbered x (.inl hx))
        · exact Nat.lt_succ_self _
      · exact hlt x (h.numbered x (.inr hx))
    · rw [hr] at hrun; cases hrun
    · exact h.watermark p (by simpa using hp)
    · exact Nat.le_succ_of_le (h.before_le p)
    · refine (h.pcs p).mono (fun hb => hb.append (by simp) fun x e => ?_) (fun x hx => ?_)
        (fun _ _ => .inl) (fun _ => .inl)
      · cases e; exact h.before_le p
      · rcases hx with hx | hx
        · exact (hmem x hx).imp id fun e => .inr (by rw [e]; exact h.before_le p)
        · exact .inr (.inl hx)
  · split at ht
    · rename_i hidle
      cases ht
      have hheld : s.held = none := by rw [held, hidle]
      refine ⟨fun x hx => ?_, fun x hx => ?_, h.inline, h.watermark, fun p => ?_, h.loop, h.lock,
        h.clearing, fun p => ?_⟩
      · rcases Nat.lt_succ_iff_lt_or_eq.1 hx with hx | rfl
        · rcases h.located x hx with hx | hx | hx
          · exact .inl hx
          · rw [hheld] at hx; cases hx
          · exact .inr (.inr hx)
        · exact .inr (.inl rfl)
      · rcases hx with hx | hx
        · exact hlt x (h.numbered x (.inl hx))
        · cases hx; exact Nat.lt_succ_self _
      · exact Nat.le_succ_of_le (h.before_le p)
      · refine (h.pcs p).mono id (fun x hx => ?_) (fun _ _ => .inl) (fun _ => .inl)
        rcases hx with hx | hx
        · exact .inl hx
        · cases hx; exact .inr (.inr (h.before_le p))
    · cases ht

/-- Changing the flusher `q` and the watermarks in the queue leaves what is known about the
other flushers. -/
theorem Inv.setQueue (h : Inv s) {items : List WorkItem} {q : FlusherId} {f : Flusher}
    (hitems : ∀ x, .trace x ∈ items ↔ .trace x ∈ s.pendingTraces)
    (hwm : ∀ p, p ≠ q → .watermark p ∈ items → .watermark p ∈ s.pendingTraces)
    (hbehind : ∀ p n, p ≠ q → Behind s.pendingTraces p n → Behind items p n)
    (hinline : s.running = false → items = [])
    (hq : .watermark q ∈ items → f.pc = .awaitingWatermark) (hle : f.before ≤ s.next)
    (hloop : f.flushAllBuffers = false → f.before = 0)
    (hpc : { s with pendingTraces := items }.PcOk q f.before f.pc) :
    Inv ({ s with pendingTraces := items }.setFlusher q f) := by
  have hcases : ∀ p, ({ s with pendingTraces := items }.setFlusher q f).flusher p =
      if p = q then f else s.flusher p := fun p => Function.update_apply ..
  refine ⟨fun x hx => ?_, fun x hx => ?_, hinline, fun p hp => ?_, fun p => ?_, fun p => ?_, h.lock,
    h.clearing, fun p => ?_⟩
  · exact (h.located x hx).imp (hitems x).2 id
  · exact h.numbered x (hx.imp (hitems x).1 id)
  · rw [hcases]
    split
    · rename_i e; subst e; exact hq hp
    · rename_i hne; exact h.watermark p (hwm p hne hp)
  · rw [hcases]
    split
    · exact hle
    · exact h.before_le p
  · rw [hcases]
    split
    · exact hloop
    · exact h.loop p
  · rw [hcases]
    split
    · rename_i e; subst e
      exact hpc.of_buffers rfl (fun _ => id) (fun _ _ => .inl) rfl
    · rename_i hne
      exact (h.pcs p).mono (hbehind p _ hne) (fun x hx => hx.imp (hitems x).1 .inl)
        (fun _ _ => .inl) (fun _ => .inl)

theorem Inv.setFlusher (h : Inv s) {q : FlusherId} {f : Flusher}
    (hq : .watermark q ∈ s.pendingTraces → f.pc = .awaitingWatermark) (hle : f.before ≤ s.next)
    (hloop : f.flushAllBuffers = false → f.before = 0) (hpc : s.PcOk q f.before f.pc) :
    Inv (s.setFlusher q f) :=
  h.setQueue (fun _ => Iff.rfl) (fun _ _ => id) (fun _ _ _ => id) h.inline hq hle hloop hpc

theorem Inv.setPc (h : Inv s) {q : FlusherId} {pc : FlusherPc}
    (hawait : (s.flusher q).pc ≠ .awaitingWatermark) (hpc : s.PcOk q (s.flusher q).before pc) :
    Inv (s.setPc q pc) :=
  h.setFlusher (fun hw => absurd (h.watermark q hw) hawait) (h.before_le q) (h.loop q) hpc

theorem Inv.dequeue (h : Inv s) (ht : s.dequeue = some t) : Inv t := by
  unfold State.dequeue at ht
  split at ht
  · rename_i x items hidle hq
    cases ht
    have hheld : s.held = none := by rw [held, hidle]
    have hmem : ∀ y, y ∈ items → y ∈ s.pendingTraces := fun y hy => by rw [hq]; exact .tail _ hy
    have hx : .trace x ∈ s.pendingTraces := by rw [hq]; exact .head _
    refine ⟨fun y hy => ?_, fun y hy => ?_, fun hr => ?_, fun p hp => h.watermark p (hmem _ hp),
      h.before_le, h.loop, h.lock, h.clearing, fun p => ?_⟩
    · rcases h.located y hy with hy | hy | hy
      · rw [hq] at hy
        rcases List.mem_cons.1 hy with hy | hy
        · cases hy; exact .inr (.inl rfl)
        · exact .inl hy
      · rw [hheld] at hy; cases hy
      · exact .inr (.inr hy)
    · rcases hy with hy | hy
      · exact h.numbered y (.inl (hmem _ hy))
      · cases hy; exact h.numbered x (.inl hx)
    · have := h.inline hr
      rw [hq] at this; cases this
    · refine (h.pcs p).mono (fun hb => ?_) (fun y hy => ?_) (fun _ _ => .inl) (fun _ => .inl)
      · rw [hq] at hb; exact hb.tail (by simp)
      · rcases hy with hy | hy
        · exact .inl (hmem _ hy)
        · cases hy; exact .inl hx
  · rename_i q items hidle hq
    cases ht
    have hheld : s.held = none := by rw [held, hidle]
    have hawait := h.watermark q (by rw [hq]; exact .head _)
    have hbehind := h.pcs q
    rw [hawait, PcOk, hq] at hbehind
    obtain ⟨hout, hafter⟩ := hbehind.head
    refine h.setQueue (fun x => by simp [hq]) (fun p _ hp => by rw [hq]; exact .tail _ hp)
      (fun p n hne hb => ?_) (fun hr => ?_) (fun hp => absurd hp hout) (h.before_le q) (h.loop q)
      ⟨hafter, fun y (hy : s.held = some y) => by rw [hheld] at hy; cases hy⟩
    · rw [hq] at hb
      exact hb.tail (by simpa using hne.symm)
    · have := h.inline hr
      rw [hq] at this; cases this
  · cases ht

theorem Inv.flushTracesAsync (h : Inv s) {q : FlusherId} (ht : s.flushTracesAsync q = some t) :
    Inv t := by
  unfold State.flushTracesAsync at ht
  split at ht
  · rename_i hpc
    have hq : .watermark q ∉ s.pendingTraces := by
      intro hm
      have := h.watermark q hm
      rw [hpc] at this
      cases this
    split at ht
    · rename_i hrun
      cases ht
      refine h.setQueue (fun x => by simp) (fun p hne hp => by simpa [hne] using hp)
        (fun p n hne hb => hb.append (by simpa using hne.symm) (fun _ e => by cases e))
        (fun hr => by rw [hr] at hrun; cases hrun) (fun _ => rfl) (Nat.le_refl _)
        (fun hf => by cases hf) (behind_new hq _)
    · rename_i hrun
      cases ht
      have hnil : s.pendingTraces = [] := h.inline (by simpa using hrun)
      refine h.setFlusher (fun hm => absurd hm hq) ?_ (fun hf => by cases hf) ⟨?_, ?_⟩
      · cases hh : s.held with
        | none => exact Nat.le_refl _
        | some x => exact Nat.le_of_lt (h.numbered x (.inr hh))
      · intro x hx; rw [hnil] at hx; cases hx
      · intro x hx; rw [hx]; exact Nat.le_refl x
  · cases ht

theorem Inv.flushLoop (h : Inv s) {q : FlusherId} (ht : s.flushLoop q = some t) : Inv t := by
  unfold State.flushLoop at ht
  split at ht
  · rename_i hpc
    cases ht
    refine h.setFlusher (fun hm => ?_) (Nat.zero_le _) (fun _ => rfl)
      ⟨fun _ _ => Nat.zero_le _, fun _ _ => Nat.zero_le _⟩
    have := h.watermark q hm
    rw [hpc] at this
    cases this
  · cases ht

/-! ## The serializer -/

/-- The serializer may put the trace it holds into an unlocked buffer, or drop it. -/
theorem Inv.serialized (h : Inv s) (serializer : Serializer) (active side : Side) (b : SpanBuffer)
    (dropped : List Trace) (hdropped : ∀ x ∈ s.dropped, x ∈ dropped)
    (hheld : ∀ x, held { s with serializer := serializer } = some x → s.held = some x)
    (hlock : b.locked = (s.buffer side).locked) (hkeep : ∀ x ∈ (s.buffer side).traces, x ∈ b.traces)
    (hnew : ∀ x ∈ b.traces, x ∈ (s.buffer side).traces ∨
      s.held = some x ∧ (s.buffer side).locked = none)
    (hput : ∀ x, s.held = some x → held { s with serializer := serializer } = some x ∨
      x ∈ b.traces ∨ x ∈ dropped) :
    Inv { s.setBuffer side b with
      serializer := serializer, activeBuffer := active, dropped := dropped } := by
  obtain ⟨t, htdef⟩ : ∃ t, t = { s.setBuffer side b with
    serializer := serializer, activeBuffer := active, dropped := dropped } := ⟨_, rfl⟩
  rw [← htdef]
  have hbuf : ∀ i, t.buffer i = if i = side then b else s.buffer i := by
    subst htdef; exact fun i => Function.update_apply ..
  have hin : ∀ i, ∀ x ∈ (s.buffer i).traces, x ∈ (t.buffer i).traces := by
    intro i x hx
    rw [hbuf]
    split
    · rename_i e; subst e; exact hkeep x hx
    · exact hx
  have hout : ∀ i, ∀ x ∈ (t.buffer i).traces, x ∈ (s.buffer i).traces ∨
      s.held = some x ∧ (s.buffer i).locked = none := by
    intro i x hx
    rw [hbuf] at hx
    split at hx
    · rename_i e; subst e; exact hnew x hx
    · exact .inl hx
  have hlocked : ∀ i, (t.buffer i).locked = (s.buffer i).locked := by
    intro i
    rw [hbuf]
    split
    · rename_i e; subst e; exact hlock
    · rfl
  have hset : ∀ x, s.Settled x → t.Settled x := by
    subst htdef; exact fun x hx => hx.imp id (hdropped x)
  have hthis : t.held = held { s with serializer := serializer } := by subst htdef; rfl
  have hsame : t.next = s.next ∧ t.pendingTraces = s.pendingTraces ∧ t.running = s.running ∧
      t.flusher = s.flusher ∧ t.flushPc = s.flushPc := by
    subst htdef; exact ⟨rfl, rfl, rfl, rfl, rfl⟩
  obtain ⟨e1, e2, e3, e4, e5⟩ := hsame
  have hd : ∀ x ∈ dropped, t.Settled x := by subst htdef; exact fun x hx => .inr hx
  have hb : ∀ x ∈ b.traces, x ∈ (t.buffer side).traces := by
    intro x hx; rw [hbuf, if_pos rfl]; exact hx
  refine ⟨fun x hx => ?_, fun x hx => ?_, ?_, ?_, ?_, ?_, fun p i => ?_, fun p i hp x hx => ?_,
    fun p => ?_⟩
  · rw [e1] at hx
    rcases h.located x hx with hx | hx | ⟨i, hx⟩ | hx
    · rw [e2]; exact .inl hx
    · rw [hthis]
      rcases hput x hx with hx | hx | hx
      · exact .inr (.inl hx)
      · exact .inr (.inr (.inl ⟨side, hb x hx⟩))
      · exact .inr (.inr (.inr (hd x hx)))
    · exact .inr (.inr (.inl ⟨i, hin i x hx⟩))
    · exact .inr (.inr (.inr (hset x hx)))
  · rw [e1]
    rw [e2, hthis] at hx
    exact h.numbered x (hx.imp id (hheld x))
  · rw [e2, e3]; exact h.inline
  · rw [e2, e4]; exact h.watermark
  · rw [e1, e4]; exact h.before_le
  · rw [e4]; exact h.loop
  · rw [e5, hlocked]; exact h.lock p i
  · rw [e5] at hp
    rcases hout i x hx with hx | ⟨-, hn⟩
    · exact hset x (h.clearing p i hp x hx)
    · rw [h.lock p i (by rw [hp]; exact ⟨by simp, by simp⟩)] at hn
      cases hn
  · rw [e4]
    exact (h.pcs p).of_buffers e2 (by rw [hthis]; exact hheld) (fun i x hx => (hout i x hx).imp id
      And.left) (by rw [e5])

theorem tryWrite_spec {b b' : SpanBuffer} {x : Trace} {outcome : WriteOutcome} {ok : Bool}
    (h : tryWrite b x outcome = some (b', ok)) : b'.locked = b.locked ∧
      (if ok then b.locked = none ∧ b'.traces = b.traces ++ [x] else b'.traces = b.traces) := by
  cases outcome with
  | written =>
    simp only [tryWrite] at h
    split at h <;> cases h
    exact ⟨rfl, by simp_all⟩
  | full =>
    simp only [tryWrite] at h
    split at h <;> cases h
    exact ⟨rfl, rfl⟩
  | busy => cases h; exact ⟨rfl, rfl⟩
  | threw => cases h

/-- The trace is put into a buffer that is not locked. -/
theorem Inv.written (h : Inv s) {side : Side} {b : SpanBuffer} {x : Trace}
    (hheld : s.held = some x) (hlock : b.locked = (s.buffer side).locked)
    (hnone : (s.buffer side).locked = none) (hb : b.traces = (s.buffer side).traces ++ [x]) :
    Inv { s.setBuffer side b with serializer := .idle } := by
  refine h.serialized _ _ _ _ _ (fun _ => id) (fun y hy => by cases hy) hlock (fun y hy => ?_)
    (fun y hy => ?_) (fun y hy => ?_)
  · rw [hb]; exact List.mem_append_left _ hy
  · rw [hb] at hy
    refine (List.mem_append.1 hy).imp id fun hy => ⟨?_, hnone⟩
    rw [hheld, List.mem_singleton.1 hy]
  · rw [hheld] at hy; cases hy
    exact .inr (.inl (by rw [hb]; simp))

theorem Inv.serialize (h : Inv s) {outcome : WriteOutcome} (ho : outcome ≠ .threw)
    (ht : s.serialize outcome = some t) : Inv t := by
  unfold State.serialize at ht
  split at ht
  · exact absurd rfl ho
  · exact absurd rfl ho
  · rename_i x hx _
    obtain ⟨⟨b, ok⟩, hb, ht⟩ := Option.bind_eq_some_iff.1 ht
    cases ht
    obtain ⟨hl, hb⟩ := tryWrite_spec hb
    have hheld : s.held = some x := by rw [held, hx]
    cases ok with
    | true => exact h.written hheld hl hb.1 hb.2
    | false =>
      have hb : b.traces = (s.buffer s.activeBuffer).traces := hb
      refine h.serialized _ _ _ _ _ (fun _ => id) (fun y hy => ?_) hl (fun y hy => by rw [hb]; exact hy)
        (fun y hy => .inl (by rw [← hb]; exact hy)) (fun y hy => .inl ?_)
      · cases hy; exact hheld
      · rw [hheld] at hy; cases hy; rfl
  · rename_i x hx _
    obtain ⟨⟨b, ok⟩, hb, ht⟩ := Option.bind_eq_some_iff.1 ht
    cases ht
    obtain ⟨hl, hb⟩ := tryWrite_spec hb
    have hheld : s.held = some x := by rw [held, hx]
    cases ok with
    | true => exact h.written hheld hl hb.1 hb.2
    | false =>
      have hb : b.traces = (s.buffer s.activeBuffer).traces := hb
      refine h.serialized _ _ _ _ _ (fun _ => List.mem_append_left _) (fun y hy => by cases hy) hl
        (fun y hy => by rw [hb]; exact hy) (fun y hy => .inl (by rw [← hb]; exact hy))
        (fun y hy => .inr (.inr ?_))
      rw [hheld] at hy; cases hy; simp
  · cases ht

@[simp] theorem setBuffer_self (s : State) (side : Side) : s.setBuffer side (s.buffer side) = s := by
  simp [setBuffer]

theorem Inv.swapBuffers (h : Inv s) (ht : s.swapBuffers = some t) : Inv t := by
  unfold State.swapBuffers at ht
  split at ht
  · rename_i x hx
    have hheld : s.held = some x := by rw [held, hx]
    split at ht <;> cases ht
    · have := h.serialized .idle s.activeBuffer .front _ (s.dropped ++ [x]) (fun _ => List.mem_append_left _) (fun y hy => by cases hy)
        rfl (fun _ => id) (fun _ => .inl) (fun y hy => .inr (.inr (by
          rw [hheld] at hy; cases hy; simp)))
      rwa [setBuffer_self] at this
    · have := h.serialized (.rewriting x) s.activeBuffer.other .front _ s.dropped (fun _ => id)
        (fun y hy => by cases hy; exact hheld) rfl (fun _ => id) (fun _ => .inl)
        (fun y hy => .inl (by rw [hheld] at hy; cases hy; rfl))
      rwa [setBuffer_self] at this
  · cases ht

/-! ## The flushes -/

/-- A step of the flush of `side` by `q`: what it takes out of the buffer is settled, and it
completes only with a buffer that is clean for `q`. -/
theorem Inv.flush (h : Inv s) (q : FlusherId) (side : Side) (pc : FlushPc) (b : SpanBuffer)
    (sent dropped : List Trace) (hsent : ∀ x ∈ s.sent, x ∈ sent)
    (hdropped : ∀ x ∈ s.dropped, x ∈ dropped)
    (hsub : ∀ x ∈ b.traces, x ∈ (s.buffer side).traces)
    (hkeep : ∀ x ∈ (s.buffer side).traces, x ∈ b.traces ∨ x ∈ sent ∨ x ∈ dropped)
    (hlock : pc.HasLock → b.locked = some q)
    (hothers : ∀ p, p ≠ q → (s.flushPc p side).HasLock → b.locked = some p)
    (hclear : pc = .clearing → ∀ x ∈ b.traces, x ∈ sent ∨ x ∈ dropped)
    (hdone : pc = .done → ∀ x ∈ b.traces, (s.flusher q).before ≤ x) :
    Inv { (s.setBuffer side b).setFlushPc q side pc with sent := sent, dropped := dropped } := by
  obtain ⟨t, htdef⟩ : ∃ t, t = { (s.setBuffer side b).setFlushPc q side pc with
    sent := sent, dropped := dropped } := ⟨_, rfl⟩
  rw [← htdef]
  have hbuf : ∀ i, t.buffer i = if i = side then b else s.buffer i := by
    subst htdef; exact fun i => Function.update_apply ..
  have hpc : ∀ p i, t.flushPc p i = if p = q ∧ i = side then pc else s.flushPc p i := by
    subst htdef
    intro p i
    show Function.update s.flushPc q (Function.update (s.flushPc q) side pc) p i = _
    by_cases hp : p = q
    · subst hp; simp [Function.update_apply]
    · simp [hp]
  have hset : ∀ x, s.Settled x → t.Settled x := by
    subst htdef; exact fun x hx => hx.imp (hsent x) (hdropped x)
  have hnew : ∀ x, x ∈ sent ∨ x ∈ dropped → t.Settled x := by subst htdef; exact fun x hx => hx
  have hsame : t.next = s.next ∧ t.pendingTraces = s.pendingTraces ∧ t.running = s.running ∧
      t.flusher = s.flusher ∧ t.held = s.held := by
    subst htdef; exact ⟨rfl, rfl, rfl, rfl, rfl⟩
  obtain ⟨e1, e2, e3, e4, e5⟩ := hsame
  have hin : ∀ i, ∀ x ∈ (t.buffer i).traces, x ∈ (s.buffer i).traces := by
    intro i x hx
    rw [hbuf] at hx
    split at hx
    · rename_i e; subst e; exact hsub x hx
    · exact hx
  refine ⟨fun x hx => ?_, ?_, ?_, ?_, ?_, ?_, fun p i h1 => ?_, fun p i hp x hx => ?_,
    fun p => ?_⟩
  · rw [e1] at hx
    rw [e2, e5]
    refine (h.located x hx).imp id fun hx => hx.imp id fun hx => ?_
    rcases hx with ⟨i, hx⟩ | hx
    · by_cases hi : i = side
      · subst hi
        refine (hkeep x hx).imp (fun hx => ⟨i, ?_⟩) (hnew x)
        rw [hbuf, if_pos rfl]; exact hx
      · exact .inl ⟨i, by rw [hbuf, if_neg hi]; exact hx⟩
    · exact .inr (hset x hx)
  · rw [e1, e2, e5]; exact h.numbered
  · rw [e2, e3]; exact h.inline
  · rw [e2, e4]; exact h.watermark
  · rw [e1, e4]; exact h.before_le
  · rw [e4]; exact h.loop
  · rw [hpc] at h1
    rw [hbuf]
    by_cases hi : i = side
    · subst hi
      rw [if_pos rfl]
      by_cases hp : p = q
      · subst hp
        rw [if_pos ⟨rfl, rfl⟩] at h1
        exact hlock h1
      · rw [if_neg (by simp [hp])] at h1
        exact hothers p hp h1
    · rw [if_neg (by simp [hi])] at h1
      rw [if_neg hi]
      exact h.lock p i h1
  · rw [hpc] at hp
    split at hp
    · rename_i hpi
      obtain ⟨rfl, rfl⟩ := hpi
      rw [hbuf, if_pos rfl] at hx
      exact hnew x (hclear hp x hx)
    · exact hset x (h.clearing p i hp x (hin i x hx))
  · rw [e4]
    refine (h.pcs p).mono (by rw [e2]; exact id) (by rw [e2, e5]; exact fun x hx => hx.imp id .inl)
      (fun i x hx => .inl (hin i x hx)) (fun i hd => ?_)
    rw [hpc] at hd
    split at hd
    · rename_i hpi
      obtain ⟨rfl, rfl⟩ := hpi
      refine .inr fun x hx => ?_
      rw [hbuf, if_pos rfl] at hx
      exact hdone hd x hx
    · exact .inl hd

theorem Inv.send (h : Inv s) {q : FlusherId} {side : Side} (ht : s.send q side = some t) :
    Inv t := by
  unfold State.send at ht
  split at ht
  · rename_i hq
    cases ht
    have hl := h.lock q side (by rw [hq]; exact ⟨by simp, by simp⟩)
    have := h.flush q side (if (s.buffer side).traces = [] then .clearing else .sending) _ _ _
      (fun _ => id) (fun _ => id) (fun _ => id) (fun _ => .inl) (fun _ => hl)
      (fun p _ hp => h.lock p _ hp) (fun hc x hx => ?_) (fun hd => ?_)
    · rwa [setBuffer_self] at this
    · split at hc
      · rename_i hnil; rw [hnil] at hx; cases hx
      · cases hc
    · split at hd <;> cases hd
  · cases ht

theorem Inv.finishSend (h : Inv s) {q : FlusherId} {side : Side} {outcome : SendOutcome}
    (ht : s.finishSend q side outcome = some t) : Inv t := by
  unfold State.finishSend at ht
  split at ht
  · rename_i hq
    have hl := h.lock q side (by rw [hq]; exact ⟨by simp, by simp⟩)
    -- in every outcome the traces of the buffer are settled
    have hfinish : ∀ sent dropped, (∀ x ∈ s.sent, x ∈ sent) → (∀ x ∈ s.dropped, x ∈ dropped) →
        (∀ x ∈ (s.buffer side).traces, x ∈ sent ∨ x ∈ dropped) →
        Inv { s.setFlushPc q side .clearing with sent := sent, dropped := dropped } := by
      intro sent dropped h1 h2 h3
      have := h.flush q side .clearing (s.buffer side) sent dropped h1 h2 (fun _ => id)
        (fun _ => .inl) (fun _ => hl) (fun p _ hp => h.lock p _ hp) (fun _ => h3)
        (fun hd => by cases hd)
      rwa [setBuffer_self] at this
    cases outcome with
    | success =>
      cases ht
      exact hfinish _ _ (fun _ => List.mem_append_left _) (fun _ => id)
        fun x hx => .inl (List.mem_append_right _ hx)
    | failure =>
      cases ht
      exact hfinish _ _ (fun _ => List.mem_append_left _) (fun _ => List.mem_append_left _)
        fun x hx => .inl (List.mem_append_right _ hx)
    | threw =>
      cases ht
      exact hfinish _ _ (fun _ => id) (fun _ => List.mem_append_left _)
        fun x hx => .inr (List.mem_append_right _ hx)
  · cases ht

theorem Inv.clear (h : Inv s) {q : FlusherId} {side : Side} (ht : s.clear q side = some t) :
    Inv t := by
  unfold State.clear at ht
  split at ht
  · rename_i hq
    cases ht
    have hl := h.lock q side (by rw [hq]; exact ⟨by simp, by simp⟩)
    refine h.flush q side .done .empty _ _ (fun _ => id) (fun _ => id) (fun x hx => by cases hx)
      (fun x hx => .inr (h.clearing q side hq x hx)) (fun hk => absurd rfl hk.2) (fun p hp hk => ?_)
      (fun hc => by cases hc) (fun _ x hx => by cases hx)
    -- no other flush has the lock
    have := h.lock p _ hk
    rw [hl] at this
    exact absurd (Option.some.inj this).symm hp
  · cases ht

/-- A flusher finds the buffer it is about to flush unlocked, or clean of its traces. -/
def FindsClean (s : State) (p : FlusherId) : Prop :=
  ∀ side main, (s.flusher p).pc = .flushing side main → (s.buffer side).locked ≠ none →
    s.Clean (s.flusher p).before side

theorem Inv.internalBufferFlush (h : Inv s) {q : FlusherId} {side : Side}
    (hclean : (s.buffer side).locked ≠ none → s.Clean (s.flusher q).before side) :
    Inv (s.internalBufferFlush q side) := by
  unfold State.internalBufferFlush
  split
  · rename_i p hl
    have := h.flush q side .done _ _ _ (fun _ => id) (fun _ => id) (fun _ => id) (fun _ => .inl)
      (fun hk => absurd rfl hk.2) (fun p _ hp => h.lock p _ hp) (fun hc => by cases hc)
      (fun _ => hclean (by simp [hl]))
    rwa [setBuffer_self] at this
  · rename_i hl
    refine h.flush q side .locked _ _ _ (fun _ => id) (fun _ => id) (fun _ => id) (fun _ => .inl)
      (fun _ => rfl) (fun p _ hk => ?_) (fun hc => by cases hc) (fun hd => by cases hd)
    have := h.lock p _ hk
    rw [hl] at this
    cases this

/-- Trying the lock moves no trace, and fails only on a locked buffer. -/
theorem internalBufferFlush_spec (s : State) (q : FlusherId) (side : Side) :
    (∀ i, ((s.internalBufferFlush q side).buffer i).traces = (s.buffer i).traces) ∧
      ((s.internalBufferFlush q side).flushPc q side = .done → (s.buffer side).locked ≠ none) := by
  unfold State.internalBufferFlush
  split
  · rename_i p hl
    exact ⟨fun _ => rfl, fun _ => by simp [hl]⟩
  · refine ⟨fun i => ?_, fun hd => ?_⟩
    · show ((Function.update s.buffer side _) i).traces = _
      rw [Function.update_apply]
      split
      · rename_i e; subst e; rfl
      · rfl
    · simp [setFlushPc] at hd

theorem internalBufferFlush_same (s : State) (q : FlusherId) (side : Side) :
    (s.internalBufferFlush q side).pendingTraces = s.pendingTraces ∧
      (s.internalBufferFlush q side).held = s.held ∧
      (s.internalBufferFlush q side).flusher = s.flusher := by
  unfold State.internalBufferFlush
  split <;> exact ⟨rfl, rfl, rfl⟩

theorem Inv.advance (h : Inv s) {q : FlusherId} (hclean : s.FindsClean q)
    (ht : s.advance q = some t) : Inv t := by
  have hq := h.pcs q
  unfold State.advance at ht
  split at ht <;> rename_i hpc <;> rw [hpc] at hq
  · cases ht
  · cases ht
  · cases ht
  · cases ht
    exact h.setPc (by simp [hpc]) hq
  · split at ht <;> cases ht
    · exact h.setPc (by simp [hpc]) ⟨hq, fun hm => by cases hm⟩
    · -- only the flush loop skips the fallback buffer, and it waits for no trace
      rename_i hskip
      have hall : (s.flusher q).flushAllBuffers = false := by
        simp only [Bool.or_eq_true, not_or, Bool.not_eq_true] at hskip
        exact hskip.2
      refine h.setPc (by simp [hpc]) ⟨hq, fun _ x _ => ?_⟩
      rw [h.loop q hall]
      exact Nat.zero_le x
  · cases ht
    exact h.setPc (by simp [hpc]) hq
  · split at ht <;> cases ht
    exact h.setPc (by simp [hpc]) hq
  · rename_i side main
    cases ht
    obtain ⟨hb, hd⟩ := internalBufferFlush_spec s q side
    obtain ⟨e1, e2, e3⟩ := internalBufferFlush_same s q side
    have hpassed : (s.internalBufferFlush q side).Passed (s.flusher q).before :=
      hq.1.mono (by rw [e1, e2]; exact fun x hx => hx.imp id .inl)
    have hkept : ∀ i, s.Clean (s.flusher q).before i →
        (s.internalBufferFlush q side).Clean (s.flusher q).before i := by
      intro i hc x hx
      rw [hb] at hx
      exact hc x hx
    refine (h.internalBufferFlush (hclean side main hpc)).setPc (by rw [e3]; simp [hpc]) ?_
    rw [e3]
    exact ⟨hpassed, fun hm => hkept _ (hq.2 hm), fun hd' => hkept _ (hclean side main hpc (hd hd'))⟩
  · split at ht <;> cases ht
    rename_i side main hlocked
    have hu : Inv { s with flushTask := Function.update s.flushTask side (some q) } :=
      ⟨h.located, h.numbered, h.inline, h.watermark, h.before_le, h.loop, h.lock, h.clearing,
        fun p => (h.pcs p).of_buffers rfl (fun _ => id) (fun _ _ => .inl) rfl⟩
    exact hu.setPc (by simp [hpc]) ⟨hq.1.mono fun x hx => hx.imp id .inl, hq.2.1, hq.2.2⟩
  · rename_i side main
    split at ht <;> cases ht
    rename_i hdone
    obtain ⟨hpassed, hother, hthis⟩ := hq
    have hside := hthis (by simpa [taskDone] using hdone)
    cases main with
    | true =>
      refine h.setPc (by simp [hpc]) ⟨hpassed, fun i => ?_⟩
      have hother := hother rfl
      cases side <;> cases i <;> assumption
    | false =>
      refine h.setPc (by simp [hpc]) ⟨hpassed, fun _ => ?_⟩
      cases side <;> exact hside

/-! ## The barrier -/

/-- No serialization throws, and no flusher finds the buffer it is about to flush locked
while it holds a trace that was enqueued before the flusher's `FlushTracesAsync`. -/
def Barrier (s : State) : Event → Prop
  | .serialize outcome => outcome ≠ .threw
  | .advance p => s.FindsClean p
  | _ => True

theorem Inv.step (h : Inv s) {e : Event} (hc : Barrier s e) (ht : s.step e = some t) : Inv t := by
  cases e with
  | writeTrace => exact h.writeTrace ht
  | dequeue => exact h.dequeue ht
  | serialize outcome => exact h.serialize hc ht
  | swapBuffers => exact h.swapBuffers ht
  | flushTracesAsync p => exact h.flushTracesAsync ht
  | flushLoop p => exact h.flushLoop ht
  | advance p => exact h.advance hc ht
  | send p side => exact h.send ht
  | finishSend p side outcome => exact h.finishSend ht
  | clear p side => exact h.clear ht

/-- Every trace enqueued before a completed `FlushTracesAsync` is sent or dropped. -/
def FlushesComplete (s : State) : Prop :=
  ∀ p, (s.flusher p).pc = .completed → ∀ x < (s.flusher p).before, s.Settled x

theorem Inv.flushesComplete (h : Inv s) : s.FlushesComplete := by
  intro p hpc x hx
  have hp := h.pcs p
  rw [hpc] at hp
  obtain ⟨hpassed, hclean⟩ := hp
  -- the trace has left the queue, the serializer and both buffers
  rcases h.located x (Nat.lt_of_lt_of_le hx (h.before_le p)) with hx' | hx' | ⟨side, hx'⟩ | hx'
  · exact absurd (hpassed.pending x hx') (Nat.not_le.2 hx)
  · exact absurd (hpassed.held x hx') (Nat.not_le.2 hx)
  · exact absurd (hclean side x hx') (Nat.not_le.2 hx)
  · exact hx'

/-- `FlushTracesAsync` is a barrier in every interleaving whose steps meet `Barrier`. -/
theorem flush_barrier (running : Bool) (events : List Event)
    (h : Lib.EachStep (Lib.stepOf State.step) Barrier (.init running) events) :
    Lib.EachState (Lib.stepOf State.step) FlushesComplete (.init running) events :=
  Lib.EachState.of_invariant (fun _ _ _ hs hc ht => hs.step hc ht) (fun _ hs => hs.flushesComplete) h
    (inv_init running)

/-- One trace, and one call that has both buffers to itself. -/
def quietFlush : List Event :=
  [.writeTrace, .flushTracesAsync 0, .dequeue, .serialize .written, .dequeue,
    .advance 0, .advance 0, .advance 0, .advance 0, .advance 0, .send 0 .back, .clear 0 .back,
    .advance 0, .advance 0, .advance 0, .advance 0, .advance 0, .send 0 .front,
    .finishSend 0 .front .success, .clear 0 .front, .advance 0, .advance 0]

theorem flush_barrier_quiet :
    Lib.EachState (Lib.stepOf State.step) FlushesComplete (.init true) quietFlush := by
  refine flush_barrier true quietFlush ?_
  unfold quietFlush
  repeat
    refine Lib.eachStep_cons.2 ⟨?_, fun t ht => ?_⟩
    · first | trivial | exact nofun
    cases ht
  exact Lib.eachStep_nil

/-- The flush loop has locked the front buffer and not stored its task yet; a
`FlushTracesAsync` for the trace in it finds the lock taken and completes. -/
theorem flush_returns_early :
    ¬∀ (running : Bool) (events : List Event),
      Lib.EachState (Lib.stepOf State.step) FlushesComplete (.init running) events := by
  intro h
  have h := h true
    [.writeTrace, .dequeue, .serialize .written,
      .flushLoop 0, .advance 0, .advance 0, .advance 0, .advance 0, .advance 0, .send 0 .front,
      .flushTracesAsync 1, .dequeue,
      .advance 1, .advance 1, .advance 1, .advance 1, .advance 1, .send 1 .back, .clear 1 .back,
      .advance 1, .advance 1, .advance 1, .advance 1, .advance 1, .advance 1, .advance 1]
    _ [] _ (List.append_nil _).symm
    (.cons rfl <| .cons rfl <| .cons rfl <| .cons rfl <| .cons rfl <| .cons rfl <| .cons rfl <|
      .cons rfl <| .cons rfl <| .cons rfl <| .cons rfl <| .cons rfl <| .cons rfl <| .cons rfl <|
      .cons rfl <| .cons rfl <| .cons rfl <| .cons rfl <| .cons rfl <| .cons rfl <| .cons rfl <|
      .cons rfl <| .cons rfl <| .cons rfl <| .cons rfl <| .cons rfl <| .nil _)
  rcases h 1 rfl 0 (by decide) with h | h <;> cases h

end State

end DdTrace.Agent
