import DdTrace.Collections.Reservations

/-!
# GrowingCollection: a call that runs alone

`Add` reads the head once, in front of its loop. A call whose head has been replaced cannot
replace the new one, and where the others have filled that one too, no step of the call helps.
-/

namespace DdTrace.Collections

open Lib Lib.Tickets

/-- The local variable `currHead`, where the call may still use it. -/
def Pc.currHead : Pc → Option ℕ
  | .increment _ currHead | .decrement _ currHead | .newSegment currHead
  | .compareExchangeResult currHead _ | .compareExchange currHead _ => some currHead
  | _ => none

namespace GrowingCollection

variable {α : Type} [Inhabited α] {s t : GrowingCollection α} {below : List ℕ}
  {size i seg index currHead newHead : ℕ} {c : AddCall α} {pc : Pc}

/-- After some number of its steps, with none of others, the call has returned. -/
def ReturnsAlone (s : GrowingCollection α) (i : ℕ) : Prop :=
  ∃ n t, Run (stepOf step) s (List.replicate n (.step i)) t ∧
    ∃ c ∈ t.calls[i]?, ∃ seg index, c.pc = .returned seg index

/-- The head is another one now, and it is full. -/
def Overtaken (s : GrowingCollection α) (currHead : ℕ) : Prop :=
  currHead ≠ s.dataHead ∧ (s.segments s.dataHead).segmentSize ≤ s.localCount s.dataHead

omit [Inhabited α] in
theorem getElem?_goto (hc : s.calls[i]? = some c) :
    (s.goto i c pc).calls[i]? = some { c with pc := pc } := by
  obtain ⟨hlt, -⟩ := List.getElem?_eq_some_iff.1 hc
  exact List.getElem?_set_self hlt

theorem step_step (hc : s.calls[i]? = some c) : s.step (.step i) = s.stepCall i c := by
  show s.calls[i]?.bind (s.stepCall i) = _
  rw [hc]
  rfl

theorem ReturnsAlone.step (h : ReturnsAlone t i) (hc : s.calls[i]? = some c)
    (hstep : s.stepCall i c = some t) : ReturnsAlone s i := by
  obtain ⟨n, u, hrun, hreturned⟩ := h
  have hfirst : s.step (.step i) = some t := (step_step hc).trans hstep
  exact ⟨n + 1, u, .cons hfirst hrun, hreturned⟩

/-! ### From each place to the return -/

theorem returnsAlone_store (hc : s.calls[i]? = some c) (hpc : c.pc = .store seg index) :
    ReturnsAlone s i := by
  have hstep : s.stepCall i c = some ((s.setData seg ((s.segments seg).data.set index c.item)).goto
      i c (.returned seg index)) := by
    unfold GrowingCollection.stepCall
    rw [hpc]
  refine ReturnsAlone.step ⟨0, _, .nil _, ?_⟩ hc hstep
  exact ⟨_, getElem?_goto hc, seg, index, rfl⟩

theorem Inv.returnsAlone_room (h : Inv size below s) (hc : s.calls[i]? = some c)
    (hpc : c.pc = .increment seg currHead) (hlt : s.localCount seg < size) :
    ReturnsAlone s i := by
  have hstep : s.stepCall i c = some ((s.setLocalCount seg (s.localCount seg + 1)).goto i c
      (.store seg (s.localCount seg))) := by
    unfold GrowingCollection.stepCall
    rw [hpc]
    dsimp only
    rw [h.shape.segmentSize]
    exact if_neg (Nat.not_le_of_lt hlt)
  refine ReturnsAlone.step ?_ hc hstep
  exact returnsAlone_store (getElem?_goto hc) rfl

theorem Inv.returnsAlone_compareExchange (h : Inv size below s) (hc : s.calls[i]? = some c)
    (hpc : c.pc = .compareExchange currHead newHead) (hlt : s.localCount s.dataHead < size) :
    ReturnsAlone s i := by
  have hknows := h.knows c (List.mem_of_getElem? hc)
  rw [hpc] at hknows
  have hhead : s.dataHead ≠ currHead := fun heq =>
    (List.nodup_cons.1 h.shape.nodup).1 (heq ▸ hknows)
  have hstep : s.stepCall i c = some (s.goto i c (.increment s.dataHead currHead)) := by
    unfold GrowingCollection.stepCall
    rw [hpc]
    dsimp only
    rw [exchange_of_ne hhead]
  have hinv : Inv size below (s.goto i c (.increment s.dataHead currHead)) :=
    h.moveOn hc (by rw [hpc]; rfl)
      ⟨List.mem_cons_self, List.mem_cons_of_mem _ hknows, .inr hknows⟩ rfl
  exact (hinv.returnsAlone_room (getElem?_goto hc) rfl hlt).step hc hstep

/-- The first compare-exchange puts an empty segment there, or the head has room. -/
theorem Inv.returnsAlone_compareExchangeResult (h : Inv size below s) (hpos : 0 < size)
    (hc : s.calls[i]? = some c) (hpc : c.pc = .compareExchangeResult currHead newHead)
    (hhead : currHead = s.dataHead ∨ s.localCount s.dataHead < size) : ReturnsAlone s i := by
  have hknows := h.knows c (List.mem_of_getElem? hc)
  rw [hpc] at hknows
  have hstep : s.stepCall i c = some ((s.exchange newHead currHead).goto i c
      (.compareExchange currHead newHead)) := by
    unfold GrowingCollection.stepCall
    rw [hpc]
  by_cases heq : currHead = s.dataHead
  · subst heq
    have hinv := h.exchange hc hpc
    refine ReturnsAlone.step (hinv.returnsAlone_compareExchange (getElem?_goto hc) rfl ?_) hc hstep
    have hnew : (s.exchange newHead s.dataHead).dataHead = newHead := if_pos rfl
    show s.localCount (s.exchange newHead s.dataHead).dataHead < size
    rw [hnew, h.shape.empty newHead hknows.2.2.1]
    exact hpos
  · rw [exchange_of_ne (Ne.symm heq)] at hstep
    have hbelow : currHead ∈ below := (List.mem_cons.1 hknows.1).resolve_left heq
    have hinv : Inv size below (s.goto i c (.compareExchange currHead newHead)) :=
      h.moveOn hc (by rw [hpc]; rfl) hbelow rfl
    have hlt := hhead.resolve_left heq
    exact (hinv.returnsAlone_compareExchange (getElem?_goto hc) rfl hlt).step hc hstep

theorem Inv.returnsAlone_newSegment (h : Inv size below s) (hpos : 0 < size)
    (hc : s.calls[i]? = some c) (hpc : c.pc = .newSegment currHead)
    (hhead : currHead = s.dataHead ∨ s.localCount s.dataHead < size) : ReturnsAlone s i := by
  have hinv := h.newSegment hc hpc
  have hstep : s.stepCall i c = some ((s.allocate (.above currHead (s.segments currHead))).goto i c
      (.compareExchangeResult currHead s.allocated)) := by
    unfold GrowingCollection.stepCall
    rw [hpc]
  refine ReturnsAlone.step
    (hinv.returnsAlone_compareExchangeResult hpos (getElem?_goto hc) rfl ?_) hc hstep
  refine hhead.imp id fun hlt => ?_
  have hne : s.dataHead ≠ s.allocated :=
    Nat.ne_of_lt (h.shape.allocated _ List.mem_cons_self)
  have hsame := segments_allocate s (.above currHead (s.segments currHead)) hne
  show ((s.allocate (.above currHead (s.segments currHead))).segments s.dataHead).localCount < size
  rw [hsame]
  exact hlt

theorem Inv.returnsAlone_decrement (h : Inv size below s) (hpos : 0 < size)
    (hc : s.calls[i]? = some c) (hpc : c.pc = .decrement seg currHead)
    (hhead : currHead = s.dataHead ∨ s.localCount s.dataHead < size) : ReturnsAlone s i := by
  have hinv := h.decrement hc hpc
  have hstep : s.stepCall i c = some ((s.setLocalCount seg (s.localCount seg - 1)).goto i c
      (.newSegment currHead)) := by
    unfold GrowingCollection.stepCall
    rw [hpc]
    rfl
  refine ReturnsAlone.step (hinv.returnsAlone_newSegment hpos (getElem?_goto hc) rfl ?_) hc hstep
  refine hhead.imp id fun hlt => ?_
  show (s.setLocalCount seg (s.localCount seg - 1)).localCount s.dataHead < size
  rw [localCount_setLocalCount]
  obtain heq | hne := eq_or_ne s.dataHead seg
  · rw [heq, Function.update_self]
    rw [heq] at hlt
    omega
  · rwa [Function.update_of_ne hne]

theorem Inv.returnsAlone_increment (h : Inv size below s) (hpos : 0 < size)
    (hc : s.calls[i]? = some c) (hpc : c.pc = .increment seg currHead)
    (hhead : currHead = s.dataHead ∨ s.localCount s.dataHead < size) : ReturnsAlone s i := by
  by_cases hfull : size ≤ s.localCount seg
  · have hinv := h.incrementFull hc hpc hfull
    have hstep : s.stepCall i c = some ((s.setLocalCount seg (s.localCount seg + 1)).goto i c
        (.decrement seg currHead)) := by
      unfold GrowingCollection.stepCall
      rw [hpc]
      dsimp only
      rw [h.shape.segmentSize]
      exact if_pos hfull
    refine ReturnsAlone.step (hinv.returnsAlone_decrement hpos (getElem?_goto hc) rfl ?_) hc hstep
    refine hhead.imp id fun hlt => ?_
    have hne : s.dataHead ≠ seg := by
      rintro rfl
      exact Nat.not_le_of_lt hlt hfull
    show (s.setLocalCount seg (s.localCount seg + 1)).localCount s.dataHead < size
    rwa [localCount_setLocalCount, Function.update_of_ne hne]
  · exact h.returnsAlone_room hc hpc (Nat.lt_of_not_le hfull)

theorem Inv.returnsAlone_readHead (h : Inv size below s) (hpos : 0 < size)
    (hc : s.calls[i]? = some c) (hpc : c.pc = .readHead) : ReturnsAlone s i := by
  have hinv : Inv size below (s.goto i c (.increment s.dataHead s.dataHead)) :=
    h.moveOn hc (by rw [hpc]; rfl) ⟨List.mem_cons_self, List.mem_cons_self, .inl rfl⟩ rfl
  have hstep : s.stepCall i c = some (s.goto i c (.increment s.dataHead s.dataHead)) := by
    unfold GrowingCollection.stepCall
    rw [hpc]
  exact (hinv.returnsAlone_increment hpos (getElem?_goto hc) rfl (.inl rfl)).step hc hstep

theorem Inv.returnsAlone (h : Inv size below s) (hpos : 0 < size) (hc : s.calls[i]? = some c)
    (hnot : ∀ currHead, c.pc.currHead = some currHead → ¬ s.Overtaken currHead) :
    ReturnsAlone s i := by
  have hroom : ∀ currHead, c.pc.currHead = some currHead →
      currHead = s.dataHead ∨ s.localCount s.dataHead < size := by
    intro currHead hcurr
    have hneither := hnot currHead hcurr
    unfold Overtaken at hneither
    rw [h.shape.segmentSize] at hneither
    by_cases heq : currHead = s.dataHead
    · exact .inl heq
    · exact .inr (Nat.lt_of_not_le fun hle => hneither ⟨heq, hle⟩)
  cases hpc : c.pc with
  | readHead => exact h.returnsAlone_readHead hpos hc hpc
  | increment seg currHead =>
    exact h.returnsAlone_increment hpos hc hpc (hroom _ (by rw [hpc]; rfl))
  | store seg index => exact returnsAlone_store hc hpc
  | decrement seg currHead =>
    exact h.returnsAlone_decrement hpos hc hpc (hroom _ (by rw [hpc]; rfl))
  | newSegment currHead =>
    exact h.returnsAlone_newSegment hpos hc hpc (hroom _ (by rw [hpc]; rfl))
  | compareExchangeResult currHead newHead =>
    exact h.returnsAlone_compareExchangeResult hpos hc hpc (hroom _ (by rw [hpc]; rfl))
  | compareExchange currHead newHead =>
    have hknows := h.knows c (List.mem_of_getElem? hc)
    rw [hpc] at hknows
    have hne : currHead ≠ s.dataHead := by
      rintro rfl
      exact (List.nodup_cons.1 h.shape.nodup).1 hknows
    have hlt := (hroom currHead (by rw [hpc]; rfl)).resolve_left hne
    exact h.returnsAlone_compareExchange hc hpc hlt
  | returned seg index => exact ⟨0, s, .nil s, c, hc, seg, index, hpc⟩

/-! ### Overtaken calls -/

/-- The call goes round its loop. -/
def Stuck (size i : ℕ) (s : GrowingCollection α) : Prop :=
  ∃ below c currHead, Inv size below s ∧ s.calls[i]? = some c ∧
    c.pc.currHead = some currHead ∧ s.Overtaken currHead

/-- An overtaken call stays in the loop and changes neither the head nor the head's array. -/
theorem Inv.stepCall_overtaken (h : Inv size below s) (hc : s.calls[i]? = some c)
    (hcurr : c.pc.currHead = some currHead) (hover : s.Overtaken currHead)
    (hstep : s.stepCall i c = some t) :
    t.dataHead = s.dataHead ∧
      ∃ d, t.calls[i]? = some d ∧ d.pc.currHead = some currHead := by
  obtain ⟨hne, hfull⟩ := hover
  rw [h.shape.segmentSize] at hfull
  have hknows := h.knows c (List.mem_of_getElem? hc)
  unfold GrowingCollection.stepCall at hstep
  cases hpc : c.pc with
  | increment seg currHead' =>
    rw [hpc] at hstep hknows hcurr
    -- all segments are full
    have hseg : size ≤ (s.segments seg).localCount := by
      obtain rfl | hbelow := List.mem_cons.1 hknows.1
      · exact hfull
      · exact h.shape.full seg hbelow
    dsimp only at hstep
    rw [h.shape.segmentSize, if_pos hseg] at hstep
    obtain rfl := Option.some.inj hstep
    exact ⟨rfl, _, getElem?_goto hc, hcurr⟩
  | decrement seg currHead' =>
    rw [hpc] at hstep hcurr
    obtain rfl := Option.some.inj hstep
    exact ⟨rfl, _, getElem?_goto hc, hcurr⟩
  | newSegment currHead' =>
    rw [hpc] at hstep hcurr
    obtain rfl := Option.some.inj hstep
    exact ⟨rfl, _, getElem?_goto hc, hcurr⟩
  | compareExchangeResult currHead' newHead =>
    rw [hpc] at hstep hcurr
    obtain rfl := Option.some.inj hcurr
    obtain rfl := Option.some.inj hstep
    rw [exchange_of_ne hne.symm]
    exact ⟨rfl, _, getElem?_goto hc, rfl⟩
  | compareExchange currHead' newHead =>
    rw [hpc] at hstep hcurr
    obtain rfl := Option.some.inj hcurr
    obtain rfl := Option.some.inj hstep
    rw [exchange_of_ne hne.symm]
    exact ⟨rfl, _, getElem?_goto hc, rfl⟩
  | _ =>
    rw [hpc] at hcurr
    cases hcurr

theorem Stuck.step (h : Stuck size i s) (hstep : s.step (.step i) = some t) :
    Stuck size i t := by
  obtain ⟨below, c, currHead, hinv, hc, hcurr, hover⟩ := h
  obtain ⟨below', -, hinv'⟩ := hinv.step hstep
  have hcall : s.stepCall i c = some t := (step_step hc).symm.trans hstep
  obtain ⟨hhead, d, hd, hcurr'⟩ := hinv.stepCall_overtaken hc hcurr hover hcall
  obtain ⟨hne, hfull⟩ := hover
  rw [hinv.shape.segmentSize] at hfull
  have hfull' := hinv.full_step hinv' hstep hfull
  refine ⟨below', d, currHead, hinv', hd, hcurr', ?_, ?_⟩
  · rwa [hhead]
  · rwa [hhead, hinv'.shape.segmentSize]

theorem Stuck.not_returnsAlone (h : Stuck size i s) : ¬ ReturnsAlone s i := by
  rintro ⟨n, t, hrun, d, hd, seg, index, hreturned⟩
  suffices hstuck : Stuck size i t by
    obtain ⟨-, c, currHead, -, hc, hcurr, -⟩ := hstuck
    obtain rfl := Option.some.inj (hc.symm.trans hd)
    rw [hreturned] at hcurr
    cases hcurr
  clear hd hreturned
  induction n generalizing s with
  | zero => exact run_nil_iff.1 hrun ▸ h
  | succ n ih =>
    obtain ⟨u, hstep, hrun⟩ := run_cons_iff.1 hrun
    exact ih (h.step hstep) hrun

/-- In every state of every run: a call that runs alone from there on returns exactly when it has
not been overtaken. -/
theorem returnsAlone_iff {segmentSize : Int32} {s₀ : GrowingCollection α}
    {ls : List (Label α)} (h0 : new segmentSize = some s₀)
    (hrun : Run (stepOf step) s₀ ls s) (hc : s.calls[i]? = some c) :
    ReturnsAlone s i ↔ ∀ currHead, c.pc.currHead = some currHead → ¬ s.Overtaken currHead := by
  obtain ⟨below, hinv⟩ := inv_of_run h0 hrun
  have hpos := (Inv.new h0).2
  constructor
  · intro hreturns currHead hcurr hover
    have hstuck : Stuck segmentSize.toNatClampNeg i s :=
      ⟨below, c, currHead, hinv, hc, hcurr, hover⟩
    exact hstuck.not_returnsAlone hreturns
  · exact hinv.returnsAlone hpos hc

/-- Segments of one item: the second call replaces the full head, and the third call fills the
segment that it put there before it gets to use it. -/
theorem overtaken_race : ∃ (s₀ : GrowingCollection ℕ) (ls : List (Label ℕ))
    (s : GrowingCollection ℕ) (c : AddCall ℕ), new (1 : Int32) = some s₀ ∧
      Run (stepOf step) s₀ ls s ∧ s.calls[1]? = some c ∧ c.pc.currHead = some 0 ∧
      s.Overtaken 0 := by
  refine ⟨_, [.call 0, .call 1, .call 2, .step 0, .step 0, .step 0, .step 1, .step 1, .step 1,
    .step 1, .step 1, .step 2, .step 2, .step 2], _, _, rfl, run_of_foldlM rfl, rfl, rfl, ?_⟩
  exact ⟨Nat.zero_ne_one, Nat.le_refl 1⟩

theorem returnsAlone_iff_race : ∃ (s : GrowingCollection ℕ) (c : AddCall ℕ),
    s.calls[1]? = some c ∧ s.Overtaken 0 ∧
      (ReturnsAlone s 1 ↔ ∀ currHead, c.pc.currHead = some currHead → ¬ s.Overtaken currHead) := by
  obtain ⟨s₀, ls, s, c, h0, hrun, hc, -, hover⟩ := overtaken_race
  exact ⟨s, c, hc, hover, returnsAlone_iff h0 hrun hc⟩

theorem add_not_obstructionFree : ¬ ∀ (segmentSize : Int32) (s₀ : GrowingCollection ℕ)
    (ls : List (Label ℕ)) (s : GrowingCollection ℕ) (i : ℕ) (c : AddCall ℕ),
    new segmentSize = some s₀ → Run (stepOf step) s₀ ls s → s.calls[i]? = some c →
      ReturnsAlone s i := by
  intro hclaim
  obtain ⟨s₀, ls, s, c, h0, hrun, hc, hcurr, hover⟩ := overtaken_race
  obtain ⟨below, hinv⟩ := inv_of_run h0 hrun
  have hstuck : Stuck (1 : Int32).toNatClampNeg 1 s := ⟨below, c, 0, hinv, hc, hcurr, hover⟩
  exact hstuck.not_returnsAlone (hclaim 1 s₀ ls s 1 c h0 hrun hc)

end GrowingCollection

end DdTrace.Collections
