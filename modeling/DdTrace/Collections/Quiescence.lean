import DdTrace.Collections.Enumeration
import DdTrace.Collections.Progress

/-!
# GrowingCollection: when all calls have returned

Every call has its own slot then, and the slots are those that the head and the full segments
below it have. An enumerator that runs alone goes through all of them. `Count` is a 32-bit
number.
-/

namespace DdTrace.Collections.GrowingCollection

open Lib Lib.Tickets

variable {α : Type} {s t : GrowingCollection α} {e e' : Enumerator α} {below : List ℕ}
  {size bound n i : ℕ} {found : List (α × ℕ × ℕ)} {visited : List (ℕ × ℕ)} {rest : List ℕ}

def Quiescent (s : GrowingCollection α) : Prop :=
  ∀ c ∈ s.calls, ∃ seg index, c.pc = .returned seg index

/-! ### Count -/

theorem Quiescent.length_slots (h : Quiescent s) : (slots s.holders).length = s.calls.length := by
  have hall : ∀ d ∈ s.holders, (d.2.slot).isSome := by
    intro d hd
    obtain ⟨c, hc, rfl⟩ := List.mem_map.1 hd
    obtain ⟨seg, index, hpc⟩ := h c hc
    unfold AddCall.holder
    rw [hpc]
    rfl
  rw [Tickets.length_slots hall]
  exact List.length_map _

/-- The slots that have been given are those of an enumeration from the head. -/
theorem Inv.slots_perm (h : Inv size below s) :
    (slots s.holders).Perm
      (slotsDown size s.dataHead (s.segments s.dataHead).localCountOf below) := by
  refine (List.perm_ext_iff_of_nodup h.tickets.nodup (nodup_slotsDown h.shape.nodup)).2 ?_
  rintro ⟨k, i⟩
  rw [h.tickets.mem_slots, mem_slotsDown, h.localCountOf]
  constructor
  · intro hi
    have hlinked : k ∈ s.linked below := by
      by_contra hnot
      have hzero := h.shape.empty k hnot
      omega
    obtain rfl | hk := List.mem_cons.1 hlinked
    · exact .inl ⟨rfl, hi⟩
    · exact .inr ⟨hk, by omega⟩
  · rintro (⟨rfl, hi⟩ | ⟨hk, hi⟩)
    · exact hi
    · have hfull := h.shape.full k hk
      omega

theorem Inv.count (h : Inv size below s) (hquiet : Quiescent s) :
    s.count = int32 (s.calls.length : ℕ) := by
  have hlength := h.slots_perm.length_eq
  rw [hquiet.length_slots, length_slotsDown] at hlength
  show int32 ((s.segments s.dataHead).localCountOf +
    (s.segments s.dataHead).nextSegmentGlobalCount) = _
  have hbelow := h.shape.links.count
  rw [hbelow, int32_add_int32, hlength]
  rfl

/-! ### Enumeration -/

variable [Inhabited α]

def Finishes (s : GrowingCollection α) (e : Enumerator α) : Prop :=
  ∃ n e', Run (stepOf enumerationStep) (s, e) (List.replicate n .enumerate) (s, e') ∧
    e'.pc = .finished

theorem Finishes.step (h : Finishes s e') (hstep : e.step s = some e') : Finishes s e := by
  obtain ⟨n, e'', hrun, hpc⟩ := h
  have hfirst : enumerationStep (s, e) .enumerate = some (s, e') := by
    show (e.step s).map _ = _
    rw [hstep]
    rfl
  exact ⟨n + 1, e'', .cons hfirst hrun, hpc⟩

theorem Between.finishes (h : Between size bound found s e visited n rest) (hpc : e.pc = .moveNext)
    (hinv : Inv size below s) (hpos : 0 < size) (hquiet : Quiescent s) : Finishes s e := by
  -- each round leaves one slot less ahead
  generalize hlength : (slotsDown size e.currentSegment n rest).length = m
  induction m generalizing e visited n rest with
  | zero =>
    obtain ⟨-, heq⟩ | ⟨k, rest', hslots, -⟩ := h.moveNext hinv hpos
    · have hstep : e.step s = some { e with pc := .finished } := by
        unfold Enumerator.step
        rw [hpc]
        exact congrArg some heq
      exact ⟨1, _, .cons (by
        show (e.step s).map _ = _
        rw [hstep]
        rfl) (.nil _), rfl⟩
    · rw [← hslots, slotsDown_succ] at hlength
      cases hlength
  | succ m ih =>
    obtain ⟨hnil, -⟩ | ⟨k, rest', hslots, hnext, hitem⟩ := h.moveNext hinv hpos
    · rw [hnil] at hlength
      cases hlength
    · have hmove : e.step s = some (e.moveNext s) := by
        unfold Enumerator.step
        rw [hpc]
      have hcheck : (e.moveNext s).step s = some { e.moveNext s with pc := .readItem } := by
        unfold Enumerator.step
        rw [hnext]
        exact congrArg some (hitem.checkIndex hinv)
      have hitem' : AtItem size bound found s { e.moveNext s with pc := .readItem } visited k
          rest' := ⟨hitem.chain, hitem.offset, hitem.tour, hitem.counts⟩
      have hstores : ∀ c ∈ s.calls, c.pc ≠ .store (e.moveNext s).currentSegment k := by
        intro c hc heq
        obtain ⟨seg, index, hreturned⟩ := hquiet c hc
        rw [hreturned] at heq
        cases heq
      obtain ⟨hpc', hsegment, hbetween⟩ := hitem'.readItem hinv hstores
      refine Finishes.step (Finishes.step (Finishes.step (ih hbetween hpc' ?_) rfl) hcheck) hmove
      rw [← hslots, slotsDown_succ] at hlength
      rw [hsegment]
      exact Nat.succ.inj hlength

theorem Inv.finishes (hinv : Inv size below s) (hpos : 0 < size) (hquiet : Quiescent s) :
    Finishes s .start := by
  -- the constructor's three reads, and then the elements
  have hchain := hinv.shape.chain
  have htour : Tour [] s [] [] (slotsDown size s.dataHead (s.segments s.dataHead).localCountOf
      below) := hchain.tour hinv nofun
  have hbetween : Between size s.calls.length [] s
      ⟨.moveNext, s.dataHead, (s.segments s.dataHead).localCountOf,
        int32 ((s.segments s.dataHead).localCountOf + s.nextGlobalCount s.dataHead), s.dataHead,
        (s.segments s.dataHead).localCountOf, []⟩ [] _ below :=
    ⟨hchain, rfl, htour, hchain.nextGlobalCount hinv _, htour.length_le⟩
  have hfinishes := hbetween.finishes rfl hinv hpos hquiet
  exact Finishes.step (Finishes.step (Finishes.step hfinishes rfl) rfl) rfl

omit [Inhabited α] in
theorem Quiescent.returnedItems (h : Quiescent s) :
    s.returnedItems = s.calls.map AddCall.item := by
  unfold GrowingCollection.returnedItems
  rw [← List.filterMap_eq_map]
  refine List.filterMap_congr fun c hc => ?_
  obtain ⟨seg, index, hpc⟩ := h c hc
  rw [hpc]
  rfl

/-- In every run that has led to a state where all calls have returned, nothing is lost or
duplicated; `Count` is the number of calls where an `int` can hold it. -/
theorem quiescent_contents {segmentSize : Int32} {s₀ : GrowingCollection α} {ls : List (Label α)}
    (h0 : new segmentSize = some s₀) (hrun : Run (stepOf step) s₀ ls s) (hquiet : Quiescent s) :
    s.count = int32 (s.calls.length : ℕ) ∧
      (s.calls.length ≤ 2 ^ 31 - 1 → s.count = s.calls.length) ∧
      ∃ n e, Run (stepOf enumerationStep) (s, .start) (List.replicate n .enumerate) (s, e) ∧
        e.pc = .finished ∧ e.yielded.Perm (s.calls.map AddCall.item) := by
  obtain ⟨below, hinv⟩ := inv_of_run h0 hrun
  have hcount := hinv.count hquiet
  refine ⟨hcount, fun hle => hcount.trans (int32_eq (by omega) (by omega)), ?_⟩
  obtain ⟨n, e, henum, hpc⟩ := hinv.finishes (Inv.new h0).2 hquiet
  refine ⟨n, e, henum, hpc, ?_⟩
  obtain ⟨below', hinv', henumerates⟩ := enumerates_of_run h0 hrun henum
    (settled_enumerate hquiet (Nat.le_refl _) .start n)
  have hnodup : ((stored s.holders).map Prod.snd).Nodup :=
    hinv.tickets.nodup.sublist (stored_slots _)
  obtain ⟨hall, -, -⟩ := henumerates.finished hinv' hnodup hpc
  rw [stored_returnedItems, hquiet.returnedItems] at hall
  have hnone : e.yielded.Subperm (s.calls.map AddCall.item) := by
    obtain hnil | ⟨visited, ahead, htour⟩ := henumerates.tour
    · rw [hnil]
      exact List.nil_subperm
    · exact htour.yielded_subperm hinv'
  exact hnone.antisymm hall

theorem quiescent_contents_two : ∃ s : GrowingCollection ℕ, s.count = 2 ∧
    ∃ n e, Run (stepOf enumerationStep) (s, .start) (List.replicate n .enumerate) (s, e) ∧
      e.yielded.Perm [7, 8] := by
  obtain ⟨s₀, s, ls, h0, hrun, hquiet, hitems⟩ : ∃ (s₀ s : GrowingCollection ℕ)
      (ls : List (Label ℕ)), new (1 : Int32) = some s₀ ∧ Run (stepOf step) s₀ ls s ∧
        Quiescent s ∧ s.calls.map AddCall.item = [7, 8] := by
    refine ⟨_, _, [.call 7, .call 8, .step 0, .step 1, .step 1, .step 0, .step 0, .step 0, .step 0,
      .step 0, .step 0, .step 0, .step 1], rfl, run_of_foldlM rfl, ?_, rfl⟩
    intro c hc
    obtain rfl | hc := List.mem_cons.1 hc
    · exact ⟨1, 0, rfl⟩
    · obtain rfl := List.mem_singleton.1 hc
      exact ⟨0, 0, rfl⟩
  have hlength : s.calls.length = 2 := by
    have hmap := congrArg List.length hitems
    rwa [List.length_map] at hmap
  obtain ⟨-, hcount, n, e, henum, -, hperm⟩ := quiescent_contents h0 hrun hquiet
  rw [hitems] at hperm
  exact ⟨s, by rw [hcount (by omega), hlength]; rfl, n, e, henum, hperm⟩

/-! ### More items than an int can count -/

theorem run_step_calls (hrun : Run (stepOf step) s (List.replicate n (.step i)) t) :
    t.calls.length = s.calls.length ∧ ∀ j ≠ i, t.calls[j]? = s.calls[j]? := by
  induction n generalizing s with
  | zero =>
    obtain rfl := run_nil_iff.1 hrun
    exact ⟨rfl, fun _ _ => rfl⟩
  | succ n ih =>
    obtain ⟨u, hstep, hrun⟩ := run_cons_iff.1 hrun
    obtain ⟨hlength, hothers⟩ := ih hrun
    obtain ⟨c, -, hcall⟩ := Option.bind_eq_some_iff.1 hstep
    obtain ⟨pc, hcalls, -⟩ := stepCall_calls hcall
    rw [hcalls] at hlength hothers
    rw [List.length_set] at hlength
    refine ⟨hlength, fun j hj => ?_⟩
    rw [hothers j hj, List.getElem?_set_ne (Ne.symm hj)]

/-- One thread can add any number of items. -/
theorem exists_quiescent (h0 : new (1 : Int32) = some s) (item : α) (m : ℕ) :
    ∃ ls t, Run (stepOf step) s ls t ∧ Quiescent t ∧ t.calls.length = m := by
  induction m with
  | zero =>
    have hcalls : s.calls = [] := by
      obtain rfl := Option.some.inj h0
      rfl
    exact ⟨[], s, .nil s, by rw [Quiescent, hcalls]; nofun, by rw [hcalls]; rfl⟩
  | succ m ih =>
    obtain ⟨ls, t, hrun, hquiet, hlength⟩ := ih
    obtain ⟨below, hinv⟩ := inv_of_run h0 hrun
    have hnew := hinv.call item
    have hlast : (t.calls ++ [(⟨item, .readHead⟩ : AddCall α)])[m]? = some ⟨item, .readHead⟩ := by
      rw [← hlength]
      exact List.getElem?_concat_length
    obtain ⟨n, u, hadd, d, hd, hreturned⟩ := hnew.returnsAlone_readHead (Inv.new h0).2 hlast rfl
    obtain ⟨hcalls, hothers⟩ := run_step_calls hadd
    refine ⟨ls ++ .call item :: List.replicate n (.step m), u, run_append_iff.2 ⟨t, hrun, ?_⟩, ?_,
      ?_⟩
    · exact .cons rfl hadd
    · intro c hc
      obtain ⟨j, hj⟩ := List.mem_iff_getElem?.1 hc
      obtain rfl | hne := eq_or_ne j m
      · obtain rfl := Option.some.inj (hj.symm.trans hd)
        exact hreturned
      · rw [hothers j hne] at hj
        have hlt : j < t.calls.length := by
          have hbound := (List.getElem?_eq_some_iff.1 hj).1
          rw [List.length_append, List.length_singleton] at hbound
          omega
        rw [List.getElem?_append_left hlt] at hj
        exact hquiet c (List.mem_of_getElem? hj)
    · rw [hcalls, List.length_append, hlength]
      rfl

theorem count_overflow : ¬ ∀ (segmentSize : Int32) (s₀ s : GrowingCollection ℕ)
    (ls : List (Label ℕ)), new segmentSize = some s₀ → Run (stepOf step) s₀ ls s → Quiescent s →
      s.count = s.calls.length ∧
        ∃ n e, Run (stepOf enumerationStep) (s, .start) (List.replicate n .enumerate) (s, e) ∧
          e.pc = .finished ∧ e.yielded.Perm (s.calls.map AddCall.item) := by
  intro hclaim
  obtain ⟨s₀, h0⟩ : ∃ s₀ : GrowingCollection ℕ, new (1 : Int32) = some s₀ := ⟨_, rfl⟩
  obtain ⟨ls, s, hrun, hquiet, hlength⟩ := exists_quiescent h0 7 (2 ^ 31)
  obtain ⟨below, hinv⟩ := inv_of_run h0 hrun
  have hcount := hinv.count hquiet
  have hexact := (hclaim 1 s₀ s ls h0 hrun hquiet).1
  rw [hcount, hlength] at hexact
  exact absurd hexact (by decide)

end DdTrace.Collections.GrowingCollection
