import DdTrace.Collections.GrowingCollection
import Mathlib.Data.List.Perm.Basic

/-!
# GrowingCollection: what holds in every state

The segments from the head down are linked, each knows how many items are below it, and all below
the head are full; a segment that is not linked is empty. The `Add` calls hold the slots of the
segments as tickets (`Lib.Tickets`), and each call knows only linked segments, apart from the one
it has just made.
-/

namespace DdTrace.Collections

open Lib Lib.Tickets

namespace Pc

/-- What a call at this point holds. -/
def holding : Pc → Holding ℕ
  | .store segment index => .reserved segment index
  | .decrement segment _ => .undoing segment
  | .returned segment index => .stored segment index
  | _ => .nothing

/-- The segment that a call has made and not yet offered. -/
def made : Pc → Option ℕ
  | .compareExchangeResult _ newHead => some newHead
  | _ => none

end Pc

/-- A call with its item as a holder of tickets. -/
def AddCall.holder {α : Type} (c : AddCall α) : α × Holding ℕ := (c.item, c.pc.holding)

namespace GrowingCollection

variable {α : Type} {s t : GrowingCollection α} {below below' : List ℕ} {size i n seg : ℕ}
  {c d : AddCall α} {pc : Pc}

def localCount (s : GrowingCollection α) (seg : ℕ) : ℕ := (s.segments seg).localCount

def datum (s : GrowingCollection α) (seg index : ℕ) : Option α := (s.segments seg).data[index]?

def holders (s : GrowingCollection α) : List (α × Holding ℕ) :=
  s.calls.map AddCall.holder

/-- The segments that can be reached from the head, with `below` under it. -/
def linked (s : GrowingCollection α) (below : List ℕ) : List ℕ := s.dataHead :: below

/-- Each segment leads to the next one of the list and knows the items that fit from there on. -/
def Links (segments : ℕ → GrowingCollectionSegment α) (size : ℕ) : List ℕ → Prop
  | [] => False
  | [seg] => (segments seg).nextSegment = none ∧ (segments seg).nextSegmentGlobalCount = 0
  | seg :: next :: rest => (segments seg).nextSegment = some next ∧
      (segments seg).nextSegmentGlobalCount = int32 (size * (rest.length + 1) : ℕ) ∧
      Links segments size (next :: rest)

structure Shape (size : ℕ) (below : List ℕ) (s : GrowingCollection α) : Prop where
  segmentSize : ∀ seg, (s.segments seg).segmentSize = size
  dataLength : ∀ seg, (s.segments seg).data.length = size
  links : Links s.segments size (s.linked below)
  nodup : (s.linked below).Nodup
  allocated : ∀ seg ∈ s.linked below, seg < s.allocated
  full : ∀ seg ∈ below, size ≤ s.localCount seg
  empty : ∀ seg, seg ∉ s.linked below → s.localCount seg = 0

/-- What a call knows. The head that it read is full once its first attempt has failed; the head
is another one after the first compare-exchange. -/
def Knows (size : ℕ) (below : List ℕ) (s : GrowingCollection α) : Pc → Prop
  | .increment seg currHead => seg ∈ s.linked below ∧ currHead ∈ s.linked below ∧
      (seg = currHead ∨ currHead ∈ below)
  | .decrement _ currHead | .newSegment currHead =>
    currHead ∈ s.linked below ∧ size ≤ s.localCount currHead
  | .compareExchangeResult currHead newHead => currHead ∈ s.linked below ∧
      size ≤ s.localCount currHead ∧ newHead ∉ s.linked below ∧ newHead < s.allocated ∧
      (s.segments newHead).nextSegment = some currHead ∧
      (s.segments newHead).nextSegmentGlobalCount =
        int32 (size + (s.segments currHead).nextSegmentGlobalCount)
  | .compareExchange currHead _ => currHead ∈ below
  | _ => True

structure Inv (size : ℕ) (below : List ℕ) (s : GrowingCollection α) : Prop where
  shape : Shape size below s
  tickets : Valid size s.localCount s.datum s.holders
  knows : ∀ c ∈ s.calls, Knows size below s c.pc
  made : (s.calls.filterMap fun c => c.pc.made).Nodup

/-! ### The heap -/

theorem Links.congr {segments segments' : ℕ → GrowingCollectionSegment α} {l : List ℕ}
    (h : Links segments size l)
    (hsame : ∀ seg ∈ l, (segments' seg).nextSegment = (segments seg).nextSegment ∧
      (segments' seg).nextSegmentGlobalCount = (segments seg).nextSegmentGlobalCount) :
    Links segments' size l := by
  induction l with
  | nil => exact h
  | cons seg l ih =>
    obtain ⟨hnext, hcount⟩ := hsame seg List.mem_cons_self
    cases l with
    | nil => exact ⟨hnext.trans h.1, hcount.trans h.2⟩
    | cons next rest =>
      exact ⟨hnext.trans h.1, hcount.trans h.2.1,
        ih h.2.2 fun seg hseg => hsame seg (List.mem_cons_of_mem _ hseg)⟩

theorem Links.count {segments : ℕ → GrowingCollectionSegment α} {l : List ℕ}
    (h : Links segments size (seg :: l)) :
    (segments seg).nextSegmentGlobalCount = int32 (size * l.length : ℕ) := by
  cases l with
  | nil =>
    rw [h.2, List.length_nil, Nat.mul_zero]
    rfl
  | cons next rest => exact h.2.1

theorem localCount_setLocalCount (s : GrowingCollection α) (seg n : ℕ) :
    (s.setLocalCount seg n).localCount = Function.update s.localCount seg n := by
  funext k
  obtain rfl | hne := eq_or_ne k seg
  · show (Function.update s.segments k _ k).localCount = _
    rw [Function.update_self, Function.update_self]
  · show (Function.update s.segments seg _ k).localCount = _
    rw [Function.update_of_ne hne, Function.update_of_ne hne]
    rfl

/-- Apart from its count, the segment is as before. -/
theorem segments_setLocalCount (s : GrowingCollection α) (seg n k : ℕ) :
    ∃ m, (s.setLocalCount seg n).segments k = { s.segments k with localCount := m } := by
  unfold setLocalCount setSegment
  obtain rfl | hne := eq_or_ne k seg
  · exact ⟨n, Function.update_self _ _ _⟩
  · exact ⟨(s.segments k).localCount, Function.update_of_ne hne _ _⟩

theorem datum_setLocalCount (s : GrowingCollection α) (seg n : ℕ) :
    (s.setLocalCount seg n).datum = s.datum := by
  funext k index
  obtain ⟨m, hm⟩ := segments_setLocalCount s seg n k
  unfold datum
  rw [hm]

theorem Shape.setLocalCount (h : Shape size below s) (hseg : seg ∈ s.linked below)
    (hn : size ≤ s.localCount seg → size ≤ n) : Shape size below (s.setLocalCount seg n) where
  segmentSize k := by
    obtain ⟨m, hm⟩ := segments_setLocalCount s seg n k
    rw [hm]
    exact h.segmentSize k
  dataLength k := by
    obtain ⟨m, hm⟩ := segments_setLocalCount s seg n k
    rw [hm]
    exact h.dataLength k
  links := h.links.congr fun k _ => by
    obtain ⟨m, hm⟩ := segments_setLocalCount s seg n k
    rw [hm]
    exact ⟨rfl, rfl⟩
  nodup := h.nodup
  allocated := h.allocated
  full k hk := by
    rw [localCount_setLocalCount]
    obtain rfl | hne := eq_or_ne k seg
    · rw [Function.update_self]
      exact hn (h.full k hk)
    · rw [Function.update_of_ne hne]
      exact h.full k hk
  empty k hk := by
    have hne : k ≠ seg := fun heq => hk (heq ▸ hseg)
    rw [localCount_setLocalCount, Function.update_of_ne hne]
    exact h.empty k hk

/-- What is on the heap after a change: the linked segments still are, full ones stay full, and
those that were there lead to the same ones. -/
structure Later (size : ℕ) (below below' : List ℕ) (s t : GrowingCollection α) : Prop where
  linked : ∀ seg ∈ s.linked below, seg ∈ t.linked below'
  below : ∀ seg ∈ below, seg ∈ below'
  full : ∀ seg, size ≤ s.localCount seg → size ≤ t.localCount seg
  allocated : s.allocated ≤ t.allocated
  same : ∀ seg < s.allocated, (t.segments seg).nextSegment = (s.segments seg).nextSegment ∧
    (t.segments seg).nextSegmentGlobalCount = (s.segments seg).nextSegmentGlobalCount

theorem later_refl : Later size below below s s :=
  ⟨fun _ => id, fun _ => id, fun _ => id, Nat.le_refl _, fun _ _ => ⟨rfl, rfl⟩⟩

theorem later_setLocalCount (hn : size ≤ s.localCount seg → size ≤ n) :
    Later size below below s (s.setLocalCount seg n) where
  linked _ := id
  below _ := id
  full k hk := by
    rw [localCount_setLocalCount]
    obtain rfl | hne := eq_or_ne k seg
    · rw [Function.update_self]
      exact hn hk
    · rwa [Function.update_of_ne hne]
  allocated := Nat.le_refl _
  same k _ := by
    obtain ⟨m, hm⟩ := segments_setLocalCount s seg n k
    rw [hm]
    exact ⟨rfl, rfl⟩

/-- A call still knows what it knew, if its new segment has not been linked. -/
theorem Knows.later (h : Knows size below s pc) (hshape : Shape size below s)
    (hlater : Later size below below' s t)
    (hmade : ∀ newHead, pc.made = some newHead → newHead ∉ t.linked below') :
    Knows size below' t pc := by
  cases pc with
  | increment seg currHead =>
    exact ⟨hlater.linked _ h.1, hlater.linked _ h.2.1, h.2.2.imp id (hlater.below _)⟩
  | decrement seg currHead => exact ⟨hlater.linked _ h.1, hlater.full _ h.2⟩
  | newSegment currHead => exact ⟨hlater.linked _ h.1, hlater.full _ h.2⟩
  | compareExchangeResult currHead newHead =>
    obtain ⟨hhead, hfull, -, hallocated, hnext, hcount⟩ := h
    have hsame := hlater.same newHead hallocated
    have hhead' := hlater.same currHead (hshape.allocated _ hhead)
    exact ⟨hlater.linked _ hhead, hlater.full _ hfull, hmade _ rfl,
      hallocated.trans_le hlater.allocated, hsame.1.trans hnext,
      hsame.2.trans (hcount.trans (by rw [hhead'.2]))⟩
  | compareExchange currHead newHead => exact hlater.below _ h
  | readHead => trivial
  | store seg index => trivial
  | returned seg index => trivial

/-! ### One call goes on -/

theorem calls_perm (hc : s.calls[i]? = some c) :
    s.calls.Perm (c :: s.calls.eraseIdx i) := by
  obtain ⟨hlt, rfl⟩ := List.getElem?_eq_some_iff.1 hc
  exact (List.getElem_cons_eraseIdx_perm hlt).symm

theorem calls_goto_perm (hc : s.calls[i]? = some c) :
    (s.goto i c pc).calls.Perm ({ c with pc := pc } :: s.calls.eraseIdx i) := by
  obtain ⟨hlt, -⟩ := List.getElem?_eq_some_iff.1 hc
  exact List.set_perm_cons_eraseIdx hlt _

/-- The invariant after a step of one call: what it holds changes by a rule for tickets, it knows
enough for its next step, and the others still know what they knew. -/
theorem Inv.goto (h : Inv size below s) (hc : s.calls[i]? = some c) (hcalls : t.calls = s.calls)
    (hshape : Shape size below' t) (hlater : Later size below below' s t)
    (htickets : ∀ rest, Valid size s.localCount s.datum ((c.item, c.pc.holding) :: rest) →
      Valid size t.localCount t.datum ((c.item, pc.holding) :: rest))
    (hknows : Knows size below' t pc)
    (hmade : ∀ newHead ∈ (s.calls.eraseIdx i).filterMap fun d => d.pc.made,
      newHead ∉ t.linked below' ∧ pc.made ≠ some newHead) :
    Inv size below' (t.goto i c pc) := by
  have hperm := calls_perm hc
  have hperm' : (t.goto i c pc).calls.Perm ({ c with pc := pc } :: s.calls.eraseIdx i) := by
    have hgoto : (t.goto i c pc).calls.Perm ({ c with pc := pc } :: t.calls.eraseIdx i) :=
      calls_goto_perm (hcalls ▸ hc)
    rwa [hcalls] at hgoto
  have hnodup := (hperm.filterMap fun d => d.pc.made).nodup_iff.1 h.made
  refine ⟨⟨hshape.1, hshape.2, hshape.3, hshape.4, hshape.5, hshape.6, hshape.7⟩, ?_, ?_, ?_⟩
  · have hvalid := h.tickets.perm (hperm.map AddCall.holder)
    exact (htickets _ hvalid).perm (hperm'.map AddCall.holder).symm
  · intro d hd
    obtain rfl | hd := List.mem_cons.1 (hperm'.mem_iff.1 hd)
    · exact hknows
    · have hknown := h.knows d (hperm.mem_iff.2 (List.mem_cons_of_mem _ hd))
      have hstill : Knows size below' t d.pc := hknown.later h.shape hlater fun newHead hnew =>
        (hmade newHead (List.mem_filterMap.2 ⟨d, hd, hnew⟩)).1
      exact hstill
  · refine (hperm'.filterMap fun d => d.pc.made).nodup_iff.2 ?_
    have hrest : ((s.calls.eraseIdx i).filterMap fun d => d.pc.made).Nodup :=
      hnodup.sublist ((List.sublist_cons_self _ _).filterMap _)
    rw [List.filterMap_cons]
    cases hpc : pc.made with
    | none => exact hrest
    | some newHead =>
      refine List.nodup_cons.2 ⟨fun hmem => ?_, hrest⟩
      exact (hmade newHead hmem).2 hpc

/-- Where the head does not move, what others have made is still not linked. -/
theorem Inv.others_made (h : Inv size below s) (hc : s.calls[i]? = some c) {newHead : ℕ}
    (hmem : newHead ∈ (s.calls.eraseIdx i).filterMap fun d => d.pc.made) :
    newHead ∉ s.linked below ∧ newHead < s.allocated := by
  obtain ⟨d, hd, hmade⟩ := List.mem_filterMap.1 hmem
  have hknows := h.knows d ((calls_perm hc).mem_iff.2 (List.mem_cons_of_mem _ hd))
  cases hpc : d.pc with
  | compareExchangeResult currHead made =>
    rw [hpc] at hmade hknows
    obtain rfl := Option.some.inj hmade
    exact ⟨hknows.2.2.1, hknows.2.2.2.1⟩
  | _ =>
    rw [hpc] at hmade
    cases hmade

/-! ### Each step -/

/-- A step that changes only where the call is. -/
theorem Inv.moveOn (h : Inv size below s) (hc : s.calls[i]? = some c)
    (hholding : pc.holding = c.pc.holding) (hknows : Knows size below s pc)
    (hmade : pc.made = none) : Inv size below (s.goto i c pc) := by
  refine h.goto hc rfl h.shape later_refl (fun rest hvalid => ?_) hknows fun newHead hnew => ?_
  · rwa [hholding]
  · exact ⟨(h.others_made hc hnew).1, by rw [hmade]; exact (Option.some_ne_none _).symm⟩

theorem Inv.increment (h : Inv size below s) (hc : s.calls[i]? = some c) {currHead : ℕ}
    (hpc : c.pc = .increment seg currHead) (hlt : s.localCount seg < size) :
    Inv size below ((s.setLocalCount seg (s.localCount seg + 1)).goto i c
      (.store seg (s.localCount seg))) := by
  have hknows := h.knows c (List.mem_of_getElem? hc)
  rw [hpc] at hknows
  refine h.goto hc rfl (h.shape.setLocalCount hknows.1 Nat.le_succ_of_le)
    (later_setLocalCount Nat.le_succ_of_le) (fun rest hvalid => ?_) trivial fun newHead hnew => ?_
  · rw [hpc] at hvalid
    rw [localCount_setLocalCount, datum_setLocalCount]
    exact hvalid.reserve hlt
  · exact ⟨(h.others_made hc hnew).1, nofun⟩

/-- The attempt fails at a full segment. -/
theorem Inv.incrementFull (h : Inv size below s) (hc : s.calls[i]? = some c) {currHead : ℕ}
    (hpc : c.pc = .increment seg currHead) (hle : size ≤ s.localCount seg) :
    Inv size below ((s.setLocalCount seg (s.localCount seg + 1)).goto i c
      (.decrement seg currHead)) := by
  have hknows := h.knows c (List.mem_of_getElem? hc)
  rw [hpc] at hknows
  obtain ⟨hseg, hhead, hcurr⟩ := hknows
  have hfull : size ≤ s.localCount currHead := by
    obtain rfl | hbelow := hcurr
    · exact hle
    · exact h.shape.full _ hbelow
  have hlater : Later size below below s (s.setLocalCount seg (s.localCount seg + 1)) :=
    later_setLocalCount Nat.le_succ_of_le
  refine h.goto hc rfl (h.shape.setLocalCount hseg Nat.le_succ_of_le) hlater
    (fun rest hvalid => ?_) ⟨hhead, hlater.full _ hfull⟩ fun newHead hnew => ?_
  · rw [hpc] at hvalid
    rw [localCount_setLocalCount, datum_setLocalCount]
    exact hvalid.overshoot hle
  · exact ⟨(h.others_made hc hnew).1, nofun⟩

theorem Inv.ticket (h : Inv size below s) (hc : s.calls[i]? = some c) :
    Valid size s.localCount s.datum
      ((c.item, c.pc.holding) :: (s.calls.eraseIdx i).map AddCall.holder) :=
  h.tickets.perm ((calls_perm hc).map AddCall.holder)

theorem Inv.decrement (h : Inv size below s) (hc : s.calls[i]? = some c) {currHead : ℕ}
    (hpc : c.pc = .decrement seg currHead) :
    Inv size below ((s.setLocalCount seg (s.localCount seg - 1)).goto i c
      (.newSegment currHead)) := by
  have hknows := h.knows c (List.mem_of_getElem? hc)
  have hlt : size < s.localCount seg := by
    have hticket := h.ticket hc
    rw [hpc] at hticket
    exact hticket.lt_count
  rw [hpc] at hknows
  have hseg : seg ∈ s.linked below := by
    by_contra hnot
    have hzero := h.shape.empty seg hnot
    omega
  have hlater : Later size below below s (s.setLocalCount seg (s.localCount seg - 1)) :=
    later_setLocalCount fun _ => Nat.le_sub_one_of_lt hlt
  refine h.goto hc rfl (h.shape.setLocalCount hseg fun _ => Nat.le_sub_one_of_lt hlt) hlater
    (fun rest hvalid => ?_) ⟨hknows.1, hlater.full _ hknows.2⟩ fun newHead hnew => ?_
  · rw [hpc] at hvalid
    rw [localCount_setLocalCount, datum_setLocalCount]
    exact hvalid.undo
  · exact ⟨(h.others_made hc hnew).1, nofun⟩

theorem segments_setData (s : GrowingCollection α) (seg k : ℕ) (data : List α) :
    (s.setData seg data).segments k = { s.segments k with
      data := if k = seg then data else (s.segments k).data } := by
  show Function.update s.segments seg _ k = _
  obtain rfl | hne := eq_or_ne k seg
  · rw [Function.update_self, if_pos rfl]
  · rw [Function.update_of_ne hne, if_neg hne]

theorem localCount_setData (s : GrowingCollection α) (seg : ℕ) (data : List α) :
    (s.setData seg data).localCount = s.localCount := by
  funext k
  unfold localCount
  rw [segments_setData]

theorem Inv.store (h : Inv size below s) (hc : s.calls[i]? = some c) {index : ℕ}
    (hpc : c.pc = .store seg index) :
    Inv size below ((s.setData seg ((s.segments seg).data.set index c.item)).goto i c
      (.returned seg index)) := by
  have hindex : index < size := by
    have hticket := h.ticket hc
    rw [hpc] at hticket
    have hslot := (hticket.mem_slots seg index).1 List.mem_cons_self
    omega
  have hcount := localCount_setData s seg ((s.segments seg).data.set index c.item)
  refine h.goto hc rfl ⟨fun k => ?_, fun k => ?_, ?_, h.shape.nodup, h.shape.allocated, ?_, ?_⟩
    ⟨fun _ => id, fun _ => id, ?_, Nat.le_refl _, fun k _ => ?_⟩ (fun rest hvalid => ?_) trivial
    fun newHead hnew => ?_
  · rw [segments_setData]
    exact h.shape.segmentSize k
  · rw [segments_setData]
    split
    · exact List.length_set.trans (h.shape.dataLength _)
    · exact h.shape.dataLength k
  · refine h.shape.links.congr fun k _ => ?_
    rw [segments_setData]
    exact ⟨rfl, rfl⟩
  · rw [hcount]
    exact h.shape.full
  · rw [hcount]
    exact h.shape.empty
  · rw [hcount]
    exact fun _ => id
  · rw [segments_setData]
    exact ⟨rfl, rfl⟩
  · rw [hpc] at hvalid
    rw [hcount]
    refine hvalid.store ?_ fun k index' hne => ?_
    · unfold datum
      rw [segments_setData, if_pos rfl, List.getElem?_set_self]
      rw [h.shape.dataLength]
      exact hindex
    · unfold datum
      rw [segments_setData]
      split
      · rename_i hk
        subst hk
        exact List.getElem?_set_ne fun heq => hne (by rw [heq])
      · rfl
  · exact ⟨(h.others_made hc hnew).1, nofun⟩

theorem segments_allocate (s : GrowingCollection α) (segment : GrowingCollectionSegment α)
    {k : ℕ} (hk : k ≠ s.allocated) : (s.allocate segment).segments k = s.segments k :=
  Function.update_of_ne hk _ _

theorem segments_allocated (s : GrowingCollection α) (segment : GrowingCollectionSegment α) :
    (s.allocate segment).segments s.allocated = segment :=
  Function.update_self _ _ _

theorem Shape.allocated_not_linked (h : Shape size below s) : s.allocated ∉ s.linked below :=
  fun hmem => Nat.lt_irrefl _ (h.allocated _ hmem)

theorem int32_add_int32 (m n : ℤ) : int32 (m + int32 n) = int32 (m + n) :=
  Int.add_bmod_bmod

theorem Inv.newSegment [Inhabited α] (h : Inv size below s) (hc : s.calls[i]? = some c)
    {currHead : ℕ} (hpc : c.pc = .newSegment currHead) :
    Inv size below ((s.allocate (.above currHead (s.segments currHead))).goto i c
      (.compareExchangeResult currHead s.allocated)) := by
  have hknows := h.knows c (List.mem_of_getElem? hc)
  rw [hpc] at hknows
  obtain ⟨hhead, hfull⟩ := hknows
  have hnew := h.shape.allocated_not_linked
  have hsame : ∀ seg ∈ s.linked below,
      (s.allocate (.above currHead (s.segments currHead))).segments seg = s.segments seg :=
    fun seg hseg => segments_allocate s _ fun heq => hnew (heq ▸ hseg)
  have hcount : (s.allocate (.above currHead (s.segments currHead))).localCount = s.localCount := by
    funext k
    unfold localCount
    obtain rfl | hne := eq_or_ne k s.allocated
    · rw [segments_allocated]
      exact (h.shape.empty _ hnew).symm
    · rw [segments_allocate s _ hne]
  refine h.goto hc rfl ⟨fun k => ?_, fun k => ?_, ?_, h.shape.nodup, fun k hk => ?_, ?_, ?_⟩
    ⟨fun _ => id, fun _ => id, ?_, Nat.le_succ _, fun k hk => ?_⟩ (fun rest hvalid => ?_) ?_
    fun newHead hnew' => ?_
  · obtain rfl | hne := eq_or_ne k s.allocated
    · rw [segments_allocated]
      exact h.shape.segmentSize currHead
    · rw [segments_allocate s _ hne]
      exact h.shape.segmentSize k
  · obtain rfl | hne := eq_or_ne k s.allocated
    · rw [segments_allocated]
      exact List.length_replicate.trans (h.shape.segmentSize currHead)
    · rw [segments_allocate s _ hne]
      exact h.shape.dataLength k
  · refine h.shape.links.congr fun seg hseg => ?_
    rw [hsame seg hseg]
    exact ⟨rfl, rfl⟩
  · exact Nat.lt_succ_of_lt (h.shape.allocated k hk)
  · rw [hcount]
    exact h.shape.full
  · rw [hcount]
    exact h.shape.empty
  · rw [hcount]
    exact fun _ => id
  · rw [segments_allocate s _ hk.ne]
    exact ⟨rfl, rfl⟩
  · rw [hpc] at hvalid
    rw [hcount]
    refine hvalid.congr fun k index hindex => ?_
    have hne : k ≠ s.allocated := by
      rintro rfl
      rw [h.shape.empty _ hnew, Nat.zero_min] at hindex
      cases hindex
    unfold datum
    rw [segments_allocate s _ hne]
  · refine ⟨hhead, by rwa [hcount], hnew, Nat.lt_succ_self _, ?_, ?_⟩
    · rw [segments_allocated]
      rfl
    · rw [segments_allocated, hsame currHead hhead]
      show int32 (_ + _) = _
      have hcapped : (s.segments currHead).localCountOf = size := by
        unfold GrowingCollectionSegment.localCountOf
        rw [h.shape.segmentSize]
        exact Nat.min_eq_right hfull
      rw [hcapped]
  · obtain ⟨hlinked, hlt⟩ := h.others_made hc hnew'
    exact ⟨hlinked, fun heq => Nat.lt_irrefl _ (Option.some.inj heq ▸ hlt)⟩

/-- The head moves to the new segment, which is linked above it. -/
theorem Inv.exchange (h : Inv size below s) (hc : s.calls[i]? = some c) {newHead : ℕ}
    (hpc : c.pc = .compareExchangeResult s.dataHead newHead) :
    Inv size (s.dataHead :: below) ((s.exchange newHead s.dataHead).goto i c
      (.compareExchange s.dataHead newHead)) := by
  have hknows := h.knows c (List.mem_of_getElem? hc)
  rw [hpc] at hknows
  obtain ⟨-, hfull, hnew, hallocated, hnext, hcount⟩ := hknows
  have hhead : (s.exchange newHead s.dataHead).dataHead = newHead := if_pos rfl
  have hlinked : (s.exchange newHead s.dataHead).linked (s.dataHead :: below) =
      newHead :: s.linked below := by
    unfold linked
    rw [hhead]
  refine h.goto hc rfl
    ⟨h.shape.segmentSize, h.shape.dataLength, ?_, ?_, ?_, ?_, fun seg hseg => ?_⟩
    ⟨fun seg hseg => ?_, fun seg hseg => List.mem_cons_of_mem _ hseg, fun _ => id, Nat.le_refl _,
      fun _ _ => ⟨rfl, rfl⟩⟩ (fun rest hvalid => ?_) List.mem_cons_self fun other hother => ?_
  · rw [hlinked]
    refine ⟨hnext, ?_, h.shape.links⟩
    have hbelow := h.shape.links.count
    show (s.segments newHead).nextSegmentGlobalCount = _
    rw [hcount, hbelow, int32_add_int32]
    congr 1
    push_cast
    ring
  · rw [hlinked]
    exact List.nodup_cons.2 ⟨hnew, h.shape.nodup⟩
  · rw [hlinked]
    exact List.forall_mem_cons.2 ⟨hallocated, h.shape.allocated⟩
  · exact List.forall_mem_cons.2 ⟨hfull, h.shape.full⟩
  · rw [hlinked] at hseg
    exact h.shape.empty seg fun hmem => hseg (List.mem_cons_of_mem _ hmem)
  · rw [hlinked]
    exact List.mem_cons_of_mem _ hseg
  · rwa [hpc] at hvalid
  · -- nobody else has made this segment
    have hperm := (calls_perm hc).filterMap fun d => d.pc.made
    have hnodup := hperm.nodup_iff.1 h.made
    have hmade : c.pc.made = some newHead := by rw [hpc]; rfl
    rw [List.filterMap_cons, hmade] at hnodup
    have hne : other ≠ newHead := fun heq => (List.nodup_cons.1 hnodup).1 (heq ▸ hother)
    rw [hlinked]
    refine ⟨fun hmem => ?_, nofun⟩
    obtain heq | hmem := List.mem_cons.1 hmem
    · exact hne heq
    · exact (h.others_made hc hother).1 hmem

theorem exchange_of_ne {newHead currHead : ℕ} (h : s.dataHead ≠ currHead) :
    s.exchange newHead currHead = s := by
  unfold exchange
  rw [if_neg h]

theorem Inv.call (h : Inv size below s) (item : α) :
    Inv size below { s with calls := s.calls ++ [⟨item, .readHead⟩] } := by
  have hperm : (s.calls ++ [(⟨item, .readHead⟩ : AddCall α)]).Perm (⟨item, .readHead⟩ :: s.calls) :=
    List.perm_append_singleton _ _
  refine ⟨⟨h.shape.1, h.shape.2, h.shape.3, h.shape.4, h.shape.5, h.shape.6, h.shape.7⟩, ?_, ?_, ?_⟩
  · exact (h.tickets.join item).perm (hperm.map AddCall.holder).symm
  · intro d hd
    obtain rfl | hd := List.mem_cons.1 (hperm.mem_iff.1 hd)
    · trivial
    · exact h.knows d hd
  · exact (hperm.filterMap fun d => d.pc.made).nodup_iff.2 h.made

/-! ### What stays -/

/-- What a step of a call does to the calls: this one goes on and keeps the slot it has. -/
theorem stepCall_calls [Inhabited α] (hcall : s.stepCall i c = some t) :
    ∃ pc, t.calls = s.calls.set i { c with pc := pc } ∧
      (∀ p, c.pc.holding.slot = some p → pc.holding.slot = some p) ∧
      c.pc.holding.storedSlot = none := by
  unfold GrowingCollection.stepCall at hcall
  cases hpc : c.pc with
  | increment seg currHead =>
    rw [hpc] at hcall
    dsimp only at hcall
    split at hcall
    · obtain rfl := Option.some.inj hcall
      exact ⟨_, rfl, nofun, rfl⟩
    · obtain rfl := Option.some.inj hcall
      exact ⟨_, rfl, nofun, rfl⟩
  | store seg index =>
    rw [hpc] at hcall
    obtain rfl := Option.some.inj hcall
    exact ⟨_, rfl, fun _ => id, rfl⟩
  | returned seg index =>
    rw [hpc] at hcall
    cases hcall
  | _ =>
    rw [hpc] at hcall
    obtain rfl := Option.some.inj hcall
    exact ⟨_, rfl, nofun, rfl⟩

/-- What a step does to the calls: a new one comes, or one goes on. -/
theorem step_calls [Inhabited α] {l : Label α} (hstep : s.step l = some t) :
    (∃ item, t.calls = s.calls ++ [⟨item, .readHead⟩]) ∨
      ∃ i c pc, s.calls[i]? = some c ∧ t.calls = s.calls.set i { c with pc := pc } ∧
        (∀ p, c.pc.holding.slot = some p → pc.holding.slot = some p) ∧
        c.pc.holding.storedSlot = none := by
  cases l with
  | call item =>
    obtain rfl := Option.some.inj hstep
    exact .inl ⟨item, rfl⟩
  | step i =>
    obtain ⟨c, hc, hcall⟩ := Option.bind_eq_some_iff.1 hstep
    obtain ⟨pc, hcalls, hkeeps⟩ := stepCall_calls hcall
    exact .inr ⟨i, c, pc, hc, hcalls, hkeeps⟩

/-- A segment that is on the heap leads to the same one for ever. -/
theorem step_heap [Inhabited α] {l : Label α} (hstep : s.step l = some t) :
    s.allocated ≤ t.allocated ∧ ∀ seg < s.allocated,
      (t.segments seg).nextSegment = (s.segments seg).nextSegment ∧
        (t.segments seg).nextSegmentGlobalCount = (s.segments seg).nextSegmentGlobalCount := by
  cases l with
  | call item =>
    obtain rfl := Option.some.inj hstep
    exact ⟨Nat.le_refl _, fun _ _ => ⟨rfl, rfl⟩⟩
  | step i =>
    obtain ⟨c, -, hcall⟩ := Option.bind_eq_some_iff.1 hstep
    unfold GrowingCollection.stepCall at hcall
    have hcount : ∀ k n seg, ((s.setLocalCount k n).segments seg).nextSegment =
        (s.segments seg).nextSegment ∧ ((s.setLocalCount k n).segments seg).nextSegmentGlobalCount =
          (s.segments seg).nextSegmentGlobalCount := by
      intro k n seg
      obtain ⟨m, hm⟩ := segments_setLocalCount s k n seg
      rw [hm]
      exact ⟨rfl, rfl⟩
    cases hpc : c.pc with
    | increment k currHead =>
      rw [hpc] at hcall
      dsimp only at hcall
      split at hcall
      all_goals
        obtain rfl := Option.some.inj hcall
        exact ⟨Nat.le_refl _, fun seg _ => hcount _ _ seg⟩
    | decrement k currHead =>
      rw [hpc] at hcall
      obtain rfl := Option.some.inj hcall
      exact ⟨Nat.le_refl _, fun seg _ => hcount _ _ seg⟩
    | store k index =>
      rw [hpc] at hcall
      obtain rfl := Option.some.inj hcall
      refine ⟨Nat.le_refl _, fun seg _ => ?_⟩
      generalize hdata : (s.segments k).data.set index c.item = data
      show ((s.setData k data).segments seg).nextSegment = _ ∧
        ((s.setData k data).segments seg).nextSegmentGlobalCount = _
      rw [segments_setData]
      exact ⟨rfl, rfl⟩
    | newSegment currHead =>
      rw [hpc] at hcall
      obtain rfl := Option.some.inj hcall
      refine ⟨Nat.le_succ _, fun seg hseg => ?_⟩
      have hsame := segments_allocate s (.above currHead (s.segments currHead)) hseg.ne
      exact ⟨congrArg _ hsame, congrArg GrowingCollectionSegment.nextSegmentGlobalCount hsame⟩
    | returned k index =>
      rw [hpc] at hcall
      cases hcall
    | _ =>
      rw [hpc] at hcall
      obtain rfl := Option.some.inj hcall
      exact ⟨Nat.le_refl _, fun _ _ => ⟨rfl, rfl⟩⟩

theorem mem_set_of_getElem? {β : Type} {l : List β} {x y : β} (hx : l[i]? = some x) :
    (l.set i y).Perm (y :: l.eraseIdx i) ∧ l.Perm (x :: l.eraseIdx i) := by
  obtain ⟨hlt, rfl⟩ := List.getElem?_eq_some_iff.1 hx
  exact ⟨List.set_perm_cons_eraseIdx hlt _, (List.getElem_cons_eraseIdx_perm hlt).symm⟩

/-- No slot is given back. -/
theorem slots_step [Inhabited α] {l : Label α} (hstep : s.step l = some t) {p : ℕ × ℕ}
    (hp : p ∈ slots s.holders) : p ∈ slots t.holders := by
  obtain ⟨h, hh, hslot⟩ := List.mem_filterMap.1 hp
  obtain ⟨d, hd, rfl⟩ := List.mem_map.1 hh
  obtain ⟨item, hcalls⟩ | ⟨i, c, pc, hc, hcalls, hkeeps, -⟩ := step_calls hstep
  · refine List.mem_filterMap.2 ⟨d.holder, List.mem_map.2 ⟨d, ?_, rfl⟩, hslot⟩
    rw [hcalls]
    exact List.mem_append_left _ hd
  · obtain ⟨hset, hold⟩ := mem_set_of_getElem? (y := { c with pc := pc }) hc
    obtain rfl | hd := List.mem_cons.1 (hold.mem_iff.1 hd)
    · refine List.mem_filterMap.2 ⟨(d.item, pc.holding), List.mem_map.2 ⟨{ d with pc := pc }, ?_,
        rfl⟩, hkeeps p hslot⟩
      rw [hcalls]
      exact hset.mem_iff.2 List.mem_cons_self
    · refine List.mem_filterMap.2 ⟨d.holder, List.mem_map.2 ⟨d, ?_, rfl⟩, hslot⟩
      rw [hcalls]
      exact hset.mem_iff.2 (List.mem_cons_of_mem _ hd)

/-- What is stored stays in its slot. -/
theorem stored_step [Inhabited α] {l : Label α} (hstep : s.step l = some t) {b : α × ℕ × ℕ}
    (hb : b ∈ stored s.holders) : b ∈ stored t.holders := by
  obtain ⟨a, p⟩ := b
  obtain ⟨d, hd, hholder⟩ := List.mem_map.1 (mem_stored.1 hb)
  refine mem_stored.2 (List.mem_map.2 ⟨d, ?_, hholder⟩)
  obtain ⟨item, hcalls⟩ | ⟨i, c, pc, hc, hcalls, -, hnone⟩ := step_calls hstep
  · rw [hcalls]
    exact List.mem_append_left _ hd
  · obtain ⟨hset, hold⟩ := mem_set_of_getElem? (y := { c with pc := pc }) hc
    obtain rfl | hd := List.mem_cons.1 (hold.mem_iff.1 hd)
    · have hstored : d.pc.holding = .stored p.1 p.2 := congrArg Prod.snd hholder
      rw [hstored] at hnone
      cases hnone
    · rw [hcalls]
      exact hset.mem_iff.2 (List.mem_cons_of_mem _ hd)

/-- The slots given in a segment grow. -/
theorem Inv.capped_mono (h : Inv size below s) (h' : Inv size below' t)
    (hslots : ∀ p ∈ slots s.holders, p ∈ slots t.holders) (seg : ℕ) :
    min (s.localCount seg) size ≤ min (t.localCount seg) size := by
  by_contra hlt
  have hslot := (h.tickets.mem_slots seg (min (t.localCount seg) size)).2 (by omega)
  have hslot' := (h'.tickets.mem_slots seg _).1 (hslots _ hslot)
  omega

theorem Inv.full_step [Inhabited α] {l : Label α} (h : Inv size below s)
    (h' : Inv size below' t) (hstep : s.step l = some t) (hfull : size ≤ s.localCount seg) :
    size ≤ t.localCount seg := by
  have hmono := h.capped_mono h' (fun p hp => slots_step hstep hp) seg
  omega

/-! ### Runs -/

section Runs

variable [Inhabited α] {l : Label α} {ls : List (Label α)} {s₀ : GrowingCollection α}
  {segmentSize : Int32}

/-- The invariant after a step; the head may have moved one segment up. -/
theorem Inv.stepCall (h : Inv size below s) (hc : s.calls[i]? = some c)
    (hstep : s.stepCall i c = some t) :
    ∃ below', (below' = below ∨ below' = s.dataHead :: below) ∧ Inv size below' t := by
  have hknows := h.knows c (List.mem_of_getElem? hc)
  unfold GrowingCollection.stepCall at hstep
  cases hpc : c.pc with
  | readHead =>
    rw [hpc] at hstep
    obtain rfl := Option.some.inj hstep
    exact ⟨below, .inl rfl, h.moveOn hc (by rw [hpc]; rfl)
      ⟨List.mem_cons_self, List.mem_cons_self, .inl rfl⟩ rfl⟩
  | increment seg currHead =>
    rw [hpc] at hstep
    dsimp only at hstep
    rw [h.shape.segmentSize] at hstep
    split at hstep
    · obtain rfl := Option.some.inj hstep
      exact ⟨below, .inl rfl, h.incrementFull hc hpc ‹_›⟩
    · obtain rfl := Option.some.inj hstep
      exact ⟨below, .inl rfl, h.increment hc hpc (Nat.lt_of_not_le ‹_›)⟩
  | store seg index =>
    rw [hpc] at hstep
    obtain rfl := Option.some.inj hstep
    exact ⟨below, .inl rfl, h.store hc hpc⟩
  | decrement seg currHead =>
    rw [hpc] at hstep
    obtain rfl := Option.some.inj hstep
    exact ⟨below, .inl rfl, h.decrement hc hpc⟩
  | newSegment currHead =>
    rw [hpc] at hstep
    obtain rfl := Option.some.inj hstep
    exact ⟨below, .inl rfl, h.newSegment hc hpc⟩
  | compareExchangeResult currHead newHead =>
    rw [hpc] at hstep hknows
    obtain rfl := Option.some.inj hstep
    by_cases hhead : s.dataHead = currHead
    · subst hhead
      exact ⟨s.dataHead :: below, .inr rfl, h.exchange hc hpc⟩
    · rw [exchange_of_ne hhead]
      refine ⟨below, .inl rfl, h.moveOn hc (by rw [hpc]; rfl) ?_ rfl⟩
      exact (List.mem_cons.1 hknows.1).resolve_left fun heq => hhead heq.symm
  | compareExchange currHead newHead =>
    rw [hpc] at hstep hknows
    obtain rfl := Option.some.inj hstep
    have hhead : s.dataHead ≠ currHead := fun heq =>
      (List.nodup_cons.1 h.shape.nodup).1 (heq ▸ hknows)
    rw [exchange_of_ne hhead]
    exact ⟨below, .inl rfl, h.moveOn hc (by rw [hpc]; rfl)
      ⟨List.mem_cons_self, List.mem_cons_of_mem _ hknows, .inr hknows⟩ rfl⟩
  | returned seg index =>
    rw [hpc] at hstep
    cases hstep

theorem Inv.step (h : Inv size below s) (hstep : s.step l = some t) :
    ∃ below', (below' = below ∨ below' = s.dataHead :: below) ∧ Inv size below' t := by
  cases l with
  | call item =>
    obtain rfl := Option.some.inj hstep
    exact ⟨below, .inl rfl, h.call item⟩
  | step i =>
    obtain ⟨c, hc, hcall⟩ := Option.bind_eq_some_iff.1 hstep
    exact h.stepCall hc hcall

theorem Inv.new (h : new segmentSize = some s) :
    Inv segmentSize.toNatClampNeg [] s ∧ 0 < segmentSize.toNatClampNeg := by
  unfold GrowingCollection.new at h
  split at h
  · cases h
  · rename_i hrange
    obtain rfl := Option.some.inj h
    refine ⟨⟨⟨fun _ => rfl, fun _ => List.length_replicate, ⟨rfl, rfl⟩, List.nodup_singleton _,
      ?_, nofun, fun _ _ => rfl⟩, valid_empty _ _, nofun, .nil⟩, ?_⟩
    · intro seg hseg
      obtain rfl := List.mem_singleton.1 hseg
      exact Nat.one_pos
    · have hpos : ¬ segmentSize.toInt < 1 := fun hlt =>
        hrange (.inl (Int32.lt_iff_toInt_lt.2 hlt))
      have hnat : segmentSize.toInt.toNat = segmentSize.toNatClampNeg := Int32.toNat_toInt _
      omega

/-- The invariant in every state. -/
theorem inv_of_run (h0 : new segmentSize = some s₀)
    (hrun : Run (stepOf GrowingCollection.step) s₀ ls s) :
    ∃ below, Inv segmentSize.toNatClampNeg below s := by
  refine hrun.invariant (I := fun s => ∃ below, Inv segmentSize.toNatClampNeg below s)
    (C := fun _ _ => True) ?_ (fun _ _ _ _ _ _ => trivial) ⟨[], (Inv.new h0).1⟩
  rintro s l t ⟨below, h⟩ - hstep
  obtain ⟨below', -, h'⟩ := h.step hstep
  exact ⟨below', h'⟩

end Runs

end GrowingCollection

end DdTrace.Collections
