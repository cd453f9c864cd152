import DdTrace.Collections.Enumerator
import DdTrace.Collections.Reservations

/-!
# GrowingCollection: what an enumeration yields

The slots that an enumerator has counted are one list, of which it has visited a part; each slot
ahead has been given to an `Add` call. It yields the items that are there when it reads them, so
the item of a slot that is read too early is missed for the default value.
-/

namespace DdTrace.Collections

open Lib Lib.Tickets

namespace GrowingCollection

variable {α : Type}

/-! ### The slots in their order -/

section Order

variable {size seg n k i : ℕ} {rest : List ℕ}

/-- The slots of a segment from the last one down. -/
def downFrom (seg n : ℕ) : List (ℕ × ℕ) := (List.range n).reverse.map fun i => (seg, i)

/-- The slots below `n` in the segment, and then all slots of the others. -/
def slotsDown (size seg n : ℕ) (rest : List ℕ) : List (ℕ × ℕ) :=
  downFrom seg n ++ rest.flatMap fun next => downFrom next size

theorem mem_downFrom : (k, i) ∈ downFrom seg n ↔ k = seg ∧ i < n := by
  unfold downFrom
  rw [List.mem_map]
  constructor
  · rintro ⟨j, hj, heq⟩
    cases heq
    exact ⟨rfl, List.mem_range.1 (List.mem_reverse.1 hj)⟩
  · rintro ⟨rfl, hi⟩
    exact ⟨i, List.mem_reverse.2 (List.mem_range.2 hi), rfl⟩

theorem mem_slotsDown :
    (k, i) ∈ slotsDown size seg n rest ↔ (k = seg ∧ i < n) ∨ (k ∈ rest ∧ i < size) := by
  unfold slotsDown
  rw [List.mem_append, mem_downFrom, List.mem_flatMap]
  refine or_congr_right ⟨?_, ?_⟩
  · rintro ⟨next, hnext, hmem⟩
    obtain ⟨rfl, hi⟩ := mem_downFrom.1 hmem
    exact ⟨hnext, hi⟩
  · rintro ⟨hk, hi⟩
    exact ⟨k, hk, mem_downFrom.2 ⟨rfl, hi⟩⟩

theorem nodup_downFrom (seg n : ℕ) : (downFrom seg n).Nodup := by
  unfold downFrom
  refine List.Nodup.map (fun i j heq => (Prod.mk.inj heq).2) ?_
  exact List.nodup_reverse.2 List.nodup_range

theorem nodup_slotsDown (h : (seg :: rest).Nodup) : (slotsDown size seg n rest).Nodup := by
  obtain ⟨hseg, hrest⟩ := List.nodup_cons.1 h
  refine List.nodup_append.2 ⟨nodup_downFrom seg n, ?_, ?_⟩
  · refine List.nodup_flatMap.2 ⟨fun next _ => nodup_downFrom next size, ?_⟩
    refine hrest.imp fun {next next'} hne => ?_
    rintro ⟨k, i⟩ hmem hmem'
    exact hne ((mem_downFrom.1 hmem).1.symm.trans (mem_downFrom.1 hmem').1)
  · rintro ⟨k, i⟩ hmem p hmem' rfl
    obtain ⟨next, hnext, hmem'⟩ := List.mem_flatMap.1 hmem'
    obtain rfl := (mem_downFrom.1 hmem).1
    obtain rfl := (mem_downFrom.1 hmem').1
    exact hseg hnext

theorem length_downFrom (seg n : ℕ) : (downFrom seg n).length = n := by
  unfold downFrom
  rw [List.length_map, List.length_reverse, List.length_range]

theorem length_slotsDown : (slotsDown size seg n rest).length = n + size * rest.length := by
  unfold slotsDown
  rw [List.length_append, length_downFrom]
  congr 1
  induction rest with
  | nil => rfl
  | cons next rest ih =>
    rw [List.flatMap_cons, List.length_append, length_downFrom, ih, List.length_cons]
    ring

theorem slotsDown_succ :
    slotsDown size seg (n + 1) rest = (seg, n) :: slotsDown size seg n rest := by
  unfold slotsDown downFrom
  rw [List.range_succ, List.reverse_append]
  rfl

theorem slotsDown_zero_cons (next : ℕ) :
    slotsDown size seg 0 (next :: rest) = slotsDown size next size rest := rfl

end Order

/-! ### What an enumerator relies on -/

/-- The segments from `head` down, all full below it. -/
structure Chain (size : ℕ) (s : GrowingCollection α) (head : ℕ) (rest : List ℕ) : Prop where
  links : Links s.segments size (head :: rest)
  nodup : (head :: rest).Nodup
  allocated : ∀ seg ∈ head :: rest, seg < s.allocated
  full : ∀ seg ∈ rest, size ≤ s.localCount seg

/-- The slots in `visited` have been yielded; those in `ahead` will be. -/
structure Tour (found : List (α × ℕ × ℕ)) (s : GrowingCollection α) (yielded : List α)
    (visited ahead : List (ℕ × ℕ)) : Prop where
  nodup : (visited ++ ahead).Nodup
  given : ∀ p ∈ ahead, p ∈ slots s.holders
  filled : ∀ p ∈ visited, ∃ a, (a, p) ∈ stored s.holders
  datum : yielded.map some = visited.map fun p => s.datum p.1 p.2
  covers : ∀ b ∈ found, b ∈ stored s.holders ∧ b.2 ∈ visited ++ ahead

/-- The count of all slots, of which there are no more than `bound`. -/
def Counts (bound : ℕ) (count : ℤ) (visited ahead : List (ℕ × ℕ)) : Prop :=
  count = int32 ((visited ++ ahead).length : ℕ) ∧ (visited ++ ahead).length ≤ bound

/-- Between two elements. -/
structure Between (size bound : ℕ) (found : List (α × ℕ × ℕ)) (s : GrowingCollection α)
    (e : Enumerator α) (visited : List (ℕ × ℕ)) (n : ℕ) (rest : List ℕ) : Prop where
  chain : Chain size s e.currentSegment rest
  offset : e.currentSegmentOffset = n
  tour : Tour found s e.yielded visited (slotsDown size e.currentSegment n rest)
  counts : Counts bound e.count visited (slotsDown size e.currentSegment n rest)

/-- At an element. -/
structure AtItem (size bound : ℕ) (found : List (α × ℕ × ℕ)) (s : GrowingCollection α)
    (e : Enumerator α) (visited : List (ℕ × ℕ)) (n : ℕ) (rest : List ℕ) : Prop where
  chain : Chain size s e.currentSegment rest
  offset : e.currentSegmentOffset = n
  tour : Tour found s e.yielded visited (slotsDown size e.currentSegment (n + 1) rest)
  counts : Counts bound e.count visited (slotsDown size e.currentSegment (n + 1) rest)

/-- What holds of an enumerator. The items in `found` have been there before it. -/
def Enumerates (size bound : ℕ) (found : List (α × ℕ × ℕ)) (s : GrowingCollection α)
    (e : Enumerator α) : Prop :=
  match e.pc with
  | .getEnumerator => e.yielded = [] ∧ ∀ b ∈ found, b ∈ stored s.holders
  | .localCount => e.yielded = [] ∧ e.currentSegment = e.head ∧ ∃ rest, Chain size s e.head rest ∧
    ∀ b ∈ found, b ∈ stored s.holders ∧ b.2.1 ∈ e.head :: rest
  | .nextGlobalCount => e.currentSegment = e.head ∧ e.currentSegmentOffset = e.headOffset ∧
    ∃ n rest, e.headOffset = (n : ℕ) ∧ Chain size s e.head rest ∧
      Tour found s e.yielded [] (slotsDown size e.head n rest)
  | .moveNext => ∃ visited n rest, Between size bound found s e visited n rest
  | .checkIndex | .readItem => ∃ visited n rest, AtItem size bound found s e visited n rest
  | .finished => ∃ visited, Tour found s e.yielded visited [] ∧
    Counts bound e.count visited []
  | .threw => False

section Steps

variable {s t : GrowingCollection α} {e e' : Enumerator α} {below below' : List ℕ}
  {size bound head n seg : ℕ} {rest : List ℕ} {found : List (α × ℕ × ℕ)}
  {visited ahead : List (ℕ × ℕ)} {p : ℕ × ℕ} {yielded : List α}

theorem Shape.chain (h : Shape size below s) : Chain size s s.dataHead below :=
  ⟨h.links, h.nodup, h.allocated, h.full⟩

theorem Chain.next (h : Chain size s head (seg :: rest)) : Chain size s seg rest where
  links := h.links.2.2
  nodup := (List.nodup_cons.1 h.nodup).2
  allocated k hk := h.allocated k (List.mem_cons_of_mem _ hk)
  full k hk := h.full k (List.mem_cons_of_mem _ hk)

/-! ### Steps of the Add calls -/

variable [Inhabited α]

theorem Chain.add {l : Label α} (h : Chain size s head rest) (hinv : Inv size below s)
    (hinv' : Inv size below' t) (hstep : s.step l = some t) : Chain size t head rest where
  links := by
    obtain ⟨-, hsame⟩ := step_heap hstep
    exact h.links.congr fun seg hseg => hsame seg (h.allocated seg hseg)
  nodup := h.nodup
  allocated seg hseg := (h.allocated seg hseg).trans_le (step_heap hstep).1
  full seg hseg := hinv.full_step hinv' hstep (h.full seg hseg)

omit [Inhabited α] in
theorem datum_of_stored {a : α} (h : Valid size s.localCount s.datum s.holders)
    (ha : (a, p) ∈ stored s.holders) : s.datum p.1 p.2 = some a :=
  h.kept a p.1 p.2 (mem_stored.1 ha)

theorem Tour.add {l : Label α} (h : Tour found s yielded visited ahead) (hinv : Inv size below s)
    (hinv' : Inv size below' t) (hstep : s.step l = some t) :
    Tour found t yielded visited ahead where
  nodup := h.nodup
  given p hp := slots_step hstep (h.given p hp)
  filled p hp := by
    obtain ⟨a, ha⟩ := h.filled p hp
    exact ⟨a, stored_step hstep ha⟩
  datum := by
    rw [h.datum]
    refine List.map_congr_left fun p hp => ?_
    obtain ⟨a, ha⟩ := h.filled p hp
    rw [datum_of_stored hinv.tickets ha, datum_of_stored hinv'.tickets (stored_step hstep ha)]
  covers b hb := ⟨stored_step hstep (h.covers b hb).1, (h.covers b hb).2⟩

theorem Between.add {l : Label α} (h : Between size bound found s e visited n rest)
    (hinv : Inv size below s) (hinv' : Inv size below' t) (hstep : s.step l = some t) :
    Between size bound found t e visited n rest :=
  ⟨h.chain.add hinv hinv' hstep, h.offset, h.tour.add hinv hinv' hstep, h.counts⟩

theorem AtItem.add {l : Label α} (h : AtItem size bound found s e visited n rest)
    (hinv : Inv size below s) (hinv' : Inv size below' t) (hstep : s.step l = some t) :
    AtItem size bound found t e visited n rest :=
  ⟨h.chain.add hinv hinv' hstep, h.offset, h.tour.add hinv hinv' hstep, h.counts⟩

theorem Enumerates.add {l : Label α} (h : Enumerates size bound found s e)
    (hinv : Inv size below s) (hinv' : Inv size below' t) (hstep : s.step l = some t) :
    Enumerates size bound found t e := by
  unfold Enumerates at h ⊢
  cases hpc : e.pc with
  | getEnumerator =>
    rw [hpc] at h
    exact ⟨h.1, fun b hb => stored_step hstep (h.2 b hb)⟩
  | localCount =>
    rw [hpc] at h
    obtain ⟨hyielded, hhead, rest, hchain, hfound⟩ := h
    exact ⟨hyielded, hhead, rest, hchain.add hinv hinv' hstep,
      fun b hb => ⟨stored_step hstep (hfound b hb).1, (hfound b hb).2⟩⟩
  | nextGlobalCount =>
    rw [hpc] at h
    obtain ⟨hhead, hoffset, n, rest, hn, hchain, htour⟩ := h
    exact ⟨hhead, hoffset, n, rest, hn, hchain.add hinv hinv' hstep, htour.add hinv hinv' hstep⟩
  | moveNext =>
    rw [hpc] at h
    obtain ⟨visited, n, rest, hbetween⟩ := h
    exact ⟨visited, n, rest, hbetween.add hinv hinv' hstep⟩
  | checkIndex =>
    rw [hpc] at h
    obtain ⟨visited, n, rest, hitem⟩ := h
    exact ⟨visited, n, rest, hitem.add hinv hinv' hstep⟩
  | readItem =>
    rw [hpc] at h
    obtain ⟨visited, n, rest, hitem⟩ := h
    exact ⟨visited, n, rest, hitem.add hinv hinv' hstep⟩
  | finished =>
    rw [hpc] at h
    obtain ⟨visited, htour, hcounts⟩ := h
    exact ⟨visited, htour.add hinv hinv' hstep, hcounts⟩
  | threw =>
    rw [hpc] at h
    exact h

/-! ### Steps of the enumerator -/

omit [Inhabited α]

theorem Inv.localCountOf (hinv : Inv size below s) (seg : ℕ) :
    (s.segments seg).localCountOf = min (s.localCount seg) size := by
  show min _ (s.segments seg).segmentSize = _
  rw [hinv.shape.segmentSize]
  rfl

theorem Chain.localCountOf (h : Chain size s head rest) (hinv : Inv size below s)
    (hseg : seg ∈ rest) : (s.segments seg).localCountOf = size := by
  rw [hinv.localCountOf]
  exact Nat.min_eq_right (h.full seg hseg)

/-- What is stored when the head is read is in a linked segment. -/
theorem Inv.stored_linked (hinv : Inv size below s) {b : α × ℕ × ℕ}
    (hb : b ∈ stored s.holders) : b.2.1 ∈ s.linked below := by
  obtain ⟨a, k, i⟩ := b
  have hslot := (hinv.tickets.mem_slots k i).1 (slot_of_stored hb)
  by_contra hnot
  have hzero := hinv.shape.empty k hnot
  omega

/-- Once the count of the head is read, all the slots to visit are known. -/
theorem Chain.tour (h : Chain size s head rest) (hinv : Inv size below s)
    (hfound : ∀ b ∈ found, b ∈ stored s.holders ∧ b.2.1 ∈ head :: rest) :
    Tour found s [] [] (slotsDown size head (s.segments head).localCountOf rest) where
  nodup := nodup_slotsDown h.nodup
  given := by
    rintro ⟨k, i⟩ hp
    rw [hinv.tickets.mem_slots]
    obtain ⟨rfl, hi⟩ | ⟨hk, hi⟩ := mem_slotsDown.1 hp
    · rwa [hinv.localCountOf] at hi
    · have hfull := h.full k hk
      omega
  filled _ hp := by cases hp
  datum := rfl
  covers := by
    rintro ⟨a, k, i⟩ hb
    obtain ⟨hstored, hk⟩ := hfound _ hb
    have hslot := (hinv.tickets.mem_slots k i).1 (slot_of_stored hstored)
    refine ⟨hstored, mem_slotsDown.2 ?_⟩
    obtain rfl | hk := List.mem_cons.1 hk
    · rw [hinv.localCountOf]
      exact .inl ⟨rfl, hslot⟩
    · exact .inr ⟨hk, by omega⟩

theorem Tour.length_le (h : Tour found s yielded visited ahead) :
    (visited ++ ahead).length ≤ s.calls.length := by
  have hsub : (visited ++ ahead).Subperm (slots s.holders) := by
    refine List.subperm_of_subset h.nodup fun p hp => ?_
    obtain hp | hp := List.mem_append.1 hp
    · obtain ⟨a, ha⟩ := h.filled p hp
      exact slot_of_stored ha
    · exact h.given p hp
  have hslots : (slots s.holders).length ≤ s.holders.length := List.length_filterMap_le _ _
  have hholders : s.holders.length = s.calls.length := List.length_map _
  have hlength := hsub.length_le
  omega

/-- What the constructor adds to the count of the head. -/
theorem Chain.nextGlobalCount (h : Chain size s head rest) (hinv : Inv size below s) (n : ℕ) :
    int32 (n + s.nextGlobalCount head) = int32 ((slotsDown size head n rest).length : ℕ) := by
  rw [length_slotsDown]
  unfold GrowingCollection.nextGlobalCount
  have hlinks := h.links
  cases rest with
  | nil =>
    rw [hlinks.1]
    rfl
  | cons next rest =>
    rw [hlinks.1]
    show int32 (n + int32 ((s.segments next).localCountOf +
      (s.segments next).nextSegmentGlobalCount)) = _
    rw [h.localCountOf hinv List.mem_cons_self, hlinks.2.2.count, int32_add_int32, ← add_assoc,
      int32_add_int32, List.length_cons]
    congr 1
    push_cast
    ring

/-! ### One element -/

/-- `MoveNext` goes to the next slot, or there is none. -/
theorem Between.moveNext (h : Between size bound found s e visited n rest)
    (hinv : Inv size below s) (hpos : 0 < size) :
    (slotsDown size e.currentSegment n rest = [] ∧ e.moveNext s = { e with pc := .finished }) ∨
      ∃ m rest', slotsDown size (e.moveNext s).currentSegment (m + 1) rest' =
          slotsDown size e.currentSegment n rest ∧ (e.moveNext s).pc = .checkIndex ∧
        AtItem size bound found s (e.moveNext s) visited m rest' := by
  obtain ⟨hchain, hoffset, htour, hcounts⟩ := h
  unfold Enumerator.moveNext
  cases n with
  | succ m =>
    rw [if_neg (by omega)]
    refine .inr ⟨m, rest, rfl, rfl, hchain, ?_, htour, hcounts⟩
    show e.currentSegmentOffset - 1 = m
    omega
  | zero =>
    rw [if_pos (show e.currentSegmentOffset = 0 from hoffset)]
    cases rest with
    | nil =>
      rw [hchain.links.1]
      exact .inl ⟨rfl, rfl⟩
    | cons next rest =>
      have hcount := hchain.localCountOf hinv List.mem_cons_self
      have hsize : size - 1 + 1 = size := Nat.sub_add_cancel hpos
      rw [hchain.links.1]
      refine .inr ⟨size - 1, rest, ?_, rfl, hchain.next, ?_, ?_, ?_⟩
      · rw [hsize, slotsDown_zero_cons]
      · show ((s.segments next).localCountOf : ℤ) - 1 = (size - 1 : ℕ)
        omega
      · rw [hsize]
        exact htour
      · rw [hsize]
        exact hcounts

theorem AtItem.given (h : AtItem size bound found s e visited n rest) :
    (e.currentSegment, n) ∈ slots s.holders := by
  refine h.tour.given _ ?_
  rw [slotsDown_succ]
  exact List.mem_cons_self

/-- A slot that is counted is in range. -/
theorem AtItem.checkIndex (h : AtItem size bound found s e visited n rest)
    (hinv : Inv size below s) : e.checkIndex s = { e with pc := .readItem } := by
  have hslot := (hinv.tickets.mem_slots e.currentSegment n).1 h.given
  have hcount : n < (s.segments e.currentSegment).localCount := by
    have hlt : n < s.localCount e.currentSegment := by omega
    exact hlt
  have hsize := hinv.shape.segmentSize e.currentSegment
  have hoffset := h.offset
  unfold Enumerator.checkIndex
  dsimp only
  rw [if_neg (by omega)]

/-- A call that has a slot and is not in front of its store has stored its item there. -/
theorem stored_of_slot (hslot : p ∈ slots s.holders)
    (hsettled : ∀ c ∈ s.calls, c.pc ≠ .store p.1 p.2) : ∃ a, (a, p) ∈ stored s.holders := by
  obtain ⟨d, hd, heq⟩ := List.mem_filterMap.1 hslot
  obtain ⟨c, hc, rfl⟩ := List.mem_map.1 hd
  refine ⟨c.item, mem_stored.2 (List.mem_map.2 ⟨c, hc, ?_⟩)⟩
  unfold AddCall.holder at heq ⊢
  cases hpc : c.pc with
  | store seg index =>
    rw [hpc] at heq
    obtain rfl := Option.some.inj heq
    exact absurd hpc (hsettled c hc)
  | returned seg index =>
    rw [hpc] at heq
    obtain rfl := Option.some.inj heq
    rfl
  | _ =>
    rw [hpc] at heq
    cases heq

theorem AtItem.readItem (h : AtItem size bound found s e visited n rest)
    (hinv : Inv size below s) (hsettled : ∀ c ∈ s.calls, c.pc ≠ .store e.currentSegment n) :
    (e.readItem s).pc = .moveNext ∧ (e.readItem s).currentSegment = e.currentSegment ∧
      Between size bound found s (e.readItem s) (visited ++ [(e.currentSegment, n)]) n rest := by
  obtain ⟨a, ha⟩ := stored_of_slot h.given hsettled
  have hdatum : (s.segments e.currentSegment).data[e.currentSegmentOffset.toNat]? = some a := by
    rw [h.offset]
    exact datum_of_stored hinv.tickets ha
  obtain ⟨hchain, hoffset, htour, hcounts⟩ := h
  rw [slotsDown_succ] at htour hcounts
  unfold Counts at hcounts
  rw [List.append_cons] at hcounts
  unfold Enumerator.readItem
  rw [hdatum]
  refine ⟨rfl, rfl, hchain, hoffset, ⟨?_, ?_, ?_, ?_, ?_⟩, hcounts⟩
  · rw [← List.append_cons]
    exact htour.nodup
  · intro p hp
    exact htour.given p (List.mem_cons_of_mem _ hp)
  · intro p hp
    obtain hp | hp := List.mem_append.1 hp
    · exact htour.filled p hp
    · obtain rfl := List.mem_singleton.1 hp
      exact ⟨a, ha⟩
  · have hlast : s.datum e.currentSegment n = some a := datum_of_stored hinv.tickets ha
    rw [List.map_append, List.map_append, htour.datum, List.map_singleton, List.map_singleton,
      hlast]
  · rw [← List.append_cons]
    exact htour.covers

/-- A step of the enumerator. -/
theorem Enumerates.step (h : Enumerates size bound found s e) (hinv : Inv size below s)
    (hpos : 0 < size) (hsettled : Settled bound (s, e) .enumerate) (hstep : e.step s = some e') :
    Enumerates size bound found s e' := by
  unfold Enumerates at h
  unfold Settled at hsettled
  unfold Enumerator.step at hstep
  cases hpc : e.pc with
  | getEnumerator =>
    rw [hpc] at h hstep
    obtain rfl := Option.some.inj hstep
    exact ⟨h.1, rfl, below, hinv.shape.chain,
      fun b hb => ⟨h.2 b hb, hinv.stored_linked (h.2 b hb)⟩⟩
  | localCount =>
    rw [hpc] at h hstep
    obtain ⟨hyielded, hhead, rest, hchain, hfound⟩ := h
    obtain rfl := Option.some.inj hstep
    have htour := hchain.tour hinv hfound
    rw [← hyielded] at htour
    exact ⟨hhead, rfl, _, rest, rfl, hchain, htour⟩
  | nextGlobalCount =>
    rw [hpc] at h hstep
    dsimp only at hsettled
    rw [hpc] at hsettled
    obtain ⟨hhead, hoffset, n, rest, hn, hchain, htour⟩ := h
    obtain rfl := Option.some.inj hstep
    have hcount := hchain.nextGlobalCount hinv n
    rw [← hn] at hcount
    rw [← hhead] at hchain htour
    refine ⟨[], n, rest, hchain, hoffset.trans hn, htour, ?_, htour.length_le.trans hsettled⟩
    show int32 (e.headOffset + s.nextGlobalCount e.head) =
      int32 ((slotsDown size e.currentSegment n rest).length : ℕ)
    rw [hcount, hhead]
  | moveNext =>
    rw [hpc] at h hstep
    obtain ⟨visited, n, rest, hbetween⟩ := h
    obtain rfl := Option.some.inj hstep
    obtain ⟨hnil, heq⟩ | ⟨m, rest', -, hnext, hitem⟩ := hbetween.moveNext hinv hpos
    · obtain ⟨-, -, htour, hcounts⟩ := hbetween
      rw [hnil] at htour hcounts
      rw [heq]
      exact ⟨visited, htour, hcounts⟩
    · unfold Enumerates
      rw [hnext]
      exact ⟨visited, m, rest', hitem⟩
  | checkIndex =>
    rw [hpc] at h hstep
    obtain ⟨visited, n, rest, hitem⟩ := h
    obtain rfl := Option.some.inj hstep
    rw [hitem.checkIndex hinv]
    exact ⟨visited, n, rest, hitem.chain, hitem.offset, hitem.tour, hitem.counts⟩
  | readItem =>
    rw [hpc] at h hstep
    dsimp only at hsettled
    rw [hpc] at hsettled
    obtain ⟨visited, n, rest, hitem⟩ := h
    obtain rfl := Option.some.inj hstep
    have hoffset : e.currentSegmentOffset.toNat = n := by
      rw [hitem.offset]
      rfl
    have hstores : ∀ c ∈ s.calls, c.pc ≠ .store e.currentSegment e.currentSegmentOffset.toNat :=
      hsettled
    rw [hoffset] at hstores
    obtain ⟨hnext, -, hbetween⟩ := hitem.readItem hinv hstores
    unfold Enumerates
    rw [hnext]
    exact ⟨_, n, rest, hbetween⟩
  | finished =>
    rw [hpc] at hstep
    cases hstep
  | threw =>
    rw [hpc] at hstep
    cases hstep

/-! ### What has been yielded -/

theorem stored_returnedItems (s : GrowingCollection α) :
    (stored s.holders).map Prod.fst = s.returnedItems := by
  unfold stored holders returnedItems
  rw [List.filterMap_map, List.map_filterMap]
  refine List.filterMap_congr fun c _ => ?_
  unfold AddCall.holder
  cases hpc : c.pc with
  | _ =>
    dsimp only [Function.comp_apply]
    rw [hpc]
    rfl

theorem Enumerates.tour (h : Enumerates size bound found s e) :
    e.yielded = [] ∨ ∃ visited ahead, Tour found s e.yielded visited ahead := by
  unfold Enumerates at h
  cases hpc : e.pc with
  | getEnumerator =>
    rw [hpc] at h
    exact .inl h.1
  | localCount =>
    rw [hpc] at h
    exact .inl h.1
  | nextGlobalCount =>
    rw [hpc] at h
    obtain ⟨-, -, n, rest, -, -, htour⟩ := h
    exact .inr ⟨_, _, htour⟩
  | moveNext =>
    rw [hpc] at h
    obtain ⟨visited, n, rest, hbetween⟩ := h
    exact .inr ⟨_, _, hbetween.tour⟩
  | checkIndex =>
    rw [hpc] at h
    obtain ⟨visited, n, rest, hitem⟩ := h
    exact .inr ⟨_, _, hitem.tour⟩
  | readItem =>
    rw [hpc] at h
    obtain ⟨visited, n, rest, hitem⟩ := h
    exact .inr ⟨_, _, hitem.tour⟩
  | finished =>
    rw [hpc] at h
    obtain ⟨visited, htour, -⟩ := h
    exact .inr ⟨_, _, htour⟩
  | threw =>
    rw [hpc] at h
    exact h.elim

/-- Nothing is yielded that was not added, and nothing twice. -/
theorem Tour.yielded_subperm (h : Tour found s yielded visited ahead)
    (hinv : Inv size below s) : yielded.Subperm (s.calls.map AddCall.item) := by
  have hnodup : visited.Nodup := h.nodup.of_append_left
  have hsub := hinv.tickets.subperm_items hnodup h.filled
  rw [← h.datum] at hsub
  have hitems : (s.holders.map fun h => some h.1) = (s.calls.map AddCall.item).map some := by
    unfold holders
    rw [List.map_map, List.map_map]
    rfl
  rw [hitems] at hsub
  exact subperm_of_map_some hsub

/-- At the end, all items that were there before have been yielded. -/
theorem Tour.found_subperm (h : Tour found s yielded visited []) (hinv : Inv size below s)
    (hnodup : (found.map Prod.snd).Nodup) : (found.map Prod.fst).Subperm yielded := by
  have hsub := hinv.tickets.items_subperm hnodup h.covers
  rw [List.append_nil, ← h.datum] at hsub
  have hitems : (found.map fun b => some b.1) = (found.map Prod.fst).map some := by
    rw [List.map_map]
    rfl
  rw [hitems] at hsub
  exact subperm_of_map_some hsub

theorem Enumerates.finished (h : Enumerates size bound found s e) (hinv : Inv size below s)
    (hnodup : (found.map Prod.snd).Nodup) (hpc : e.pc = .finished) :
    (found.map Prod.fst).Subperm e.yielded ∧ e.count = int32 (e.yielded.length : ℕ) ∧
      e.yielded.length ≤ bound := by
  unfold Enumerates at h
  rw [hpc] at h
  obtain ⟨visited, htour, hcount, hbound⟩ := h
  have hlength : visited.length = e.yielded.length := by
    have hmap := congrArg List.length htour.datum
    rw [List.length_map, List.length_map] at hmap
    exact hmap.symm
  rw [List.append_nil, hlength] at hcount hbound
  exact ⟨htour.found_subperm hinv hnodup, hcount, hbound⟩

end Steps

/-! ### Runs with an enumerator -/

section Runs

variable [Inhabited α] {segmentSize : Int32} {s₀ s₁ s₂ s : GrowingCollection α}
  {e : Enumerator α} {ls₀ : List (Label α)} {ls : List (EnumerationLabel α)} {bound : ℕ}

theorem enumerates_of_run (h0 : new segmentSize = some s₀)
    (hadds : Run (stepOf step) s₀ ls₀ s₁)
    (hrun : Run (stepOf enumerationStep) (s₁, .start) ls (s₂, e))
    (hsettled : EachStep (stepOf enumerationStep) (Settled bound) (s₁, .start) ls) :
    ∃ below, Inv segmentSize.toNatClampNeg below s₂ ∧
      Enumerates segmentSize.toNatClampNeg bound (stored s₁.holders) s₂ e := by
  obtain ⟨below, hinv⟩ := inv_of_run h0 hadds
  have hpos := (Inv.new h0).2
  refine hrun.invariant (C := Settled bound) (I := fun p => ∃ below,
    Inv segmentSize.toNatClampNeg below p.1 ∧
      Enumerates segmentSize.toNatClampNeg bound (stored s₁.holders) p.1 p.2) ?_ hsettled
    ⟨below, hinv, rfl, fun b hb => hb⟩
  rintro ⟨s, e⟩ l q ⟨below, hinv, henum⟩ hsettled hstep
  cases l with
  | add l =>
    obtain ⟨t, hadd, rfl⟩ := Option.map_eq_some_iff.1 hstep
    obtain ⟨below', -, hinv'⟩ := hinv.step hadd
    exact ⟨below', hinv', henum.add hinv hinv' hadd⟩
  | enumerate =>
    obtain ⟨e', hnext, rfl⟩ := Option.map_eq_some_iff.1 hstep
    exact ⟨below, hinv, henum.step hinv hpos hsettled hnext⟩

/-- Where the calls have returned, an enumeration that runs alone reads no slot too early. -/
theorem settled_enumerate (hreturned : ∀ c ∈ s.calls, ∃ seg index, c.pc = .returned seg index)
    (hbound : s.calls.length ≤ bound) (e : Enumerator α) (n : ℕ) :
    EachStep (stepOf enumerationStep) (Settled bound) (s, e) (List.replicate n .enumerate) := by
  induction n generalizing e with
  | zero => exact eachStep_nil
  | succ n ih =>
    rw [List.replicate_succ, eachStep_cons]
    constructor
    · refine settled_enumerate_iff.2 ⟨fun _ => hbound, fun _ c hc heq => ?_⟩
      obtain ⟨seg, index, hpc⟩ := hreturned c hc
      rw [hpc] at heq
      cases heq
    · intro p hstep
      obtain ⟨e', -, rfl⟩ := Option.map_eq_some_iff.1 hstep
      exact ih e'

/-- An enumeration is resilient to additions in every state of every run in which no slot is read
before its item is stored, and in which no more items are counted than an `int` can hold. -/
theorem resilient_of_settled (h0 : new segmentSize = some s₀)
    (hadds : Run (stepOf step) s₀ ls₀ s₁)
    (hrun : Run (stepOf enumerationStep) (s₁, .start) ls (s₂, e))
    (hsettled : EachStep (stepOf enumerationStep) (Settled (2 ^ 31 - 1)) (s₁, .start) ls) :
    Resilient s₁ s₂ e := by
  obtain ⟨below, hinv, henum⟩ := enumerates_of_run h0 hadds hrun hsettled
  obtain ⟨below₁, hinv₁⟩ := inv_of_run h0 hadds
  have hnodup : ((stored s₁.holders).map Prod.snd).Nodup :=
    hinv₁.tickets.nodup.sublist (stored_slots _)
  have hfinished : e.pc = .finished → s₁.returnedItems.Subperm e.yielded ∧
      e.count = e.yielded.length := by
    intro hpc
    obtain ⟨hfound, hcount, hbound⟩ := henum.finished hinv hnodup hpc
    rw [stored_returnedItems] at hfound
    exact ⟨hfound, hcount.trans (int32_eq (by omega) (by omega))⟩
  refine ⟨fun hpc => ?_, ?_, fun hpc => (hfinished hpc).1, fun hpc => (hfinished hpc).2⟩
  · unfold Enumerates at henum
    rw [hpc] at henum
    exact henum
  · obtain hnil | ⟨visited, ahead, htour⟩ := henum.tour
    · rw [hnil]
      exact List.nil_subperm
    · exact htour.yielded_subperm hinv

/-- `Add(8)` reserves its slot before the enumerator counts it and stores the item before the
slot is read; `Add(9)` begins a segment that the enumerator does not come to. -/
def duringAdds : List (EnumerationLabel ℕ) :=
  [.add (.call 8), .add (.step 1), .add (.step 1), .enumerate, .enumerate, .add (.step 1),
    .enumerate, .add (.call 9), .add (.step 2), .enumerate, .add (.step 2), .add (.step 2),
    .enumerate, .add (.step 2), .enumerate, .add (.step 2), .enumerate, .add (.step 2),
    .enumerate, .add (.step 2), .enumerate, .add (.step 2), .enumerate]

/-- An item is added, and then the collection is enumerated while two more are. -/
theorem resilient_of_settled_one : ∃ (s₁ s₂ : GrowingCollection ℕ) (e : Enumerator ℕ),
    s₁.returnedItems = [7] ∧ s₂.returnedItems = [7, 8, 9] ∧ e.pc = .finished ∧
      e.yielded = [8, 7] ∧ Resilient s₁ s₂ e := by
  obtain ⟨s₀, s₁, s₂, e, h0, hadds, hrun, hsettled, hreturned⟩ :
      ∃ (s₀ s₁ s₂ : GrowingCollection ℕ) (e : Enumerator ℕ), new (2 : Int32) = some s₀ ∧
        Run (stepOf step) s₀ [.call 7, .step 0, .step 0, .step 0] s₁ ∧
        Run (stepOf enumerationStep) (s₁, .start) duringAdds (s₂, e) ∧
        checkSteps enumerationStep (fun p l => decide (Settled (2 ^ 31 - 1) p l)) (s₁, .start)
          duringAdds = true ∧
        s₁.returnedItems = [7] ∧ s₂.returnedItems = [7, 8, 9] ∧ e.pc = .finished ∧
          e.yielded = [8, 7] :=
    ⟨_, _, _, _, rfl, run_of_foldlM rfl, run_of_foldlM rfl, by decide, rfl, rfl, rfl, rfl⟩
  exact ⟨s₁, s₂, e, hreturned.1, hreturned.2.1, hreturned.2.2.1, hreturned.2.2.2,
    resilient_of_settled h0 hadds hrun fun before l after p heq hrun =>
      of_decide_eq_true (eachStep_of_check hsettled before l after p heq hrun)⟩

/-- `Add(7)` has its slot and has not stored the item: the enumerator yields the default value. -/
theorem enumeration_not_resilient : ¬ ∀ (segmentSize : Int32) (s₀ s₁ s₂ : GrowingCollection ℕ)
    (e : Enumerator ℕ) (ls₀ : List (Label ℕ)) (ls : List (EnumerationLabel ℕ)),
    new segmentSize = some s₀ → Run (stepOf step) s₀ ls₀ s₁ →
      Run (stepOf enumerationStep) (s₁, .start) ls (s₂, e) → Resilient s₁ s₂ e := by
  intro hclaim
  obtain ⟨s₀, s, e, h0, hadds, hrun, hitems, hyielded⟩ :
      ∃ (s₀ s : GrowingCollection ℕ) (e : Enumerator ℕ), new (1 : Int32) = some s₀ ∧
        Run (stepOf step) s₀ [.call 7, .step 0, .step 0] s ∧
        Run (stepOf enumerationStep) (s, .start) (List.replicate 6 .enumerate) (s, e) ∧
        s.calls.map AddCall.item = [7] ∧ e.yielded = [0] :=
    ⟨_, _, _, rfl, run_of_foldlM rfl, run_of_foldlM rfl, rfl, rfl⟩
  have hstarted := (hclaim 1 s₀ s s e _ _ h0 hadds hrun).started
  rw [hitems, hyielded] at hstarted
  have hmem := hstarted.subset (List.mem_singleton_self 0)
  cases List.mem_singleton.1 hmem

end Runs

end GrowingCollection

end DdTrace.Collections
