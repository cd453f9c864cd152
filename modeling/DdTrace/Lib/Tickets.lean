import Mathlib.Data.List.Nodup
import Mathlib.Data.List.Perm.Subperm
import Mathlib.Logic.Function.Basic

/-!
# Slots taken by counters

Counters of one capacity hand out the slots of one array each. A holder increments a counter and
has the slot of the old count, or, when that is past the capacity, has to undo the increment;
then it stores its item in its slot. `Valid` says that the slots below the counts, and only
those, have been given, each to one holder. The rules give what each step keeps; what the
holders have stored is what the arrays have in the slots (`Valid.subperm_items`).
-/

namespace DdTrace.Lib.Tickets

variable {κ α : Type*}

inductive Holding (κ : Type*) where
  | nothing
  | undoing (k : κ)
  | reserved (k : κ) (i : ℕ)
  | stored (k : κ) (i : ℕ)
  deriving DecidableEq

namespace Holding

def slot : Holding κ → Option (κ × ℕ)
  | reserved k i | stored k i => some (k, i)
  | _ => none

def storedSlot : Holding κ → Option (κ × ℕ)
  | stored k i => some (k, i)
  | _ => none

def undoes [DecidableEq κ] (k : κ) : Holding κ → Bool
  | undoing j => j = k
  | _ => false

theorem slot_of_storedSlot {h : Holding κ} {p : κ × ℕ} (hp : h.storedSlot = some p) :
    h.slot = some p := by
  cases h with
  | stored k i => exact hp
  | _ => cases hp

end Holding

open Holding

/-- The slots that have been given. -/
def slots (holders : List (α × Holding κ)) : List (κ × ℕ) := holders.filterMap fun h => h.2.slot

/-- The items that are stored, with their slots. -/
def stored (holders : List (α × Holding κ)) : List (α × κ × ℕ) :=
  holders.filterMap fun h => h.2.storedSlot.map fun p => (h.1, p)

/-- How many have an increment of the counter to undo. -/
def undoers [DecidableEq κ] (k : κ) (holders : List (α × Holding κ)) : ℕ :=
  holders.countP fun h => h.2.undoes k

structure Valid [DecidableEq κ] (capacity : ℕ) (count : κ → ℕ) (data : κ → ℕ → Option α)
    (holders : List (α × Holding κ)) : Prop where
  counted : ∀ k, count k = min (count k) capacity + undoers k holders
  nodup : (slots holders).Nodup
  mem_slots : ∀ k i, (k, i) ∈ slots holders ↔ i < min (count k) capacity
  kept : ∀ a k i, (a, .stored k i) ∈ holders → data k i = some a

section Rules

variable [DecidableEq κ] {capacity : ℕ} {count : κ → ℕ} {data data' : κ → ℕ → Option α}
  {holders holders' rest : List (α × Holding κ)} {a : α} {j k : κ} {i : ℕ}

@[simp] theorem undoers_nothing : undoers k ((a, .nothing) :: rest) = undoers k rest := rfl

@[simp] theorem undoers_reserved : undoers k ((a, .reserved j i) :: rest) = undoers k rest := rfl

@[simp] theorem undoers_stored : undoers k ((a, .stored j i) :: rest) = undoers k rest := rfl

@[simp] theorem undoers_undoing : undoers k ((a, .undoing k) :: rest) = undoers k rest + 1 := by
  unfold undoers
  exact List.countP_cons_of_pos (decide_eq_true rfl)

theorem undoers_undoing_of_ne (h : j ≠ k) :
    undoers k ((a, .undoing j) :: rest) = undoers k rest := by
  unfold undoers
  exact List.countP_cons_of_neg fun heq => h (of_decide_eq_true heq)

theorem valid_empty (capacity : ℕ) (data : κ → ℕ → Option α) :
    Valid capacity (fun _ => 0) data [] where
  counted _ := by rw [Nat.zero_min]; rfl
  nodup := .nil
  mem_slots _ _ := by simp [slots]
  kept _ _ _ h := by cases h

theorem Valid.perm (h : Valid capacity count data holders) (hp : holders.Perm holders') :
    Valid capacity count data holders' where
  counted k := (h.counted k).trans (congrArg _ (hp.countP_eq _))
  nodup := (hp.filterMap _).nodup_iff.1 h.nodup
  mem_slots k i := ((hp.filterMap _).mem_iff.symm).trans (h.mem_slots k i)
  kept a k i hm := h.kept a k i (hp.mem_iff.2 hm)

/-- The arrays may change where no slot has been given. -/
theorem Valid.congr (h : Valid capacity count data holders)
    (hdata : ∀ k i, i < min (count k) capacity → data' k i = data k i) :
    Valid capacity count data' holders where
  counted := h.counted
  nodup := h.nodup
  mem_slots := h.mem_slots
  kept a k i hm := by
    have hslot : (k, i) ∈ slots holders := List.mem_filterMap.2 ⟨_, hm, rfl⟩
    rw [hdata k i ((h.mem_slots k i).1 hslot)]
    exact h.kept a k i hm

theorem Valid.join (h : Valid capacity count data holders) (a : α) :
    Valid capacity count data ((a, .nothing) :: holders) where
  counted := h.counted
  nodup := h.nodup
  mem_slots := h.mem_slots
  kept b k i hm := by
    obtain heq | hm := List.mem_cons.1 hm
    · cases heq
    · exact h.kept b k i hm

theorem Valid.leave (h : Valid capacity count data ((a, .nothing) :: holders)) :
    Valid capacity count data holders where
  counted := h.counted
  nodup := h.nodup
  mem_slots := h.mem_slots
  kept b k i hm := h.kept b k i (List.mem_cons_of_mem _ hm)

theorem Valid.reserve (h : Valid capacity count data ((a, .nothing) :: rest))
    (hlt : count k < capacity) :
    Valid capacity (Function.update count k (count k + 1)) data
      ((a, .reserved k (count k)) :: rest) := by
  have h := h.leave
  have hnew : (k, count k) ∉ slots rest := by
    rw [h.mem_slots]
    omega
  constructor
  · intro j
    have hj := h.counted j
    rw [undoers_reserved]
    obtain rfl | hne := eq_or_ne j k
    · rw [Function.update_self]
      omega
    · rwa [Function.update_of_ne hne]
  · exact List.nodup_cons.2 ⟨hnew, h.nodup⟩
  · intro j i
    have hmem : (j, i) ∈ slots ((a, Holding.reserved k (count k)) :: rest) ↔
        (j, i) = (k, count k) ∨ (j, i) ∈ slots rest := List.mem_cons
    rw [hmem, h.mem_slots, Prod.mk.injEq]
    obtain rfl | hne := eq_or_ne j k
    · rw [Function.update_self, eq_self, true_and]
      omega
    · rw [Function.update_of_ne hne]
      exact or_iff_right fun heq => hne heq.1
  · intro b j i hm
    obtain heq | hm := List.mem_cons.1 hm
    · cases heq
    · exact h.kept b j i hm

/-- Past the capacity the counts give the same slots. -/
theorem min_update {n : ℕ} (hle : capacity ≤ count k) (hn : capacity ≤ n) (j : κ) :
    min (Function.update count k n j) capacity = min (count j) capacity := by
  obtain rfl | hne := eq_or_ne j k
  · rw [Function.update_self]
    omega
  · rw [Function.update_of_ne hne]

theorem Valid.overshoot (h : Valid capacity count data ((a, .nothing) :: rest))
    (hle : capacity ≤ count k) :
    Valid capacity (Function.update count k (count k + 1)) data ((a, .undoing k) :: rest) := by
  have h := h.leave
  constructor
  · intro j
    have hj := h.counted j
    rw [min_update hle (Nat.le_succ_of_le hle)]
    obtain rfl | hne := eq_or_ne j k
    · rw [Function.update_self, undoers_undoing]
      omega
    · rwa [Function.update_of_ne hne, undoers_undoing_of_ne hne.symm]
  · exact h.nodup
  · intro j i
    rw [min_update hle (Nat.le_succ_of_le hle)]
    exact h.mem_slots j i
  · intro b j i hm
    obtain heq | hm := List.mem_cons.1 hm
    · cases heq
    · exact h.kept b j i hm

/-- While an increment has to be undone, the counter is past the capacity. -/
theorem Valid.lt_count (h : Valid capacity count data ((a, .undoing k) :: rest)) :
    capacity < count k := by
  have hk := h.counted k
  rw [undoers_undoing] at hk
  omega

theorem Valid.undo (h : Valid capacity count data ((a, .undoing k) :: rest)) :
    Valid capacity (Function.update count k (count k - 1)) data ((a, .nothing) :: rest) := by
  have hlt := h.lt_count
  constructor
  · intro j
    have hj := h.counted j
    rw [min_update (Nat.le_of_lt hlt) (Nat.le_sub_one_of_lt hlt), undoers_nothing]
    obtain rfl | hne := eq_or_ne j k
    · rw [undoers_undoing] at hj
      rw [Function.update_self]
      omega
    · rw [undoers_undoing_of_ne hne.symm] at hj
      rwa [Function.update_of_ne hne]
  · exact h.nodup
  · intro j i
    rw [min_update (Nat.le_of_lt hlt) (Nat.le_sub_one_of_lt hlt)]
    exact h.mem_slots j i
  · intro b j i hm
    obtain heq | hm := List.mem_cons.1 hm
    · cases heq
    · exact h.kept b j i (List.mem_cons_of_mem _ hm)

/-- A slot that was given to a holder is nobody else's. -/
theorem Valid.store (h : Valid capacity count data ((a, .reserved k i) :: rest))
    (hdata : data' k i = some a)
    (hrest : ∀ j i', (j, i') ≠ (k, i) → data' j i' = data j i') :
    Valid capacity count data' ((a, .stored k i) :: rest) where
  counted := h.counted
  nodup := h.nodup
  mem_slots := h.mem_slots
  kept b j i' hm := by
    obtain heq | hm := List.mem_cons.1 hm
    · cases heq
      exact hdata
    · have hother : (j, i') ∈ slots rest := List.mem_filterMap.2 ⟨_, hm, rfl⟩
      have hnew : (k, i) ∉ slots rest := (List.nodup_cons.1 h.nodup).1
      rw [hrest j i' fun heq => hnew (heq ▸ hother)]
      exact h.kept b j i' (List.mem_cons_of_mem _ hm)

end Rules

/-! ### What is stored -/

section Items

variable {holders : List (α × Holding κ)} {a : α} {p : κ × ℕ}

theorem mem_stored : (a, p) ∈ stored holders ↔ (a, .stored p.1 p.2) ∈ holders := by
  unfold stored
  rw [List.mem_filterMap]
  constructor
  · rintro ⟨⟨b, h⟩, hm, heq⟩
    cases h with
    | stored k i =>
      cases heq
      exact hm
    | _ => cases heq
  · intro hm
    exact ⟨_, hm, rfl⟩

theorem slot_of_stored (h : (a, p) ∈ stored holders) : p ∈ slots holders :=
  List.mem_filterMap.2 ⟨_, mem_stored.1 h, rfl⟩

theorem stored_items (holders : List (α × Holding κ)) :
    List.Sublist ((stored holders).map Prod.fst) (holders.map Prod.fst) := by
  induction holders with
  | nil => exact .slnil
  | cons h holders ih =>
    unfold stored
    rw [List.filterMap_cons]
    cases h.2.storedSlot with
    | none => exact ih.cons _
    | some p => exact ih.cons_cons _

theorem stored_slots (holders : List (α × Holding κ)) :
    List.Sublist ((stored holders).map Prod.snd) (slots holders) := by
  induction holders with
  | nil => exact .slnil
  | cons h holders ih =>
    unfold stored slots
    rw [List.filterMap_cons, List.filterMap_cons]
    cases hp : h.2.storedSlot with
    | none =>
      cases h.2.slot with
      | none => exact ih
      | some q => exact ih.cons _
    | some p =>
      rw [slot_of_storedSlot hp]
      exact ih.cons_cons _

/-- Where every holder has a slot, there are as many slots as holders. -/
theorem length_slots (hall : ∀ h ∈ holders, (h.2.slot).isSome) :
    (slots holders).length = holders.length := by
  induction holders with
  | nil => rfl
  | cons h holders ih =>
    rw [List.forall_mem_cons] at hall
    obtain ⟨p, hp⟩ := Option.isSome_iff_exists.1 hall.1
    unfold slots at ih ⊢
    rw [List.filterMap_cons, hp, List.length_cons, List.length_cons, ih hall.2]

variable [DecidableEq κ] {capacity : ℕ} {count : κ → ℕ} {data : κ → ℕ → Option α}

theorem subperm_map {β γ : Type*} (f : β → γ) {l m : List β} (h : l.Subperm m) :
    (l.map f).Subperm (m.map f) := by
  obtain ⟨n, hp, hs⟩ := h
  exact ⟨n.map f, hp.map f, hs.map f⟩

theorem subperm_of_map_some {β : Type*} {l m : List β}
    (h : (l.map some).Subperm (m.map some)) : l.Subperm m := by
  obtain ⟨n, hp, hs⟩ := h
  have hp := hp.filterMap id
  have hs := hs.filterMap id
  rw [List.filterMap_map] at hp hs
  change (n.filterMap id).Perm (l.filterMap some) at hp
  change (n.filterMap id).Sublist (m.filterMap some) at hs
  rw [List.filterMap_some] at hp hs
  exact ⟨_, hp, hs⟩

/-- Different slots in which something is stored have items of different holders. -/
theorem Valid.subperm_items (h : Valid capacity count data holders) {visited : List (κ × ℕ)}
    (hnodup : visited.Nodup) (hmem : ∀ p ∈ visited, ∃ a, (a, p) ∈ stored holders) :
    List.Subperm (visited.map fun p => data p.1 p.2) (holders.map fun h => some h.1) := by
  have hsub : visited.Subperm ((stored holders).map Prod.snd) := by
    refine List.subperm_of_subset hnodup fun p hp => ?_
    obtain ⟨a, ha⟩ := hmem p hp
    exact List.mem_map.2 ⟨_, ha, rfl⟩
  have hdata : ((stored holders).map Prod.snd).map (fun p => data p.1 p.2) =
      ((stored holders).map Prod.fst).map some := by
    rw [List.map_map, List.map_map]
    refine List.map_congr_left fun b hb => ?_
    exact h.kept b.1 b.2.1 b.2.2 (mem_stored.1 hb)
  have hitems : List.Sublist (((stored holders).map Prod.fst).map some)
      (holders.map fun h => some h.1) := by
    have hmap := (stored_items holders).map some
    rwa [List.map_map (l := holders)] at hmap
  have hvisited := subperm_map (fun p => data p.1 p.2) hsub
  rw [hdata] at hvisited
  exact hvisited.trans hitems.subperm

/-- Items that are stored are found in any slots that include theirs. -/
theorem Valid.items_subperm (h : Valid capacity count data holders) {found : List (α × κ × ℕ)}
    {visited : List (κ × ℕ)} (hnodup : (found.map Prod.snd).Nodup)
    (hmem : ∀ b ∈ found, b ∈ stored holders ∧ b.2 ∈ visited) :
    List.Subperm (found.map fun b => some b.1) (visited.map fun p => data p.1 p.2) := by
  have hsub : (found.map Prod.snd).Subperm visited := by
    refine List.subperm_of_subset hnodup fun p hp => ?_
    obtain ⟨b, hb, rfl⟩ := List.mem_map.1 hp
    exact (hmem b hb).2
  have hdata : (found.map Prod.snd).map (fun p => data p.1 p.2) = found.map fun b => some b.1 := by
    rw [List.map_map]
    refine List.map_congr_left fun b hb => ?_
    exact h.kept b.1 b.2.1 b.2.2 (mem_stored.1 (hmem b hb).1)
  have hvisited := subperm_map (fun p => data p.1 p.2) hsub
  rwa [hdata] at hvisited

end Items

end DdTrace.Lib.Tickets
