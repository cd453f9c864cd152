import Mathlib.Algebra.BigOperators.Group.List.Basic
import Mathlib.Algebra.Order.Ring.Nat

/-!
# Ring buffers

A ring of slots that are written in turn, each write over the oldest one. `Holds` gives the slots
of a ring by the writes so far, however often the index went round.
-/

namespace DdTrace.Lib.RingBuffer

variable {α : Type*} {ring writes : List α} {blank x : α} {i : ℕ}

/-- The slots, the one written last first, when slot `i` is the next to be written. -/
def latest (ring : List α) (i : ℕ) : List α := (ring.drop i ++ ring.take i).reverse

theorem latest_perm (ring : List α) (i : ℕ) : (latest ring i).Perm ring := by
  refine (List.reverse_perm _).trans (List.perm_append_comm.trans ?_)
  rw [List.take_append_drop]

/-- The slot that is written next is the oldest. -/
theorem latest_dropLast (h : i < ring.length) :
    (latest ring i).dropLast = (ring.drop (i + 1) ++ ring.take i).reverse := by
  unfold latest
  rw [List.drop_eq_getElem_cons h, List.cons_append, List.reverse_cons, List.dropLast_concat]

theorem latest_set (h : i < ring.length) (x : α) :
    latest (ring.set i x) ((i + 1) % ring.length) = x :: (latest ring i).dropLast := by
  have hset : (ring.set i x).drop (i + 1) ++ (ring.set i x).take (i + 1) =
      ring.drop (i + 1) ++ ring.take i ++ [x] := by
    have hlt : i < (ring.set i x).length := by rwa [List.length_set]
    rw [List.drop_set_of_lt (by omega), List.take_succ_eq_append_getElem hlt,
      List.take_set_of_le le_rfl, List.getElem_set_self, List.append_assoc]
  rw [latest_dropLast h]
  unfold latest
  obtain hlt | heq := (Nat.succ_le_of_lt h).lt_or_eq
  · rw [Nat.mod_eq_of_lt hlt, hset, List.reverse_append]
    rfl
  · -- the index starts again at 0
    have hfull : (ring.set i x).length = i + 1 := by rw [List.length_set]; omega
    rw [← heq, Nat.mod_self, List.drop_zero, List.take_zero, List.append_nil]
    rw [List.drop_eq_nil_of_le hfull.le, List.take_of_length_le hfull.le, List.nil_append] at hset
    rw [hset, List.reverse_append]
    rfl

theorem sum_map_set (f : α → ℕ) (h : i < ring.length) (x : α) :
    ((ring.set i x).map f).sum + f ring[i] = (ring.map f).sum + f x := by
  induction ring generalizing i with
  | nil => cases h
  | cons y ring ih =>
    cases i with
    | zero =>
      simp only [List.set_cons_zero, List.map_cons, List.sum_cons, List.getElem_cons_zero]
      omega
    | succ i =>
      have hrest := ih (Nat.lt_of_succ_lt_succ h)
      simp only [List.set_cons_succ, List.map_cons, List.sum_cons, List.getElem_cons_succ]
      omega

/-- The slots are the last writes, here with the last one first, and `blank` where nothing was
written. -/
def Holds (ring : List α) (i : ℕ) (blank : α) (writes : List α) : Prop :=
  latest ring i = (writes ++ List.replicate ring.length blank).take ring.length

theorem holds_replicate (n : ℕ) (blank : α) : Holds (List.replicate n blank) 0 blank [] := by
  simp [Holds, latest]

theorem Holds.set (hr : Holds ring i blank writes) (h : i < ring.length) (x : α) :
    Holds (ring.set i x) ((i + 1) % ring.length) blank (x :: writes) := by
  obtain ⟨n, hn⟩ := Nat.exists_eq_add_one_of_ne_zero (Nat.ne_zero_of_lt h)
  have hlen : ((writes ++ List.replicate (n + 1) blank).take (n + 1)).length = n + 1 := by
    rw [List.length_take, List.length_append, List.length_replicate]
    omega
  unfold Holds at hr ⊢
  rw [latest_set h, hr, List.length_set, hn, List.dropLast_eq_take, hlen, List.take_take,
    List.cons_append, List.take_succ_cons, Nat.min_eq_left (by omega), Nat.add_sub_cancel]

/-- What is summed over the slots is the sum over the writes that are still there. -/
theorem Holds.sum_map (hr : Holds ring i blank writes) {f : α → ℕ} (hblank : f blank = 0) :
    (ring.map f).sum = ((writes.take ring.length).map f).sum := by
  have hsum := ((latest_perm ring i).map f).sum_eq
  rw [← hsum, hr, List.take_append, List.map_append, List.sum_append, List.take_replicate,
    List.map_replicate, hblank, List.sum_replicate, nsmul_zero, Nat.add_zero]

end DdTrace.Lib.RingBuffer
