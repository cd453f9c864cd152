import Mathlib.Data.List.Basic
import Mathlib.Data.List.Count
import Mathlib.Tactic.Ring

/-!
# Tables of entries of one width

A file as consecutive tables whose entries all have the same width: the bytes of entry `i`
stand at the start of its table plus `i` widths (`slice_entry`). In a sorted table the entries
with one key are a range whose ends are counts of smaller keys (`range_of_sorted`).
-/

namespace DdTrace.Lib.Tables

variable {α β : Type*} {f : α → List β} {w : ℕ} {l : List α}

/-- What reading `n` bytes at a position gives: fewer at the end of the file. -/
def slice (file : List β) (pos n : ℕ) : List β := (file.drop pos).take n

theorem slice_append (before middle after : List β) :
    slice (before ++ (middle ++ after)) before.length middle.length = middle := by
  simp [slice]

theorem slice_of_length_le {file : List β} {pos : ℕ} (h : file.length ≤ pos) (n : ℕ) :
    slice file pos n = [] := by
  simp [slice, List.drop_eq_nil_of_le h]

theorem length_slice (file : List β) (pos n : ℕ) :
    (slice file pos n).length = min n (file.length - pos) := by
  simp [slice]

theorem length_table (hw : ∀ a ∈ l, (f a).length = w) : (l.flatMap f).length = w * l.length := by
  induction l with
  | nil => simp
  | cons a l ih =>
    rw [List.forall_mem_cons] at hw
    rw [List.flatMap_cons, List.length_append, hw.1, ih hw.2, List.length_cons]
    ring

theorem exists_split {i : ℕ} {a : α} (hi : l[i]? = some a) :
    ∃ front back, l = front ++ a :: back ∧ front.length = i := by
  obtain ⟨hlt, rfl⟩ := List.getElem?_eq_some_iff.1 hi
  exact ⟨l.take i, l.drop (i + 1), by simp, by rw [List.length_take, Nat.min_eq_left hlt.le]⟩

theorem slice_entry (before after : List β) (hw : ∀ a ∈ l, (f a).length = w) {i : ℕ} {a : α} (hi : l[i]? = some a) :
    slice (before ++ (l.flatMap f ++ after)) (before.length + w * i) w = f a := by
  obtain ⟨front, back, rfl, rfl⟩ := exists_split hi
  have hfront : (front.flatMap f).length = w * front.length :=
    length_table fun b hb => hw b (by simp [hb])
  have := slice_append (before ++ front.flatMap f) (f a) (back.flatMap f ++ after)
  rw [List.length_append, hfront, hw a (by simp)] at this
  rw [← this]
  congr 1
  simp

/-- The entry at a position of a sorted table lies among those with its key. -/
theorem range_of_sorted {key : α → ℕ} (hl : l.Pairwise fun a b => key a ≤ key b) {i : ℕ} {a : α}
    (hi : l[i]? = some a) :
    l.countP (fun b => decide (key b < key a)) ≤ i ∧
      i < l.countP (fun b => decide (key b ≤ key a)) := by
  obtain ⟨front, back, rfl, rfl⟩ := exists_split hi
  rw [List.pairwise_append, List.pairwise_cons] at hl
  obtain ⟨-, ⟨hafter, -⟩, hbefore⟩ := hl
  rw [List.countP_append, List.countP_append]
  constructor
  · -- from the entry on the keys are not smaller
    have hback : (a :: back).countP (fun b => decide (key b < key a)) = 0 := by
      rw [List.countP_eq_zero]
      intro b hb
      obtain rfl | hb := List.mem_cons.1 hb
      · simp
      · simpa using hafter b hb
    rw [hback, Nat.add_zero]
    exact List.countP_le_length
  · have hfront : front.countP (fun b => decide (key b ≤ key a)) = front.length := by
      rw [List.countP_eq_length]
      intro b hb
      simpa using hbefore b hb a List.mem_cons_self
    rw [hfront, List.countP_cons]
    simp

end DdTrace.Lib.Tables
