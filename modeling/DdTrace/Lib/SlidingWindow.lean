import Mathlib.Data.List.Induction
import Mathlib.Algebra.Order.Group.Int

/-!
# Sliding windows

Time stamps that count as long as they are no older than a width. `prune` drops the expired
stamps from the front of a queue; on stamps in order that leaves the ones that still count
(`prune_window`), however often the queue was pruned before. `Admitted` is admission under a
limit: no closed interval of the width has more admitted stamps than the limit
(`Admitted.countP_le`).
-/

namespace DdTrace.Lib.SlidingWindow

variable {width now later : ℤ} {stamps queue : List ℤ}

/-- The stamps that count at `now`. -/
def window (width now : ℤ) (stamps : List ℤ) : List ℤ :=
  stamps.filter fun t => decide (now - t ≤ width)

def prune (width now : ℤ) (queue : List ℤ) : List ℤ :=
  queue.dropWhile fun t => decide (width < now - t)

theorem prune_eq_window (h : queue.Pairwise (· ≤ ·)) : prune width now queue = window width now queue := by
  induction queue with
  | nil => rfl
  | cons t queue ih =>
    rw [List.pairwise_cons] at h
    unfold prune window at *
    by_cases ht : width < now - t
    · have hn : ¬ now - t ≤ width := by omega
      rw [List.dropWhile_cons_of_pos (by rwa [decide_eq_true_eq]),
        List.filter_cons_of_neg (by rwa [decide_eq_true_eq]), ih h.2]
    · -- the later stamps count too
      have hall : ∀ u ∈ t :: queue, decide (now - u ≤ width) = true := by
        intro u hu
        have hle : t ≤ u := by
          obtain rfl | hu := List.mem_cons.1 hu
          · exact le_rfl
          · exact h.1 u hu
        simp only [decide_eq_true_eq]
        omega
      rw [List.dropWhile_cons_of_neg (by rwa [decide_eq_true_eq]), List.filter_eq_self.2 hall]

theorem window_window (h : now ≤ later) (stamps : List ℤ) :
    window width later (window width now stamps) = window width later stamps := by
  unfold window
  rw [List.filter_filter]
  refine List.filter_congr fun t _ => ?_
  by_cases ht : later - t ≤ width
  · have : now - t ≤ width := by omega
    simp [ht, this]
  · simp [ht]

theorem window_pairwise (h : stamps.Pairwise (· ≤ ·)) (width now : ℤ) :
    (window width now stamps).Pairwise (· ≤ ·) :=
  h.filter _

/-- Pruning a queue that was pruned at an earlier time. -/
theorem prune_window (h : stamps.Pairwise (· ≤ ·)) (hle : now ≤ later) :
    prune width later (window width now stamps) = window width later stamps := by
  rw [prune_eq_window (window_pairwise h _ _), window_window hle]

theorem window_append_now (hw : 0 ≤ width) (h : now ≤ later) (stamps : List ℤ) :
    window width now (stamps ++ [later]) = window width now stamps ++ [later] := by
  have hlater : now - later ≤ width := by omega
  unfold window
  rw [List.filter_append, List.filter_cons_of_pos (by rwa [decide_eq_true_eq]), List.filter_nil]

/-- A property of each element and what precedes it, for a list with one element more. -/
theorem forall_split_snoc {ι : Type*} {P : List ι → ι → Prop} {l : List ι} {a : ι} :
    (∀ pre x post, l ++ [a] = pre ++ x :: post → P pre x) ↔
      (∀ pre x post, l = pre ++ x :: post → P pre x) ∧ P l a := by
  constructor
  · intro h
    refine ⟨fun pre x post he => ?_, h l a [] rfl⟩
    exact h pre x (post ++ [a]) (by rw [he]; simp)
  · rintro ⟨h, hlast⟩ pre x post he
    cases post using List.reverseRecOn with
    | nil =>
      obtain ⟨rfl, hx⟩ := List.append_inj' he rfl
      obtain rfl : a = x := by simpa using hx
      exact hlast
    | append_singleton post y =>
      rw [← List.cons_append, ← List.append_assoc] at he
      exact h pre x post (List.append_inj' he rfl).1

section Admission

variable {ι : Type*} (now stamp : ι → ℤ)

/-- Entries that look at the window at `now` and record `stamp`: each records no earlier than
its look, at which there were fewer than `limit` stamps in the window. -/
def Admitted (width : ℤ) (limit : ℕ) (entries : List ι) : Prop :=
  ∀ pre e post, entries = pre ++ e :: post →
    now e ≤ stamp e ∧ (window width (now e) (pre.map stamp)).length < limit

variable {now stamp} {limit : ℕ} {entries : List ι} {e : ι}

theorem admitted_nil : Admitted now stamp width limit [] := by
  intro pre e post h
  simp at h

theorem admitted_append :
    Admitted now stamp width limit (entries ++ [e]) ↔ Admitted now stamp width limit entries ∧
      now e ≤ stamp e ∧ (window width (now e) (entries.map stamp)).length < limit :=
  forall_split_snoc

/-- With a time for each entry between its look at the window and its record, a closed
interval of the width has at most `limit` entries. -/
theorem Admitted.countP_le (h : Admitted now stamp width limit entries) (time : ι → ℤ)
    (htime : ∀ e ∈ entries, now e ≤ time e ∧ time e ≤ stamp e) (t : ℤ) :
    entries.countP (fun e => decide (t ≤ time e ∧ time e ≤ t + width)) ≤ limit := by
  induction entries using List.reverseRecOn with
  | nil => simp
  | append_singleton entries e ih =>
    rw [admitted_append] at h
    obtain ⟨h, -, hlt⟩ := h
    have hrest : ∀ x ∈ entries, now x ≤ time x ∧ time x ≤ stamp x :=
      fun x hx => htime x (List.mem_append_left _ hx)
    rw [List.countP_append, List.countP_singleton]
    by_cases hin : t ≤ time e ∧ time e ≤ t + width
    · -- the entries before in the interval were all in the window that `e` saw
      have he := htime e (by simp)
      have hcount : entries.countP (fun e => decide (t ≤ time e ∧ time e ≤ t + width)) ≤
          (window width (now e) (entries.map stamp)).length := by
        rw [window, ← List.countP_eq_length_filter, List.countP_map]
        refine List.countP_mono_left fun x hx hxt => ?_
        have hxt : t ≤ time x ∧ time x ≤ t + width := by simpa using hxt
        have := hrest x hx
        simp only [Function.comp_apply, decide_eq_true_eq]
        omega
      simp only [hin, and_self, decide_true, if_true]
      omega
    · have := ih h hrest
      simp only [hin, decide_false, Bool.false_eq_true, if_false]
      omega

end Admission

end DdTrace.Lib.SlidingWindow
