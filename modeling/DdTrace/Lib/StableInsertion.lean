import Mathlib.Data.List.Basic
import Mathlib.Order.Lattice

/-!
# Insertion behind the elements that are not smaller

`insertByKey` keeps a list in descending order of the keys, the elements of one key in the
order of their insertion. `StableSorted key inserted l` says this of a list; an insertion
keeps it, and the first element of `l` with a property is the first inserted among those with
the property whose key is the highest (`StableSorted.find?_eq_some`).
-/

namespace DdTrace.Lib

variable {α κ : Type*} [LinearOrder κ] {key : α → κ} {a b x : α} {k : κ} {l inserted : List α}

def insertByKey (key : α → κ) (a : α) : List α → List α
  | [] => [a]
  | b :: l => if key b < key a then a :: b :: l else b :: insertByKey key a l

theorem perm_insertByKey : (insertByKey key a l).Perm (a :: l) := by
  induction l with
  | nil => exact .refl _
  | cons b l ih =>
    rw [insertByKey]
    split
    · exact .refl _
    · exact (ih.cons b).trans (.swap a b l)

theorem pairwise_insertByKey (hl : l.Pairwise fun x y => key y ≤ key x) :
    (insertByKey key a l).Pairwise fun x y => key y ≤ key x := by
  induction l with
  | nil => simp [insertByKey]
  | cons b l ih =>
    rw [insertByKey]
    obtain ⟨hb, hl⟩ := List.pairwise_cons.1 hl
    split
    · rename_i hlt
      have ha : ∀ c ∈ b :: l, key c ≤ key a := by
        intro c hc
        obtain rfl | hc := List.mem_cons.1 hc
        · exact hlt.le
        · exact (hb c hc).trans hlt.le
      exact List.pairwise_cons.2 ⟨ha, List.pairwise_cons.2 ⟨hb, hl⟩⟩
    · rename_i hle
      refine List.pairwise_cons.2 ⟨?_, ih hl⟩
      intro c hc
      obtain rfl | hc := List.mem_cons.1 (perm_insertByKey.mem_iff.1 hc)
      · exact not_lt.1 hle
      · exact hb c hc

/-- A new element is the last one with its key. -/
theorem filter_insertByKey (hl : l.Pairwise fun x y => key y ≤ key x) (k : κ) :
    (insertByKey key a l).filter (fun x => key x = k)
      = l.filter (fun x => key x = k) ++ if key a = k then [a] else [] := by
  induction l with
  | nil => simp [insertByKey, List.filter_cons]
  | cons b l ih =>
    obtain ⟨hb, hl⟩ := List.pairwise_cons.1 hl
    rw [insertByKey]
    split
    · rename_i hlt
      by_cases hk : key a = k
      · -- the keys from here on are smaller
        have hnil : (b :: l).filter (fun x => key x = k) = [] := by
          rw [List.filter_eq_nil_iff]
          intro c hc
          rw [decide_eq_true_iff]
          obtain rfl | hc := List.mem_cons.1 hc
          · exact fun h => hlt.ne (h.trans hk.symm)
          · exact fun h => ((hb c hc).trans_lt hlt).ne (h.trans hk.symm)
        rw [List.filter_cons_of_pos (by simpa using hk), hnil]
        simp [hk]
      · rw [List.filter_cons_of_neg (by simpa using hk)]
        simp [hk]
    · rw [List.filter_cons, List.filter_cons, ih hl]
      split <;> simp

/-- `l` has what was inserted, in descending order, and of each key in the order of the
insertions. -/
structure StableSorted (key : α → κ) (inserted l : List α) : Prop where
  sorted : l.Pairwise fun x y => key y ≤ key x
  perm : l.Perm inserted
  stable : ∀ k, l.filter (fun x => key x = k) = inserted.filter fun x => key x = k

namespace StableSorted

theorem nil : StableSorted key [] [] := ⟨.nil, .refl _, fun _ => rfl⟩

theorem insert (h : StableSorted key inserted l) (a : α) :
    StableSorted key (inserted ++ [a]) (insertByKey key a l) where
  sorted := pairwise_insertByKey h.sorted
  perm := perm_insertByKey.trans
    ((h.perm.cons a).trans (List.perm_append_singleton a inserted).symm)
  stable k := by
    rw [filter_insertByKey h.sorted, h.stable, List.filter_append, List.filter_singleton]
    simp

/-- Where the elements in front do not have a property, an element behind them that has it has no
higher key. -/
theorem key_le {p : α → Bool} {l₁ l₂ : List α} (h : StableSorted key inserted (l₁ ++ a :: l₂))
    (hfront : ∀ x ∈ l₁, (!p x) = true) (hx : x ∈ inserted) (hpx : p x = true) : key x ≤ key a := by
  rcases List.mem_append.1 (h.perm.mem_iff.2 hx) with hx | hx
  · have := hfront x hx
    simp [hpx] at this
  · rcases List.mem_cons.1 hx with rfl | hx
    · exact le_rfl
    · exact (List.pairwise_cons.1 (List.pairwise_append.1 h.sorted).2.1).1 x hx

theorem find?_eq_some (h : StableSorted key inserted l) {p : α → Bool}
    (hfind : l.find? p = some a) : p a = true ∧ ∃ before behind, inserted = before ++ a :: behind ∧
      (∀ x ∈ before, p x = true → key x < key a) ∧
      ∀ x ∈ behind, p x = true → key x ≤ key a := by
  obtain ⟨hpa, l1, l2, rfl, hl1⟩ := List.find?_eq_some_iff_append.1 hfind
  -- the elements with the key of `a` stand in the list as they were inserted
  have hkey := h.stable (key a)
  rw [List.filter_append, List.filter_cons_of_pos (by simp)] at hkey
  obtain ⟨m1, m2, rfl, hm1, hm2⟩ := List.filter_eq_append_iff.1 hkey.symm
  obtain ⟨n1, n2, rfl, hn1, -, -⟩ := List.filter_eq_cons_iff.1 hm2
  refine ⟨hpa, m1 ++ n1, n2, by simp, ?_, ?_⟩
  · intro x hx hpx
    have hmem : x ∈ m1 ++ (n1 ++ a :: n2) := by
      rw [← List.append_assoc]
      exact List.mem_append_left _ hx
    apply lt_of_le_of_ne (h.key_le hl1 hmem hpx)
    intro heq
    rcases List.mem_append.1 hx with hx | hx
    · -- it was inserted before `a` with the same key, so it stands before it
      have hmem : x ∈ l1.filter (fun x => key x = key a) := by
        rw [← hm1, List.mem_filter]
        exact ⟨hx, by simpa using heq⟩
      have := hl1 x (List.mem_filter.1 hmem).1
      simp [hpx] at this
    · exact hn1 x hx (by simpa using heq)
  · intro x hx hpx
    exact h.key_le hl1 (by simp [hx]) hpx

end StableSorted

end DdTrace.Lib
