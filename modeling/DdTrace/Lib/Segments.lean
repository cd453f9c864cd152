import Mathlib.Data.List.Basic

/-!
# Segments of a list

The segments of a list are the parts between the occurrences of a separator (`List.splitOn`).
`onSegments x f` applies `f` to each of them and leaves the separators. A function that puts
no separator into a segment (`AvoidsSeparator x f`) keeps their number, and can be composed
segment by segment.
-/

namespace DdTrace.Lib

variable {α : Type*} [DecidableEq α] {x : α} {f g : List α → List α} {l seg rest : List α}

theorem not_mem_of_mem_splitOn (h : seg ∈ l.splitOn x) : x ∉ seg := by
  induction l generalizing seg with
  | nil =>
    rw [List.splitOn_nil, List.mem_singleton] at h
    simp [h]
  | cons a l ih =>
    rw [List.splitOn_cons_eq_if_modifyHead] at h
    split at h
    · rcases List.mem_cons.1 h with rfl | h
      · exact List.not_mem_nil
      · exact ih h
    · rename_i hne
      obtain ⟨s, ss, hs⟩ := List.exists_cons_of_ne_nil (List.splitOn_ne_nil x l)
      rw [hs, List.modifyHead_cons, List.mem_cons] at h
      rcases h with rfl | h
      · rw [List.mem_cons, not_or]
        exact ⟨fun hx => hne (by simp [hx]), ih (by simp [hs])⟩
      · exact ih (by simp [hs, h])

theorem mem_of_mem_splitOn {a : α} (h : seg ∈ l.splitOn x) (ha : a ∈ seg) : a ∈ l := by
  induction l generalizing seg with
  | nil =>
    rw [List.splitOn_nil, List.mem_singleton] at h
    rwa [h] at ha
  | cons b l ih =>
    rw [List.splitOn_cons_eq_if_modifyHead] at h
    split at h
    · rcases List.mem_cons.1 h with rfl | h
      · cases ha
      · exact List.mem_cons_of_mem b (ih h ha)
    · obtain ⟨s, ss, hs⟩ := List.exists_cons_of_ne_nil (List.splitOn_ne_nil x l)
      rw [hs] at ih
      rw [hs, List.modifyHead_cons, List.mem_cons] at h
      rcases h with rfl | h
      · rcases List.mem_cons.1 ha with rfl | ha
        · exact List.mem_cons_self
        · exact List.mem_cons_of_mem b (ih List.mem_cons_self ha)
      · exact List.mem_cons_of_mem b (ih (List.mem_cons_of_mem s h) ha)

/-- The segments are the only lists without separators that the list is joined from. -/
theorem splitOn_eq_iff {segs : List (List α)} :
    l.splitOn x = segs ↔ segs ≠ [] ∧ (∀ s ∈ segs, x ∉ s) ∧ l = [x].intercalate segs := by
  constructor
  · rintro rfl
    exact ⟨List.splitOn_ne_nil x l, fun s hs => not_mem_of_mem_splitOn hs,
      (List.intercalate_splitOn x).symm⟩
  · rintro ⟨hne, hnot, rfl⟩
    exact List.splitOn_intercalate x hnot hne

theorem splitOn_eq_two {a b : List α} :
    l.splitOn x = [a, b] ↔ x ∉ a ∧ x ∉ b ∧ l = a ++ x :: b := by
  rw [splitOn_eq_iff]
  simp [and_assoc]

/-- Segments that each have a separator behind them, in front of anything. -/
theorem splitOn_flatMap_append {segs : List (List α)} (h : ∀ s ∈ segs, x ∉ s) (l : List α) :
    (segs.flatMap (· ++ [x]) ++ l).splitOn x = segs ++ l.splitOn x := by
  induction segs with
  | nil => rfl
  | cons s segs ih =>
    rw [List.forall_mem_cons] at h
    rw [List.flatMap_cons, List.append_assoc, List.append_assoc, List.singleton_append,
      List.splitOn_append_cons_self_of_not_mem h.1, ih h.2, List.cons_append]

/-- `e` behind all segments but the last. -/
def appendToInit (e : List α) : List (List α) → List (List α)
  | [] => []
  | [s] => [s]
  | s :: t :: segs => (s ++ e) :: appendToInit e (t :: segs)

omit [DecidableEq α] in
theorem length_appendToInit (e : List α) (segs : List (List α)) :
    (appendToInit e segs).length = segs.length := by
  induction segs with
  | nil => rfl
  | cons s segs ih =>
    cases segs with
    | nil => rfl
    | cons t segs =>
      rw [appendToInit, List.length_cons, ih]
      rfl

omit [DecidableEq α] in
theorem mem_appendToInit {e : List α} {segs : List (List α)} (h : l ∈ appendToInit e segs) :
    ∃ s ∈ segs, l = s ∨ l = s ++ e := by
  induction segs with
  | nil => cases h
  | cons s segs ih =>
    cases segs with
    | nil => exact ⟨l, h, .inl rfl⟩
    | cons t segs =>
      rw [appendToInit, List.mem_cons] at h
      rcases h with rfl | h
      · exact ⟨s, List.mem_cons_self, .inr rfl⟩
      · obtain ⟨s', hs', hl⟩ := ih h
        exact ⟨s', List.mem_cons_of_mem s hs', hl⟩

omit [DecidableEq α] in
/-- Segments joined by more than the separator. -/
theorem intercalate_append_singleton (e : List α) (segs : List (List α)) :
    (e ++ [x]).intercalate segs = [x].intercalate (appendToInit e segs) := by
  induction segs with
  | nil => rfl
  | cons s segs ih =>
    cases segs with
    | nil => rfl
    | cons t segs =>
      have hne : appendToInit e (t :: segs) ≠ [] := by
        rw [← List.length_pos_iff, length_appendToInit]
        exact Nat.succ_pos _
      rw [List.intercalate_cons_cons, ih, appendToInit, List.intercalate_cons_of_ne_nil hne]
      simp

/-- `f` applied to every segment. -/
def onSegments (x : α) (f : List α → List α) (l : List α) : List α :=
  [x].intercalate ((l.splitOn x).map f)

theorem onSegments_of_not_mem (h : x ∉ l) : onSegments x f l = f l := by
  rw [onSegments, List.splitOn_eq_singleton h, List.map_singleton, List.intercalate_singleton]

theorem onSegments_append_cons (h : x ∉ seg) :
    onSegments x f (seg ++ x :: rest) = f seg ++ x :: onSegments x f rest := by
  obtain ⟨s, ss, hs⟩ := List.exists_cons_of_ne_nil (List.splitOn_ne_nil x rest)
  rw [onSegments, onSegments, List.splitOn_append_cons_self_of_not_mem h, hs]
  simp

/-- No separator is put into a segment. -/
def AvoidsSeparator (x : α) (f : List α → List α) : Prop := ∀ seg, x ∉ seg → x ∉ f seg

theorem splitOn_onSegments (hf : AvoidsSeparator x f) :
    (onSegments x f l).splitOn x = (l.splitOn x).map f := by
  apply List.splitOn_intercalate
  · intro s hs
    obtain ⟨seg, hseg, rfl⟩ := List.mem_map.1 hs
    exact hf seg (not_mem_of_mem_splitOn hseg)
  · simp

theorem onSegments_onSegments (hf : AvoidsSeparator x f) :
    onSegments x g (onSegments x f l) = onSegments x (g ∘ f) l := by
  rw [onSegments, splitOn_onSegments hf, List.map_map, onSegments]

omit [DecidableEq α] in
theorem length_intercalate_map_le (hf : ∀ seg, (f seg).length ≤ seg.length)
    (segs : List (List α)) :
    ([x].intercalate (segs.map f)).length ≤ ([x].intercalate segs).length := by
  induction segs with
  | nil => simp
  | cons s ss ih =>
    have hs := hf s
    cases ss with
    | nil => simpa using hs
    | cons t ts =>
      simp only [List.map_cons, List.intercalate_cons_cons, List.length_append] at ih ⊢
      omega

theorem length_onSegments_le (hf : ∀ seg, (f seg).length ≤ seg.length) :
    (onSegments x f l).length ≤ l.length :=
  calc (onSegments x f l).length ≤ ([x].intercalate (l.splitOn x)).length :=
        length_intercalate_map_le hf _
    _ = l.length := by rw [List.intercalate_splitOn]

end DdTrace.Lib
