import Mathlib.Data.List.DropRight

/-!
# Trimmed fields

`fields sep blank l`: what stands between the separators of a list, without the blanks at its
ends, where there is anything but blanks. Blanks at the ends of the list make no difference, even
where blanks separate.
-/

namespace DdTrace.Lib

variable {α : Type*} {sep blank : α → Bool} {a : α} {l : List α}

/-- The list without the blanks at its ends. -/
def strip (blank : α → Bool) (l : List α) : List α := (l.dropWhile blank).rdropWhile blank

def fields (sep blank : α → Bool) (l : List α) : List (List α) :=
  ((l.splitOnP sep).map (strip blank)).filter fun field => !field.isEmpty

theorem strip_cons (ha : blank a = true) (l : List α) : strip blank (a :: l) = strip blank l := by
  rw [strip, List.dropWhile_cons_of_pos ha, strip]

theorem strip_concat (ha : blank a = true) (l : List α) :
    strip blank (l ++ [a]) = strip blank l := by
  rw [strip, strip, List.dropWhile_append]
  split
  · rename_i hempty
    rw [List.isEmpty_iff.1 hempty, List.dropWhile_cons_of_pos ha, List.dropWhile_nil]
  · exact List.rdropWhile_concat_pos blank _ a ha

theorem strip_eq_nil_iff : strip blank l = [] ↔ ∀ a ∈ l, blank a = true := by
  rw [strip, List.rdropWhile_eq_nil_iff]
  constructor
  · intro h a ha
    rw [← List.takeWhile_append_dropWhile (p := blank) (l := l), List.mem_append] at ha
    rcases ha with ha | ha
    · exact List.mem_takeWhile_imp ha
    · exact h a ha
  · exact fun h a ha => h a ((List.dropWhile_suffix blank).subset ha)

theorem fields_cons (ha : blank a = true) (l : List α) :
    fields sep blank (a :: l) = fields sep blank l := by
  obtain ⟨s, ss, hs⟩ := List.exists_cons_of_ne_nil (List.splitOnP_ne_nil sep l)
  rw [fields, fields, List.splitOnP_cons_eq_if_modifyHead]
  split
  · rfl
  · rw [hs, List.modifyHead_cons, List.map_cons, List.map_cons, strip_cons ha]

/-- What is appended to a list is appended to its last field, unless it separates. -/
theorem splitOnP_concat (ha : sep a = false) (l : List α) :
    ∃ init last, l.splitOnP sep = init ++ [last] ∧
      (l ++ [a]).splitOnP sep = init ++ [last ++ [a]] := by
  induction l with
  | nil =>
    refine ⟨[], [], rfl, ?_⟩
    exact List.splitOnP_eq_singleton fun b hb => by rw [List.mem_singleton.1 hb, ha]
  | cons b l ih =>
    obtain ⟨init, last, hl, hconcat⟩ := ih
    rw [List.cons_append, List.splitOnP_cons_eq_if_modifyHead,
      List.splitOnP_cons_eq_if_modifyHead, hl, hconcat]
    split
    · exact ⟨[] :: init, last, rfl, rfl⟩
    · cases init with
      | nil => exact ⟨[], b :: last, rfl, rfl⟩
      | cons s init => exact ⟨(b :: s) :: init, last, rfl, rfl⟩

theorem fields_concat (ha : blank a = true) (l : List α) :
    fields sep blank (l ++ [a]) = fields sep blank l := by
  cases hsep : sep a with
  | true =>
    rw [fields, List.splitOnP_append_cons _ _ hsep, List.map_append, List.filter_append, fields]
    exact List.append_nil _
  | false =>
    obtain ⟨init, last, hl, hconcat⟩ := splitOnP_concat hsep l
    rw [fields, fields, hl, hconcat, List.map_append, List.map_append, List.map_singleton,
      List.map_singleton, strip_concat ha]

/-- The blanks at the ends of a list do not change its fields. -/
theorem fields_strip (l : List α) : fields sep blank (strip blank l) = fields sep blank l := by
  have hdrop : ∀ l, fields sep blank (l.dropWhile blank) = fields sep blank l := by
    intro l
    induction l with
    | nil => rfl
    | cons a l ih =>
      rw [List.dropWhile_cons]
      split
      · rename_i ha
        rw [ih, fields_cons ha]
      · rfl
  have hrdrop : ∀ l, fields sep blank (l.rdropWhile blank) = fields sep blank l := by
    intro l
    induction l using List.reverseRecOn with
    | nil => rw [List.rdropWhile_nil]
    | append_singleton l a ih =>
      rw [List.rdropWhile_concat]
      split
      · rename_i ha
        rw [ih, fields_concat ha]
      · rfl
  rw [strip, hrdrop, hdrop]

end DdTrace.Lib
