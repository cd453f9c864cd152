import Mathlib.Data.List.Basic
import Mathlib.Data.Set.Lattice
import Mathlib.Order.CompletePartialOrder

/-!
# Insertion into lists of distinct elements

A list of distinct elements orders its elements. `insertBefore` and `insertAfter` add an
element next to a given one; `Extends l l'` says that `l'` is such a list with elements
added to `l`. A stretch of `l` is given by its ends, and the elements between its elements
in `l'` are its `hull`: hulls of nested or disjoint stretches are nested or disjoint.
-/

namespace DdTrace.Lib

variable {α : Type*} [DecidableEq α] {l l' m pre post : List α} {a b e w x y : α} {R S : Set α}

/-- `x` put in front of `w`, at the end if `w` is not there. -/
def insertBefore (w x : α) : List α → List α
  | [] => [x]
  | a :: l => if a = w then x :: a :: l else a :: insertBefore w x l

/-- `x` put after `w`, in front of all if `w` is not there. -/
def insertAfter (w x : α) (l : List α) : List α :=
  if w ∈ l then l.flatMap fun a => if a = w then [a, x] else [a] else x :: l

attribute [local simp] insertBefore

theorem insertBefore_append (h : w ∉ pre) :
    insertBefore w x (pre ++ w :: post) = pre ++ x :: w :: post := by
  induction pre with
  | nil => simp
  | cons a pre ih =>
    obtain ⟨ha, hpre⟩ := not_or.1 (List.mem_cons.not.1 h)
    simp [Ne.symm ha, ih hpre]

@[simp] theorem mem_insertBefore : y ∈ insertBefore w x l ↔ y = x ∨ y ∈ l := by
  induction l with
  | nil => simp
  | cons a l ih =>
    unfold insertBefore
    split
    · simp
    · simp only [List.mem_cons, ih]
      tauto

theorem nodup_insertBefore (hl : l.Nodup) (hx : x ∉ l) : (insertBefore w x l).Nodup := by
  induction l with
  | nil => simp
  | cons a l ih =>
    unfold insertBefore
    obtain ⟨ha, hl'⟩ := List.nodup_cons.1 hl
    obtain ⟨hxa, hxl⟩ := not_or.1 (List.mem_cons.not.1 hx)
    split
    · exact List.nodup_cons.2 ⟨hx, hl⟩
    · refine List.nodup_cons.2 ⟨fun h => ?_, ih hl' hxl⟩
      rcases mem_insertBefore.1 h with h | h
      · exact hxa h.symm
      · exact ha h

theorem flatMap_insertAfter_of_notMem (h : w ∉ l) :
    (l.flatMap fun a => if a = w then [a, x] else [a]) = l := by
  induction l with
  | nil => rfl
  | cons a l ih =>
    obtain ⟨ha, hl⟩ := not_or.1 (List.mem_cons.not.1 h)
    simp [Ne.symm ha, ih hl]

theorem insertAfter_append (hpre : w ∉ pre) (hpost : w ∉ post) :
    insertAfter w x (pre ++ w :: post) = pre ++ w :: x :: post := by
  simp [insertAfter, flatMap_insertAfter_of_notMem hpre, flatMap_insertAfter_of_notMem hpost]

theorem insertBefore_of_notMem (h : w ∉ l) : insertBefore w x l = l ++ [x] := by
  induction l with
  | nil => rfl
  | cons a l ih =>
    obtain ⟨ha, hl⟩ := not_or.1 (List.mem_cons.not.1 h)
    rw [insertBefore, if_neg (Ne.symm ha), ih hl, List.cons_append]

theorem insertBefore_perm : (insertBefore w x l).Perm (x :: l) := by
  induction l with
  | nil => exact .refl _
  | cons a l ih =>
    rw [insertBefore]
    split
    · exact .refl _
    · exact (ih.cons a).trans (.swap x a l)

theorem insertAfter_perm (hl : l.Nodup) : (insertAfter w x l).Perm (x :: l) := by
  by_cases h : w ∈ l
  · obtain ⟨pre, post, rfl⟩ := List.append_of_mem h
    obtain ⟨-, hpost, hpre⟩ := List.nodup_append.1 hl
    rw [insertAfter_append (fun hw => hpre w hw w List.mem_cons_self rfl)
      (List.nodup_cons.1 hpost).1, List.append_cons]
    exact List.perm_middle.trans (by rw [List.append_assoc]; rfl)
  · rw [insertAfter, if_neg h]

/-- Every element `a` with the elements of `f a` put in front of it. -/
def expand (f : α → List α) (l : List α) : List α := l.flatMap fun a => f a ++ [a]

omit [DecidableEq α] in
@[simp] theorem expand_nil {f : α → List α} : expand f [] = [] := rfl

omit [DecidableEq α] in
@[simp] theorem expand_cons {f : α → List α} : expand f (a :: l) = f a ++ a :: expand f l := by
  simp [expand]

omit [DecidableEq α] in
@[simp] theorem expand_append {f : α → List α} :
    expand f (l ++ m) = expand f l ++ expand f m := by
  simp [expand]

omit [DecidableEq α] in
theorem expand_congr {f g : α → List α} (h : ∀ a ∈ l, f a = g a) : expand f l = expand g l :=
  List.flatMap_congr fun a ha => by rw [h a ha]

omit [DecidableEq α] in
theorem expand_eq_self {f : α → List α} (h : ∀ a ∈ l, f a = []) : expand f l = l := by
  rw [expand_congr h]
  simp [expand]

omit [DecidableEq α] in
theorem sublist_expand {f : α → List α} : l.Sublist (expand f l) := by
  induction l with
  | nil => exact .slnil
  | cons a l ih =>
    rw [expand_cons]
    exact (ih.cons_cons a).trans (List.sublist_append_right ..)

theorem mem_of_idxOf_lt (h : l.idxOf x < l.idxOf y) : x ∈ l :=
  List.idxOf_lt_length_iff.1 (h.trans_le List.idxOf_le_length)

theorem pairwise_idxOf (h : l.Nodup) : l.Pairwise fun x y => l.idxOf x < l.idxOf y := by
  rw [List.pairwise_iff_getElem]
  intro i j hi hj hij
  rwa [h.idxOf_getElem i hi, h.idxOf_getElem j hj]

/-! ## Extensions -/

/-- `l'` has distinct elements, and leaving out some of them gives `l`. -/
structure Extends (l l' : List α) : Prop where
  sublist : l.Sublist l'
  nodup : l'.Nodup

namespace Extends

variable (h : Extends l l')
include h

omit [DecidableEq α] in
theorem mem (hx : x ∈ l) : x ∈ l' := h.sublist.subset hx

theorem lt_of_lt (hy : y ∈ l) (hlt : l.idxOf x < l.idxOf y) : l'.idxOf x < l'.idxOf y := by
  have hp := (pairwise_idxOf h.nodup).sublist h.sublist
  rw [List.pairwise_iff_getElem] at hp
  have := hp _ _ (List.idxOf_lt_length_iff.2 (mem_of_idxOf_lt hlt))
    (List.idxOf_lt_length_iff.2 hy) hlt
  simpa using this

/-- An extension keeps the order of the elements. -/
theorem lt_iff (hx : x ∈ l) (hy : y ∈ l) :
    l'.idxOf x < l'.idxOf y ↔ l.idxOf x < l.idxOf y := by
  refine ⟨fun hlt => ?_, h.lt_of_lt hy⟩
  rcases Nat.lt_trichotomy (l.idxOf x) (l.idxOf y) with h' | h' | h'
  · exact h'
  · rw [(List.idxOf_inj hx).1 h'] at hlt
    exact absurd hlt (Nat.lt_irrefl _)
  · exact absurd (h.lt_of_lt hx h') (Nat.lt_asymm hlt)

theorem le_iff (hx : x ∈ l) (hy : y ∈ l) :
    l'.idxOf x ≤ l'.idxOf y ↔ l.idxOf x ≤ l.idxOf y := by
  rw [← Nat.not_lt, ← Nat.not_lt, h.lt_iff hy hx]

end Extends

/-! ## Stretches -/

/-- The elements from `b` to before `e`; to the end of the list if `e` is not in it. -/
def between (l : List α) (b e : α) : Set α :=
  {x | x ∈ l ∧ l.idxOf b ≤ l.idxOf x ∧ l.idxOf x < l.idxOf e}

/-- The elements from `b` to `e`. -/
def upTo (l : List α) (b e : α) : Set α :=
  {x | x ∈ l ∧ l.idxOf b ≤ l.idxOf x ∧ l.idxOf x ≤ l.idxOf e}

/-- A set of elements of the list without gaps. -/
structure Stretch (l : List α) (R : Set α) : Prop where
  subset : ∀ x ∈ R, x ∈ l
  convex : ∀ a ∈ R, ∀ b ∈ R, ∀ x ∈ l, l.idxOf a ≤ l.idxOf x → l.idxOf x ≤ l.idxOf b → x ∈ R

theorem stretch_between : Stretch l (between l b e) where
  subset _ hx := hx.1
  convex _ ha _ hb _ hx h1 h2 := ⟨hx, ha.2.1.trans h1, h2.trans_lt hb.2.2⟩

theorem stretch_upTo : Stretch l (upTo l b e) where
  subset _ hx := hx.1
  convex _ ha _ hb _ hx h1 h2 := ⟨hx, ha.2.1.trans h1, h2.trans hb.2.2⟩

/-- The elements of the list between elements of `R`. -/
def hull (l : List α) (R : Set α) : Set α :=
  {x | x ∈ l ∧ ∃ a ∈ R, ∃ b ∈ R, l.idxOf a ≤ l.idxOf x ∧ l.idxOf x ≤ l.idxOf b}

theorem hull_mono (h : R ⊆ S) : hull l R ⊆ hull l S :=
  fun _ ⟨hx, a, ha, b, hb, h1, h2⟩ => ⟨hx, a, h ha, b, h hb, h1, h2⟩

namespace Extends

variable (h : Extends l l')
include h

/-- An extension adds no element of `l` to a stretch. -/
theorem mem_hull_iff (hR : Stretch l R) (hx : x ∈ l) : x ∈ hull l' R ↔ x ∈ R := by
  constructor
  · rintro ⟨_, a, ha, b, hb, h1, h2⟩
    refine hR.convex a ha b hb x hx ?_ ?_
    · exact (h.le_iff (hR.subset a ha) hx).1 h1
    · exact (h.le_iff hx (hR.subset b hb)).1 h2
  · exact fun hxR => ⟨h.mem hx, x, hxR, x, hxR, le_rfl, le_rfl⟩

theorem hull_disjoint (hR : Stretch l R) (hS : Stretch l S) (hd : Disjoint R S) :
    Disjoint (hull l' R) (hull l' S) := by
  rw [Set.disjoint_left] at hd ⊢
  rintro x ⟨_, a, ha, b, hb, h1, h2⟩ ⟨_, c, hc, d, hd', h3, h4⟩
  have hal := hR.subset a ha; have hbl := hR.subset b hb
  have hcl := hS.subset c hc; have hdl := hS.subset d hd'
  -- the first element of the one that starts later lies in the other
  rcases Nat.le_total (l'.idxOf a) (l'.idxOf c) with hac | hca
  · refine hd (hR.convex a ha b hb c hcl ?_ ?_) hc
    · exact (h.le_iff hal hcl).1 hac
    · exact (h.le_iff hcl hbl).1 (h3.trans h2)
  · refine hd ha (hS.convex c hc d hd' a hal ?_ ?_)
    · exact (h.le_iff hcl hal).1 hca
    · exact (h.le_iff hal hdl).1 (h1.trans h4)

theorem upTo_eq_hull (hb : b ∈ l) (he : e ∈ l) (hbe : l.idxOf b ≤ l.idxOf e) :
    upTo l' b e = hull l' (upTo l b e) := by
  ext x
  constructor
  · rintro ⟨hx, h1, h2⟩
    exact ⟨hx, b, ⟨hb, le_rfl, hbe⟩, e, ⟨he, hbe, le_rfl⟩, h1, h2⟩
  · rintro ⟨hx, a, ha, c, hc, h1, h2⟩
    refine ⟨hx, le_trans ?_ h1, h2.trans ?_⟩
    · exact (h.le_iff hb ha.1).2 ha.2.1
    · exact (h.le_iff hc.1 he).2 hc.2.2

/-- Of the elements added to `l`, none is directly before `e`. -/
def Tight (l l' : List α) (e : α) : Prop :=
  ∀ x ∈ l', l'.idxOf x < l'.idxOf e → ∃ y ∈ l, l'.idxOf x ≤ l'.idxOf y ∧ l'.idxOf y < l'.idxOf e

omit h in
theorem tight_iff (hx : x ∈ l') (hxe : l'.idxOf x + 1 = l'.idxOf e) : Tight l l' e ↔ x ∈ l := by
  constructor
  · intro ht
    obtain ⟨y, hy, h1, h2⟩ := ht x hx (by omega)
    rwa [(List.idxOf_inj hx).1 (show l'.idxOf x = l'.idxOf y by omega)]
  · exact fun hxl z _ hz => ⟨x, hxl, by omega, by omega⟩

theorem lt_end_iff (he : e ∈ l ∨ e ∉ l') (hy : y ∈ l) :
    l'.idxOf y < l'.idxOf e ↔ l.idxOf y < l.idxOf e := by
  rcases he with he | he
  · exact h.lt_iff hy he
  · have hel : e ∉ l := fun he' => he (h.mem he')
    rw [List.idxOf_of_notMem he, List.idxOf_of_notMem hel]
    simp [List.idxOf_lt_length_iff, hy, h.mem hy]

/-- The stretch from `b` to before `e` is the hull of what it was, unless an element was
added to its end. -/
theorem between_eq_hull_iff (hb : b ∈ l) (he : e ∈ l ∨ e ∉ l') (hbe : l.idxOf b < l.idxOf e) :
    between l' b e = hull l' (between l b e) ↔ Tight l l' e := by
  have hb' : b ∈ between l b e := ⟨hb, le_rfl, hbe⟩
  constructor
  · intro heq x hx hxe
    rcases Nat.lt_or_ge (l'.idxOf x) (l'.idxOf b) with hxb | hbx
    · exact ⟨b, hb, hxb.le, (h.lt_end_iff he hb).2 hbe⟩
    · have hx' : x ∈ between l' b e := ⟨hx, hbx, hxe⟩
      rw [heq] at hx'
      obtain ⟨_, _, _, y, hy, _, hxy⟩ := hx'
      exact ⟨y, hy.1, hxy, (h.lt_end_iff he hy.1).2 hy.2.2⟩
  · intro ht
    ext x
    constructor
    · rintro ⟨hx, h1, h2⟩
      obtain ⟨y, hy, h3, h4⟩ := ht x hx h2
      refine ⟨hx, b, hb', y, ⟨hy, ?_, (h.lt_end_iff he hy).1 h4⟩, h1, h3⟩
      exact (h.le_iff hb hy).1 (h1.trans h3)
    · rintro ⟨hx, a, ha, c, hc, h1, h2⟩
      refine ⟨hx, ((h.le_iff hb ha.1).2 ha.2.1).trans h1, h2.trans_lt ?_⟩
      exact (h.lt_end_iff he hc.1).2 hc.2.2

end Extends

/-- What `R` has become with added elements: it still has its elements of `l`, and the
added ones are between them. -/
structure Keeps (l l' : List α) (R R' : Set α) : Prop where
  mem_iff : ∀ x ∈ l, x ∈ R' ↔ x ∈ R
  between : ∀ x ∈ R', x ∉ l → ∃ a ∈ R, ∃ b ∈ R, l'.idxOf a < l'.idxOf x ∧ l'.idxOf x < l'.idxOf b

theorem Extends.keeps_iff (h : Extends l l') {R' : Set α} (hR : Stretch l R)
    (hR' : Stretch l' R') : Keeps l l' R R' ↔ R' = hull l' R := by
  constructor
  · intro hk
    ext x
    constructor
    · intro hx
      by_cases hxl : x ∈ l
      · exact (h.mem_hull_iff hR hxl).2 ((hk.mem_iff x hxl).1 hx)
      · obtain ⟨a, ha, b, hb, h1, h2⟩ := hk.between x hx hxl
        exact ⟨hR'.subset x hx, a, ha, b, hb, h1.le, h2.le⟩
    · rintro ⟨hx, a, ha, b, hb, h1, h2⟩
      have ha' := (hk.mem_iff a (hR.subset a ha)).2 ha
      have hb' := (hk.mem_iff b (hR.subset b hb)).2 hb
      exact hR'.convex a ha' b hb' x hx h1 h2
  · rintro rfl
    refine ⟨fun x hx => h.mem_hull_iff hR hx, ?_⟩
    rintro x ⟨hx, a, ha, b, hb, h1, h2⟩ hxl
    have hax : a ≠ x := fun e => hxl (e ▸ hR.subset a ha)
    have hbx : x ≠ b := fun e => hxl (e ▸ hR.subset b hb)
    refine ⟨a, ha, b, hb, lt_of_le_of_ne h1 fun e => hax ?_, lt_of_le_of_ne h2 fun e => hbx ?_⟩
    · exact (List.idxOf_inj (h.mem (hR.subset a ha))).1 e
    · exact (List.idxOf_inj hx).1 e

/-! ## Stretches by position -/

/-- The elements at the positions from `i` to before `j`. -/
def span (l : List α) (i j : ℕ) : Set α := {x | x ∈ l ∧ i ≤ l.idxOf x ∧ l.idxOf x < j}

variable {i j i' j' k : ℕ}

theorem between_eq_span : between l b e = span l (l.idxOf b) (l.idxOf e) := rfl

theorem upTo_eq_span : upTo l b e = span l (l.idxOf b) (l.idxOf e + 1) := by
  simp only [upTo, span, Nat.lt_succ_iff]

theorem span_subset (hi : i' ≤ i) (hj : j ≤ j') : span l i j ⊆ span l i' j' :=
  fun _ ⟨hx, h1, h2⟩ => ⟨hx, hi.trans h1, h2.trans_le hj⟩

theorem disjoint_span (h : j ≤ i' ∨ j' ≤ i) : Disjoint (span l i j) (span l i' j') := by
  rw [Set.disjoint_left]
  rintro x ⟨_, h1, h2⟩ ⟨_, h3, h4⟩
  omega

theorem span_nonempty (h : l.Nodup) (hij : i < j) (hi : i < l.length) : (span l i j).Nonempty :=
  ⟨l[i], List.getElem_mem hi, (h.idxOf_getElem i hi).ge, by rwa [h.idxOf_getElem i hi]⟩

theorem disjoint_or_span_subset (h : j ≤ i' ∨ j' ≤ i ∨ i' ≤ i ∧ j ≤ j') :
    Disjoint (span l i j) (span l i' j') ∨ span l i j ⊆ span l i' j' := by
  rcases h with h | h | ⟨h1, h2⟩
  · exact .inl (disjoint_span (.inl h))
  · exact .inl (disjoint_span (.inr h))
  · exact .inr (span_subset h1 h2)

omit [DecidableEq α] in
/-- `R` may come before `S` in a list of stretches where inner ones come first. -/
theorem disjoint_or_subset_iff (hS : S.Nonempty) : Disjoint R S ∨ R ⊆ S ↔
    (Disjoint R S ∨ R ⊆ S ∨ S ⊆ R) ∧ ¬ S ⊂ R := by
  constructor
  · rintro (h | h)
    · refine ⟨.inl h, fun hSR => ?_⟩
      obtain ⟨x, hx⟩ := hS
      exact Set.disjoint_left.1 h (hSR.1 hx) hx
    · exact ⟨.inr (.inl h), fun hSR => hSR.2 h⟩
  · rintro ⟨h | h | h, hn⟩
    · exact .inl h
    · exact .inr h
    · exact .inr (not_not.1 fun hRS => hn ⟨h, hRS⟩)

theorem idxOf_of_append (h : l.Nodup) (hl : l = pre ++ x :: post) : l.idxOf x = pre.length := by
  subst hl
  have hx : x ∉ pre := fun hx => (List.nodup_append.1 h).2.2 x hx x (by simp) rfl
  simp [List.idxOf_append, hx]

theorem idxOf_range'_of_append {l pre post : List ℕ} {a k j : ℕ} (h : l.Nodup)
    (hl : l = pre ++ (List.range' a k ++ post)) (hj : j < k) : l.idxOf (a + j) = pre.length + j := by
  obtain ⟨d, rfl⟩ : ∃ d, k = j + (d + 1) := ⟨k - j - 1, by omega⟩
  rw [← List.range'_append_1, List.range'_succ, List.append_assoc, ← List.append_assoc] at hl
  rw [idxOf_of_append h hl]
  simp

/-- Neighbours in a list of distinct elements. -/
theorem idxOf_succ_of_append (h : l.Nodup) (hl : l = pre ++ x :: y :: post) :
    l.idxOf x + 1 = l.idxOf y := by
  rw [idxOf_of_append h hl, idxOf_of_append h (hl.trans (List.append_cons ..))]
  simp

/-! ## Neighbours -/

variable {z : α} {new : List α}

omit [DecidableEq α] in
theorem neighbours_of_append (h : l = pre ++ x :: y :: post) : [x, y] <:+: l :=
  ⟨pre, post, by simp [h]⟩

/-- Of distinct elements, one has one that follows it. -/
theorem neighbours_unique (hl : l.Nodup) (hy : [x, y] <:+: l) (hz : [x, z] <:+: l) : y = z := by
  obtain ⟨pre, post, hxy⟩ := hy
  obtain ⟨pre', post', hxz⟩ := hz
  have h1 : l.idxOf x + 1 = l.idxOf y := @idxOf_succ_of_append α _ l pre post x y hl (by simp [← hxy])
  have h2 : l.idxOf x + 1 = l.idxOf z := @idxOf_succ_of_append α _ l pre' post' x z hl (by simp [← hxz])
  refine (List.idxOf_inj ?_).1 (h1.symm.trans h2)
  rw [← hxy]
  simp

omit [DecidableEq α] in
/-- What is put behind `a` comes between no other neighbours. -/
theorem neighbours_insert (h : [x, y] <:+: pre ++ a :: post) (hx : x ≠ a) :
    [x, y] <:+: pre ++ a :: (new ++ post) := by
  induction pre with
  | nil =>
    rw [List.nil_append, List.infix_cons_iff] at h ⊢
    rcases h with ⟨t, ht⟩ | h
    · exact absurd (List.cons.inj ht).1 hx
    · exact .inr (List.infix_append_of_infix_right h)
  | cons b pre ih =>
    rw [List.cons_append, List.infix_cons_iff] at h ⊢
    rcases h with ⟨t, ht⟩ | h
    · obtain ⟨rfl, htail⟩ := List.cons.inj ht
      refine .inl ?_
      cases pre with
      | nil => exact ⟨new ++ post, by rw [(List.cons.inj htail).1]; rfl⟩
      | cons c pre => exact ⟨pre ++ a :: (new ++ post), by rw [(List.cons.inj htail).1]; rfl⟩
    · exact .inr (ih h)

end DdTrace.Lib
