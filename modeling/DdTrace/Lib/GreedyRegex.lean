import Mathlib.Data.List.Basic
import Mathlib.Data.List.TakeWhile
import Mathlib.Tactic.Common

/-!
# Greedy patterns

Patterns of characters, `([class]+)` and `([class]{n})`, one behind the other. `matchesAt` are
the matches at the front of a text in the order of preference, `search` the groups of the
leftmost match. A text falls apart at a character that the pattern does not contain
(`search_separator`), and what the characters outside of the pattern are does not matter
(`search_blurred`).
-/

namespace DdTrace.Lib

inductive Item (α : Type*) where
  | char (c : α)
  | plus (cls : α → Bool)
  | times (cls : α → Bool) (n : ℕ)

namespace Item

variable {α : Type*} [DecidableEq α]

def accepts : Item α → α → Bool
  | char c, a => a = c
  | plus cls, a => cls a
  | times cls _, a => cls a

/-- The first `n` characters are a group, the rest is matched by the items behind. -/
def group (n : ℕ) (s : List α) (rest : List (List (List α) × List α)) :
    List (List (List α) × List α) :=
  rest.map fun (groups, r) => (s.take n :: groups, r)

/-- The groups of a match and the text behind it. A repetition takes as much as it can first. -/
def matchesAt : List (Item α) → List α → List (List (List α) × List α)
  | [], s => [([], s)]
  | char _ :: _, [] => []
  | char c :: items, a :: s => if a = c then matchesAt items s else []
  | plus cls :: items, s => (List.range' 1 (s.takeWhile cls).length).reverse.flatMap fun n =>
      group n s (matchesAt items (s.drop n))
  | times cls n :: items, s =>
    if n ≤ (s.takeWhile cls).length then group n s (matchesAt items (s.drop n)) else []

/-- The groups of the first match. -/
def groupsAt (items : List (Item α)) (s : List α) : Option (List (List α)) :=
  ((matchesAt items s).head?).map (·.1)

/-- The groups of the leftmost match. -/
def search (items : List (Item α)) : List α → Option (List (List α))
  | [] => groupsAt items []
  | a :: s => (groupsAt items (a :: s)).or (search items s)

example : search [char 'v', plus Char.isDigit, char '.', plus Char.isDigit] "v1 v12.345.6".toList =
    some ["12".toList, "345".toList] := by decide
example : search [times Char.isDigit 2] "1a2345".toList = some ["23".toList] := by decide

variable {items : List (Item α)} {cls : α → Bool} {a c d : α} {s t p : List α} {n : ℕ}
  {groups : List (List α)}

/-! ## Searching -/

theorem search_cons : search items (a :: s) =
    (groupsAt items (a :: s)).or (search items s) := rfl

theorem groupsAt_eq_none : groupsAt items s = none ↔ matchesAt items s = [] := by
  rw [groupsAt, Option.map_eq_none_iff, List.head?_eq_none_iff]

theorem search_of_groupsAt (h : groupsAt items s = some groups) : search items s = some groups := by
  cases s with
  | nil => exact h
  | cons a s => rw [search_cons, h, Option.some_or]

theorem search_cons_of_nil (h : matchesAt items (a :: s) = []) :
    search items (a :: s) = search items s := by
  rw [search_cons, groupsAt_eq_none.2 h, Option.none_or]

/-- The search passes over what the pattern does not begin with. -/
theorem search_append_of_notMem (h : c ∉ p) :
    search (char c :: items) (p ++ s) = search (char c :: items) s := by
  induction p with
  | nil => rfl
  | cons a p ih =>
    obtain ⟨hne, hp⟩ := not_or.1 (List.mem_cons.not.1 h)
    rw [List.cons_append, search_cons_of_nil, ih hp]
    exact if_neg (Ne.symm hne)

theorem matchesAt_literal {literal : List α} :
    matchesAt (literal.map char ++ items) (literal ++ s) = matchesAt items s := by
  induction literal with
  | nil => rfl
  | cons c literal ih => exact (if_pos rfl).trans ih

theorem groupsAt_literal {literal : List α} :
    groupsAt (literal.map char ++ items) (literal ++ s) = groupsAt items s := by
  rw [groupsAt, matchesAt_literal, groupsAt]

/-- A match contains every character of the pattern. -/
theorem mem_of_matchesAt (h : matchesAt items s ≠ []) (hd : char d ∈ items) : d ∈ s := by
  induction items generalizing s with
  | nil => cases hd
  | cons item items ih =>
    cases item with
    | char c =>
      cases s with
      | nil => exact absurd rfl h
      | cons a s =>
        rw [matchesAt] at h
        split at h
        · rename_i hac
          rcases List.mem_cons.1 hd with heq | hd
          · obtain rfl := char.inj heq
            exact hac ▸ List.mem_cons_self
          · exact List.mem_cons_of_mem a (ih h hd)
        · exact absurd rfl h
    | plus cls =>
      have hd := (List.mem_cons.1 hd).resolve_left nofun
      obtain ⟨n, -, hne⟩ : ∃ n ∈ (List.range' 1 (s.takeWhile cls).length).reverse,
          group n s (matchesAt items (s.drop n)) ≠ [] := by
        by_contra hall
        push Not at hall
        exact h (List.flatMap_eq_nil_iff.2 hall)
      exact List.mem_of_mem_drop (ih (fun hnil => hne (by rw [hnil]; rfl)) hd)
    | times cls n =>
      have hd := (List.mem_cons.1 hd).resolve_left nofun
      rw [matchesAt] at h
      split at h
      · exact List.mem_of_mem_drop (ih (fun hnil => h (by rw [hnil]; rfl)) hd)
      · exact absurd rfl h

theorem search_eq_none_of_notMem (hd : char d ∈ items) (h : d ∉ s) : search items s = none := by
  have hnil : ∀ t, d ∉ t → matchesAt items t = [] := by
    intro t ht
    by_contra hne
    exact ht (mem_of_matchesAt hne hd)
  induction s with
  | nil => exact groupsAt_eq_none.2 (hnil [] h)
  | cons a s ih =>
    rw [search_cons_of_nil (hnil _ h)]
    exact ih fun hs => h (List.mem_cons_of_mem a hs)

/-! ## Groups -/

/-- What the groups of a match look like. -/
def GroupsOf : List (Item α) → List (List α) → Prop
  | [], groups => groups = []
  | char _ :: items, groups => GroupsOf items groups
  | plus cls :: items, groups => ∃ first rest, groups = first :: rest ∧ first ≠ [] ∧
      (∀ a ∈ first, cls a) ∧ GroupsOf items rest
  | times cls n :: items, groups => ∃ first rest, groups = first :: rest ∧ first.length = n ∧
      (∀ a ∈ first, cls a) ∧ GroupsOf items rest

omit [DecidableEq α] in
theorem groupsOf_literal {literal : List α} :
    GroupsOf (literal.map char ++ items) groups ↔ GroupsOf items groups := by
  induction literal with
  | nil => exact Iff.rfl
  | cons c literal ih => exact ih

omit [DecidableEq α] in
theorem mem_take_of_le (hn : n ≤ (s.takeWhile cls).length) : ∀ a ∈ s.take n, cls a := by
  have hfront : s.take n <+: s.takeWhile cls :=
    List.prefix_of_prefix_length_le (List.take_prefix n s) (List.takeWhile_prefix cls)
      (le_trans (List.length_take_le n s) hn)
  exact fun a ha => List.mem_takeWhile_imp (hfront.subset ha)

theorem groupsOf_of_mem {r : List α} (h : (groups, r) ∈ matchesAt items s) :
    GroupsOf items groups := by
  induction items generalizing s groups with
  | nil =>
    obtain ⟨rfl, -⟩ := Prod.mk.inj (List.mem_singleton.1 h)
    rfl
  | cons item items ih =>
    cases item with
    | char c =>
      cases s with
      | nil => cases h
      | cons a s =>
        rw [matchesAt] at h
        split at h
        · exact ih h
        · cases h
    | plus cls =>
      obtain ⟨n, hn, h⟩ := List.mem_flatMap.1 h
      obtain ⟨⟨rest, r'⟩, hrest, heq⟩ := List.mem_map.1 h
      obtain ⟨rfl, rfl⟩ := Prod.mk.inj heq
      rw [List.mem_reverse, List.mem_range'_1] at hn
      have hle : n ≤ (s.takeWhile cls).length := by omega
      have hlength := le_trans hle (List.takeWhile_prefix cls).length_le
      refine ⟨s.take n, rest, rfl, fun hnil => ?_, mem_take_of_le hle, ih hrest⟩
      rw [List.take_eq_nil_iff] at hnil
      rcases hnil with rfl | rfl
      · omega
      · rw [List.length_nil] at hlength
        omega
    | times cls n =>
      rw [matchesAt] at h
      split at h
      · rename_i hle
        obtain ⟨⟨rest, r'⟩, hrest, heq⟩ := List.mem_map.1 h
        obtain ⟨rfl, rfl⟩ := Prod.mk.inj heq
        have hlength := le_trans hle (List.takeWhile_prefix cls).length_le
        exact ⟨s.take n, rest, rfl, List.length_take_of_le hlength, mem_take_of_le hle, ih hrest⟩
      · cases h

theorem groupsOf_groupsAt (h : groupsAt items s = some groups) : GroupsOf items groups := by
  obtain ⟨⟨groups', r⟩, hhead, rfl⟩ := Option.map_eq_some_iff.1 h
  exact groupsOf_of_mem (List.mem_of_head? hhead)

theorem groupsOf_search (h : search items s = some groups) : GroupsOf items groups := by
  induction s with
  | nil => exact groupsOf_groupsAt h
  | cons a s ih =>
    rw [search_cons, Option.or_eq_some_iff] at h
    rcases h with h | ⟨-, h⟩
    · exact groupsOf_groupsAt h
    · exact ih h

/-! ## Separators -/

omit [DecidableEq α] in
theorem takeWhile_separator (hc : cls c = false) :
    (s ++ c :: t).takeWhile cls = s.takeWhile cls := by
  induction s with
  | nil => exact List.takeWhile_cons_of_neg (by rw [hc]; exact Bool.false_ne_true)
  | cons a s ih =>
    cases ha : cls a with
    | false =>
      rw [List.cons_append, List.takeWhile_cons_of_neg (by rw [ha]; exact Bool.false_ne_true),
        List.takeWhile_cons_of_neg (by rw [ha]; exact Bool.false_ne_true)]
    | true =>
      rw [List.cons_append, List.takeWhile_cons_of_pos ha, ih, List.takeWhile_cons_of_pos ha]

omit [DecidableEq α] in
theorem length_takeWhile_le : (s.takeWhile cls).length ≤ s.length :=
  (List.takeWhile_prefix cls).length_le

/-- What is behind a separator stays behind the match. -/
def behind (rest : List α) : List (List α) × List α → List (List α) × List α :=
  fun (groups, r) => (groups, r ++ rest)

omit [DecidableEq α] in
theorem group_behind {rest : List α} {m : List (List (List α) × List α)} (hn : n ≤ s.length) :
    group n (s ++ rest) (m.map (behind rest)) = (group n s m).map (behind rest) := by
  unfold group
  rw [List.map_map, List.map_map, List.take_append_of_le_length hn]
  rfl

/-- No match goes beyond a separator. -/
theorem matchesAt_separator (h : ∀ item ∈ items, item.accepts c = false) :
    matchesAt items (s ++ c :: t) = (matchesAt items s).map (behind (c :: t)) := by
  induction items generalizing s with
  | nil => rfl
  | cons item items ih =>
    obtain ⟨hitem, hitems⟩ := List.forall_mem_cons.1 h
    cases item with
    | char d =>
      cases s with
      | nil => exact if_neg (of_decide_eq_false hitem)
      | cons a s =>
        rw [List.cons_append, matchesAt, matchesAt]
        split
        · exact ih hitems
        · rfl
    | plus cls =>
      have hcls : cls c = false := hitem
      rw [matchesAt, matchesAt, takeWhile_separator hcls, List.map_flatMap]
      refine List.flatMap_congr fun n hn => ?_
      have hle : n ≤ s.length := by
        rw [List.mem_reverse, List.mem_range'_1] at hn
        have hlength := @length_takeWhile_le α cls s
        omega
      rw [List.drop_append_of_le_length hle, ih hitems, group_behind hle]
    | times cls n =>
      have hcls : cls c = false := hitem
      rw [matchesAt, matchesAt, takeWhile_separator hcls]
      split
      · rename_i hn
        have hle : n ≤ s.length := le_trans hn length_takeWhile_le
        rw [List.drop_append_of_le_length hle, ih hitems, group_behind hle]
      · rfl

theorem groupsAt_separator (h : ∀ item ∈ items, item.accepts c = false) :
    groupsAt items (s ++ c :: t) = groupsAt items s := by
  rw [groupsAt, groupsAt, matchesAt_separator h, List.head?_map, Option.map_map]
  rfl

/-- The search looks in front of a separator first, then behind it. -/
theorem search_separator (h : ∀ item ∈ items, item.accepts c = false) :
    search items (s ++ c :: t) = (search items s).or (search items t) := by
  induction s with
  | nil =>
    have hfirst : groupsAt items (c :: t) = groupsAt items [] := groupsAt_separator (s := []) h
    rw [List.nil_append, search_cons, hfirst]
    rfl
  | cons a s ih =>
    rw [List.cons_append, search_cons, search_cons, ih, ← List.cons_append, groupsAt_separator h,
      Option.or_assoc]

/-! ## Repetitions -/

/-- Where the next item is a character outside of the class, a repetition takes all it can. -/
theorem groupsAt_plus (hne : s ≠ []) (hs : ∀ a ∈ s, cls a) (ht : ∀ a ∈ t.head?, cls a = false)
    (hitems : ∀ item ∈ items.head?, ∃ c, item = char c ∧ cls c = false) :
    groupsAt (plus cls :: items) (s ++ t) = (groupsAt items t).map (s :: ·) := by
  have htake : (s ++ t).takeWhile cls = s := by
    rw [List.takeWhile_append_of_pos hs]
    cases t with
    | nil => exact List.append_nil s
    | cons a t =>
      rw [List.takeWhile_cons_of_neg (by rw [ht a rfl]; exact Bool.false_ne_true), List.append_nil]
  obtain ⟨k, hk⟩ := Nat.exists_eq_add_one_of_ne_zero (List.length_eq_zero_iff.not.2 hne)
  have hlongest : (List.range' 1 s.length).reverse = s.length :: (List.range' 1 k).reverse := by
    rw [hk, List.range'_concat, List.reverse_concat, Nat.one_mul, Nat.add_comm 1 k]
  rw [groupsAt, matchesAt, htake, hlongest, List.flatMap_cons, List.drop_left, group,
    List.take_left, groupsAt]
  cases hrest : matchesAt items t with
  | cons first rest => rfl
  | nil =>
    have hshorter : (List.range' 1 k).reverse.flatMap (fun n =>
        group n (s ++ t) (matchesAt items ((s ++ t).drop n))) = [] := by
      rw [List.flatMap_eq_nil_iff]
      intro n hn
      rw [List.mem_reverse, List.mem_range'_1] at hn
      have hlt : n < s.length := by omega
      have hdrop : matchesAt items ((s ++ t).drop n) = [] := by
        cases items with
        | nil => cases hrest
        | cons item items =>
          obtain ⟨c, rfl, hc⟩ := hitems item rfl
          rw [List.drop_append_of_le_length hlt.le, List.drop_eq_getElem_cons hlt]
          refine if_neg fun heq => ?_
          rw [← heq, hs _ (List.getElem_mem hlt)] at hc
          cases hc
      rw [hdrop]
      rfl
    rw [hshorter]
    rfl

theorem groupsAt_times (hn : s.length = n) (hs : ∀ a ∈ s, cls a) :
    groupsAt (times cls n :: items) (s ++ t) = (groupsAt items t).map (s :: ·) := by
  have hlength : n ≤ ((s ++ t).takeWhile cls).length := by
    rw [List.takeWhile_append_of_pos hs, List.length_append]
    omega
  rw [groupsAt, matchesAt, if_pos hlength, group, List.head?_map, ← hn, List.take_left,
    List.drop_left, Option.map_map, groupsAt, Option.map_map]
  rfl

/-! ## Characters outside of the pattern -/

/-- The texts have the same characters where `other` does not hold, and stretches of others at
the same places. -/
inductive Blurred (other : α → Bool) : List α → List α → Prop
  | nil : Blurred other [] []
  | same {a : α} {s t : List α} (ha : other a = false) (h : Blurred other s t) :
      Blurred other (a :: s) (a :: t)
  | others {o o' s t : List α} (ho : o ≠ []) (ho' : o' ≠ []) (hall : ∀ a ∈ o, other a)
      (hall' : ∀ a ∈ o', other a) (h : Blurred other s t) : Blurred other (o ++ s) (o' ++ t)

variable {other : α → Bool}

omit [DecidableEq α] in
theorem Blurred.takeWhile_eq (h : Blurred other s t) (hcls : ∀ a, cls a → other a = false) :
    s.takeWhile cls = t.takeWhile cls := by
  induction h with
  | nil => rfl
  | same ha h ih => rw [List.takeWhile_cons, List.takeWhile_cons, ih]
  | @others o o' s t ho ho' hall hall' h ih =>
    have hnone : ∀ {o : List α}, o ≠ [] → (∀ a ∈ o, other a) → ∀ s,
        (o ++ s).takeWhile cls = [] := by
      intro o ho hall s
      obtain ⟨a, o, rfl⟩ := List.exists_cons_of_ne_nil ho
      refine List.takeWhile_cons_of_neg fun ha => ?_
      have hother := hall a List.mem_cons_self
      rw [hcls a ha] at hother
      cases hother
    rw [hnone ho hall, hnone ho' hall']

omit [DecidableEq α] in
/-- What a class takes is the same in front of both texts. -/
theorem Blurred.take_drop (h : Blurred other s t) (hcls : ∀ a, cls a → other a = false)
    (hn : n ≤ (s.takeWhile cls).length) :
    s.take n = t.take n ∧ Blurred other (s.drop n) (t.drop n) := by
  induction n generalizing s t with
  | zero => exact ⟨rfl, h⟩
  | succ n ih =>
    cases h with
    | nil => cases hn
    | @same a s t ha h =>
      cases hc : cls a with
      | false =>
        rw [List.takeWhile_cons_of_neg (by rw [hc]; exact Bool.false_ne_true)] at hn
        cases hn
      | true =>
        rw [List.takeWhile_cons_of_pos hc, List.length_cons] at hn
        obtain ⟨htake, hdrop⟩ := ih h (Nat.le_of_succ_le_succ hn)
        rw [List.take_succ_cons, List.take_succ_cons, htake]
        exact ⟨rfl, hdrop⟩
    | @others o o' s t ho ho' hall hall' h =>
      obtain ⟨a, o, rfl⟩ := List.exists_cons_of_ne_nil ho
      have hother := hall a List.mem_cons_self
      rw [List.cons_append] at hn
      by_cases hc : cls a
      · rw [hcls a hc] at hother
        cases hother
      · rw [List.takeWhile_cons_of_neg hc] at hn
        cases hn

/-- The pattern has no other characters. -/
def Avoids (other : α → Bool) (items : List (Item α)) : Prop :=
  ∀ item ∈ items, ∀ a, item.accepts a → other a = false

theorem Blurred.groups_eq (h : Blurred other s t) (hitems : Avoids other items) :
    (matchesAt items s).map (·.1) = (matchesAt items t).map (·.1) := by
  induction items generalizing s t with
  | nil => rfl
  | cons item items ih =>
    obtain ⟨hitem, hrest⟩ := List.forall_mem_cons.1 hitems
    have hgroup : ∀ {cls : α → Bool} {n}, (∀ a, cls a → other a = false) →
        n ≤ (s.takeWhile cls).length →
        (group n s (matchesAt items (s.drop n))).map (·.1) =
          (group n t (matchesAt items (t.drop n))).map (·.1) := by
      intro cls n hcls hn
      obtain ⟨htake, hdrop⟩ := h.take_drop hcls hn
      have hmap : ∀ (p : List α) (m : List (List (List α) × List α)),
          (m.map fun (groups, r) => (p :: groups, r)).map (·.1) = (m.map (·.1)).map (p :: ·) := by
        intro p m
        rw [List.map_map, List.map_map]
        rfl
      rw [group, group, hmap, hmap, htake, ih hdrop hrest]
    cases item with
    | char c =>
      cases h with
      | nil => rfl
      | same ha h =>
        rw [matchesAt, matchesAt]
        split
        · exact ih h hrest
        · rfl
      | @others o o' s t ho ho' hall hall' h =>
        have hc : other c = false := hitem c (decide_eq_true rfl)
        have hnil : ∀ {o : List α}, o ≠ [] → (∀ a ∈ o, other a) → ∀ s,
            matchesAt (char c :: items) (o ++ s) = [] := by
          intro o ho hall s
          obtain ⟨a, o, rfl⟩ := List.exists_cons_of_ne_nil ho
          refine if_neg fun heq => ?_
          rw [← heq, hall a List.mem_cons_self] at hc
          cases hc
        rw [hnil ho hall, hnil ho' hall']
    | plus cls =>
      have hcls : ∀ a, cls a → other a = false := hitem
      rw [matchesAt, matchesAt, ← h.takeWhile_eq hcls, List.map_flatMap, List.map_flatMap]
      refine List.flatMap_congr fun n hn => hgroup hcls ?_
      rw [List.mem_reverse, List.mem_range'_1] at hn
      omega
    | times cls n =>
      have hcls : ∀ a, cls a → other a = false := hitem
      rw [matchesAt, matchesAt, ← h.takeWhile_eq hcls]
      split
      · rename_i hn
        exact hgroup hcls hn
      · rfl

theorem Blurred.groupsAt_eq (h : Blurred other s t) (hitems : Avoids other items) :
    groupsAt items s = groupsAt items t := by
  rw [groupsAt, groupsAt, ← List.head?_map, ← List.head?_map, h.groups_eq hitems]

omit [DecidableEq α] in
theorem Blurred.refl (s : List α) : Blurred other s s := by
  induction s with
  | nil => exact .nil
  | cons a s ih =>
    cases ha : other a with
    | false => exact .same ha ih
    | true =>
      have hall : ∀ b ∈ [a], other b := List.forall_mem_singleton.2 ha
      show Blurred other ([a] ++ s) ([a] ++ s)
      exact .others (List.cons_ne_nil a []) (List.cons_ne_nil a []) hall hall ih

/-- The positions inside of a stretch of other characters are all the same. -/
theorem search_others {o : List α} (ho : o ≠ []) (hall : ∀ a ∈ o, other a)
    (hitems : Avoids other items) :
    search items (o ++ s) = (groupsAt items (o ++ s)).or (search items s) := by
  induction o with
  | nil => exact absurd rfl ho
  | cons a o ih =>
    cases o with
    | nil => rfl
    | cons b o =>
      obtain ⟨-, htail⟩ := List.forall_mem_cons.1 hall
      have hsame : groupsAt items (a :: b :: o ++ s) = groupsAt items (b :: o ++ s) :=
        (Blurred.others ho (List.cons_ne_nil b o) hall htail (.refl s)).groupsAt_eq hitems
      rw [List.cons_append, search_cons, ih (List.cons_ne_nil b o) htail, ← List.cons_append, hsame,
        ← Option.or_assoc, Option.or_self]

/-- A search sees only the characters of its pattern. -/
theorem search_blurred (h : Blurred other s t) (hitems : Avoids other items) :
    search items s = search items t := by
  induction h with
  | nil => rfl
  | same ha h ih => rw [search_cons, search_cons, ih, (Blurred.same ha h).groupsAt_eq hitems]
  | others ho ho' hall hall' h ih =>
    rw [search_others ho hall hitems, search_others ho' hall' hitems, ih,
      (Blurred.others ho ho' hall hall' h).groupsAt_eq hitems]

end Item

end DdTrace.Lib
