import Mathlib.Data.List.AList

/-!
# Dictionaries

A dictionary is an association list with distinct keys. `add` is the method that throws when
the key is there, `addAll` adds pairs one after the other: it succeeds exactly when the keys
are distinct and new (`addAll_isSome_iff`). `setAll` is the same with the indexer, which
overwrites.
-/

namespace DdTrace.Lib

/-- The pairs of a dictionary, no key twice. -/
abbrev Dictionary (κ ν : Type) := AList fun _ : κ => ν

namespace Dictionary

variable {κ ν : Type} [DecidableEq κ] {d d' : Dictionary κ ν} {k : κ} {v : ν}
  {l : List (κ × ν)}

/-- `TryGetValue` -/
def tryGetValue (d : Dictionary κ ν) (k : κ) : Option ν := d.lookup k

/-- The indexer as a setter. -/
def set (d : Dictionary κ ν) (k : κ) (v : ν) : Dictionary κ ν := d.insert k v

/-- `Add`, with `none` for the exception at a key that is there. -/
def add (d : Dictionary κ ν) (k : κ) (v : ν) : Option (Dictionary κ ν) :=
  if k ∈ d then none else some (d.set k v)

def setAll (d : Dictionary κ ν) (l : List (κ × ν)) : Dictionary κ ν :=
  l.foldl (fun d p => d.set p.1 p.2) d

def addAll (d : Dictionary κ ν) (l : List (κ × ν)) : Option (Dictionary κ ν) :=
  l.foldlM (fun d p => d.add p.1 p.2) d

/-- What an enumeration yields. -/
def pairs (d : Dictionary κ ν) : List (κ × ν) := d.entries.map fun e => (e.1, e.2)

@[simp] theorem tryGetValue_empty : (∅ : Dictionary κ ν).tryGetValue k = none := rfl

theorem tryGetValue_eq_none : d.tryGetValue k = none ↔ k ∉ d := AList.lookup_eq_none

theorem tryGetValue_set (d : Dictionary κ ν) (k k' : κ) (v : ν) :
    (d.set k v).tryGetValue k' = if k' = k then some v else d.tryGetValue k' := by
  split
  · rename_i h
    subst h
    exact AList.lookup_insert d
  · rename_i h
    exact AList.lookup_insert_ne h

theorem mem_set {k' : κ} : k' ∈ d.set k v ↔ k' = k ∨ k' ∈ d := AList.mem_insert d

theorem add_eq_some : d.add k v = some d' ↔ k ∉ d ∧ d.set k v = d' := by
  rw [add]
  split <;> simp [*]

theorem mem_pairs : (k, v) ∈ d.pairs ↔ d.tryGetValue k = some v := by
  rw [tryGetValue, ← Option.mem_def, AList.mem_lookup_iff, pairs, List.mem_map]
  constructor
  · rintro ⟨⟨a, b⟩, hmem, hpair⟩
    cases hpair
    exact hmem
  · intro h
    exact ⟨⟨k, v⟩, h, rfl⟩

omit [DecidableEq κ] in
theorem nodup_pairs : (d.pairs.map Prod.fst).Nodup := by
  rw [pairs, List.map_map]
  exact d.keys_nodup

/-- The last pair with a key decides. -/
theorem tryGetValue_setAll (d : Dictionary κ ν) (l : List (κ × ν)) (k : κ) :
    (d.setAll l).tryGetValue k = (l.reverse.lookup k).or (d.tryGetValue k) := by
  induction l generalizing d with
  | nil => rfl
  | cons p l ih =>
    obtain ⟨k1, v1⟩ := p
    show ((d.set k1 v1).setAll l).tryGetValue k = _
    rw [ih, tryGetValue_set, List.reverse_cons, List.lookup_append, Option.or_assoc]
    congr 1
    by_cases hk : k = k1
    · simp [hk]
    · have hbeq : (k == k1) = false := beq_eq_false_iff_ne.2 hk
      rw [if_neg hk, List.lookup_cons, hbeq]
      rfl

theorem addAll_cons {p : κ × ν} :
    d.addAll (p :: l) = (d.add p.1 p.2).bind fun d => d.addAll l := rfl

theorem addAll_isSome_iff : (d.addAll l).isSome ↔
    (l.map Prod.fst).Nodup ∧ ∀ k ∈ l.map Prod.fst, k ∉ d := by
  induction l generalizing d with
  | nil => simp [addAll]
  | cons p l ih =>
    rw [addAll_cons, List.map_cons, List.nodup_cons, List.forall_mem_cons]
    by_cases hp : p.1 ∈ d
    · simp [add, hp]
    · have hadd : d.add p.1 p.2 = some (d.set p.1 p.2) := if_neg hp
      rw [hadd, Option.bind_some, ih]
      simp only [mem_set, not_or]
      constructor
      · rintro ⟨hnodup, hnew⟩
        exact ⟨⟨fun hmem => (hnew _ hmem).1 rfl, hnodup⟩, hp, fun k hk => (hnew k hk).2⟩
      · rintro ⟨⟨hnot, hnodup⟩, -, hnew⟩
        refine ⟨hnodup, fun k hk => ⟨?_, hnew k hk⟩⟩
        rintro rfl
        exact hnot hk

theorem tryGetValue_addAll (h : d.addAll l = some d') (k : κ) :
    d'.tryGetValue k = (l.lookup k).or (d.tryGetValue k) := by
  induction l generalizing d with
  | nil =>
    cases h
    rfl
  | cons p l ih =>
    rw [addAll_cons] at h
    obtain ⟨d1, hadd, h⟩ := Option.bind_eq_some_iff.1 h
    obtain ⟨hnew, rfl⟩ := add_eq_some.1 hadd
    have hrest := addAll_isSome_iff.1 (Option.isSome_of_eq_some h)
    rw [ih h, tryGetValue_set]
    by_cases hk : k = p.1
    · -- the key of the first pair is not met again
      have hnone : l.lookup k = none := by
        rw [List.lookup_eq_none_iff]
        intro q hq
        rw [bne_iff_ne]
        rintro rfl
        exact hrest.2 q.1 (List.mem_map_of_mem hq) (mem_set.2 (.inl hk))
      rw [hnone, if_pos hk]
      obtain ⟨k1, v1⟩ := p
      cases hk
      simp
    · obtain ⟨k1, v1⟩ := p
      have hbeq : (k == k1) = false := beq_eq_false_iff_ne.2 hk
      rw [if_neg hk, List.lookup_cons, hbeq]

omit [DecidableEq κ] in
theorem eq_of_mem_of_nodup (hl : (l.map Prod.fst).Nodup) {v' : ν} (h : (k, v) ∈ l)
    (h' : (k, v') ∈ l) : v = v' := by
  have := List.inj_on_of_nodup_map hl h h' rfl
  cases this
  rfl

/-- With distinct keys every pair is found. -/
theorem lookup_eq_some_of_nodup (hl : (l.map Prod.fst).Nodup) :
    l.lookup k = some v ↔ (k, v) ∈ l := by
  constructor
  · intro h
    obtain ⟨l1, l2, rfl, -⟩ := List.lookup_eq_some_iff.1 h
    simp
  · intro h
    have hsome : (l.lookup k).isSome := List.lookup_isSome_iff.2 ⟨(k, v), h, by simp⟩
    obtain ⟨v', hv'⟩ := Option.isSome_iff_exists.1 hsome
    obtain ⟨l1, l2, rfl, -⟩ := List.lookup_eq_some_iff.1 hv'
    have hmem : (k, v') ∈ l1 ++ (k, v') :: l2 := by simp
    rw [hv', eq_of_mem_of_nodup hl h hmem]

/-- What adding pairs to an empty dictionary gives. -/
theorem tryGetValue_addAll_empty (h : (∅ : Dictionary κ ν).addAll l = some d) :
    d.tryGetValue k = some v ↔ (k, v) ∈ l := by
  have hl := (addAll_isSome_iff.1 (Option.isSome_of_eq_some h)).1
  rw [tryGetValue_addAll h, tryGetValue_empty, Option.or_none, lookup_eq_some_of_nodup hl]

/-! ### A dictionary made from another one -/

section

variable {κ' ν' : Type} [DecidableEq κ'] {keep : κ × ν → Option (κ' × ν')}

/-- No two keys of the dictionary become one. -/
def KeepsApart (d : Dictionary κ ν) (keep : κ × ν → Option (κ' × ν')) : Prop :=
  ∀ p ∈ d.pairs, ∀ q ∈ d.pairs, ∀ t w w', keep p = some (t, w) → keep q = some (t, w') → p = q

omit [DecidableEq κ] [DecidableEq κ'] in
theorem nodup_keys_filterMap (hl : l.Perm d.pairs) (hkeep : d.KeepsApart keep) :
    ((l.filterMap keep).map Prod.fst).Nodup := by
  have hnodup : l.Nodup := hl.nodup_iff.2 nodup_pairs.of_map
  rw [List.Nodup, List.pairwise_map, List.pairwise_filterMap]
  apply hnodup.imp_of_mem
  rintro p q hp hq hne ⟨t, w⟩ hpt ⟨t', w'⟩ hqt rfl
  exact hne (hkeep p (hl.subset hp) q (hl.subset hq) t w w' hpt hqt)

/-- The pairs of a dictionary in any order, those that are kept added to an empty dictionary. -/
theorem exists_addAll_filterMap (hl : l.Perm d.pairs) (hkeep : d.KeepsApart keep) :
    ∃ d' : Dictionary κ' ν', (∅ : Dictionary κ' ν').addAll (l.filterMap keep) = some d' ∧
      ∀ t w, d'.tryGetValue t = some w ↔
        ∃ k v, d.tryGetValue k = some v ∧ keep (k, v) = some (t, w) := by
  have hsome : ((∅ : Dictionary κ' ν').addAll (l.filterMap keep)).isSome :=
    addAll_isSome_iff.2 ⟨nodup_keys_filterMap hl hkeep, fun k _ => AList.notMem_empty k⟩
  obtain ⟨d', hd'⟩ := Option.isSome_iff_exists.1 hsome
  refine ⟨d', hd', ?_⟩
  intro t w
  rw [tryGetValue_addAll_empty hd', List.mem_filterMap]
  constructor
  · rintro ⟨⟨k, v⟩, hmem, hkv⟩
    exact ⟨k, v, mem_pairs.1 (hl.subset hmem), hkv⟩
  · rintro ⟨k, v, hlookup, hkv⟩
    exact ⟨(k, v), hl.symm.subset (mem_pairs.2 hlookup), hkv⟩

end

end Dictionary

end DdTrace.Lib
