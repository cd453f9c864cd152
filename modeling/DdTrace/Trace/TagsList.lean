import DdTrace.Lib.Text
import Mathlib.Data.Rat.Init
import Mathlib.Data.List.Basic

/-!
# TagsList

`Tagging/TagsList.cs`: a span's tags and metrics. Both are a `TagStore`: the
property-backed keys of the class (first match wins, a read-only property
ignores a set) and a list for every other key. `none` is C#'s null: it unsets
a property and removes a list entry.
-/

namespace DdTrace.Trace

open Lib

variable {V : Type*}

/-- `Tagging/Property.cs` with its current value. -/
structure Property (V : Type*) where
  key : Text
  value : Option V
  isReadOnly : Bool

/-- The setter of `Property.cs` and of `ReadOnlyProperty.cs`. -/
def Property.set (p : Property V) (value : Option V) : Property V :=
  if p.isReadOnly then p else { p with value := value }

@[simp] theorem Property.set_key (p : Property V) (value : Option V) :
    (p.set value).key = p.key := by
  unfold Property.set; split <;> rfl

@[simp] theorem Property.set_isReadOnly (p : Property V) (value : Option V) :
    (p.set value).isReadOnly = p.isReadOnly := by
  unfold Property.set; split <;> rfl

structure TagStore (V : Type*) where
  properties : List (Property V)
  extra : List (Text × V)

namespace TagStore

/-- The first property with the key. -/
def findProperty (key : Text) : List (Property V) → Option (Property V)
  | [] => none
  | p :: ps => if p.key = key then some p else findProperty key ps

/-- The value of a list entry. -/
def getExtra (key : Text) : List (Text × V) → Option V
  | [] => none
  | p :: ps => if p.1 = key then some p.2 else getExtra key ps

def get (t : TagStore V) (key : Text) : Option V :=
  match findProperty key t.properties with
  | some p => p.value
  | none => getExtra key t.extra

def setProperty (key : Text) (value : Option V) : List (Property V) → List (Property V)
  | [] => []
  | p :: ps =>
    if p.key = key then p.set value :: ps else p :: setProperty key value ps

def setExtra (key : Text) (value : Option V) : List (Text × V) → List (Text × V)
  | [] => match value with
    | none => []
    | some v => [(key, v)]
  | p :: ps =>
    if p.1 = key then
      match value with
      | none => ps
      | some v => (key, v) :: ps
    else p :: setExtra key value ps

/-- `SetTag` and `SetMetric`. -/
def set (t : TagStore V) (key : Text) (value : Option V) : TagStore V :=
  match findProperty key t.properties with
  | some _ => { t with properties := setProperty key value t.properties }
  | none => { t with extra := setExtra key value t.extra }

/-- No property of the class makes `key` read-only. -/
def Writable (t : TagStore V) (key : Text) : Prop :=
  ∀ p ∈ t.properties, p.key = key → p.isReadOnly = false

theorem findProperty_spec {key : Text} {ps : List (Property V)} {p : Property V}
    (h : findProperty key ps = some p) : p ∈ ps ∧ p.key = key := by
  induction ps with
  | nil => simp [findProperty] at h
  | cons q qs ih =>
    simp only [findProperty] at h
    split at h
    · rename_i hq
      cases h
      exact ⟨List.mem_cons_self, hq⟩
    · exact ⟨List.mem_cons_of_mem _ (ih h).1, (ih h).2⟩

theorem findProperty_setProperty (key : Text) (value : Option V) (ps : List (Property V)) :
    findProperty key (setProperty key value ps) =
      (findProperty key ps).map (Property.set · value) := by
  induction ps with
  | nil => rfl
  | cons p ps ih =>
    by_cases hp : p.key = key
    · simp [setProperty, findProperty, hp]
    · simp [setProperty, findProperty, hp, ih]

theorem findProperty_setProperty_ne {key k : Text} (h : k ≠ key) (value : Option V)
    (ps : List (Property V)) :
    findProperty k (setProperty key value ps) = findProperty k ps := by
  induction ps with
  | nil => rfl
  | cons p ps ih =>
    by_cases hp : p.key = key
    · simp [setProperty, findProperty, hp, Ne.symm h]
    · simp [setProperty, findProperty, hp, ih]

theorem getExtra_setExtra_some (key : Text) (v : V) (l : List (Text × V)) :
    getExtra key (setExtra key (some v) l) = some v := by
  induction l with
  | nil => simp [setExtra, getExtra]
  | cons p ps ih =>
    by_cases hp : p.1 = key
    · simp [setExtra, getExtra, hp]
    · simp [setExtra, getExtra, hp, ih]

theorem getExtra_setExtra_ne {key k : Text} (h : k ≠ key) (value : Option V)
    (l : List (Text × V)) : getExtra k (setExtra key value l) = getExtra k l := by
  induction l with
  | nil => cases value <;> simp [setExtra, getExtra, Ne.symm h]
  | cons p ps ih =>
    by_cases hp : p.1 = key
    · cases value <;> simp [setExtra, getExtra, hp, Ne.symm h]
    · simp [setExtra, getExtra, hp, ih]

/-- A set value is read back, unless the key is a read-only property. -/
theorem get_set_some {t : TagStore V} {key : Text} (h : t.Writable key) (v : V) :
    (t.set key (some v)).get key = some v := by
  cases hf : findProperty key t.properties with
  | some p =>
    obtain ⟨hm, hk⟩ := findProperty_spec hf
    simp [get, set, hf, findProperty_setProperty, Property.set, h p hm hk]
  | none => simp [get, set, hf, getExtra_setExtra_some]

/-- Setting one key leaves every other key as it was. -/
theorem get_set_ne {key k : Text} (h : k ≠ key) (t : TagStore V) (value : Option V) :
    (t.set key value).get k = t.get k := by
  cases hf : findProperty key t.properties with
  | some p => simp only [get, set, hf, findProperty_setProperty_ne h]
  | none => simp only [get, set, hf, getExtra_setExtra_ne h]

theorem mem_setProperty {key : Text} {value : Option V} {ps : List (Property V)}
    {p : Property V} (h : p ∈ setProperty key value ps) :
    ∃ q ∈ ps, q.key = p.key ∧ q.isReadOnly = p.isReadOnly := by
  induction ps with
  | nil => simp [setProperty] at h
  | cons r rs ih =>
    simp only [setProperty] at h
    split at h
    · rcases List.mem_cons.1 h with rfl | h
      · exact ⟨r, List.mem_cons_self, by simp, by simp⟩
      · exact ⟨p, List.mem_cons_of_mem _ h, rfl, rfl⟩
    · rcases List.mem_cons.1 h with rfl | h
      · exact ⟨p, List.mem_cons_self, rfl, rfl⟩
      · obtain ⟨q, hq, e⟩ := ih h
        exact ⟨q, List.mem_cons_of_mem _ hq, e⟩

theorem Writable.setProperty {t : TagStore V} {key : Text} (h : t.Writable key) (k : Text)
    (value : Option V) :
    ({ t with properties := TagStore.setProperty k value t.properties } : TagStore V).Writable
      key := by
  intro p hp hk
  obtain ⟨q, hq, e1, e2⟩ := mem_setProperty hp
  rw [← e2]
  exact h q hq (e1.trans hk)

/-- Setting a key does not change which keys are read-only. -/
theorem Writable.set {t : TagStore V} {key : Text} (h : t.Writable key) (k : Text)
    (value : Option V) : (t.set k value).Writable key := by
  unfold TagStore.set
  split
  · exact h.setProperty k value
  · exact h

/-- Setting a key does not change which keys are backed by properties. -/
theorem findProperty_set_isSome {key : Text} (t : TagStore V) (k : Text) (value : Option V)
    (h : (findProperty key t.properties).isSome) :
    (findProperty key (t.set k value).properties).isSome := by
  unfold TagStore.set
  split
  · by_cases hk : key = k
    · subst hk
      rw [findProperty_setProperty, Option.isSome_map]
      exact h
    · rw [findProperty_setProperty_ne hk]
      exact h
  · exact h

/-! ## Distinct keys -/

/-- No key is in the store twice. -/
structure Distinct (t : TagStore V) : Prop where
  properties : (t.properties.map Property.key).Nodup
  extra : (t.extra.map Prod.fst).Nodup
  disjoint : ∀ key ∈ t.extra.map Prod.fst, key ∉ t.properties.map Property.key

theorem findProperty_eq_none_iff {key : Text} {ps : List (Property V)} :
    findProperty key ps = none ↔ key ∉ ps.map Property.key := by
  induction ps with
  | nil => simp [findProperty]
  | cons p ps ih =>
    rw [findProperty, List.map_cons, List.mem_cons, not_or, ← ih]
    by_cases hp : p.key = key
    · simp [hp]
    · simp [hp, Ne.symm hp]

theorem getExtra_eq_none_iff {key : Text} {l : List (Text × V)} :
    getExtra key l = none ↔ key ∉ l.map Prod.fst := by
  induction l with
  | nil => simp [getExtra]
  | cons p ps ih =>
    rw [getExtra, List.map_cons, List.mem_cons, not_or, ← ih]
    by_cases hp : p.1 = key
    · simp [hp]
    · simp [hp, Ne.symm hp]

@[simp] theorem keys_setProperty (key : Text) (value : Option V) (ps : List (Property V)) :
    (setProperty key value ps).map Property.key = ps.map Property.key := by
  induction ps with
  | nil => rfl
  | cons p ps ih =>
    rw [setProperty]
    split_ifs <;> simp [ih]

theorem mem_keys_setExtra {key k : Text} {value : Option V} {l : List (Text × V)}
    (h : k ∈ (setExtra key value l).map Prod.fst) : k = key ∨ k ∈ l.map Prod.fst := by
  by_contra hnot
  obtain ⟨hne, hmem⟩ := not_or.1 hnot
  rw [← getExtra_eq_none_iff, ← getExtra_setExtra_ne hne value, getExtra_eq_none_iff] at hmem
  exact hmem h

theorem setExtra_of_eq {key : Text} (value : Option V) {p : Text × V} (ps : List (Text × V))
    (h : p.1 = key) : setExtra key value (p :: ps) = (value.map (Prod.mk key)).toList ++ ps := by
  cases value <;> simp [setExtra, h]

theorem setExtra_of_ne {key : Text} (value : Option V) {p : Text × V} (ps : List (Text × V))
    (h : p.1 ≠ key) : setExtra key value (p :: ps) = p :: setExtra key value ps := by
  cases value <;> simp [setExtra, h]

theorem nodup_keys_setExtra (key : Text) (value : Option V) {l : List (Text × V)}
    (h : (l.map Prod.fst).Nodup) : ((setExtra key value l).map Prod.fst).Nodup := by
  induction l with
  | nil => cases value <;> simp [setExtra]
  | cons p ps ih =>
    obtain ⟨hp, hps⟩ := List.nodup_cons.1 h
    by_cases hkey : p.1 = key
    · rw [setExtra_of_eq value ps hkey]
      cases value with
      | none => exact hps
      | some v => exact List.nodup_cons.2 ⟨hkey ▸ hp, hps⟩
    · rw [setExtra_of_ne value ps hkey]
      refine List.nodup_cons.2 ⟨fun hmem => ?_, ih hps⟩
      rcases mem_keys_setExtra hmem with heq | hmem
      · exact hkey heq
      · exact hp hmem

theorem getExtra_setExtra_self (key : Text) (value : Option V) {l : List (Text × V)}
    (h : (l.map Prod.fst).Nodup) : getExtra key (setExtra key value l) = value := by
  induction l with
  | nil => cases value <;> simp [setExtra, getExtra]
  | cons p ps ih =>
    obtain ⟨hp, hps⟩ := List.nodup_cons.1 h
    by_cases hkey : p.1 = key
    · rw [setExtra_of_eq value ps hkey]
      cases value with
      | none =>
        rw [← hkey]
        exact getExtra_eq_none_iff.2 hp
      | some v => exact if_pos rfl
    · rw [setExtra_of_ne value ps hkey, getExtra, if_neg hkey]
      exact ih hps

@[simp] theorem keys_set (t : TagStore V) (key : Text) (value : Option V) :
    (t.set key value).properties.map Property.key = t.properties.map Property.key := by
  unfold TagStore.set
  split
  · exact keys_setProperty key value t.properties
  · rfl

theorem Distinct.set {t : TagStore V} (h : t.Distinct) (key : Text) (value : Option V) :
    (t.set key value).Distinct := by
  refine ⟨by rw [keys_set]; exact h.properties, ?_, ?_⟩
  · unfold TagStore.set
    split
    · exact h.extra
    · exact nodup_keys_setExtra key value h.extra
  · rw [keys_set]
    unfold TagStore.set
    split
    · exact h.disjoint
    · intro k hk
      rcases mem_keys_setExtra hk with rfl | hk
      · exact findProperty_eq_none_iff.1 ‹_›
      · exact h.disjoint k hk

/-- A key that no property backs is in the list, with the value it was set to last. -/
theorem Distinct.getExtra_set {t : TagStore V} (h : t.Distinct) {k : Text}
    (hk : k ∉ t.properties.map Property.key) (key : Text) (value : Option V) :
    getExtra k (t.set key value).extra = if key = k then value else getExtra k t.extra := by
  split_ifs with hkey
  · subst hkey
    have hnone := findProperty_eq_none_iff.2 hk
    simp only [TagStore.set, hnone]
    exact getExtra_setExtra_self key value h.extra
  · unfold TagStore.set
    split
    · rfl
    · exact getExtra_setExtra_ne (Ne.symm hkey) value t.extra

end TagStore

end DdTrace.Trace
