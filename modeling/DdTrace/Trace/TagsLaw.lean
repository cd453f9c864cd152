import DdTrace.Trace.TagsClasses
import Mathlib.Data.List.Nodup

/-!
# The law of TagsList

The value of a key is the last one it was set to, null included, whether a property or the list
holds it. A read-only property keeps its value.
-/

namespace DdTrace.Trace

open Lib

namespace TagStore

variable {V : Type*} {t : TagStore V} {key k : Text}

/-- The value that the last of the sets of the key gives it. -/
def lastSet (key : Text) (sets : List (Text × Option V)) (value : Option V) : Option V :=
  ((sets.filter fun s => s.1 = key).map Prod.snd).getLastD value

@[simp] theorem lastSet_nil (key : Text) (value : Option V) : lastSet key [] value = value := rfl

theorem lastSet_append (key : Text) (sets : List (Text × Option V)) (s : Text × Option V)
    (value : Option V) :
    lastSet key (sets ++ [s]) value = if s.1 = key then s.2 else lastSet key sets value := by
  unfold lastSet
  by_cases hs : s.1 = key
  · simp [hs, List.filter_append]
  · simp [hs, List.filter_append]

def setAll (t : TagStore V) (sets : List (Text × Option V)) : TagStore V :=
  sets.foldl (fun t s => t.set s.1 s.2) t

theorem setAll_append (t : TagStore V) (sets : List (Text × Option V)) (s : Text × Option V) :
    t.setAll (sets ++ [s]) = (t.setAll sets).set s.1 s.2 := by
  simp [setAll]

theorem Distinct.get_set (h : t.Distinct) (hw : t.Writable key) (value : Option V) :
    (t.set key value).get key = value := by
  cases value with
  | some v => exact get_set_some hw v
  | none =>
    cases hf : findProperty key t.properties with
    | some p =>
      obtain ⟨hm, hk⟩ := findProperty_spec hf
      simp [get, TagStore.set, hf, findProperty_setProperty, Property.set, hw p hm hk]
    | none => simp [get, TagStore.set, hf, getExtra_setExtra_self key none h.extra]

/-- A read-only property ignores a set. -/
theorem get_set_of_isReadOnly {p : Property V} (hf : findProperty key t.properties = some p)
    (hp : p.isReadOnly = true) (k : Text) (value : Option V) :
    (t.set k value).get key = t.get key := by
  by_cases hk : key = k
  · subst hk
    simp [get, set, hf, findProperty_setProperty, Property.set, hp]
  · exact get_set_ne hk t value

theorem findProperty_set_of_isReadOnly {p : Property V} (hf : findProperty key t.properties = some p)
    (hp : p.isReadOnly = true) (k : Text) (value : Option V) :
    findProperty key (t.set k value).properties = some p := by
  unfold TagStore.set
  split
  · by_cases hk : key = k
    · subst hk
      simp [findProperty_setProperty, hf, Property.set, hp]
    · rw [findProperty_setProperty_ne hk, hf]
  · exact hf

theorem Distinct.setAll (h : t.Distinct) (sets : List (Text × Option V)) :
    (t.setAll sets).Distinct := by
  induction sets using List.reverseRecOn with
  | nil => exact h
  | append_singleton sets s ih =>
    rw [setAll_append]
    exact ih.set s.1 s.2

theorem Writable.setAll (h : t.Writable key) (sets : List (Text × Option V)) :
    (t.setAll sets).Writable key := by
  induction sets using List.reverseRecOn with
  | nil => exact h
  | append_singleton sets s ih =>
    rw [setAll_append]
    exact ih.set s.1 s.2

/-- The last value set is the one that is read. -/
theorem Distinct.get_setAll (h : t.Distinct) (hw : t.Writable key)
    (sets : List (Text × Option V)) :
    (t.setAll sets).get key = lastSet key sets (t.get key) := by
  induction sets using List.reverseRecOn with
  | nil => rfl
  | append_singleton sets s ih =>
    rw [setAll_append, lastSet_append, ← ih]
    by_cases hs : s.1 = key
    · subst hs
      rw [if_pos rfl]
      exact (h.setAll sets).get_set (hw.setAll sets) s.2
    · rw [if_neg hs]
      exact get_set_ne (Ne.symm hs) _ _

theorem get_setAll_of_isReadOnly {p : Property V} (hf : findProperty key t.properties = some p)
    (hp : p.isReadOnly = true) (sets : List (Text × Option V)) :
    (t.setAll sets).get key = t.get key ∧
      findProperty key (t.setAll sets).properties = some p := by
  induction sets using List.reverseRecOn with
  | nil => exact ⟨rfl, hf⟩
  | append_singleton sets s ih =>
    rw [setAll_append]
    exact ⟨(get_set_of_isReadOnly ih.2 hp _ _).trans ih.1,
      findProperty_set_of_isReadOnly ih.2 hp _ _⟩

theorem exists_findProperty {b : Bool}
    (h : (key, b) ∈ t.properties.map fun p => (p.key, p.isReadOnly))
    (hnodup : (t.properties.map Property.key).Nodup) :
    ∃ p, findProperty key t.properties = some p ∧ p.isReadOnly = b := by
  obtain ⟨q, hq, hkey⟩ := List.mem_map.1 h
  obtain ⟨rfl, rfl⟩ := Prod.mk.inj hkey
  cases hf : findProperty q.key t.properties with
  | none => exact absurd (List.mem_map_of_mem hq) (findProperty_eq_none_iff.1 hf)
  | some p =>
    obtain ⟨hm, hk⟩ := findProperty_spec hf
    obtain rfl := List.inj_on_of_nodup_map hnodup hm hq hk
    exact ⟨p, rfl, rfl⟩

end TagStore

/-! ## Sequences of calls -/

inductive TagOp where
  | setTag (key : Text) (value : Option Text)
  | setMetric (key : Text) (value : Option Rat)

namespace ITags

def getTag (t : ITags) (key : Text) : Option Text := t.tags.get key

def getMetric (t : ITags) (key : Text) : Option Rat := t.metrics.get key

def apply (t : ITags) : TagOp → ITags
  | .setTag key value => t.setTag key value
  | .setMetric key value => t.setMetric key value

def applyAll (t : ITags) (ops : List TagOp) : ITags := ops.foldl apply t

end ITags

def TagOp.tagSet : TagOp → Option (Text × Option Text)
  | setTag key value => some (key, value)
  | setMetric _ _ => none

def TagOp.metricSet : TagOp → Option (Text × Option Rat)
  | setTag _ _ => none
  | setMetric key value => some (key, value)

theorem ITags.applyAll_stores (t : ITags) (ops : List TagOp) :
    (t.applyAll ops).tags = t.tags.setAll (ops.filterMap TagOp.tagSet) ∧
      (t.applyAll ops).metrics = t.metrics.setAll (ops.filterMap TagOp.metricSet) := by
  induction ops generalizing t with
  | nil => exact ⟨rfl, rfl⟩
  | cons op ops ih =>
    cases op with
    | setTag key value => exact ih (t.setTag key value)
    | setMetric key value => exact ih (t.setMetric key value)

namespace TagsClass

variable {c : TagsClass} {t : ITags}

theorem not_readOnly_metric (c : TagsClass) (key : Text) :
    (key, true) ∉ c.getAdditionalMetrics := by
  cases c <;> simp [getAdditionalMetrics, commonMetricsProperties, kafkaTagsMetrics,
    instrumentationMetricsProperties, readWrite]

theorem New.writable_tags (h : c.New t) {key : Text} (hkey : (key, true) ∉ c.getAdditionalTags) :
    t.tags.Writable key := by
  intro p hp hk
  rw [← h.tags] at hkey
  cases hr : p.isReadOnly with
  | false => rfl
  | true => exact absurd (List.mem_map.2 ⟨p, hp, by rw [hk, hr]⟩) hkey

theorem New.writable_metrics (h : c.New t) (key : Text) : t.metrics.Writable key := by
  intro p hp hk
  have hkey := c.not_readOnly_metric key
  rw [← h.metrics] at hkey
  cases hr : p.isReadOnly with
  | false => rfl
  | true => exact absurd (List.mem_map.2 ⟨p, hp, by rw [hk, hr]⟩) hkey

theorem New.getTag_applyAll (h : c.New t) (ops : List TagOp) (key : Text) :
    (t.applyAll ops).getTag key =
      if (key, true) ∈ c.getAdditionalTags then t.getTag key
      else TagStore.lastSet key (ops.filterMap TagOp.tagSet) (t.getTag key) := by
  unfold ITags.getTag
  rw [(t.applyAll_stores ops).1]
  split
  · rename_i hkey
    rw [← h.tags] at hkey
    obtain ⟨p, hf, hp⟩ := TagStore.exists_findProperty hkey h.distinct_tags.properties
    exact (TagStore.get_setAll_of_isReadOnly hf hp _).1
  · rename_i hkey
    exact h.distinct_tags.get_setAll (h.writable_tags hkey) _

theorem New.getMetric_applyAll (h : c.New t) (ops : List TagOp) (key : Text) :
    (t.applyAll ops).getMetric key =
      TagStore.lastSet key (ops.filterMap TagOp.metricSet) (t.getMetric key) := by
  unfold ITags.getMetric
  rw [(t.applyAll_stores ops).2]
  exact h.distinct_metrics.get_setAll (h.writable_metrics key) _

/-- After any calls a key has the last value it was set to, unless a read-only property backs it;
a call changes no other key, and no key is stored twice. -/
theorem tagsList_lastSet (c : TagsClass) {t : ITags} (h : c.New t) (ops : List TagOp) :
    (∀ key, (t.applyAll ops).getTag key =
      if (key, true) ∈ c.getAdditionalTags then t.getTag key
      else TagStore.lastSet key (ops.filterMap TagOp.tagSet) (t.getTag key)) ∧
    (∀ key, (t.applyAll ops).getMetric key =
      TagStore.lastSet key (ops.filterMap TagOp.metricSet) (t.getMetric key)) ∧
    (∀ key k value, k ≠ key →
      ((t.applyAll ops).setTag key value).getTag k = (t.applyAll ops).getTag k) ∧
    (∀ key k value, k ≠ key →
      ((t.applyAll ops).setMetric key value).getMetric k = (t.applyAll ops).getMetric k) ∧
    (∀ key value, ((t.applyAll ops).setTag key value).metrics = (t.applyAll ops).metrics) ∧
    (∀ key value, ((t.applyAll ops).setMetric key value).tags = (t.applyAll ops).tags) ∧
    (t.applyAll ops).tags.Distinct ∧ (t.applyAll ops).metrics.Distinct := by
  refine ⟨h.getTag_applyAll ops, h.getMetric_applyAll ops, fun key k value hk => ?_,
    fun key k value hk => ?_, fun _ _ => rfl, fun _ _ => rfl, ?_, ?_⟩
  · exact TagStore.get_set_ne hk _ value
  · exact TagStore.get_set_ne hk _ value
  · rw [(t.applyAll_stores ops).1]
    exact h.distinct_tags.setAll _
  · rw [(t.applyAll_stores ops).2]
    exact h.distinct_metrics.setAll _

/-- On common tags: `env` set, set to null and set again, a tag from the list in between. -/
theorem tagsList_lastSet_env :
    (ITags.commonTags.applyAll [.setTag Tags.env (some (text "a")), .setTag Tags.env none,
      .setTag (text "k") (some (text "v")), .setTag Tags.env (some (text "b"))]).getTag Tags.env = some (text "b") :=
  (tagsList_lastSet .commonTags commonTags_new _).1 Tags.env

end TagsClass

/-- The value of `TracerConstants.Language`. -/
def language : Text := text "dotnet"

/-- `new WebTags()`. -/
def webTags : ITags where
  isCommonTags := true
  tags := ⟨[⟨Tags.env, none, false⟩, ⟨Tags.version, none, false⟩, ⟨Tags.spanKind, some (text "server"), true⟩,
    ⟨Tags.httpStatusCode, none, false⟩, ⟨Tags.httpMethod, none, false⟩,
    ⟨Tags.httpRequestHeadersHost, none, false⟩, ⟨Tags.httpUrl, none, false⟩,
    ⟨Tags.language, some language, true⟩], []⟩
  metrics := ⟨[⟨Metrics.samplingLimitDecision, none, false⟩,
    ⟨Metrics.samplingPriority, none, false⟩, ⟨Metrics.tracesKeepRate, none, false⟩,
    ⟨Tags.analytics, none, false⟩], []⟩
  writable := by simp [TagStore.Writable]
  common := fun _ => rfl

/-- A set of `language` is lost. -/
theorem webTags_language : TagsClass.webTags.New webTags ∧
    (webTags.applyAll [.setTag Tags.language (some (text "java"))]).getTag Tags.language ≠ some (text "java") :=
  ⟨⟨rfl, rfl, rfl, rfl⟩, by decide⟩

end DdTrace.Trace
