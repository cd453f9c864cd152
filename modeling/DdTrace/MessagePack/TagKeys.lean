import DdTrace.MessagePack.SpanMessagePackFormatter
import DdTrace.Trace.TagsClasses
import DdTrace.Trace.Effects

/-!
# The keys of a serialized span

The tags of a span have keys from three sources: the properties of their class, the two lists,
and the keys that the serializer adds. `TagStore.Distinct` says that no key is in both a
property and a list, or twice in either; `SetTag` and `SetMetric` keep it. The serializer adds
its own keys without looking into the lists, and keys that differ in surrogates that stand alone
have the same bytes, so a key is written twice exactly when the calls leave such keys there
(`KeysApart`).
-/

namespace DdTrace

open Lib
open Trace (TagStore TagsClass ITags SpanRef Tracer)

/-! ## Calls -/

namespace Trace

/-- The keys that `Span.SetTag` does not hand to `Tags.SetTag`. -/
def specialTags : List Text :=
  [Tags.origin, Tags.samplingPriority, Tags.forceKeep, Tags.manualKeep, Tags.forceDrop,
    Tags.manualDrop, Tags.analytics, Tags.measured]

/-- `Span.SetMetric`. -/
def State.setMetric (s : State) (x : SpanRef) (key : Text) (value : Option ℚ) : State :=
  s.setTags x ((s.heap x).tags.setMetric key value)

def Span.isTopLevel (span : Span) : Bool :=
  match span.parent with
  | none => true
  | some parent => parent.serviceName != span.serviceName

end Trace

namespace MessagePack

open Lib.MessagePack

inductive SpanCall where
  /-- `span.SetTag`. -/
  | setTag (key : Text) (value : Option Text)
  /-- `span.SetMetric`, which is `span.Tags.SetMetric`. -/
  | setMetric (key : Text) (value : Option ℚ)
  /-- `span.Tags.SetTag`. -/
  | tagsSetTag (key : Text) (value : Option Text)

variable (tr : Tracer) (x : SpanRef)

def perform (s : Trace.State) : SpanCall → Trace.State
  | .setTag key value => s.setTag tr x key value
  | .setMetric key value => s.setMetric x key value
  | .tagsSetTag key value => s.setTags x ((s.heap x).tags.setTag key value)

def performAll (s : Trace.State) (calls : List SpanCall) : Trace.State := calls.foldl (perform tr x) s

namespace SpanCall

/-- The tag that reaches `Tags.SetTag`. -/
def storedTag (finished : Bool) : SpanCall → Option (Text × Option Text)
  | setTag key value => if finished || Trace.specialTags.contains key then none else some (key, value)
  | setMetric _ _ => none
  | tagsSetTag key value => some (key, value)

/-- The origin that the call gives to the span's context. -/
def newOrigin (finished : Bool) : SpanCall → Option (Option Text)
  | setTag key value => if !finished && key == Trace.Tags.origin then some value else none
  | _ => none

/-- The metric that the caller asks for. -/
def askedMetric : SpanCall → Option (Text × Option ℚ)
  | setMetric key value => some (key, value)
  | _ => none

end SpanCall

/-- The value under the key, once a value has been stored under some key. -/
def update {V : Type} (stored : Option (Text × Option V)) (key : Text) (value : Option V) :
    Option V :=
  match stored with
  | some (k, v) => if k = key then v else value
  | none => value

/-- The value that the last call for the key gives, if there is one. -/
def last {V : Type} (stored : SpanCall → Option (Text × Option V)) (key : Text)
    (calls : List SpanCall) : Option V :=
  calls.foldl (fun value call => update (stored call) key value) none

def lastOrigin (span : Trace.Span) (calls : List SpanCall) : Option Text :=
  calls.foldl (fun origin call => (call.newOrigin span.isFinished).getD origin) span.origin

/-! ## What a call does to the span -/

variable {tr x}

@[simp] theorem heap_setTags (s : Trace.State) (t : ITags) :
    (s.setTags x t).heap x = { s.heap x with tags := t } := Function.update_self ..

@[simp] theorem heap_setSamplingPriority (s : Trace.State) (value : Option Trace.SamplingPriority) :
    (s.setSamplingPriority value).heap = s.heap := by
  unfold Trace.State.setSamplingPriority
  split_ifs <;> rfl

/-- What a call does to the span. -/
inductive Effect (span : Trace.Span) : SpanCall → Trace.Span → Prop where
  | finished (h : span.isFinished = true) (key : Text) (value : Option Text) :
    Effect span (.setTag key value) span
  | origin (hf : span.isFinished = false) (value : Option Text) :
    Effect span (.setTag Trace.Tags.origin value) { span with origin := value }
  | nothing (hf : span.isFinished = false) {key : Text} (h : key ≠ Trace.Tags.origin)
    (hspecial : key ∈ Trace.specialTags) (value : Option Text) :
    Effect span (.setTag key value) span
  | metric (hf : span.isFinished = false) {key : Text}
    (h : key = Trace.Tags.analytics ∨ key = Trace.Tags.measured) (value : Option Text)
    (v : Option ℚ) :
    Effect span (.setTag key value) { span with tags := span.tags.setMetric key v }
  | tag (hf : span.isFinished = false) {key : Text} (h : key ∉ Trace.specialTags)
    (value : Option Text) :
    Effect span (.setTag key value) { span with tags := span.tags.setTag key value }
  | setMetric (key : Text) (value : Option ℚ) :
    Effect span (.setMetric key value) { span with tags := span.tags.setMetric key value }
  | tagsSetTag (key : Text) (value : Option Text) :
    Effect span (.tagsSetTag key value) { span with tags := span.tags.setTag key value }

theorem mem_specialTags {key : Text} : key ∈ Trace.specialTags ↔
    key = Trace.Tags.origin ∨ key = Trace.Tags.samplingPriority ∨
      (key = Trace.Tags.forceKeep ∨ key = Trace.Tags.manualKeep) ∨
        (key = Trace.Tags.forceDrop ∨ key = Trace.Tags.manualDrop) ∨
          key = Trace.Tags.analytics ∨ key = Trace.Tags.measured := by
  simp [Trace.specialTags, or_assoc]

theorem heap_setTag (tr : Tracer) (s : Trace.State) (key : Text) (value : Option Text)
    (hf : (s.heap x).isFinished = false) :
    Effect (s.heap x) (.setTag key value) ((s.setTag tr x key value).heap x) := by
  unfold Trace.State.setTag
  dsimp only
  rw [if_neg (by simp [hf])]
  split_ifs with h1 h2 h3 h4 h5 h6 h7 h8
  · subst h1
    show Effect _ _ (Function.update s.heap x _ x)
    rw [Function.update_self]
    exact .origin hf value
  · have hspecial := mem_specialTags.2 (.inr (.inl h2))
    split
    · rw [heap_setSamplingPriority]
      exact .nothing hf h1 hspecial value
    · exact .nothing hf h1 hspecial value
  · rw [heap_setSamplingPriority]
    exact .nothing hf h1 (mem_specialTags.2 (.inr (.inr (.inl h3)))) value
  · exact .nothing hf h1 (mem_specialTags.2 (.inr (.inr (.inl h3)))) value
  · rw [heap_setSamplingPriority]
    exact .nothing hf h1 (mem_specialTags.2 (.inr (.inr (.inr (.inl h5))))) value
  · exact .nothing hf h1 (mem_specialTags.2 (.inr (.inr (.inr (.inl h5))))) value
  · have hspecial := mem_specialTags.2 (.inr (.inr (.inr (.inr (.inl h7)))))
    subst h7
    split
    · rw [heap_setTags]
      exact .metric hf (.inl rfl) _ none
    · rw [heap_setTags]
      exact .metric hf (.inl rfl) _ none
    · split
      · rw [heap_setTags]
        exact .metric hf (.inl rfl) _ _
      · exact .nothing hf h1 hspecial _
  · have hspecial := mem_specialTags.2 (.inr (.inr (.inr (.inr (.inr h8)))))
    subst h8
    split
    · rw [heap_setTags]
      exact .metric hf (.inr rfl) _ none
    · rw [heap_setTags]
      exact .metric hf (.inr rfl) _ none
    · split
      · rw [heap_setTags]
        exact .metric hf (.inr rfl) _ _
      · exact .nothing hf h1 hspecial _
  · rw [heap_setTags]
    refine .tag hf (fun hspecial => ?_) value
    rcases mem_specialTags.1 hspecial with h | h | h | h | h | h
    · exact h1 h
    · exact h2 h
    · exact h3 h
    · exact h5 h
    · exact h7 h
    · exact h8 h

theorem heap_perform (tr : Tracer) (s : Trace.State) (call : SpanCall) :
    Effect (s.heap x) call ((perform tr x s call).heap x) := by
  cases call with
  | setTag key value =>
    show Effect _ _ ((s.setTag tr x key value).heap x)
    cases hf : (s.heap x).isFinished with
    | true =>
      rw [Trace.State.setTag_of_finished hf]
      exact .finished hf key value
    | false => exact heap_setTag tr s key value hf
  | setMetric key value =>
    show Effect _ _ ((s.setTags x _).heap x)
    rw [heap_setTags]
    exact .setMetric key value
  | tagsSetTag key value =>
    show Effect _ _ ((s.setTags x _).heap x)
    rw [heap_setTags]
    exact .tagsSetTag key value

/-- What no call changes. -/
structure Kept (span span' : Trace.Span) : Prop where
  parent : span'.parent = span.parent
  serviceName : span'.serviceName = span.serviceName
  isFinished : span'.isFinished = span.isFinished
  tagKeys : span'.tags.tags.properties.map Trace.Property.key =
    span.tags.tags.properties.map Trace.Property.key
  metricKeys : span'.tags.metrics.properties.map Trace.Property.key =
    span.tags.metrics.properties.map Trace.Property.key
  tags : span.tags.tags.Distinct → span'.tags.tags.Distinct
  metrics : span.tags.metrics.Distinct → span'.tags.metrics.Distinct

theorem Kept.refl (span : Trace.Span) : Kept span span := ⟨rfl, rfl, rfl, rfl, rfl, id, id⟩

theorem Kept.trans {span span' span'' : Trace.Span} (h : Kept span span') (h' : Kept span' span'') :
    Kept span span'' where
  parent := h'.parent.trans h.parent
  serviceName := h'.serviceName.trans h.serviceName
  isFinished := h'.isFinished.trans h.isFinished
  tagKeys := h'.tagKeys.trans h.tagKeys
  metricKeys := h'.metricKeys.trans h.metricKeys
  tags := h'.tags ∘ h.tags
  metrics := h'.metrics ∘ h.metrics

theorem kept_setTag (span : Trace.Span) (key : Text) (value : Option Text) :
    Kept span { span with tags := span.tags.setTag key value } :=
  ⟨rfl, rfl, rfl, TagStore.keys_set .., rfl, fun h => h.set key value, id⟩

theorem kept_setMetric (span : Trace.Span) (key : Text) (value : Option ℚ) :
    Kept span { span with tags := span.tags.setMetric key value } :=
  ⟨rfl, rfl, rfl, rfl, TagStore.keys_set .., id, fun h => h.set key value⟩

variable {span span' : Trace.Span} {call : SpanCall} {k : Text}

theorem Effect.kept (h : Effect span call span') : Kept span span' := by
  cases h with
  | finished => exact .refl span
  | origin => exact ⟨rfl, rfl, rfl, rfl, rfl, id, id⟩
  | nothing => exact .refl span
  | metric => exact kept_setMetric span _ _
  | tag => exact kept_setTag span _ _
  | setMetric key value => exact kept_setMetric span key value
  | tagsSetTag key value => exact kept_setTag span key value

theorem kept_performAll (tr : Tracer) (s : Trace.State) (calls : List SpanCall) :
    Kept (s.heap x) ((performAll tr x s calls).heap x) := by
  induction calls generalizing s with
  | nil => exact .refl _
  | cons call calls ih => exact (heap_perform tr s call).kept.trans (ih _)

/-! ## What the calls leave -/

theorem newOrigin_of_ne {key : Text} (h : key ≠ Trace.Tags.origin) (finished : Bool)
    (value : Option Text) : (SpanCall.setTag key value).newOrigin finished = none := by
  simp [SpanCall.newOrigin, h]

theorem storedTag_of_special {key : Text} (h : key ∈ Trace.specialTags) (finished : Bool)
    (value : Option Text) : (SpanCall.setTag key value).storedTag finished = none := by
  simp [SpanCall.storedTag, h]

theorem Effect.origin_eq (h : Effect span call span') :
    span'.origin = (call.newOrigin span.isFinished).getD span.origin := by
  cases h with
  | finished hf => simp [SpanCall.newOrigin, hf]
  | origin hf => simp [SpanCall.newOrigin, hf]
  | nothing _ hne => rw [newOrigin_of_ne hne, Option.getD_none]
  | @metric _ key h =>
    have hne : key ≠ Trace.Tags.origin := by rcases h with rfl | rfl <;> decide
    rw [newOrigin_of_ne hne, Option.getD_none]
  | @tag _ key h =>
    have hne : key ≠ Trace.Tags.origin := fun heq => h (mem_specialTags.2 (.inl heq))
    rw [newOrigin_of_ne hne, Option.getD_none]
  | setMetric => rfl
  | tagsSetTag => rfl

/-- Under a key that no property backs, the list of tags has what was stored last. -/
theorem Effect.tag_eq (h : Effect span call span') (hdistinct : span.tags.tags.Distinct)
    (hk : k ∉ span.tags.tags.properties.map Trace.Property.key) :
    TagStore.getExtra k span'.tags.tags.extra =
      update (call.storedTag span.isFinished) k (TagStore.getExtra k span.tags.tags.extra) := by
  cases h with
  | finished hf => simp [SpanCall.storedTag, hf, update]
  | origin => rw [storedTag_of_special (by decide), update]
  | nothing _ _ hspecial => rw [storedTag_of_special hspecial, update]
  | metric _ h =>
    rw [storedTag_of_special (mem_specialTags.2 (.inr (.inr (.inr (.inr h))))), update]
    rfl
  | @tag hf key h value =>
    have hstored : (SpanCall.setTag key value).storedTag span.isFinished = some (key, value) := by
      simp [SpanCall.storedTag, hf, h]
    rw [hstored, update]
    exact hdistinct.getExtra_set hk key value
  | setMetric => rfl
  | tagsSetTag key value => exact hdistinct.getExtra_set hk key value

/-- Under a key that no property backs and `SetTag` does not treat, the list of metrics has what
was asked for last. -/
theorem Effect.metric_eq (h : Effect span call span') (hdistinct : span.tags.metrics.Distinct)
    (hk : k ∉ span.tags.metrics.properties.map Trace.Property.key) (hspecial : k ∉ Trace.specialTags) :
    TagStore.getExtra k span'.tags.metrics.extra =
      update call.askedMetric k (TagStore.getExtra k span.tags.metrics.extra) := by
  cases h with
  | @metric _ key h _ v =>
    have hne : key ≠ k := fun heq => hspecial
      (heq ▸ mem_specialTags.2 (.inr (.inr (.inr (.inr h)))))
    exact (hdistinct.getExtra_set hk key v).trans (if_neg hne)
  | setMetric key value => exact hdistinct.getExtra_set hk key value
  | _ => rfl

theorem performAll_concat (s : Trace.State) (calls : List SpanCall) (call : SpanCall) :
    performAll tr x s (calls ++ [call]) = perform tr x (performAll tr x s calls) call :=
  List.foldl_concat ..

theorem last_concat {V : Type} (stored : SpanCall → Option (Text × Option V)) (key : Text)
    (calls : List SpanCall) (call : SpanCall) :
    last stored key (calls ++ [call]) = update (stored call) key (last stored key calls) :=
  List.foldl_concat ..

theorem lastOrigin_concat (span : Trace.Span) (calls : List SpanCall) (call : SpanCall) :
    lastOrigin span (calls ++ [call]) =
      (call.newOrigin span.isFinished).getD (lastOrigin span calls) :=
  List.foldl_concat ..

theorem origin_performAll (tr : Tracer) (s : Trace.State) (calls : List SpanCall) :
    ((performAll tr x s calls).heap x).origin = lastOrigin (s.heap x) calls := by
  induction calls using List.reverseRecOn with
  | nil => rfl
  | append_singleton calls call ih =>
    have hkept := kept_performAll (x := x) tr s calls
    rw [performAll_concat, (heap_perform tr _ call).origin_eq, hkept.isFinished, ih,
      lastOrigin_concat]

variable {s : Trace.State}

theorem tag_performAll (tr : Tracer) (calls : List SpanCall)
    (hdistinct : (s.heap x).tags.tags.Distinct) (hnew : (s.heap x).tags.tags.extra = [])
    (hk : k ∉ (s.heap x).tags.tags.properties.map Trace.Property.key) :
    TagStore.getExtra k ((performAll tr x s calls).heap x).tags.tags.extra =
      last (SpanCall.storedTag (s.heap x).isFinished) k calls := by
  induction calls using List.reverseRecOn with
  | nil => rw [performAll, List.foldl_nil, hnew]; rfl
  | append_singleton calls call ih =>
    have hkept := kept_performAll (x := x) tr s calls
    rw [← hkept.tagKeys] at hk
    rw [performAll_concat, last_concat,
      (heap_perform tr _ call).tag_eq (hkept.tags hdistinct) hk, hkept.isFinished, ih]

theorem metric_performAll (tr : Tracer) (calls : List SpanCall)
    (hdistinct : (s.heap x).tags.metrics.Distinct) (hnew : (s.heap x).tags.metrics.extra = [])
    (hk : k ∉ (s.heap x).tags.metrics.properties.map Trace.Property.key)
    (hspecial : k ∉ Trace.specialTags) :
    TagStore.getExtra k ((performAll tr x s calls).heap x).tags.metrics.extra =
      last SpanCall.askedMetric k calls := by
  induction calls using List.reverseRecOn with
  | nil => rw [performAll, List.foldl_nil, hnew]; rfl
  | append_singleton calls call ih =>
    have hkept := kept_performAll (x := x) tr s calls
    rw [← hkept.metricKeys] at hk
    rw [performAll_concat, last_concat,
      (heap_perform tr _ call).metric_eq (hkept.metrics hdistinct) hk hspecial, ih]

/-! ## The keys that are written -/

/-- The span as the formatter reads it: ids, names and times are those of `value`. -/
def readSpan (toDouble : ℚ → Double) (parentId : UInt64) (value : Span) (span : Trace.Span) : Span :=
  { value with
    context := { value.context with
      parent := span.parent.map fun parent => ⟨parentId, parent.serviceName⟩
      serviceName := span.serviceName
      origin := span.origin }
    tags :=
      { tags := span.tags.tags.extra.map fun p => (some p.1, some p.2)
        metrics := span.tags.metrics.extra.map fun p => (some p.1, toDouble p.2)
        additionalTags := span.tags.tags.properties.map fun p => (p.key, p.value)
        additionalMetrics := span.tags.metrics.properties.map fun p => (p.key, p.value.map toDouble) } }

/-- In no map that is a member of the span is a key written twice. -/
def KeysOnce (b b' : Buffer) : Prop :=
  ∃ members, WrittenAs b b' (.map members) ∧
    ∀ key entries, (key, Value.map entries) ∈ members → (entries.map Prod.fst).Nodup

/-- No two keys that have a value have the same bytes. -/
def BytesApart {V : Type} (value : Text → Option V) : Prop :=
  ∀ key key', utf8 key = utf8 key' → key ≠ key' → value key = none ∨ value key' = none

example : utf8 [0x61, 0xD800] = utf8 [0x61, 0xD801] := by decide

/-- The calls leave no key in the lists that the serializer adds to the span, and no two keys with
the same bytes. -/
structure KeysApart (span : Trace.Span) (calls : List SpanCall) : Prop where
  runtimeId : span.isTopLevel = true →
    last (SpanCall.storedTag span.isFinished) Trace.Tags.runtimeId calls = none
  topLevel : span.isTopLevel = true →
    last SpanCall.askedMetric Trace.Metrics.topLevelSpan calls = none
  origin : isNullOrEmpty (lastOrigin span calls) = false →
    last (SpanCall.storedTag span.isFinished) Trace.Tags.origin calls = none
  tagBytes : BytesApart fun key => last (SpanCall.storedTag span.isFinished) key calls
  metricBytes : BytesApart fun key => last SpanCall.askedMetric key calls

/-! ## When a key is written twice -/

theorem stringValue_eq_iff {s t : Text} :
    stringValue (some s) = stringValue (some t) ↔ utf8 s = utf8 t := Value.str.injEq _ _ ▸ .rfl

theorem keys_pairEntries {α : Type} (f : α → Value) (pairs : List (Option Text × α)) :
    (pairEntries f pairs).map Prod.fst = (pairs.map Prod.fst).map stringValue := by
  rw [pairEntries, List.map_map, List.map_map]
  rfl

variable {runtimeId : Text}

theorem stringValue_ne_map (s : Option Text) (entries : List (Value × Value)) :
    stringValue s ≠ .map entries := by
  cases s <;> exact fun h => by cases h

theorem eq_of_mem_members {value : Span} {start duration : ℤ} {key : Value}
    {entries : List (Value × Value)}
    (h : (key, Value.map entries) ∈ value.members runtimeId start duration) :
    entries = pairEntries stringValue (value.metaPairs runtimeId) ∨
      entries = pairEntries doubleValue value.metricsPairs := by
  have htags : (key, Value.map entries) ∈ value.tagEntries runtimeId := by
    unfold Span.members Span.parentEntries Span.errorEntries at h
    cases hparent : value.context.parentId <;>
      simpa [hparent, Ne.symm (stringValue_ne_map _ _)] using h
  simp only [Span.tagEntries, List.mem_cons, List.not_mem_nil, or_false, Prod.mk.injEq,
    Value.map.injEq] at htags
  exact htags.imp And.right And.right

/-- The members of a span that are maps are those of its tags and of its metrics. -/
theorem keysOnce_iff {value : Span} {b b' : Buffer} {u : Unit} (hb : b.Valid)
    (h : serialize runtimeId value b = some (u, b')) :
    KeysOnce b b' ↔ (((value.metaPairs runtimeId).map Prod.fst).map stringValue).Nodup ∧
      ((value.metricsPairs.map Prod.fst).map stringValue).Nodup := by
  have hwritten := serialize_writtenAs runtimeId hb h
  rw [← keys_pairEntries stringValue, ← keys_pairEntries doubleValue]
  constructor
  · rintro ⟨members, hmembers, hkeys⟩
    have heq := hwritten.unique hmembers
    injection heq with heq
    subst heq
    refine ⟨hkeys (keyValue (text "meta")) _ ?_, hkeys (keyValue (text "metrics")) _ ?_⟩
    · simp [Span.members, Span.tagEntries]
    · simp [Span.members, Span.tagEntries]
  · rintro ⟨hmeta, hmetrics⟩
    refine ⟨_, hwritten, fun key entries hmem => ?_⟩
    rcases eq_of_mem_members hmem with rfl | rfl
    · exact hmeta
    · exact hmetrics

theorem nodup_reserved {α : Type} {list properties reserved : List α} (hlist : list.Nodup)
    (hproperties : properties.Nodup) (hreserved : reserved.Nodup)
    (hdisjoint : ∀ k ∈ list, k ∉ properties) (hother : ∀ k ∈ reserved, k ∉ properties) :
    (list ++ (properties ++ reserved)).Nodup ↔ ∀ k ∈ reserved, k ∉ list := by
  rw [List.nodup_append, List.nodup_append]
  grind

/-- The keys of the properties that have a value. -/
theorem keys_propertyPairs {V α β : Type} (f : α → β) (g : Option V → Option α)
    (properties : List (Trace.Property V)) :
    ∃ keys : List Text, keys.Sublist (properties.map Trace.Property.key) ∧
      (propertyPairs f (properties.map fun p => (p.key, g p.value))).map Prod.fst =
        keys.map some := by
  induction properties with
  | nil => exact ⟨[], .slnil, rfl⟩
  | cons p properties ih =>
    obtain ⟨keys, hsublist, hkeys⟩ := ih
    cases hvalue : g p.value with
    | none => exact ⟨keys, hsublist.cons _, by simpa [propertyPairs, hvalue] using hkeys⟩
    | some value =>
      exact ⟨p.key :: keys, hsublist.cons_cons _, by simpa [propertyPairs, hvalue] using hkeys⟩

/-- Keys of ASCII share their bytes with no other key. -/
theorem notMem_of_utf8_eq {keys : List Text} {key key' : Text}
    (hascii : ∀ key ∈ keys, ∀ u ∈ key, u < 0x80) (h : utf8 key = utf8 key') (hne : key ≠ key') :
    key ∉ keys :=
  fun hkey => hne ((utf8_eq_iff_of_ascii (hascii key hkey)).1 h.symm).symm

/-- Beside keys of ASCII, the keys of a list are written once when they differ in their bytes. -/
theorem nodup_map_stringValue {list others : List Text}
    (hascii : ∀ key ∈ others, ∀ u ∈ key, u < 0x80) :
    (((list ++ others).map some).map stringValue).Nodup ↔
      (list ++ others).Nodup ∧ ∀ key ∈ list, ∀ key' ∈ list, utf8 key = utf8 key' → key = key' := by
  rw [List.map_map]
  constructor
  · intro h
    refine ⟨h.of_map _, fun key hkey key' hkey' heq => ?_⟩
    exact List.inj_on_of_nodup_map h (List.mem_append_left _ hkey) (List.mem_append_left _ hkey')
      (stringValue_eq_iff.2 heq)
  · rintro ⟨hnodup, hbytes⟩
    refine hnodup.map_on fun key hkey key' hkey' heq => ?_
    have hutf8 := stringValue_eq_iff.1 heq
    rcases List.mem_append.1 hkey with hlist | hother
    · rcases List.mem_append.1 hkey' with hlist' | hother'
      · exact hbytes key hlist key' hlist' hutf8
      · exact (utf8_eq_iff_of_ascii (hascii key' hother')).1 hutf8
    · exact ((utf8_eq_iff_of_ascii (hascii key hother)).1 hutf8.symm).symm

/-- What is stored under keys of ASCII has no part in it. -/
theorem bytesApart_congr {V : Type} {stored stored' : Text → Option V} {keys : List Text}
    (hascii : ∀ key ∈ keys, ∀ u ∈ key, u < 0x80) (h : ∀ key ∉ keys, stored key = stored' key) :
    BytesApart stored ↔ BytesApart stored' := by
  unfold BytesApart
  refine forall_congr' fun key => forall_congr' fun key' => imp_congr_right fun heq =>
    imp_congr_right fun hne => ?_
  rw [h key (notMem_of_utf8_eq hascii heq hne), h key' (notMem_of_utf8_eq hascii heq.symm hne.symm)]

theorem bytesApart_getExtra {V : Type} {extra : List (Text × V)} :
    (BytesApart fun key => TagStore.getExtra key extra) ↔
      ∀ key ∈ extra.map Prod.fst, ∀ key' ∈ extra.map Prod.fst, utf8 key = utf8 key' → key = key' := by
  unfold BytesApart
  simp only [TagStore.getExtra_eq_none_iff]
  grind

/-- The keys of a map: those that no property has are written once when they are not in the list,
those of the list when no two of them have the same bytes. -/
theorem nodup_store {V α β : Type} {t : TagStore V} (h : t.Distinct) (f : α → β)
    (g : Option V → Option α) {reserved : List Text} (hreserved : reserved.Nodup)
    (hother : ∀ key ∈ reserved, key ∉ t.properties.map Trace.Property.key)
    (hascii : ∀ key ∈ t.properties.map Trace.Property.key ++ reserved, ∀ u ∈ key, u < 0x80) :
    ((t.extra.map (fun p => some p.1) ++
      ((propertyPairs f (t.properties.map fun p => (p.key, g p.value))).map Prod.fst ++
        reserved.map some)).map stringValue).Nodup ↔
      (∀ key ∈ reserved, TagStore.getExtra key t.extra = none) ∧
        BytesApart fun key => TagStore.getExtra key t.extra := by
  obtain ⟨keys, hsublist, hkeys⟩ := keys_propertyPairs f g t.properties
  have hlist : t.extra.map (fun p => some p.1) = (t.extra.map Prod.fst).map some := by
    rw [List.map_map]; rfl
  have hothers : ∀ key ∈ keys ++ reserved, ∀ u ∈ key, u < 0x80 :=
    fun key hkey => hascii key ((hsublist.append_right reserved).subset hkey)
  have hdisjoint : ∀ key ∈ t.extra.map Prod.fst, key ∉ keys :=
    fun key hkey hmem => h.disjoint key hkey (hsublist.subset hmem)
  rw [hkeys, hlist, ← List.map_append, ← List.map_append, nodup_map_stringValue hothers,
    nodup_reserved h.extra (hsublist.nodup h.properties) hreserved hdisjoint
      fun key hkey hmem => hother key hkey (hsublist.subset hmem), bytesApart_getExtra]
  simp only [TagStore.getExtra_eq_none_iff]

theorem runtimeId_notMem (c : TagsClass) : Trace.Tags.runtimeId ∉ c.getAdditionalTags.map Prod.fst := by
  cases c <;> decide +kernel

theorem origin_notMem (c : TagsClass) : Trace.Tags.origin ∉ c.getAdditionalTags.map Prod.fst := by
  cases c <;> decide +kernel

def isAscii (key : Text) : Bool := key.all fun u => u.toNat < 0x80

theorem ascii_of_all {keys : List Text} (h : keys.all isAscii = true) :
    ∀ key ∈ keys, ∀ u ∈ key, u < 0x80 := by
  intro key hkey u hu
  have hlt := List.all_eq_true.1 (List.all_eq_true.1 h key hkey) u hu
  exact UInt16.lt_iff_toNat_lt.2 (of_decide_eq_true hlt)

theorem ascii_getAdditionalTags (c : TagsClass) :
    ∀ key ∈ c.getAdditionalTags.map Prod.fst, ∀ u ∈ key, u < 0x80 :=
  ascii_of_all (by cases c <;> decide +kernel)

/-- The keys of the metrics, and those that `SetTag` treats. -/
theorem ascii_getAdditionalMetrics (c : TagsClass) :
    ∀ key ∈ c.getAdditionalMetrics.map Prod.fst ++ Trace.specialTags, ∀ u ∈ key, u < 0x80 :=
  ascii_of_all (by cases c <;> decide +kernel)

theorem topLevelSpan_notMem (c : TagsClass) :
    Trace.Metrics.topLevelSpan ∉ c.getAdditionalMetrics.map Prod.fst := by
  cases c <;> decide

section

variable (toDouble : ℚ → Double) (parentId : UInt64) (value : Span) (span : Trace.Span)

theorem isTopLevel_readSpan : (readSpan toDouble parentId value span).isTopLevel = span.isTopLevel := by
  unfold Span.isTopLevel Trace.Span.isTopLevel readSpan
  cases span.parent <;> rfl

theorem isOriginWritten_readSpan
    (h : Trace.Tags.origin ∉ span.tags.tags.properties.map Trace.Property.key) :
    (readSpan toDouble parentId value span).tags.isOriginWritten = false := by
  unfold TagsList.isOriginWritten readSpan
  rw [List.any_map, List.any_eq_false]
  intro p hp hwritten
  have hkey : p.key = Trace.Tags.origin := by simpa using (Bool.and_eq_true_iff.1 hwritten).2
  exact h (hkey ▸ List.mem_map_of_mem hp)

/-- The keys that `WriteTags` adds. -/
def reservedTags (span : Trace.Span) : List Text :=
  (if span.isTopLevel then [Trace.Tags.runtimeId] else []) ++
    if !isNullOrEmpty span.origin then [Trace.Tags.origin] else []

/-- The key that `WriteMetrics` adds. -/
def reservedMetrics (span : Trace.Span) : List Text :=
  if span.isTopLevel then [Trace.Metrics.topLevelSpan] else []

theorem keys_ite {α : Type} (c : Bool) (key : Text) (value : α) :
    (if c then [(some key, value)] else []).map Prod.fst = (if c then [key] else []).map some := by
  cases c <;> rfl

theorem keys_metaPairs
    (h : Trace.Tags.origin ∉ span.tags.tags.properties.map Trace.Property.key) :
    ((readSpan toDouble parentId value span).metaPairs runtimeId).map Prod.fst =
      span.tags.tags.extra.map (fun p => some p.1) ++
        ((propertyPairs some (span.tags.tags.properties.map fun p => (p.key, p.value))).map Prod.fst ++
          (reservedTags span).map some) := by
  unfold Span.metaPairs reservedTags
  rw [isTopLevel_readSpan, isOriginWritten_readSpan _ _ _ _ h]
  unfold readSpan
  simp only [List.map_append, List.map_map, Bool.not_false, Bool.true_and, keys_ite]
  rfl

theorem keys_metricsPairs :
    (readSpan toDouble parentId value span).metricsPairs.map Prod.fst =
      span.tags.metrics.extra.map (fun p => some p.1) ++
        ((propertyPairs id (span.tags.metrics.properties.map fun p =>
          (p.key, p.value.map toDouble))).map Prod.fst ++ (reservedMetrics span).map some) := by
  unfold Span.metricsPairs reservedMetrics
  rw [isTopLevel_readSpan]
  unfold readSpan
  simp only [List.map_append, List.map_map, keys_ite]
  rfl

end

theorem nodup_reservedTags (span : Trace.Span) : (reservedTags span).Nodup := by
  unfold reservedTags
  cases span.isTopLevel <;> cases isNullOrEmpty span.origin <;> decide

theorem mem_reservedTags {span : Trace.Span} {key : Text} : key ∈ reservedTags span ↔
    (span.isTopLevel = true ∧ key = Trace.Tags.runtimeId) ∨
      (isNullOrEmpty span.origin = false ∧ key = Trace.Tags.origin) := by
  unfold reservedTags
  cases span.isTopLevel <;> cases isNullOrEmpty span.origin <;> simp

theorem nodup_reservedMetrics (span : Trace.Span) : (reservedMetrics span).Nodup := by
  unfold reservedMetrics
  cases span.isTopLevel <;> decide

theorem mem_reservedMetrics {span : Trace.Span} {key : Text} :
    key ∈ reservedMetrics span ↔ span.isTopLevel = true ∧ key = Trace.Metrics.topLevelSpan := by
  unfold reservedMetrics
  cases span.isTopLevel <;> simp

theorem ascii_reservedTags (span : Trace.Span) :
    ∀ key ∈ reservedTags span, ∀ u ∈ key, u < 0x80 := by
  unfold reservedTags
  exact ascii_of_all (by cases span.isTopLevel <;> cases isNullOrEmpty span.origin <;> decide)

theorem ascii_reservedMetrics (span : Trace.Span) :
    ∀ key ∈ reservedMetrics span, ∀ u ∈ key, u < 0x80 := by
  unfold reservedMetrics
  exact ascii_of_all (by cases span.isTopLevel <;> decide)

theorem Kept.isTopLevel {span span' : Trace.Span} (h : Kept span span') :
    span'.isTopLevel = span.isTopLevel := by
  unfold Trace.Span.isTopLevel
  rw [h.parent, h.serviceName]

/-- A span of any class, after any calls: no key is written twice exactly when the last calls for
the keys that the serializer adds have left none of them in the lists, and those for keys with the
same bytes no two of them. -/
theorem keysOnce_iff_keysApart (tr : Tracer) (toDouble : ℚ → Double) (parentId : UInt64)
    (value : Span) (c : TagsClass) (hnew : c.New (s.heap x).tags) (calls : List SpanCall)
    {b b' : Buffer} (hb : b.Valid)
    (h : serialize runtimeId
      (readSpan toDouble parentId value ((performAll tr x s calls).heap x)) b = some ((), b')) :
    KeysOnce b b' ↔ KeysApart (s.heap x) calls := by
  have hkept := kept_performAll (x := x) tr s calls
  have htagKeys := hkept.tagKeys.trans hnew.keys_tags
  have hmetricKeys := hkept.metricKeys.trans hnew.keys_metrics
  have horigin : Trace.Tags.origin ∉ ((performAll tr x s calls).heap x).tags.tags.properties.map
      Trace.Property.key := by
    rw [htagKeys]
    exact origin_notMem c
  have htag : ∀ key ∉ c.getAdditionalTags.map Prod.fst,
      TagStore.getExtra key ((performAll tr x s calls).heap x).tags.tags.extra =
        last (SpanCall.storedTag (s.heap x).isFinished) key calls := by
    intro key hkey
    exact tag_performAll tr calls hnew.distinct_tags hnew.noTags (by rwa [hnew.keys_tags])
  have hmetric : ∀ key ∉ c.getAdditionalMetrics.map Prod.fst ++ Trace.specialTags,
      TagStore.getExtra key ((performAll tr x s calls).heap x).tags.metrics.extra =
        last SpanCall.askedMetric key calls := by
    intro key hkey
    rw [List.mem_append, not_or] at hkey
    exact metric_performAll tr calls hnew.distinct_metrics hnew.noMetrics
      (by rw [hnew.keys_metrics]; exact hkey.1) hkey.2
  have htopLevel : Trace.Metrics.topLevelSpan ∉
      c.getAdditionalMetrics.map Prod.fst ++ Trace.specialTags :=
    List.not_mem_append (topLevelSpan_notMem c) (by decide)
  rw [keysOnce_iff hb h, keys_metaPairs _ _ _ _ horigin, keys_metricsPairs]
  refine (and_congr
    (nodup_store (hkept.tags hnew.distinct_tags) some id (nodup_reservedTags _) ?_ ?_)
    (nodup_store (hkept.metrics hnew.distinct_metrics) id (Option.map toDouble)
      (nodup_reservedMetrics _) ?_ ?_)).trans ?_
  · intro key hkey
    rw [htagKeys]
    rcases mem_reservedTags.1 hkey with ⟨-, rfl⟩ | ⟨-, rfl⟩
    · exact runtimeId_notMem c
    · exact origin_notMem c
  · rw [htagKeys]
    intro key hkey
    rcases List.mem_append.1 hkey with hkey | hkey
    · exact ascii_getAdditionalTags c key hkey
    · exact ascii_reservedTags _ key hkey
  · intro key hkey
    rw [hmetricKeys, (mem_reservedMetrics.1 hkey).2]
    exact topLevelSpan_notMem c
  · rw [hmetricKeys]
    intro key hkey
    rcases List.mem_append.1 hkey with hkey | hkey
    · exact ascii_getAdditionalMetrics c key (List.mem_append_left _ hkey)
    · exact ascii_reservedMetrics _ key hkey
  · rw [bytesApart_congr (ascii_getAdditionalTags c) htag,
      bytesApart_congr (ascii_getAdditionalMetrics c) hmetric]
    have hlast := origin_performAll (x := x) tr s calls
    constructor
    · rintro ⟨⟨htags, htagBytes⟩, hmetrics, hmetricBytes⟩
      refine ⟨fun htop => ?_, fun htop => ?_, fun hnull => ?_, htagBytes, hmetricBytes⟩
      · rw [← htag _ (runtimeId_notMem c)]
        exact htags _ (mem_reservedTags.2 (.inl ⟨hkept.isTopLevel.trans htop, rfl⟩))
      · rw [← hmetric _ htopLevel]
        exact hmetrics _ (mem_reservedMetrics.2 ⟨hkept.isTopLevel.trans htop, rfl⟩)
      · rw [← htag _ (origin_notMem c)]
        exact htags _ (mem_reservedTags.2 (.inr ⟨by rwa [hlast], rfl⟩))
    · intro hapart
      refine ⟨⟨fun key hkey => ?_, hapart.tagBytes⟩, fun key hkey => ?_, hapart.metricBytes⟩
      · rcases mem_reservedTags.1 hkey with ⟨htop, rfl⟩ | ⟨hnull, rfl⟩
        · rw [htag _ (runtimeId_notMem c)]
          exact hapart.runtimeId (hkept.isTopLevel.symm.trans htop)
        · rw [htag _ (origin_notMem c)]
          exact hapart.origin (by rwa [← hlast])
      · obtain ⟨htop, rfl⟩ := mem_reservedMetrics.1 hkey
        rw [hmetric _ htopLevel]
        exact hapart.topLevel (hkept.isTopLevel.symm.trans htop)

def plainTracer : Tracer where
  settings := ⟨false, 500, [], none, none⟩
  maxArrayLength := ⟨4, by decide⟩
  four_le := le_rfl
  sampler := none
  defaultServiceName := text "shop"
  doubleTryParse _ := none

/-- A trace of root spans without tags. -/
def rootSpans : Trace.State := .new (.new none) fun _ => .new none (some (text "shop"))

/-- A root span after the calls. -/
def rootSpan (calls : List SpanCall) : Span :=
  readSpan (fun _ => 0) 0 (midnight 0 (by decide))
    ((performAll plainTracer 0 rootSpans calls).heap 0)

/-- A tag that is removed again is not written beside the serializer's own. -/
theorem keysOnce_runtimeId_removed : ∃ b',
    serialize (text "7c9e6679")
      (rootSpan [.setTag (text "runtime-id") (some (text "mine")), .setTag (text "runtime-id") none])
      temporaryBuffer = some ((), b') ∧ KeysOnce temporaryBuffer b' := by
  obtain ⟨b', h⟩ := serialize_succeeds (text "7c9e6679")
    (rootSpan [.setTag (text "runtime-id") (some (text "mine")), .setTag (text "runtime-id") none])
    temporaryBuffer_valid (by decide +kernel)
  refine ⟨b', h, (keysOnce_iff_keysApart plainTracer (fun _ => 0) 0 (midnight 0 (by decide))
    .commonTags Trace.TagsClass.commonTags_new _ temporaryBuffer_valid h).2 ⟨?_, ?_, ?_, ?_, ?_⟩⟩
  · exact fun _ => rfl
  · exact fun _ => rfl
  · exact fun _ => rfl
  · intro key _ _ _
    refine .inl ?_
    show (if text "runtime-id" = key then none else
      if text "runtime-id" = key then some (text "mine") else none) = none
    split_ifs <;> rfl
  · exact fun _ _ _ _ => .inl rfl

/-- The serializer's runtime id is written beside the caller's. -/
theorem keysOnce_runtimeId_set : ∃ b',
    serialize (text "7c9e6679") (rootSpan [.setTag (text "runtime-id") (some (text "mine"))])
      temporaryBuffer = some ((), b') ∧ ¬KeysOnce temporaryBuffer b' := by
  obtain ⟨b', h⟩ := serialize_succeeds (text "7c9e6679")
    (rootSpan [.setTag (text "runtime-id") (some (text "mine"))]) temporaryBuffer_valid (by decide)
  refine ⟨b', h, fun hkeys => ?_⟩
  have hnodup := ((keysOnce_iff temporaryBuffer_valid h).1 hkeys).1.of_map
  revert hnodup
  decide

end MessagePack

end DdTrace
