import DdTrace.Lib.Integers
import Mathlib.Logic.Function.Basic

/-!
# SpanContextPropagator

`SpanContextPropagator.cs`: `Inject` writes the ids, the origin and the sampling priority of a
context into headers, `Extract` reads them back. Both have an overload for an
`IHeadersCollection` and one for a carrier with a setter or getter.

`Int32.TryParse` reads the sampling priority in the current culture, while `Inject` writes it
in the invariant one, hence `NumberFormatInfo.Reads`.
-/

namespace DdTrace.Propagation

open Lib

namespace HttpHeaderNames

def traceId : Text := text "x-datadog-trace-id"
def parentId : Text := text "x-datadog-parent-id"
def samplingPriority : Text := text "x-datadog-sampling-priority"
def origin : Text := text "x-datadog-origin"

end HttpHeaderNames

/-- `TraceContext`, as far as a propagated context needs it. -/
structure TraceContext where
  samplingPriority : Option Int32
  samplingPriorityLocked : Bool
  deriving DecidableEq

/-- A sampling priority may be any integer, whether or not the enum defines it. -/
structure SpanContext where
  traceId : UInt64
  spanId : UInt64
  serviceName : Option Text
  samplingPriority : Option Int32
  origin : Option Text
  traceContext : Option TraceContext
  deriving DecidableEq

/-- The constructor for a propagated context; `createNew` is what `SpanIdGenerator` would
return. -/
def SpanContext.propagated (createNew traceId spanId : UInt64) (samplingPriority : Option Int32)
    (serviceName origin : Option Text) : SpanContext where
  traceId := if traceId > 0 then traceId else createNew
  spanId := spanId
  serviceName := serviceName
  samplingPriority := samplingPriority
  origin := origin
  traceContext := none

def TraceContext.lockSamplingPriority (c : TraceContext) : TraceContext :=
  if c.samplingPriority = none then c else { c with samplingPriorityLocked := true }

/-- `IHeadersCollection`, as far as the propagator uses it. -/
class IHeadersCollection (H : Type) where
  getValues : H → Text → List (Option Text)
  set : H → Text → Text → H

open IHeadersCollection (getValues)

variable {H C : Type} [IHeadersCollection H]

/-! ## Inject -/

/-- `(int?)(context.TraceContext?.SamplingPriority ?? context.SamplingPriority)`. -/
def SpanContext.priority (context : SpanContext) : Option Int32 :=
  (context.traceContext.bind (·.samplingPriority)).or context.samplingPriority

def SpanContext.lock (context : SpanContext) : SpanContext :=
  { context with traceContext := context.traceContext.map TraceContext.lockSamplingPriority }

def inject (context : SpanContext) (headers : H) : SpanContext × H :=
  let context := context.lock
  let headers := IHeadersCollection.set headers HttpHeaderNames.traceId (decimal context.traceId.toNat)
  let headers := IHeadersCollection.set headers HttpHeaderNames.parentId (decimal context.spanId.toNat)
  let headers := match context.origin with
    | none => headers
    | some origin => IHeadersCollection.set headers HttpHeaderNames.origin origin
  let headers := match context.priority with
    | none => headers
    | some priority => IHeadersCollection.set headers HttpHeaderNames.samplingPriority (decimalInt priority.toInt)
  (context, headers)

/-- `Inject` with a carrier and a setter. -/
def injectSetter (context : SpanContext) (carrier : C) (setter : C → Text → Text → C) :
    SpanContext × C :=
  let context := context.lock
  let carrier := setter carrier HttpHeaderNames.traceId (decimal context.traceId.toNat)
  let carrier := setter carrier HttpHeaderNames.parentId (decimal context.spanId.toNat)
  let carrier := match context.origin with
    | none => carrier
    | some origin => setter carrier HttpHeaderNames.origin origin
  let carrier := match context.priority with
    | none => carrier
    | some priority => setter carrier HttpHeaderNames.samplingPriority (decimalInt priority.toInt)
  (context, carrier)

/-! ## Extract -/

/-- A logged warning, `"Could not parse {HeaderName} headers: {HeaderValues}"`. -/
structure Warning where
  headerName : Text
  headerValues : Text
  deriving DecidableEq

/-- The loop of the `Parse` functions: the first value that parses, or a warning if there are
values and none does. -/
def parseFirst {α : Type} (tryParse : Text → Option α) (headerName : Text)
    (headerValues : List (Option Text)) : Option α × List Warning :=
  loop headerValues false
where
  loop : List (Option Text) → Bool → Option α × List Warning
    | [], hasValue =>
      (none, if hasValue then [⟨headerName, (text ",").intercalate (headerValues.map (·.getD []))⟩] else [])
    | value :: values, _ =>
      match value.bind tryParse with
      | some result => (some result, [])
      | none => loop values true

/-- `ParseString`: the first value that is neither null nor empty. -/
def firstNonEmpty (headerValues : List (Option Text)) : Option Text :=
  headerValues.findSome? fun value => if value = none ∨ value = some [] then none else value

def parseUInt64 (headers : H) (headerName : Text) : UInt64 × List Warning :=
  let (result, warnings) := parseFirst (tryParseUInt64 .invariantInfo) headerName (getValues headers headerName)
  (result.getD 0, warnings)

def parseSamplingPriority (culture : NumberFormatInfo) (headers : H) (headerName : Text) :
    Option Int32 × List Warning :=
  parseFirst (tryParseInt32 culture) headerName (getValues headers headerName)

def parseString (headers : H) (headerName : Text) : Option Text :=
  firstNonEmpty (getValues headers headerName)

/-- The context, or null, and the warnings logged. -/
def extract (culture : NumberFormatInfo) (createNew : UInt64) (headers : H) :
    Option SpanContext × List Warning :=
  let (traceId, warnings) := parseUInt64 headers HttpHeaderNames.traceId
  if traceId = 0 then (none, warnings)
  else
    let (parentId, warnings') := parseUInt64 headers HttpHeaderNames.parentId
    let (samplingPriority, warnings'') :=
      parseSamplingPriority culture headers HttpHeaderNames.samplingPriority
    let origin := parseString headers HttpHeaderNames.origin
    (some (.propagated createNew traceId parentId samplingPriority none origin),
      warnings ++ warnings' ++ warnings'')

section Getter

variable (carrier : C) (getter : C → Text → List (Option Text))

def parseUInt64Getter (headerName : Text) : UInt64 × List Warning :=
  let (result, warnings) := parseFirst (tryParseUInt64 .invariantInfo) headerName (getter carrier headerName)
  (result.getD 0, warnings)

def parseSamplingPriorityGetter (culture : NumberFormatInfo) (headerName : Text) :
    Option Int32 × List Warning :=
  parseFirst (tryParseInt32 culture) headerName (getter carrier headerName)

def parseStringGetter (headerName : Text) : Option Text :=
  firstNonEmpty (getter carrier headerName)

/-- `Extract` with a carrier and a getter. -/
def extractGetter (culture : NumberFormatInfo) (createNew : UInt64) :
    Option SpanContext × List Warning :=
  let (traceId, warnings) := parseUInt64Getter carrier getter HttpHeaderNames.traceId
  if traceId = 0 then (none, warnings)
  else
    let (parentId, warnings') := parseUInt64Getter carrier getter HttpHeaderNames.parentId
    let (samplingPriority, warnings'') :=
      parseSamplingPriorityGetter carrier getter culture HttpHeaderNames.samplingPriority
    let origin := parseStringGetter carrier getter HttpHeaderNames.origin
    (some (.propagated createNew traceId parentId samplingPriority none origin),
      warnings ++ warnings' ++ warnings'')

end Getter

/-! ## Header collections -/

/-- The name as `StringComparer.OrdinalIgnoreCase` compares it, for a name of ASCII. -/
def ignoreCase (name : Text) : Text := name.map toLowerAscii

/-- `char.IsControl`. -/
def isControl (c : UInt16) : Bool := c ≤ 0x1F || (0x7F ≤ c && c ≤ 0x9F)

def NoControl (value : Text) : Prop := value.any isControl = false

/-- What `IHeadersCollection` promises of `Set`, for values that a header may have. -/
class LawfulHeadersCollection (H : Type) [IHeadersCollection H] : Prop where
  getValues_set_self (headers : H) (name value : Text) : NoControl value →
    getValues (IHeadersCollection.set headers name value) name = [some value]
  getValues_set_of_ne (headers : H) (name other value : Text) :
    ignoreCase other ≠ ignoreCase name →
      getValues (IHeadersCollection.set headers name value) other = getValues headers other

/-- `DictionaryHeadersCollection.cs`: its dictionary compares the names ignoring case. -/
structure DictionaryHeadersCollection where
  headers : Text → Option (List (Option Text))

namespace DictionaryHeadersCollection

def new : DictionaryHeadersCollection := ⟨fun _ => none⟩

def getValues (d : DictionaryHeadersCollection) (name : Text) : List (Option Text) :=
  (d.headers (ignoreCase name)).getD []

def remove (d : DictionaryHeadersCollection) (name : Text) : DictionaryHeadersCollection :=
  ⟨Function.update d.headers (ignoreCase name) none⟩

/-- `Remove`, then `Add` to the dictionary. -/
def set (d : DictionaryHeadersCollection) (name value : Text) : DictionaryHeadersCollection :=
  ⟨Function.update (d.remove name).headers (ignoreCase name) (some [some value])⟩

instance : IHeadersCollection DictionaryHeadersCollection := ⟨getValues, set⟩

instance : LawfulHeadersCollection DictionaryHeadersCollection where
  getValues_set_self d name value _ := by
    show (d.set name value).getValues name = _
    simp [getValues, set]
  getValues_set_of_ne d name other value hne := by
    show (d.set name value).getValues other = d.getValues other
    simp [getValues, set, remove, hne]

end DictionaryHeadersCollection

/-! ## What Inject writes -/

theorem noControl_of_isDigit {value : Text}
    (h : ∀ c ∈ value, isDigit c = true ∨ c = unit '-') : NoControl value := by
  refine List.any_eq_false.2 fun c hc => ?_
  rw [Bool.not_eq_true]
  rcases h c hc with h | rfl
  · rw [isDigit_iff] at h
    rw [Bool.eq_false_iff]
    intro hcontrol
    simp only [isControl, Bool.or_eq_true, Bool.and_eq_true, decide_eq_true_eq,
      UInt16.le_iff_toNat_le] at hcontrol
    simp at hcontrol
    omega
  · decide

theorem noControl_decimal (n : ℕ) : NoControl (decimal n) :=
  noControl_of_isDigit fun c hc => .inl (isDigit_of_mem_decimal c hc)

theorem noControl_decimalInt (n : ℤ) : NoControl (decimalInt n) := by
  cases n with
  | ofNat n => exact noControl_decimal n
  | negSucc n =>
    refine noControl_of_isDigit fun c hc => ?_
    rcases List.mem_cons.1 hc with rfl | hc
    · exact .inr rfl
    · exact .inl (isDigit_of_mem_decimal c hc)

/-- Locking the sampling priority does not change it. -/
theorem priority_lock (context : SpanContext) : context.lock.priority = context.priority := by
  unfold SpanContext.priority SpanContext.lock
  cases context.traceContext with
  | none => rfl
  | some c =>
    simp only [Option.map_some, Option.bind_some]
    unfold TraceContext.lockSamplingPriority
    split <;> rfl

open LawfulHeadersCollection in
/-- The headers after `Inject`; one that it leaves out keeps the values it had. -/
theorem getValues_inject [LawfulHeadersCollection H] (context : SpanContext) (headers : H)
    (horigin : ∀ origin ∈ context.origin, NoControl origin) :
    let written := (inject context headers).2
    getValues written HttpHeaderNames.traceId = [some (decimal context.traceId.toNat)] ∧
    getValues written HttpHeaderNames.parentId = [some (decimal context.spanId.toNat)] ∧
    getValues written HttpHeaderNames.origin = (match context.origin with
      | none => getValues headers HttpHeaderNames.origin
      | some origin => [some origin]) ∧
    getValues written HttpHeaderNames.samplingPriority = (match context.priority with
      | none => getValues headers HttpHeaderNames.samplingPriority
      | some priority => [some (decimalInt priority.toInt)]) := by
  have htrace := noControl_decimal context.traceId.toNat
  have hspan := noControl_decimal context.spanId.toNat
  have hlock : context.lock.traceId = context.traceId ∧ context.lock.spanId = context.spanId ∧
    context.lock.origin = context.origin := ⟨rfl, rfl, rfl⟩
  unfold inject
  simp only [priority_lock, hlock]
  cases ho : context.origin with
  | none =>
    cases context.priority with
    | none =>
      simp (disch := first | decide | assumption) only [getValues_set_self, getValues_set_of_ne,
        and_self]
    | some priority =>
      have hpriority := noControl_decimalInt priority.toInt
      simp (disch := first | decide | assumption) only [getValues_set_self, getValues_set_of_ne,
        and_self]
  | some origin =>
    have horigin := horigin origin ho
    cases context.priority with
    | none =>
      simp (disch := first | decide | assumption) only [getValues_set_self, getValues_set_of_ne,
        and_self]
    | some priority =>
      have hpriority := noControl_decimalInt priority.toInt
      simp (disch := first | decide | assumption) only [getValues_set_self, getValues_set_of_ne,
        and_self]

/-! ## What Extract reads back -/

theorem parseFirst_single {α : Type} {tryParse : Text → Option α} {headerName value : Text}
    {result : α} (h : tryParse value = some result) :
    parseFirst tryParse headerName [some value] = (some result, []) := by
  simp only [parseFirst, parseFirst.loop, Option.bind_some, h]

/-- The context that `Extract` builds. -/
theorem extract_eq (culture : NumberFormatInfo) (createNew : UInt64) {headers : H}
    {traceId parentId : UInt64} {priority : Option Int32}
    (htrace : parseUInt64 headers HttpHeaderNames.traceId = (traceId, [])) (hne : traceId ≠ 0)
    (hparent : parseUInt64 headers HttpHeaderNames.parentId = (parentId, []))
    (hpriority : parseSamplingPriority culture headers HttpHeaderNames.samplingPriority =
      (priority, [])) :
    extract culture createNew headers = (some
      { traceId := traceId
        spanId := parentId
        serviceName := none
        samplingPriority := priority
        origin := parseString headers HttpHeaderNames.origin
        traceContext := none }, []) := by
  unfold extract
  simp only [htrace, hparent, hpriority, if_neg hne]
  have hpos : traceId > 0 := UInt64.pos_iff_ne_zero.2 hne
  simp [SpanContext.propagated, hpos]

theorem extractGetter_eq (culture : NumberFormatInfo) (createNew : UInt64) {headers : H}
    {carrier : C} {getter : C → Text → List (Option Text)}
    (h : ∀ name, getter carrier name = getValues headers name) :
    extractGetter carrier getter culture createNew = extract culture createNew headers := by
  unfold extractGetter extract parseUInt64Getter parseSamplingPriorityGetter parseStringGetter
  simp only [h]
  rfl

theorem extract_inject [LawfulHeadersCollection H] (culture : NumberFormatInfo)
    (createNew : UInt64) (context : SpanContext) (headers : H) (htrace : context.traceId ≠ 0)
    (horigin : ∀ origin ∈ context.origin, NoControl origin ∧ origin ≠ [])
    (hpriority : ∀ priority ∈ context.priority, culture.Reads priority.toInt)
    (hnew : getValues headers HttpHeaderNames.origin = [] ∧
      getValues headers HttpHeaderNames.samplingPriority = []) :
    extract culture createNew (inject context headers).2 = (some
      { traceId := context.traceId
        spanId := context.spanId
        serviceName := none
        samplingPriority := context.priority
        origin := context.origin
        traceContext := none }, []) := by
  obtain ⟨htraceIds, hparentIds, horigins, hpriorities⟩ :=
    getValues_inject context headers fun origin ho => (horigin origin ho).1
  have hid : ∀ (name : Text) (n : UInt64),
      getValues (inject context headers).2 name = [some (decimal n.toNat)] →
      parseUInt64 (inject context headers).2 name = (n, []) := by
    intro name n h
    simp only [parseUInt64, h, parseFirst_single (tryParseUInt64_decimal n), Option.getD_some]
  have hread : parseString (inject context headers).2 HttpHeaderNames.origin = context.origin := by
    unfold parseString
    rw [horigins]
    cases ho : context.origin with
    | none => simp [hnew.1, firstNonEmpty]
    | some origin => simp [firstNonEmpty, (horigin origin ho).2]
  have hsampling : parseSamplingPriority culture (inject context headers).2
      HttpHeaderNames.samplingPriority = (context.priority, []) := by
    unfold parseSamplingPriority
    rw [hpriorities]
    cases hp : context.priority with
    | none =>
      rw [hnew.2]
      rfl
    | some priority => exact parseFirst_single (tryParseInt32_decimalInt (hpriority priority hp))
  rw [extract_eq culture createNew (hid _ _ htraceIds) htrace (hid _ _ hparentIds) hsampling, hread]

/-- What `Inject` writes into a collection without an origin and a sampling priority,
`Extract` reads back; and the overloads agree with each other. -/
theorem extract_inject_overloads :
    (∀ (H : Type) [IHeadersCollection H] [LawfulHeadersCollection H] (culture : NumberFormatInfo)
      (createNew : UInt64) (context : SpanContext) (headers : H), context.traceId ≠ 0 →
      (∀ origin ∈ context.origin, NoControl origin ∧ origin ≠ []) →
      (∀ priority ∈ context.priority, culture.Reads priority.toInt) →
      getValues headers HttpHeaderNames.origin = [] ∧
        getValues headers HttpHeaderNames.samplingPriority = [] →
      injectSetter context headers IHeadersCollection.set = inject context headers ∧
      extract culture createNew (inject context headers).2 = (some
        { traceId := context.traceId
          spanId := context.spanId
          serviceName := none
          samplingPriority := context.priority
          origin := context.origin
          traceContext := none }, [])) ∧
    ∀ (H C : Type) [IHeadersCollection H] (culture : NumberFormatInfo) (createNew : UInt64)
      (headers : H) (carrier : C) (getter : C → Text → List (Option Text)),
      (∀ name, getter carrier name = getValues headers name) →
      extractGetter carrier getter culture createNew = extract culture createNew headers :=
  ⟨fun _ _ _ culture createNew context headers htrace horigin hpriority hnew =>
    ⟨rfl, extract_inject culture createNew context headers htrace horigin hpriority hnew⟩,
    fun _ _ _ culture createNew _ _ _ h => extractGetter_eq culture createNew h⟩

/-- A local context that rejects its trace, in the invariant culture. -/
theorem extract_inject_rejected :
    (extract .invariantInfo 0 (inject
      ⟨42, 7, none, none, some (text "synthetics"), some ⟨some (-1), false⟩⟩
      DictionaryHeadersCollection.new).2).1 =
        some ⟨42, 7, none, some (-1), some (text "synthetics"), none⟩ := by
  have hnew : ∀ name, getValues DictionaryHeadersCollection.new name = [] := fun _ => rfl
  have h := (extract_inject_overloads.1 DictionaryHeadersCollection .invariantInfo 0
    ⟨42, 7, none, none, some (text "synthetics"), some ⟨some (-1), false⟩⟩ .new (by decide)
    (fun origin ho => ?_) (fun _ _ => ⟨NumberFormatInfo.symbols_invariantInfo, .inr (.inl rfl)⟩) ⟨hnew _, hnew _⟩).2
  · rw [h]
    rfl
  · obtain rfl := Option.some.inj ho
    exact ⟨rfl, by decide⟩

/-- An empty origin is written and not read. -/
theorem empty_origin_lost : ¬ ∀ context : SpanContext, context.traceId ≠ 0 →
    (∀ origin ∈ context.origin, NoControl origin) →
    ∃ extracted, (extract .invariantInfo 0 (inject context DictionaryHeadersCollection.new).2).1 =
      some extracted ∧ extracted.traceId = context.traceId ∧ extracted.spanId = context.spanId ∧
      extracted.samplingPriority = context.priority ∧ extracted.origin = context.origin := by
  intro h
  obtain ⟨extracted, hextracted, -, -, -, horigin⟩ := h ⟨42, 7, none, none, some [], none⟩ (by decide)
    fun origin ho => by
      obtain rfl := Option.some.inj ho
      rfl
  have hnone : (extract .invariantInfo 0 (inject ⟨42, 7, none, none, some [], none⟩
      DictionaryHeadersCollection.new).2).1 = some ⟨42, 7, none, none, none, none⟩ := by
    decide
  rw [hnone] at hextracted
  obtain rfl := Option.some.inj hextracted
  cases horigin

end DdTrace.Propagation
