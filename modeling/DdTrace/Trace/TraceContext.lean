import DdTrace.Trace.ArrayBuilder
import DdTrace.Trace.SamplingPriority
import DdTrace.Trace.TagsList
import DdTrace.Lib.Run

/-!
# TraceContext

The state of one trace: `TraceContext.cs`, the parts of `Span.cs` that write to
it, and `Tracer.CreateSpanContext`/`StartSpan`. A span is a reference
(`SpanRef`) into `State.heap`, since the code compares spans by identity and
writes their metrics in place. `written` is what `Tracer.Write` was handed so
far, each span with the sampling-priority metric it carried at that moment;
`propagated` is what header injection read.

`closeSpan` is the composition of its four parts (`enterClose`, `cutChunk`,
`propagateMetadata`, `writeChunk`); only `cutChunk` runs under the lock. Only `Add` there throws,
before the trace is touched.
-/

namespace DdTrace.Trace

open Lib Configuration

namespace Metrics

def samplingPriority : Text := text "_sampling_priority_v1"
def samplingLimitDecision : Text := text "_dd.limit_psr"
def tracesKeepRate : Text := text "_dd.tracer_kr"

end Metrics

namespace Tags

def origin : Text := text "_dd.origin"
def samplingPriority : Text := text "sampling.priority"
def forceKeep : Text := text "force.keep"
def manualKeep : Text := text "manual.keep"
def forceDrop : Text := text "force.drop"
def manualDrop : Text := text "manual.drop"
def analytics : Text := text "_dd1.sr.eausr"
def measured : Text := text "_dd.measured"
def env : Text := text "env"
def version : Text := text "version"

end Tags

/-- A span's `ITags`. No class under `Tagging/` makes the sampling-priority metric
read-only, and `CommonTags` backs it by a property. A metric is a rational number: NaN and the
infinities, which a caller may set, are left out. -/
structure ITags where
  isCommonTags : Bool
  tags : TagStore Text
  metrics : TagStore Rat
  writable : metrics.Writable Metrics.samplingPriority
  common : isCommonTags = true →
    (TagStore.findProperty Metrics.samplingPriority metrics.properties).isSome

namespace ITags

def setTag (t : ITags) (key : Text) (value : Option Text) : ITags :=
  { t with tags := t.tags.set key value }

def setMetric (t : ITags) (key : Text) (value : Option Rat) : ITags :=
  { t with
    metrics := t.metrics.set key value
    writable := t.writable.set key value
    common := fun h => t.metrics.findProperty_set_isSome key value (t.common h) }

/-- The setter of `CommonTags.SamplingPriority`. -/
def setSamplingPriorityProperty (t : ITags) (value : Option Rat) : ITags :=
  { t with
    metrics.properties :=
      TagStore.setProperty Metrics.samplingPriority value t.metrics.properties
    writable := t.writable.setProperty _ value
    common := fun h => by
      rw [TagStore.findProperty_setProperty, Option.isSome_map]
      exact t.common h }

/-- `new CommonTags()`. -/
def commonTags : ITags where
  isCommonTags := true
  tags := ⟨[⟨Tags.env, none, false⟩, ⟨Tags.version, none, false⟩], []⟩
  metrics := ⟨[⟨Metrics.samplingLimitDecision, none, false⟩,
    ⟨Metrics.samplingPriority, none, false⟩, ⟨Metrics.tracesKeepRate, none, false⟩], []⟩
  writable := by simp [TagStore.Writable]
  common := fun _ => rfl

/-- The metric `_sampling_priority_v1`. -/
def samplingPriorityMetric (t : ITags) : Option Rat := t.metrics.get Metrics.samplingPriority

end ITags

abbrev TraceContextRef := Nat

abbrev SpanRef := Nat

/-- `SpanContext.cs`; an extracted context has no trace context and may carry a priority. -/
structure SpanContext where
  serviceName : Option Text
  origin : Option Text
  samplingPriority : Option SamplingPriority
  traceContext : Option TraceContextRef

/-- The parents a span can be given. -/
inductive ISpanContext where
  | spanContext (c : SpanContext)
  | other (serviceName : Option Text)

def ISpanContext.serviceName : ISpanContext → Option Text
  | spanContext c => c.serviceName
  | other n => n

structure Span where
  parent : Option ISpanContext
  serviceName : Option Text
  origin : Option Text
  tags : ITags
  isFinished : Bool

/-- `new Span(context, start)`. -/
def Span.new (parent : Option ISpanContext) (serviceName : Option Text) : Span :=
  ⟨parent, serviceName, none, .commonTags, false⟩

structure TracerSettings where
  partialFlushEnabled : Bool
  partialFlushMinSpans : Nat
  globalTags : List (Text × Text)
  environment : Option Text
  serviceVersion : Option Text

structure Tracer where
  settings : TracerSettings
  maxArrayLength : MaxLength
  /-- The runtime has arrays of the first capacity. -/
  four_le : ArrayBuilder.defaultInitialCapacity ≤ maxArrayLength.1
  sampler : Option (Span → SamplingPriority)
  defaultServiceName : Text
  /-- `double.TryParse` with the styles `Span.SetTag` passes. -/
  doubleTryParse : Text → Option Rat

/-- `Tracer.Sampler?.GetSamplingPriority(span)`. -/
def Tracer.getSamplingPriority (tr : Tracer) (span : Span) : Option SamplingPriority :=
  tr.sampler.map fun f => f span

structure TraceContext where
  rootSpan : Option SpanRef
  spans : ArrayBuilder SpanRef
  openSpans : Int
  samplingPriority : Option SamplingPriority
  samplingPriorityLocked : Bool

/-- `new TraceContext(tracer) { SamplingPriority = priority }`. -/
def TraceContext.new (priority : Option SamplingPriority) : TraceContext :=
  ⟨none, .empty, 0, priority, false⟩

/-- A span as `Tracer.Write` receives it. -/
structure WrittenSpan where
  span : SpanRef
  samplingPriorityMetric : Option Rat

structure State where
  ctx : TraceContext
  heap : SpanRef → Span
  written : List (List WrittenSpan)
  propagated : List (Option SamplingPriority)

/-- A trace context with nothing written yet. -/
def State.new (ctx : TraceContext) (heap : SpanRef → Span) : State := ⟨ctx, heap, [], []⟩

namespace State

variable (tr : Tracer)

/-- Replace the tags of one span. -/
def setTags (s : State) (x : SpanRef) (t : ITags) : State :=
  { s with heap := Function.update s.heap x { s.heap x with tags := t } }

/-! ## Sampling priority -/

/-- The setter of `TraceContext.SamplingPriority`. -/
def setSamplingPriority (s : State) (value : Option SamplingPriority) : State :=
  if s.ctx.samplingPriorityLocked then s
  else { s with ctx.samplingPriority := value }

def lockSamplingPriority (s : State) : State :=
  match s.ctx.samplingPriority with
  | none => s
  | some _ => { s with ctx.samplingPriorityLocked := true }

/-- `SpanContextPropagator.Inject` for a span of the trace: lock, then read. -/
def inject (s : State) : State :=
  let s := s.lockSamplingPriority
  { s with propagated := s.propagated ++ [s.ctx.samplingPriority] }

/-- The static `SetSamplingPriority`: put the metric on one span. -/
def putSamplingPriority (s : State) (x : SpanRef) (p : SamplingPriority) : State :=
  let tags := (s.heap x).tags
  s.setTags x <|
    if tags.isCommonTags then tags.setSamplingPriorityProperty (some p.toInt)
    else tags.setMetric Metrics.samplingPriority (some p.toInt)

/-! ## Opening and closing spans -/

def addSpan (s : State) (span : SpanRef) : State :=
  let s := match s.ctx.rootSpan with
    | some _ => s
    | none =>
      -- `DecorateRootSpan` only sets string tags of the root
      let s := { s with ctx.rootSpan := some span }
      match s.ctx.samplingPriority with
      | some _ => s
      | none =>
        match (s.heap span).parent with
        | some (.spanContext ⟨_, _, some p, _⟩) =>
          lockSamplingPriority { s with ctx.samplingPriority := some p }
        | _ => { s with ctx.samplingPriority := tr.getSamplingPriority (s.heap span) }
  { s with ctx.openSpans := s.ctx.openSpans + 1 }

/-- `CloseSpan` before the lock: the root span locks the priority and takes its metric. -/
def enterClose (s : State) (span : SpanRef) : State :=
  if s.ctx.rootSpan = some span then
    let s := s.lockSamplingPriority
    match s.ctx.samplingPriority with
    | none => s
    | some p => s.putSamplingPriority span p
  else s

def shouldTriggerPartialFlush (spans : ArrayBuilder SpanRef) : Bool :=
  tr.settings.partialFlushEnabled && decide (tr.settings.partialFlushMinSpans ≤ spans.count)

/-- What the locked part of `CloseSpan` leaves in its locals. -/
structure Cut where
  spansToWrite : List SpanRef
  shouldPropagateMetadata : Bool

/-- The locked part of `CloseSpan`. -/
def cutChunk (s : State) (span : SpanRef) : Option (State × Cut) := do
  let spans ← s.ctx.spans.add tr.maxArrayLength span
  let openSpans := s.ctx.openSpans - 1
  let s := { s with ctx.spans := spans, ctx.openSpans := openSpans }
  if openSpans = 0 then
    return ({ s with ctx.spans := .empty }, ⟨spans.getArray, false⟩)
  else if shouldTriggerPartialFlush tr spans then
    -- the new builder starts at the size of the chunk just cut
    let chunk := spans.getArray
    return ({ s with ctx.spans := .withCapacity chunk.length }, ⟨chunk, true⟩)
  else
    return (s, ⟨[], false⟩)

def propagateMetadata (s : State) (spans : List SpanRef) : State :=
  match s.ctx.samplingPriority with
  | none => s
  | some p => spans.foldl (fun s x => s.putSamplingPriority x p) s

/-- `Tracer.Write`, with the metric each span carries. -/
def write (s : State) (spans : List SpanRef) : State :=
  { s with
    written := s.written ++ [spans.map fun x => ⟨x, (s.heap x).tags.samplingPriorityMetric⟩] }

/-- The end of `CloseSpan`: a non-empty chunk goes to `Tracer.Write`. -/
def writeChunk (s : State) (spansToWrite : List SpanRef) : State :=
  if 0 < spansToWrite.length then s.write spansToWrite else s

/-- `CloseSpan`, `none` if `Add` throws. -/
def closeSpan (s : State) (span : SpanRef) : Option State := do
  let (s, cut) ← (s.enterClose span).cutChunk tr span
  let s := if cut.shouldPropagateMetadata then s.propagateMetadata cut.spansToWrite else s
  return s.writeChunk cut.spansToWrite

/-- The trace after `CloseSpan`. An exception leaves what was done before the lock. -/
def afterClose (s : State) (span : SpanRef) : State :=
  (s.closeSpan tr span).getD (s.enterClose span)

/-! ## Tags -/

/-- The metric a `_dd1.sr.eausr` tag asks for. -/
def analyticsMetric (value : Text) : Option Rat :=
  match toBoolean value with
  | some true => some 1
  | some false => some 0
  | none => tr.doubleTryParse value

/-- `Span.SetTag`. -/
def setTag (s : State) (x : SpanRef) (key : Text) (value : Option Text) : State :=
  let span := s.heap x
  if span.isFinished then s
  else if key = Tags.origin then
    { s with heap := Function.update s.heap x { span with origin := value } }
  else if key = Tags.samplingPriority then
    match SamplingPriority.tryParse value with
    | some p => s.setSamplingPriority (some p)
    | none => s
  else if key = Tags.forceKeep ∨ key = Tags.manualKeep then
    if value.bind toBoolean = some true then s.setSamplingPriority (some .userKeep) else s
  else if key = Tags.forceDrop ∨ key = Tags.manualDrop then
    if value.bind toBoolean = some true then s.setSamplingPriority (some .userReject) else s
  else if key = Tags.analytics then
    match value with
    | none | some [] => s.setTags x (span.tags.setMetric Tags.analytics none)
    | some v =>
      match analyticsMetric tr v with
      | some rate => s.setTags x (span.tags.setMetric Tags.analytics (some rate))
      | none => s
  else if key = Tags.measured then
    match value with
    | none | some [] => s.setTags x (span.tags.setMetric Tags.measured none)
    | some v =>
      match toBoolean v with
      | some b => s.setTags x (span.tags.setMetric Tags.measured (some (if b then 1 else 0)))
      | none => s
  else s.setTags x (span.tags.setTag key value)

/-- `Span.Finish`: the first call marks the span and closes it. -/
def finish (s : State) (x : SpanRef) : State :=
  if (s.heap x).isFinished then s
  else
    { s with heap := Function.update s.heap x { s.heap x with isFinished := true } }.afterClose tr x

/-! ## Operations on a trace -/

inductive Op where
  | addSpan (span : SpanRef)
  | closeSpan (span : SpanRef)
  | finish (span : SpanRef)
  | setTag (span : SpanRef) (key : Text) (value : Option Text)
  | setSamplingPriority (value : Option SamplingPriority)
  | inject

/-- The trace after an operation, whose exceptions go to its caller. -/
def after (s : State) : Op → State
  | .addSpan x => s.addSpan tr x
  | .closeSpan x => s.afterClose tr x
  | .finish x => s.finish tr x
  | .setTag x key value => s.setTag tr x key value
  | .setSamplingPriority value => s.setSamplingPriority value
  | .inject => s.inject

def Step (s : State) (op : Op) (t : State) : Prop := s.after tr op = t

/-- `s` reaches `t` by the operations, each run to its end. -/
abbrev Runs (s : State) (ops : List Op) (t : State) : Prop := Lib.Run (Step tr) s ops t

end State

/-! ## Starting a span -/

/-- `Tracer.CreateSpanContext`, its trace-context part: the parent's, or a new one that
takes over the priority of a propagated parent. -/
def createTraceContext (parent : Option ISpanContext) : TraceContextRef ⊕ TraceContext :=
  match parent with
  | some (.spanContext c) =>
    match c.traceContext with
    | some r => .inl r
    | none => .inr (.new c.samplingPriority)
  | _ => .inr (.new none)

/-- The tags `Tracer.StartSpan` puts on a new span before it adds it to its trace. -/
def startTags (tr : Tracer) (serviceName : Text) : List (Text × Text) :=
  let nonBlank (v : Option Text) := v.filter fun v => !(v.all isWhiteSpace)
  tr.settings.globalTags ++
    ((nonBlank tr.settings.environment).map (Tags.env, ·)).toList ++
    if serviceName = tr.defaultServiceName then
      ((nonBlank tr.settings.serviceVersion).map (Tags.version, ·)).toList
    else []

/-- `Tracer.StartSpan` on the trace context it works on: tag the span, then add it. -/
def startSpanOps (tr : Tracer) (parent : Option ISpanContext) (serviceName : Option Text)
    (span : SpanRef) : List State.Op :=
  let name := (serviceName <|> parent.bind (·.serviceName)).getD tr.defaultServiceName
  (startTags tr name).map (fun e => .setTag span e.1 (some e.2)) ++ [.addSpan span]

end DdTrace.Trace
