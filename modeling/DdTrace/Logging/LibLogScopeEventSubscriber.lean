import DdTrace.Lib.Integers
import DdTrace.Lib.Run
import Mathlib.Algebra.Order.Ring.Nat
import Mathlib.Data.List.Lex
import Mathlib.Data.List.Perm.Basic

/-!
# Log contexts of Serilog kept on one stack

Which log provider a `LibLogScopeEventSubscriber` resolves, and what its handlers do for Serilog
without an enricher. All execution contexts share `_contextDisposalStack`: an opened span pushes
five disposables, one after the other, a closed one pops five, whichever span pushed them, and the
handlers of several contexts interleave. Only the no-op provider comes to these handlers. Its
disposables are one and the same, so that an entry of another span is as good as a span's own, and
the stack holds five for each open span (`Balanced`) as long as a span is closed once.
-/

namespace DdTrace.Logging

open Lib

/-! ## The log provider -/

/-- Its four numbers, the major one first. -/
structure Version where
  parts : List ℕ
  length_parts : parts.length = 4

structure SerilogAssembly where
  version : Version
  /-- `LogContext.Push` and `LogContext.PushProperties`. -/
  hasPush : Bool
  hasPushProperties : Bool

def supportedSerilogAssemblyVersion : Version := ⟨[2, 0, 0, 0], rfl⟩

def serilogAssemblySupported (serilog : SerilogAssembly) : Bool :=
  decide (supportedSerilogAssemblyVersion.parts ≤ serilog.version.parts)

/-- What the resolvers find in the application. The package of the log providers has resolvers
and providers of its own, known here by whether they are its `SerilogLogProvider`. -/
structure Application where
  serilog : Option SerilogAssembly
  nLog : Bool
  nLogSetObject : Bool
  log4Net : Bool
  packageResolvers : List (Bool × Bool)

inductive LogProvider where
  | customSerilog
  | noOpSerilog
  | customNLog
  | fallbackNLog
  | noOpLog4Net
  | package (isSerilog : Bool)
  deriving DecidableEq

namespace LogProvider

def isSerilogLogProvider : LogProvider → Bool
  | customSerilog | noOpSerilog => true
  | package isSerilog => isSerilog
  | _ => false

/-- `is ILogProviderWithEnricher` -/
def isWithEnricher : LogProvider → Bool
  | customSerilog | customNLog => true
  | _ => false

end LogProvider

namespace Application

def customSerilogAvailable (app : Application) : Bool :=
  app.serilog.any fun serilog =>
    serilogAssemblySupported serilog && (serilog.hasPush || serilog.hasPushProperties)

def noOpSerilogAvailable (app : Application) : Bool :=
  app.serilog.any fun serilog => !serilogAssemblySupported serilog

/-- `InitResolvers`; the resolvers of the package come last. -/
def logProviderResolvers (app : Application) : List (Bool × LogProvider) :=
  [(app.customSerilogAvailable, .customSerilog), (app.noOpSerilogAvailable, .noOpSerilog),
    (app.nLog && app.nLogSetObject, .customNLog), (app.nLog, .fallbackNLog),
    (app.log4Net, .noOpLog4Net)] ++
    app.packageResolvers.map fun resolver => (resolver.1, .package resolver.2)

def resolveLogProvider (app : Application) : Option LogProvider :=
  (app.logProviderResolvers.find? Prod.fst).map Prod.snd

/-- Serilog has one of the two methods from 2.0 on, and the package finds its `SerilogLogProvider`
only where there is Serilog. -/
structure Documented (app : Application) : Prop where
  push : ∀ serilog, app.serilog = some serilog → serilogAssemblySupported serilog = true →
    serilog.hasPush = true ∨ serilog.hasPushProperties = true
  package : (true, true) ∈ app.packageResolvers → app.serilog.isSome = true

end Application

/-- The handlers that the constructor subscribes. -/
inductive Handlers where
  /-- `RegisterLogEnricher` and `ClearLogEnricher`. -/
  | enricher
  /-- `StackOnSpanOpened` and `StackOnSpanClosed`. -/
  | stack
  /-- `MapOnSpanActivated` and `MapOnTraceEnded`. -/
  | map
  deriving DecidableEq

def subscribe : Option LogProvider → Handlers
  | none => .map
  | some provider =>
    if provider.isWithEnricher then .enricher
    else if provider.isSerilogLogProvider then .stack
    else .map

/-- The resolvers of the package do not find Serilog by themselves. -/
theorem subscribe_packageResolver {resolvers : List (Bool × Bool)} (h : (true, true) ∉ resolvers) :
    subscribe (((resolvers.map fun resolver => (resolver.1, LogProvider.package resolver.2)).find?
      Prod.fst).map Prod.snd) = .map := by
  cases hfind : (resolvers.map fun resolver => (resolver.1, LogProvider.package resolver.2)).find?
      Prod.fst with
  | none => rfl
  | some found =>
    obtain ⟨⟨available, isSerilog⟩, hmem, rfl⟩ := List.mem_map.1 (List.mem_of_find?_eq_some hfind)
    have havailable : available = true := List.find?_some hfind
    cases isSerilog with
    | true => exact absurd (havailable ▸ hmem) h
    | false => rfl

/-- The stack is for the no-op provider, that is for Serilog before 2.0. -/
theorem resolveLogProvider_of_stack {app : Application} (happ : app.Documented)
    (h : subscribe app.resolveLogProvider = .stack) :
    app.resolveLogProvider = some .noOpSerilog ∧
      ∃ serilog, app.serilog = some serilog ∧ serilogAssemblySupported serilog = false := by
  unfold Application.resolveLogProvider Application.logProviderResolvers at h ⊢
  cases hserilog : app.serilog with
  | none =>
    have hcustom : app.customSerilogAvailable = false := by
      rw [Application.customSerilogAvailable, hserilog, Option.any_none]
    have hnoOp : app.noOpSerilogAvailable = false := by
      rw [Application.noOpSerilogAvailable, hserilog, Option.any_none]
    -- the providers for other loggers do not use the stack
    rw [hcustom, hnoOp] at h
    have hpackage : (true, true) ∉ app.packageResolvers := by
      intro hmem
      have hsome := happ.package hmem
      rw [hserilog] at hsome
      cases hsome
    exfalso
    cases hnLog : app.nLog with
    | true =>
      rw [hnLog] at h
      cases hobject : app.nLogSetObject with
      | true =>
        rw [hobject] at h
        cases h
      | false =>
        rw [hobject] at h
        cases h
    | false =>
      rw [hnLog] at h
      cases hlog4Net : app.log4Net with
      | true =>
        rw [hlog4Net] at h
        cases h
      | false =>
        rw [hlog4Net] at h
        exact absurd (h.symm.trans (subscribe_packageResolver hpackage)) (by decide)
  | some serilog =>
    cases hsupported : serilogAssemblySupported serilog with
    | true =>
      have hcustom : app.customSerilogAvailable = true := by
        simp [Application.customSerilogAvailable, hserilog, hsupported,
          happ.push serilog hserilog hsupported]
      rw [hcustom] at h
      cases h
    | false =>
      have hcustom : app.customSerilogAvailable = false := by
        simp [Application.customSerilogAvailable, hserilog, hsupported]
      have hnoOp : app.noOpSerilogAvailable = true := by
        simp [Application.noOpSerilogAvailable, hserilog, hsupported]
      rw [hcustom, hnoOp]
      exact ⟨rfl, serilog, rfl, hsupported⟩

/-! ## The handlers -/

structure Span where
  traceId : UInt64
  spanId : UInt64
  deriving DecidableEq

structure Property where
  key : Text
  value : Option Text
  deriving DecidableEq

/-- What `OpenMappedContext` returns. -/
inductive Disposable where
  | noopDisposableInstance
  | logContext (property : Property)
  deriving DecidableEq

/-- `OpenMappedContext` of the provider, which may throw; `others` are those of the package. -/
def LogProvider.openMappedContext (others : LogProvider → Property → Option Disposable) :
    LogProvider → Property → Option Disposable
  | noOpSerilog, _ => some .noopDisposableInstance
  | provider, property => others provider property

structure Subscriber where
  defaultServiceName : Option Text
  version : Option Text
  env : Option Text
  /-- `_contextDisposalStack`, its top first. -/
  contextDisposalStack : List Disposable
  safeToAddToMdc : Bool
  executingIISPreStartInit : Bool
  deriving DecidableEq

def numPropertiesSetOnSpanEvent : ℕ := 5

/-- The properties that `SetSerilogCompatibleLogContext` opens, in order. -/
def Subscriber.properties (s : Subscriber) (span : Span) : List Property :=
  [⟨text "dd_service", s.defaultServiceName⟩,
    ⟨text "dd_version", s.version⟩,
    ⟨text "dd_env", s.env⟩,
    ⟨text "dd_trace_id", some (decimal span.traceId.toNat)⟩,
    ⟨text "dd_span_id", some (decimal span.spanId.toNat)⟩]

/-- A handler under way, in the execution context that raised its event. -/
inductive Handler where
  /-- `StackOnSpanOpened`, which has found IIS initialised. -/
  | entered (span : Span)
  /-- `SetSerilogCompatibleLogContext` with the properties still to be pushed. -/
  | pushing (span : Span) (left : List Property)
  /-- `RemoveAllCorrelationIdentifierContexts`. -/
  | removing
  /-- `RemoveLastCorrelationIdentifierContext` with the number of `TryPop` calls still to be made,
  and what those before have disposed. -/
  | popping (span : Span) (left : ℕ) (disposed : List Disposable)
  deriving DecidableEq

inductive ScopeEvent where
  | traceStarted (initializing : Bool)
  | spanOpened (span : Span)
  | spanClosed (span : Span)
  /-- The next step of one of the handlers under way. -/
  | advance (handler : ℕ)
  deriving DecidableEq

/-- The subscriber with its handlers under way, the spans that have pushed their properties and
have not been closed since, and what each `StackOnSpanClosed` has disposed. -/
structure Subscription where
  subscriber : Subscriber
  handlers : List Handler
  openSpans : List Span
  closed : List (Span × List Disposable)
  deriving DecidableEq

namespace Subscription

def start (defaultServiceName version env : Option Text) (executingIISPreStartInit : Bool) :
    Subscription where
  subscriber :=
    { defaultServiceName
      version
      env
      contextDisposalStack := []
      safeToAddToMdc := true
      executingIISPreStartInit }
  handlers := []
  openSpans := []
  closed := []

def goOn (s : Subscription) (handler : Handler) : Subscription :=
  { s with handlers := handler :: s.handlers }

def setStack (s : Subscription) (stack : List Disposable) : Subscription :=
  { s with subscriber := { s.subscriber with contextDisposalStack := stack } }

section

variable (openMappedContext : Property → Option Disposable)

/-- The next step of a handler that has been taken from those under way. -/
def advance (s : Subscription) : Handler → Subscription
  | .entered span =>
    if s.subscriber.safeToAddToMdc then s.goOn (.pushing span (s.subscriber.properties span)) else s
  | .pushing span [] => { s with openSpans := span :: s.openSpans }
  | .pushing span (property :: left) =>
    match openMappedContext property with
    | some disposable =>
      (s.setStack (disposable :: s.subscriber.contextDisposalStack)).goOn (.pushing span left)
    | none => { s with subscriber := { s.subscriber with safeToAddToMdc := false } }.goOn .removing
  | .removing =>
    match s.subscriber.contextDisposalStack with
    | [] => s
    | _ :: stack => (s.setStack stack).goOn .removing
  | .popping span 0 disposed => { s with closed := s.closed ++ [(span, disposed)] }
  | .popping span (left + 1) disposed =>
    match s.subscriber.contextDisposalStack with
    | [] => s.goOn (.popping span left disposed)
    | disposable :: stack => (s.setStack stack).goOn (.popping span left (disposed ++ [disposable]))

def step (s : Subscription) : ScopeEvent → Option Subscription
  | .traceStarted initializing =>
    -- a finished initialisation stays finished
    some { s with subscriber.executingIISPreStartInit :=
      s.subscriber.executingIISPreStartInit && initializing }
  | .spanOpened span =>
    some (if s.subscriber.executingIISPreStartInit then s else s.goOn (.entered span))
  | .spanClosed span =>
    some (if s.subscriber.executingIISPreStartInit then s
      else { s with openSpans := s.openSpans.erase span }.goOn
        (.popping span numPropertiesSetOnSpanEvent []))
  | .advance i => do
    let handler ← s.handlers[i]?
    return advance openMappedContext { s with handlers := s.handlers.eraseIdx i } handler

end

/-! ## What is on the stack -/

/-- What opening the span pushes. -/
def disposables (s : Subscription) (openMappedContext : Property → Option Disposable)
    (span : Span) : List Disposable :=
  (s.subscriber.properties span).filterMap openMappedContext

/-- Each closed span has disposed what it pushed, and with no handler under way, what has not been
disposed is what the open spans pushed. -/
structure Disciplined (openMappedContext : Property → Option Disposable) (s : Subscription) :
    Prop where
  closed : ∀ c ∈ s.closed, c.2.Perm (s.disposables openMappedContext c.1)
  undisposed : s.handlers = [] →
    s.subscriber.contextDisposalStack.Perm
      (s.openSpans.flatMap (s.disposables openMappedContext))

/-- A span whose closing is handled has pushed its properties, and has not been closed before. -/
def closesOpen (s : Subscription) : ScopeEvent → Bool
  | .spanClosed span => s.subscriber.executingIISPreStartInit || s.openSpans.contains span
  | _ => true

/-! ## Five entries for each open span -/

end Subscription

namespace Handler

/-- How many entries of the stack are there for the handler. -/
def entries : Handler → ℕ
  | entered _ | removing => 0
  | pushing _ left => numPropertiesSetOnSpanEvent - left.length
  | popping _ left _ => left

/-- No more than five properties are pushed, and five disposables popped. -/
def Ok : Handler → Prop
  | entered _ => True
  | pushing _ left => left.length ≤ numPropertiesSetOnSpanEvent
  | removing => False
  | popping _ left disposed =>
    left ≤ numPropertiesSetOnSpanEvent ∧
      disposed = .replicate (numPropertiesSetOnSpanEvent - left) .noopDisposableInstance

end Handler

namespace Subscription

/-- The disposables are all the same, five for each open span and those of the handlers under
way. -/
structure Balanced (s : Subscription) : Prop where
  stack : s.subscriber.contextDisposalStack =
    .replicate (numPropertiesSetOnSpanEvent * s.openSpans.length +
      (s.handlers.map Handler.entries).sum) .noopDisposableInstance
  safe : s.subscriber.safeToAddToMdc = true
  handlers : ∀ handler ∈ s.handlers, handler.Ok
  closed : ∀ c ∈ s.closed, c.2 = .replicate numPropertiesSetOnSpanEvent .noopDisposableInstance

variable {others : LogProvider → Property → Option Disposable} {s t : Subscription}
  {handler : Handler} {e : ScopeEvent}

theorem balanced_start (service version env : Option Text) (initializing : Bool) :
    (start service version env initializing).Balanced where
  stack := rfl
  safe := rfl
  handlers _ h := absurd h List.not_mem_nil
  closed _ h := absurd h List.not_mem_nil

/-- The handlers under way have no order. -/
theorem Balanced.perm {handlers : List Handler} (h : s.Balanced)
    (hperm : s.handlers.Perm handlers) : { s with handlers := handlers }.Balanced where
  stack := by rw [h.stack, (hperm.map Handler.entries).sum_nat]
  safe := h.safe
  handlers handler hmem := h.handlers handler (hperm.mem_iff.2 hmem)
  closed := h.closed

/-- What one step of a handler keeps. -/
theorem Balanced.advance (h : (s.goOn handler).Balanced) :
    (s.advance (LogProvider.noOpSerilog.openMappedContext others) handler).Balanced := by
  have hok : handler.Ok := h.handlers handler List.mem_cons_self
  have hrest : ∀ other ∈ s.handlers, other.Ok := fun other hmem =>
    h.handlers other (List.mem_cons_of_mem _ hmem)
  have hstack : s.subscriber.contextDisposalStack = .replicate
      (numPropertiesSetOnSpanEvent * s.openSpans.length +
        (handler.entries + (s.handlers.map Handler.entries).sum)) .noopDisposableInstance := by
    have hsum := h.stack
    rwa [goOn, List.map_cons, List.sum_cons] at hsum
  cases handler with
  | entered span =>
    have hsafe : s.subscriber.safeToAddToMdc = true := h.safe
    rw [Subscription.advance, if_pos hsafe]
    exact ⟨hstack, hsafe, List.forall_mem_cons.2 ⟨le_rfl, hrest⟩, h.closed⟩
  | pushing span left =>
    cases left with
    | nil =>
      refine ⟨?_, h.safe, hrest, h.closed⟩
      show s.subscriber.contextDisposalStack = _
      rw [hstack]
      congr 1
      simp only [Handler.entries, List.length_nil, Subscription.advance, List.length_cons,
        numPropertiesSetOnSpanEvent]
      omega
    | cons property left =>
      have hle : left.length + 1 ≤ numPropertiesSetOnSpanEvent := hok
      refine ⟨?_, h.safe, List.forall_mem_cons.2 ⟨Nat.le_of_succ_le hle, hrest⟩, h.closed⟩
      show .noopDisposableInstance :: s.subscriber.contextDisposalStack = _
      rw [hstack, ← List.replicate_succ]
      congr 1
      simp only [Handler.entries, List.length_cons, Subscription.advance,
        LogProvider.openMappedContext, goOn, setStack, List.map_cons, List.sum_cons]
      omega
  | removing => exact hok.elim
  | popping span left disposed =>
    cases left with
    | zero =>
      refine ⟨?_, h.safe, hrest, ?_⟩
      · show s.subscriber.contextDisposalStack = _
        rw [hstack]
        congr 1
        simp only [Handler.entries, Subscription.advance, Nat.zero_add]
      · exact List.forall_mem_append.2 ⟨h.closed, List.forall_mem_singleton.2 hok.2⟩
    | succ left =>
      -- the entry that is popped is one of those that are there for this handler
      have hcons : s.subscriber.contextDisposalStack = .noopDisposableInstance :: .replicate
          (numPropertiesSetOnSpanEvent * s.openSpans.length +
            (left + (s.handlers.map Handler.entries).sum)) .noopDisposableInstance := by
        rw [hstack, ← List.replicate_succ]
        congr 1
        simp only [Handler.entries]
        omega
      obtain ⟨hle, hdisposed⟩ := hok
      have hadvance : s.advance (LogProvider.noOpSerilog.openMappedContext others)
          (.popping span (left + 1) disposed) = (s.setStack (.replicate
            (numPropertiesSetOnSpanEvent * s.openSpans.length +
              (left + (s.handlers.map Handler.entries).sum)) .noopDisposableInstance)).goOn
            (.popping span left (disposed ++ [.noopDisposableInstance])) := by
        rw [Subscription.advance, hcons]
      rw [hadvance]
      refine ⟨rfl, h.safe, List.forall_mem_cons.2 ⟨⟨Nat.le_of_succ_le hle, ?_⟩, hrest⟩, h.closed⟩
      rw [hdisposed, ← List.replicate_succ']
      congr 1
      omega

theorem Balanced.step (h : s.Balanced) (hcloses : s.closesOpen e = true)
    (hstep : s.step (LogProvider.noOpSerilog.openMappedContext others) e = some t) :
    t.Balanced := by
  cases e with
  | traceStarted initializing =>
    obtain rfl := Option.some.inj hstep
    exact ⟨h.stack, h.safe, h.handlers, h.closed⟩
  | spanOpened span =>
    obtain rfl := Option.some.inj hstep
    split
    · exact h
    · refine ⟨?_, h.safe, List.forall_mem_cons.2 ⟨trivial, h.handlers⟩, h.closed⟩
      show s.subscriber.contextDisposalStack = _
      rw [h.stack]
      congr 1
      simp only [goOn, List.map_cons, List.sum_cons, Handler.entries, Nat.zero_add]
  | spanClosed span =>
    obtain rfl := Option.some.inj hstep
    split
    · exact h
    · rename_i hinit
      have hmem : span ∈ s.openSpans := by simpa [closesOpen, hinit] using hcloses
      have hlength := List.length_erase_of_mem hmem
      have hpos := List.length_pos_of_mem hmem
      refine ⟨?_, h.safe, List.forall_mem_cons.2 ⟨⟨le_rfl, rfl⟩, h.handlers⟩, h.closed⟩
      show s.subscriber.contextDisposalStack = _
      rw [h.stack]
      congr 1
      simp only [goOn, List.map_cons, List.sum_cons, Handler.entries, hlength,
        numPropertiesSetOnSpanEvent]
      omega
  | advance i =>
    obtain ⟨handler, hget, hadvance⟩ := Option.bind_eq_some_iff.1 hstep
    obtain rfl := Option.some.inj hadvance
    obtain ⟨hlt, rfl⟩ := List.getElem?_eq_some_iff.1 hget
    exact Balanced.advance (s := { s with handlers := s.handlers.eraseIdx i })
      (h.perm (List.getElem_cons_eraseIdx_perm hlt).symm)

theorem length_disposables (s : Subscription) (span : Span) :
    s.disposables (LogProvider.noOpSerilog.openMappedContext others) span =
      .replicate numPropertiesSetOnSpanEvent .noopDisposableInstance := rfl

theorem Balanced.disciplined (h : s.Balanced) :
    s.Disciplined (LogProvider.noOpSerilog.openMappedContext others) where
  closed c hc := by rw [h.closed c hc, length_disposables]
  undisposed hnone := by
    have hall : ∀ spans : List Span, spans.flatMap
        (s.disposables (LogProvider.noOpSerilog.openMappedContext others)) =
          .replicate (numPropertiesSetOnSpanEvent * spans.length) .noopDisposableInstance := by
      intro spans
      induction spans with
      | nil => rfl
      | cons span spans ih =>
        rw [List.flatMap_cons, ih, length_disposables, List.replicate_append_replicate,
          List.length_cons, Nat.mul_succ, Nat.add_comm]
    rw [hall, h.stack, hnone, List.map_nil, List.sum_nil, Nat.add_zero]

end Subscription

open Subscription in
/-- The handlers that use the stack are subscribed for Serilog before 2.0 only, with the no-op
provider: no log context is ever on the stack. In every interleaving of the handlers' steps in
which each closing that is handled is the first of a span that has pushed its properties, every
closed span has disposed what it pushed, and with no handler under way, what has not been disposed
is what the open spans pushed. -/
theorem logContexts_disciplined (others : LogProvider → Property → Option Disposable)
    {app : Application} (happ : app.Documented) (hstack : subscribe app.resolveLogProvider = .stack)
    (service version env : Option Text) (initializing : Bool) {events : List ScopeEvent} :
    ∃ provider serilog, app.resolveLogProvider = some provider ∧ app.serilog = some serilog ∧
      serilogAssemblySupported serilog = false ∧
      (EachStep (stepOf (step (provider.openMappedContext others)))
          (fun s event => s.closesOpen event = true) (start service version env initializing)
          events →
        EachState (stepOf (step (provider.openMappedContext others)))
          (fun s => s.Disciplined (provider.openMappedContext others) ∧
            ∀ disposable ∈ s.subscriber.contextDisposalStack, disposable = .noopDisposableInstance)
          (start service version env initializing) events) := by
  obtain ⟨hprovider, serilog, hserilog, hsupported⟩ := resolveLogProvider_of_stack happ hstack
  refine ⟨.noOpSerilog, serilog, hprovider, hserilog, hsupported, fun hcloses => ?_⟩
  refine EachState.of_invariant (fun _ _ _ h hc hstep => h.step hc hstep)
    (fun s h => ⟨h.disciplined, fun d hd => ?_⟩) hcloses (balanced_start ..)
  rw [h.stack] at hd
  exact List.eq_of_mem_replicate hd

def first : Span := ⟨1, 10⟩

def second : Span := ⟨2, 20⟩

/-- An application with Serilog 1.5.14. -/
def oldSerilog : Application := ⟨some ⟨⟨[1, 5, 14, 0], rfl⟩, false, true⟩, false, false, false, []⟩

theorem oldSerilog_documented : oldSerilog.Documented where
  push serilog h hsupported := by
    obtain rfl := Option.some.inj h
    exact absurd hsupported (by decide)
  package h := by cases h

/-- The step with the provider that is resolved for it. -/
def oldSerilogStep : Subscription → ScopeEvent → Option Subscription :=
  Subscription.step (LogProvider.noOpSerilog.openMappedContext fun _ _ => none)

def newSubscription : Subscription := .start (some (text "app")) none none false

def advances (n handler : ℕ) : List ScopeEvent := .replicate n (.advance handler)

/-- Two spans opened at once; the first to open is closed first, while a third is opened. -/
def interleaved : List ScopeEvent :=
  .spanOpened first :: .spanOpened second :: advances 13 1 ++ .advance 0 ::
    .spanClosed first :: .spanOpened ⟨3, 30⟩ :: advances 11 1 ++ advances 2 0

theorem logContexts_disciplined_interleaved :
    ∃ t, Run (stepOf oldSerilogStep) newSubscription interleaved t ∧
      t.openSpans = [⟨3, 30⟩, second] ∧ t.closed.length = 1 ∧
      t.Disciplined (LogProvider.noOpSerilog.openMappedContext fun _ _ => none) := by
  have hrun : (interleaved.foldlM oldSerilogStep newSubscription).map
      (fun t => (t.openSpans, t.closed.length)) = some ([⟨3, 30⟩, second], 1) := by decide
  obtain ⟨t, ht, hend⟩ := Option.map_eq_some_iff.1 hrun
  obtain ⟨hopen, hclosed⟩ := Prod.mk.inj hend
  have hcloses : checkSteps oldSerilogStep Subscription.closesOpen newSubscription interleaved =
      true := by decide
  obtain ⟨provider, serilog, hprovider, -, -, hdisciplined⟩ :=
    logContexts_disciplined (fun _ _ => none) oldSerilog_documented rfl (some (text "app")) none
      none false
  obtain rfl : LogProvider.noOpSerilog = provider := Option.some.inj hprovider
  exact ⟨t, run_of_foldlM ht, hopen, hclosed,
    (hdisciplined (eachStep_of_check hcloses) interleaved [] t (List.append_nil _).symm
      (run_of_foldlM ht)).1⟩

/-- A scope that is closed and then disposed raises `SpanClosed` twice. -/
def closedTwice : List ScopeEvent :=
  .spanOpened first :: advances 7 0 ++ .spanOpened second :: advances 7 0 ++
    .spanClosed second :: advances 6 0 ++ .spanClosed second :: advances 6 0

/-- The second closing of a span takes the entries of one that is still open. -/
theorem closed_twice_undisciplined :
    ∃ t, Run (stepOf oldSerilogStep) newSubscription closedTwice t ∧ t.openSpans = [first] ∧
      ¬ t.Disciplined (LogProvider.noOpSerilog.openMappedContext fun _ _ => none) := by
  have hrun : (closedTwice.foldlM oldSerilogStep newSubscription).map
      (fun t => (t.openSpans, t.handlers, t.subscriber.contextDisposalStack)) =
        some ([first], [], []) := by decide
  obtain ⟨t, ht, hend⟩ := Option.map_eq_some_iff.1 hrun
  simp only [Prod.mk.injEq] at hend
  obtain ⟨hopen, hhandlers, hstack⟩ := hend
  refine ⟨t, run_of_foldlM ht, hopen, fun h => ?_⟩
  have hlength := (h.undisposed hhandlers).length_eq
  rw [hstack, hopen, List.flatMap_singleton, Subscription.length_disposables,
    List.length_replicate] at hlength
  cases hlength

end DdTrace.Logging
