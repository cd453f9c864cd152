import DdTrace.Rejit.Handler

/-!
# The loader's callbacks

`CorProfiler` of the native loader hands `JITInlining` and `JITCachedFunctionSearchStarted` to
each loaded profiler in turn, with one out-parameter for all of them. The results are combined,
the out-parameter is not: it has what was stored in it last. The tracer's two callbacks, as one
of the profilers, store TRUE unless they have a reason for FALSE.
-/

namespace DdTrace.NativeLoader

open Rejit (ModuleID MethodDef Handler)

abbrev HRESULT := Int32
abbrev BOOL := Int32
abbrev FunctionID := ℕ
abbrev AppDomainID := ℕ

def S_OK : HRESULT := 0
def TRUE : BOOL := 1
def FALSE : BOOL := 0

/-- `FAILED` -/
def failed (hr : HRESULT) : Bool := hr < 0

/-- What a profiler does in a callback: the values it stores through the out-parameter, in order,
and what it returns. -/
structure Answer where
  writes : List BOOL
  hr : HRESULT
  deriving DecidableEq, Repr

namespace Answer

/-- The value behind the out-parameter when the profiler returns. -/
def leaves (a : Answer) (value : BOOL) : BOOL := a.writes.getLastD value

def Vetoes (a : Answer) : Prop := a.writes.getLast? = some FALSE

instance (a : Answer) : Decidable a.Vetoes := inferInstanceAs (Decidable (_ = _))

end Answer

/-- The two callbacks of a profiler that have an out-parameter, `none` for a null pointer. What
is behind it may be read. -/
structure ICorProfilerCallback where
  jitInlining (callerId calleeId : FunctionID) (pfShouldInline : Option BOOL) : Answer
  jitCachedFunctionSearchStarted (functionId : FunctionID) (pbUseCachedFunction : Option BOOL) :
    Answer

/-- A call that the runtime makes. -/
inductive Callback where
  | jitInlining (callerId calleeId : FunctionID)
  | jitCachedFunctionSearchStarted (functionId : FunctionID)
  deriving DecidableEq, Repr

def ICorProfilerCallback.call (p : ICorProfilerCallback) : Callback → Option BOOL → Answer
  | .jitInlining callerId calleeId => p.jitInlining callerId calleeId
  | .jitCachedFunctionSearchStarted functionId => p.jitCachedFunctionSearchStarted functionId

/-- The loader's profiler: those of `Initialize` that are loaded and succeeded. -/
structure CorProfiler where
  cpProfiler : Option ICorProfilerCallback
  tracerProfiler : Option ICorProfilerCallback
  customProfiler : Option ICorProfilerCallback

namespace CorProfiler

/-- One block of the macro: `gHR` and the out-parameter after a profiler that may be loaded. -/
def runIn (expr : ICorProfilerCallback → Option BOOL → Answer) (s : HRESULT × Option BOOL) :
    Option ICorProfilerCallback → HRESULT × Option BOOL
  | none => s
  | some p =>
    let a := expr p s.2
    (if failed a.hr then a.hr else s.1, s.2.map a.leaves)

/-- The macro `RunInAllProfilers`. -/
def runInAllProfilers (c : CorProfiler) (expr : ICorProfilerCallback → Option BOOL → Answer)
    (out : Option BOOL) : HRESULT × Option BOOL :=
  runIn expr (runIn expr (runIn expr (S_OK, out) c.cpProfiler) c.tracerProfiler) c.customProfiler

def jitInlining (c : CorProfiler) (callerId calleeId : FunctionID) (pfShouldInline : Option BOOL) :
    HRESULT × Option BOOL :=
  c.runInAllProfilers (fun p => p.jitInlining callerId calleeId) pfShouldInline

def jitCachedFunctionSearchStarted (c : CorProfiler) (functionId : FunctionID)
    (pbUseCachedFunction : Option BOOL) : HRESULT × Option BOOL :=
  c.runInAllProfilers (fun p => p.jitCachedFunctionSearchStarted functionId) pbUseCachedFunction

def call (c : CorProfiler) : Callback → Option BOOL → HRESULT × Option BOOL
  | .jitInlining callerId calleeId => c.jitInlining callerId calleeId
  | .jitCachedFunctionSearchStarted functionId => c.jitCachedFunctionSearchStarted functionId

/-! ### The answers of a call -/

/-- The answers of profilers that are called one after the other. -/
def answersOf (callback : Callback) : List ICorProfilerCallback → BOOL → List Answer
  | [], _ => []
  | p :: ps, value =>
    let a := p.call callback (some value)
    a :: answersOf callback ps (a.leaves value)

/-- The answers of the loaded profilers, in the loader's order. -/
def answers (c : CorProfiler) (callback : Callback) (value : BOOL) : List Answer :=
  answersOf callback ([c.cpProfiler, c.tracerProfiler, c.customProfiler].filterMap id) value

/-- What is stored last. -/
def lastWrite (answers : List Answer) : Option BOOL := (answers.flatMap Answer.writes).getLast?

/-- A failure stays, whatever is returned after it. -/
def combine (hr : HRESULT) (answers : List Answer) : HRESULT :=
  answers.foldl (fun hr a => if failed a.hr then a.hr else hr) hr

variable {c : CorProfiler} {callback : Callback} {value : BOOL} {a : Answer} {as : List Answer}

@[simp] theorem lastWrite_nil : lastWrite [] = none := rfl

theorem lastWrite_cons (a : Answer) (as : List Answer) :
    lastWrite (a :: as) = (lastWrite as).or a.writes.getLast? := by
  unfold lastWrite
  rw [List.flatMap_cons, List.getLast?_append]

theorem leaves_getD (a : Answer) (as : List Answer) (value : BOOL) :
    (lastWrite as).getD (a.leaves value) = (lastWrite (a :: as)).getD value := by
  rw [lastWrite_cons, Answer.leaves, List.getLastD_eq_getLast?]
  cases lastWrite as <;> rfl

theorem call_eq (c : CorProfiler) (callback : Callback) (value : BOOL) :
    c.call callback (some value) = (combine S_OK (c.answers callback value),
      some ((lastWrite (c.answers callback value)).getD value)) := by
  have hrun : ∀ (ps : List (Option ICorProfilerCallback)) (hr : HRESULT) (value : BOOL),
      ps.foldl (runIn fun p => p.call callback) (hr, some value) =
        (combine hr (answersOf callback (ps.filterMap id) value),
          some ((lastWrite (answersOf callback (ps.filterMap id) value)).getD value)) := by
    intro ps
    induction ps with
    | nil =>
      intro hr value
      rfl
    | cons p ps ih =>
      intro hr value
      cases p with
      | none =>
        rw [List.filterMap_cons_none rfl]
        exact ih hr value
      | some p =>
        rw [List.filterMap_cons_some (f := id) rfl, List.foldl_cons, answersOf, ← leaves_getD]
        exact ih _ _
  have hall := hrun [c.cpProfiler, c.tracerProfiler, c.customProfiler] S_OK value
  cases callback with
  | jitInlining callerId calleeId => exact hall
  | jitCachedFunctionSearchStarted functionId => exact hall

/-- The loader's result is a failure when one of the profilers' is. -/
theorem failed_combine (hr : HRESULT) (as : List Answer) :
    failed (combine hr as) = (failed hr || as.any fun a => failed a.hr) := by
  induction as generalizing hr with
  | nil => simp [combine]
  | cons a as ih =>
    unfold combine at ih ⊢
    rw [List.foldl_cons, ih, List.any_cons]
    cases h : failed a.hr <;> simp [h]

theorem lastWrite_isSome (h : a ∈ as) (hv : a.Vetoes) : (lastWrite as).isSome := by
  induction as with
  | nil => cases h
  | cons b as ih =>
    rw [lastWrite_cons, Option.isSome_or]
    obtain rfl | h := List.mem_cons.1 h
    · rw [hv]
      exact Bool.or_true _
    · rw [ih h]
      rfl

/-- FALSE is still there after a veto. -/
def KeepsVeto (c : CorProfiler) (callback : Callback) (value : BOOL) : Prop :=
  (∃ a ∈ c.answers callback value, a.Vetoes) → (c.call callback (some value)).2 = some FALSE

/-- A veto stays exactly when FALSE is stored last, by whichever profiler. -/
theorem keepsVeto_iff (c : CorProfiler) (callback : Callback) (value : BOOL) :
    c.KeepsVeto callback value ↔ (∀ a ∈ c.answers callback value, ¬ a.Vetoes) ∨
      lastWrite (c.answers callback value) = some FALSE := by
  unfold KeepsVeto
  rw [call_eq]
  constructor
  · intro hkeeps
    by_cases hveto : ∃ a ∈ c.answers callback value, a.Vetoes
    · obtain ⟨a, ha, hv⟩ := hveto
      obtain ⟨last, hlast⟩ := Option.isSome_iff_exists.1 (lastWrite_isSome ha hv)
      have hfalse := hkeeps ⟨a, ha, hv⟩
      rw [hlast] at hfalse ⊢
      exact .inr hfalse
    · exact .inl fun a ha hv => hveto ⟨a, ha, hv⟩
  · rintro (hnone | hlast) ⟨a, ha, hv⟩
    · exact absurd hv (hnone a ha)
    · rw [hlast]
      rfl

/-- Of two profilers the second decides, if it stores anything. -/
theorem keepsVeto_second_iff (callback : Callback) {p q : ICorProfilerCallback}
    (hcp : c.cpProfiler = some p) (htracer : c.tracerProfiler = some q) (hcustom : c.customProfiler = none)
    (hveto : (p.call callback (some value)).Vetoes)
    (hwrites : (q.call callback (some FALSE)).writes ≠ []) :
    c.KeepsVeto callback value ↔ (q.call callback (some FALSE)).Vetoes := by
  have hleaves : (p.call callback (some value)).leaves value = FALSE := by
    rw [Answer.leaves, List.getLastD_eq_getLast?, hveto]
    rfl
  have hanswers : c.answers callback value =
      [p.call callback (some value), q.call callback (some FALSE)] := by
    unfold answers
    rw [hcp, htracer, hcustom, ← hleaves]
    rfl
  obtain ⟨last, hlast⟩ := Option.ne_none_iff_exists'.1 (mt List.getLast?_eq_none_iff.1 hwrites)
  unfold KeepsVeto
  rw [call_eq, hanswers, lastWrite_cons, lastWrite_cons, lastWrite_nil, Option.none_or, hlast,
    Option.some_or, Answer.Vetoes, hlast]
  exact ⟨fun h => h ⟨_, List.mem_cons_self, hveto⟩, fun h _ => h⟩

end CorProfiler

/-! ### The tracer as one of the profilers -/

/-- What the tracer's callbacks read: `is_attached_`, the second time separately, the tables and
the answers of the runtime. -/
structure Tracer where
  isAttached : Bool
  isStillAttached : Bool
  rejitHandler : Option Handler
  /-- `none` when the call fails. -/
  getFunctionInfo : FunctionID → Option (ModuleID × MethodDef)
  moduleIdToInfoMap : ModuleID → Option AppDomainID
  isCallTargetEnabled : Bool
  moduleIds : List ModuleID
  moduleAppDomain : ModuleID → AppDomainID
  firstJitCompilationAppDomains : List AppDomainID

namespace Tracer

/-- `RejitHandler::HasModuleAndMethod`, between two steps of other threads. -/
def hasModuleAndMethod (h : Handler) (m : ModuleID) (d : MethodDef) : Bool :=
  !h.shutdown && decide (m ∈ h.modules) && decide (d ∈ h.methods m)

def jitInlining (t : Tracer) (calleeId : FunctionID) : Answer :=
  match t.isAttached, t.rejitHandler with
  | true, some handler =>
    match t.getFunctionInfo calleeId with
    | none => ⟨[TRUE], S_OK⟩
    | some (calleeModuleId, calleFunctionToken) =>
      if t.isStillAttached && hasModuleAndMethod handler calleeModuleId calleFunctionToken then
        ⟨[TRUE, FALSE], S_OK⟩
      else ⟨[TRUE], S_OK⟩
  | _, _ => ⟨[], S_OK⟩

/-- The part of `JITCachedFunctionSearchStarted` that knows the application domain. -/
def searchInAppDomain (t : Tracer) (appDomainId : AppDomainID) : Answer :=
  if appDomainId ∉ t.firstJitCompilationAppDomains then ⟨[FALSE], S_OK⟩ else ⟨[TRUE], S_OK⟩

def jitCachedFunctionSearchStarted (t : Tracer) (functionId : FunctionID)
    (pbUseCachedFunction : Option BOOL) : Answer :=
  if !t.isAttached || pbUseCachedFunction.isNone then ⟨[], S_OK⟩
  else
    match t.getFunctionInfo functionId with
    | none => ⟨[], S_OK⟩
    | some (moduleId, _) =>
      match t.moduleIdToInfoMap moduleId with
      | none =>
        if !t.isCallTargetEnabled || decide (moduleId ∉ t.moduleIds) then ⟨[TRUE], S_OK⟩
        else t.searchInAppDomain (t.moduleAppDomain moduleId)
      | some appDomainId => t.searchInAppDomain appDomainId

/-- A null `pfShouldInline` is not looked for; the runtime passes none. -/
def callback (t : Tracer) : ICorProfilerCallback where
  jitInlining _ calleeId _ := t.jitInlining calleeId
  jitCachedFunctionSearchStarted := t.jitCachedFunctionSearchStarted

variable {t : Tracer} {p : ICorProfilerCallback} {handler : Handler}
  {callerId calleeId functionId : FunctionID} {value : BOOL}

/-- The tracer, attached, stores TRUE or FALSE whatever was there before. -/
theorem jitInlining_writes (hattached : t.isAttached = true) (hhandler : t.rejitHandler.isSome) :
    (t.jitInlining calleeId).writes ≠ [] := by
  obtain ⟨handler, hhandler⟩ := Option.isSome_iff_exists.1 hhandler
  unfold jitInlining
  rw [hattached, hhandler]
  dsimp only
  split
  · exact List.cons_ne_nil _ _
  · split
    · exact List.cons_ne_nil _ _
    · exact List.cons_ne_nil _ _

theorem jitInlining_vetoes_iff (hattached : t.isAttached = true)
    (hhandler : t.rejitHandler = some handler) :
    (t.jitInlining calleeId).Vetoes ↔ ∃ m d, t.getFunctionInfo calleeId = some (m, d) ∧
      t.isStillAttached = true ∧ hasModuleAndMethod handler m d = true := by
  unfold jitInlining
  rw [hattached, hhandler]
  cases hinfo : t.getFunctionInfo calleeId with
  | none => simp [Answer.Vetoes, TRUE, FALSE]
  | some info =>
    obtain ⟨m, d⟩ := info
    by_cases hmethod : t.isStillAttached = true ∧ hasModuleAndMethod handler m d = true
    · simp [Answer.Vetoes, hmethod]
    · have hcond : (t.isStillAttached && hasModuleAndMethod handler m d) = false := by
        rwa [Bool.and_eq_false_iff, ← Bool.not_eq_true, ← Bool.not_eq_true, ← not_and_or]
      simp only [hcond]
      refine iff_of_false (by simp [Answer.Vetoes, TRUE, FALSE]) ?_
      rintro ⟨m', d', heq, hboth⟩
      obtain ⟨rfl, rfl⟩ := Prod.mk.inj (Option.some.inj heq)
      exact hmethod hboth

theorem jitCachedFunctionSearchStarted_writes (hattached : t.isAttached = true)
    (hinfo : (t.getFunctionInfo functionId).isSome) :
    (t.jitCachedFunctionSearchStarted functionId (some value)).writes ≠ [] := by
  obtain ⟨⟨m, d⟩, hinfo⟩ := Option.isSome_iff_exists.1 hinfo
  have hsearch : ∀ appDomainId, (t.searchInAppDomain appDomainId).writes ≠ [] := by
    intro appDomainId
    unfold searchInAppDomain
    split
    · exact List.cons_ne_nil _ _
    · exact List.cons_ne_nil _ _
  unfold jitCachedFunctionSearchStarted
  rw [if_neg (by simp [hattached]), hinfo]
  dsimp only
  split
  · split
    · exact List.cons_ne_nil _ _
    · exact hsearch _
  · exact hsearch _

/-- Behind an attached tracer, a veto of the continuous profiler on inlining stays only if the
tracer has one of its own. -/
theorem keepsVeto_jitInlining_iff {c : CorProfiler} (hcp : c.cpProfiler = some p)
    (htracer : c.tracerProfiler = some t.callback) (hcustom : c.customProfiler = none)
    (hveto : (p.jitInlining callerId calleeId (some value)).Vetoes)
    (hattached : t.isAttached = true) (hhandler : t.rejitHandler = some handler) :
    c.KeepsVeto (.jitInlining callerId calleeId) value ↔
      ∃ m d, t.getFunctionInfo calleeId = some (m, d) ∧
        t.isStillAttached = true ∧ hasModuleAndMethod handler m d = true := by
  have hwrites : (t.jitInlining calleeId).writes ≠ [] :=
    jitInlining_writes hattached (by rw [hhandler]; rfl)
  have hiff := CorProfiler.keepsVeto_second_iff (.jitInlining callerId calleeId)
    hcp htracer hcustom hveto hwrites
  exact hiff.trans (jitInlining_vetoes_iff hattached hhandler)

/-- The same for the NGEN image, which the tracer accepts once its loader is in the domain. -/
theorem keepsVeto_jitCachedFunctionSearchStarted_iff {c : CorProfiler}
    (hcp : c.cpProfiler = some p) (htracer : c.tracerProfiler = some t.callback)
    (hcustom : c.customProfiler = none)
    (hveto : (p.jitCachedFunctionSearchStarted functionId (some value)).Vetoes)
    (hattached : t.isAttached = true) (hinfo : (t.getFunctionInfo functionId).isSome) :
    c.KeepsVeto (.jitCachedFunctionSearchStarted functionId) value ↔
      (t.jitCachedFunctionSearchStarted functionId (some FALSE)).Vetoes :=
  CorProfiler.keepsVeto_second_iff (.jitCachedFunctionSearchStarted functionId)
    hcp htracer hcustom hveto (jitCachedFunctionSearchStarted_writes hattached hinfo)

end Tracer

/-- A profiler that vetoes. -/
def vetoing : ICorProfilerCallback := ⟨fun _ _ _ => ⟨[FALSE], S_OK⟩, fun _ _ => ⟨[FALSE], S_OK⟩⟩

/-- A tracer, attached, that has rewritten nothing. -/
def attachedTracer : Tracer where
  isAttached := true
  isStillAttached := true
  rejitHandler := some { profilerInfo6 := true }
  getFunctionInfo functionId := some (functionId, 0)
  moduleIdToInfoMap _ := none
  isCallTargetEnabled := true
  moduleIds := []
  moduleAppDomain _ := 0
  firstJitCompilationAppDomains := []

/-- The veto of the continuous profiler is lost. -/
theorem not_keepsVeto :
    ¬ CorProfiler.KeepsVeto ⟨some vetoing, some attachedTracer.callback, none⟩
      (.jitInlining 1 2) TRUE := by
  intro hkeeps
  have hfalse := hkeeps ⟨⟨[FALSE], S_OK⟩, List.mem_cons_self, rfl⟩
  exact absurd hfalse (by decide)

end DdTrace.NativeLoader
