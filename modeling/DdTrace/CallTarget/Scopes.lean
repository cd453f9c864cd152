import Mathlib.Data.List.Basic
import Mathlib.Logic.Function.Basic
import Mathlib.Tactic.FinCases

/-!
# The caller's scope around an instrumented call

`Code` is code that runs in one flow of execution: it changes the active scope
through the scope manager and makes instrumented calls. A call runs the
integration's handlers as the rewritten method does: a `try` around
`BeginMethod`, then the body, then a `try` around `EndMethod` in the finally.
`run` logs, for every `EndMethodHandler.Invoke` that returns, what was active
before the call and what is active now.
-/

namespace DdTrace.CallTarget

/-! ## The scope manager -/

inductive Scope where
  | root (id : Nat)
  | child (id : Nat) (parent : Scope)
  deriving DecidableEq

def Scope.parent : Scope → Option Scope
  | root _ => none
  | child _ parent => some parent

/-- `new Scope(parent, span, ...)`. -/
def Scope.new (id : Nat) : Option Scope → Scope
  | none => root id
  | some parent => child id parent

/-- The return types `EndMethodHandler` tells apart. -/
inductive ReturnKind where
  | task
  | valueTask
  /-- No continuation generator. -/
  | plain
  deriving DecidableEq

/-- Code of the application or of an integration. `ret` tells whether the returned task has
already run to completion; `throw` whether the exception makes `LogException` disable the
integration. In a `call` the parts are the integration's `OnMethodBegin`, the original
method, the integration's `OnAsyncMethodEnd` and `OnMethodEnd` (`ret` where it has none);
`catches` says whether the caller catches what the call throws. -/
inductive Code where
  | ret (ranToCompletion : Bool)
  | throw (disables : Bool)
  | activate (id : Nat) (rest : Code)
  | close (scope : Scope) (rest : Code)
  | call (integration : Nat) (kind : ReturnKind)
      (onMethodBegin body onAsyncMethodEnd onMethodEnd : Code) (catches : Bool) (rest : Code)

inductive Outcome where
  | returned (ranToCompletion : Bool)
  | thrown (disables : Bool)

/-- What is known when an `EndMethodHandler.Invoke` returns. -/
structure EndRecord where
  /-- The active scope right before `BeginMethodHandler.Invoke`. -/
  before : Option Scope
  /-- `OnMethodBegin` returned. -/
  begun : Bool
  /-- What `OnMethodEnd` leaves active, by what is active when it starts. -/
  onMethodEnd : Option Scope → Option Scope
  /-- The active scope right after. -/
  after : Option Scope

structure State where
  active : Option Scope
  disableIntegration : Nat → Bool
  log : List EndRecord

namespace State

def start (active : Option Scope) : State := ⟨active, fun _ => false, []⟩

/-- `ScopeManagerBase.Activate`. -/
def activate (s : State) (id : Nat) : State := { s with active := some (.new id s.active) }

/-- `ScopeManagerBase.Close`: only the active scope is replaced, by its parent. -/
def close (s : State) (scope : Scope) : State :=
  if s.active = some scope then { s with active := scope.parent } else s

/-- `IntegrationOptions.LogException`. -/
def logException (s : State) (integration : Nat) (disables : Bool) : State :=
  if disables then
    { s with disableIntegration := Function.update s.disableIntegration integration true }
  else s

end State

/-- The part of `CallTargetState` that `EndMethodHandler` reads. -/
structure CallTargetState where
  previousScope : Option Scope

/-- `CallTargetState.GetDefault`. -/
def CallTargetState.getDefault : CallTargetState := ⟨none⟩

/-- Whether `SetContinuation` calls the continuation itself: the method threw, or a task had
run to completion. A continuation it leaves to an `async` method runs in a copy of the
caller's context. -/
def callsInline : ReturnKind → Outcome → Bool
  | _, .thrown _ => true
  | .task, .returned ranToCompletion => ranToCompletion
  | _, .returned _ => false

/-- `SetContinuation`, as far as the caller's flow goes. -/
def setContinuation (kind : ReturnKind) (onAsyncMethodEnd : State → State × Outcome)
    (outcome : Outcome) (s : State) : State × Outcome :=
  if callsInline kind outcome then onAsyncMethodEnd s
  else ({ (onAsyncMethodEnd s).1 with active := s.active }, .returned false)

/-- `EndMethodHandler.Invoke` after `SetContinuation`: restore the previous scope, then
`OnMethodEnd`. `before` and `begun` are only for the record. -/
def restoreAndEnd (onMethodEnd : State → State × Outcome) (state : CallTargetState)
    (before : Option Scope) (begun : Bool) (s : State) : State × Outcome :=
  match onMethodEnd { s with active := state.previousScope } with
  | (t, .thrown d) => (t, .thrown d)
  | (t, .returned b) =>
    let record : EndRecord :=
      { before, begun, after := t.active,
        onMethodEnd := fun a => (onMethodEnd { s with active := a }).1.active }
    ({ t with log := t.log ++ [record] }, .returned b)

/-- `EndMethodHandler.Invoke`. -/
def endMethodInvoke (kind : ReturnKind) (onAsyncMethodEnd onMethodEnd : State → State × Outcome)
    (outcome : Outcome) (state : CallTargetState) (before : Option Scope) (begun : Bool)
    (s : State) : State × Outcome :=
  match kind with
  | .plain => onMethodEnd s
  | .task | .valueTask =>
    match setContinuation kind onAsyncMethodEnd outcome s with
    | (s, .thrown d) => (s, .thrown d)
    | (s, .returned _) => restoreAndEnd onMethodEnd state before begun s

/-- The begin block of the rewritten method: the state local and whether `OnMethodBegin`
returned. If it throws, the local keeps its default. -/
def beginBlock (integration : Nat) (onMethodBegin : State → State × Outcome) (s : State) :
    State × CallTargetState × Bool :=
  if s.disableIntegration integration then (s, .getDefault, false)
  else
    -- the arguments of `new CallTargetState(ActiveScope, _invokeDelegate(...))`, in order
    let previousScope := s.active
    match onMethodBegin s with
    | (s, .returned _) => (s, ⟨previousScope⟩, true)
    | (s, .thrown d) => (s.logException integration d, .getDefault, false)

/-- The finally block of the rewritten method. -/
def endBlock (integration : Nat) (invoke : State → State × Outcome) (s : State) : State :=
  if s.disableIntegration integration then s
  else
    match invoke s with
    | (s, .returned _) => s
    | (s, .thrown d) => s.logException integration d

def run : Code → State → State × Outcome
  | .ret b, s => (s, .returned b)
  | .throw d, s => (s, .thrown d)
  | .activate id rest, s => run rest (s.activate id)
  | .close scope rest, s => run rest (s.close scope)
  | .call integration kind onMethodBegin body onAsyncMethodEnd onMethodEnd catches rest, s =>
    let before := s.active
    let (s, state, begun) := beginBlock integration (run onMethodBegin) s
    let (s, outcome) := run body s
    let s := endBlock integration
      (endMethodInvoke kind (run onAsyncMethodEnd) (run onMethodEnd) outcome state before begun) s
    match outcome, catches with
    | .thrown d, false => (s, .thrown d)
    | _, _ => run rest s

/-! ## What the log says -/

/-- What `EndMethodHandler.Invoke` leaves active. -/
def EndRecord.Explained (r : EndRecord) : Prop :=
  r.after = r.onMethodEnd (if r.begun then r.before else none)

def Explained (s : State) : Prop := ∀ r ∈ s.log, r.Explained

/-- Running `f` logs explained records only. -/
def Explains (f : State → State × Outcome) : Prop := ∀ s, Explained s → Explained (f s).1

theorem Explained.of_log {s t : State} (h : Explained s) (ht : t.log = s.log) : Explained t := by
  unfold Explained
  rw [ht]
  exact h

theorem State.log_logException (s : State) (i : Nat) (d : Bool) :
    (s.logException i d).log = s.log := by
  unfold State.logException
  split <;> rfl

theorem State.log_close (s : State) (scope : Scope) : (s.close scope).log = s.log := by
  unfold State.close
  split <;> rfl

/-- The state local holds what was active before, or nothing if `OnMethodBegin` threw. -/
theorem beginBlock_spec (i : Nat) {f : State → State × Outcome} (hf : Explains f) {s : State}
    (h : Explained s) : Explained (beginBlock i f s).1 ∧
      (beginBlock i f s).2.1.previousScope =
        if (beginBlock i f s).2.2 then s.active else none := by
  unfold beginBlock
  split
  · exact ⟨h, rfl⟩
  · have ht := hf s h
    rcases hs : f s with ⟨t, b | d⟩ <;> rw [hs] at ht
    · exact ⟨ht, rfl⟩
    · exact ⟨ht.of_log (t.log_logException i d), rfl⟩

theorem explained_setContinuation (kind : ReturnKind) {f : State → State × Outcome}
    (hf : Explains f) (outcome : Outcome) : Explains (setContinuation kind f outcome) := by
  intro s h
  unfold setContinuation
  split
  · exact hf s h
  · exact (hf s h).of_log rfl

/-- `OnMethodEnd` starts from the previous scope, and the record says so. -/
theorem explained_restoreAndEnd {g : State → State × Outcome} (hg : Explains g)
    {state : CallTargetState} {before : Option Scope} {begun : Bool}
    (hstate : state.previousScope = if begun then before else none) :
    Explains (restoreAndEnd g state before begun) := by
  intro s h
  have ht := hg { s with active := state.previousScope } h
  unfold restoreAndEnd
  rcases hs : g { s with active := state.previousScope } with ⟨t, b | d⟩ <;> rw [hs] at ht
  · intro r hr
    rcases List.mem_append.1 hr with hr | hr
    · exact ht r hr
    · cases List.mem_singleton.1 hr
      show t.active = (g { s with active := if begun then before else none }).1.active
      rw [← hstate, hs]
  · exact ht

theorem explained_endMethodInvoke (kind : ReturnKind) {f g : State → State × Outcome}
    (hf : Explains f) (hg : Explains g) (outcome : Outcome) {state : CallTargetState}
    {before : Option Scope} {begun : Bool}
    (hstate : state.previousScope = if begun then before else none) :
    Explains (endMethodInvoke kind f g outcome state before begun) := by
  intro s h
  have hset := explained_setContinuation kind hf outcome s h
  unfold endMethodInvoke
  cases kind with
  | plain => exact hg s h
  | task | valueTask =>
    dsimp only
    split <;> rename_i hs <;> rw [hs] at hset
    · exact hset
    · exact explained_restoreAndEnd hg hstate _ hset

theorem explained_endBlock (i : Nat) {f : State → State × Outcome} (hf : Explains f) {s : State}
    (h : Explained s) : Explained (endBlock i f s) := by
  unfold endBlock
  split
  · exact h
  · have ht := hf s h
    rcases hs : f s with ⟨t, b | d⟩ <;> rw [hs] at ht
    · exact ht
    · exact ht.of_log (t.log_logException i d)

theorem explains_run (code : Code) : Explains (run code) := by
  induction code with
  | ret b => exact fun _ h => h
  | throw d => exact fun _ h => h
  | activate id rest ih => exact fun s h => ih _ (h.of_log rfl)
  | close scope rest ih => exact fun s h => ih _ (h.of_log (s.log_close scope))
  | call i kind onMethodBegin body onAsyncMethodEnd onMethodEnd catches rest ihb ihm iha ihe ihr =>
    intro s h
    obtain ⟨h1, hstate⟩ := beginBlock_spec i ihb h
    rw [run]
    rcases hb : beginBlock i (run onMethodBegin) s with ⟨s1, state, begun⟩
    rw [hb] at h1 hstate
    have h2 := ihm s1 h1
    rcases hm : run body s1 with ⟨s2, outcome⟩
    rw [hm] at h2
    have h3 := explained_endBlock i (explained_endMethodInvoke kind iha ihe outcome hstate) h2
    simp only [hm]
    split
    · exact h3
    · exact ihr _ h3

/-! ## When the caller's scope is restored -/

/-- The scope of the caller is restored exactly in the calls where `OnMethodBegin` returned
and `OnMethodEnd` leaves that scope active, or threw and `OnMethodEnd` makes it active from
nothing. Where `OnMethodEnd` leaves the active scope alone, these are the calls where
`OnMethodBegin` returned or no scope was active. -/
theorem scopes_restored (code : Code) (active : Option Scope) :
    let log := (run code (.start active)).1.log
    ((∀ r ∈ log, r.after = r.before) ↔ ∀ r ∈ log,
      r.begun = true ∧ r.onMethodEnd r.before = r.before ∨
        r.begun = false ∧ r.onMethodEnd none = r.before) ∧
    ((∀ r ∈ log, ∀ a, r.onMethodEnd a = a) →
      ((∀ r ∈ log, r.after = r.before) ↔ ∀ r ∈ log, r.begun = true ∨ r.before = none)) := by
  intro log
  have hlog : ∀ r ∈ log, r.Explained := explains_run code (.start active) (fun r hr => by cases hr)
  have hone : ∀ r ∈ log, r.after = r.before ↔
      r.begun = true ∧ r.onMethodEnd r.before = r.before ∨
        r.begun = false ∧ r.onMethodEnd none = r.before := by
    intro r hr
    rw [hlog r hr]
    cases r.begun <;> simp
  refine ⟨forall₂_congr hone, fun hend => forall₂_congr fun r hr => ?_⟩
  rw [hone r hr, hend r hr, hend r hr]
  cases r.begun <;> simp [eq_comm]

/-- Two nested calls inside a scope, the inner method throws and the caller catches: both
restore the scope. -/
theorem scopes_restored_nested :
    ∀ r ∈ (run (.activate 0 (.call 0 .task (.activate 1 (.ret true))
      (.call 1 .valueTask (.activate 2 (.ret true)) (.throw false) (.ret true) (.ret true) true
        (.ret false)) (.ret true) (.ret true) false (.ret true))) (.start none)).1.log,
      r.after = r.before := by
  refine ((scopes_restored _ _).2 ?_).2 ?_
  · intro r hr a
    fin_cases hr <;> rfl
  · intro r hr
    fin_cases hr <;> exact .inl rfl

/-- `OnMethodBegin` throws: the caller is left without its scope. -/
theorem scope_lost :
    ¬∀ (code : Code) (active : Option Scope), ∀ r ∈ (run code (.start active)).1.log,
      r.after = r.before := by
  intro h
  have h := h (.call 0 .task (.throw false) (.ret true) (.ret true) (.ret true) false (.ret true))
    (some (.root 0)) _ (.head _)
  cases h

end DdTrace.CallTarget
