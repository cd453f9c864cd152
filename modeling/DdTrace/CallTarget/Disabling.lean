import DdTrace.CallTarget.Scopes
import DdTrace.Lib.Run

/-!
# Disabling an integration while its calls are under way

Instrumented calls on several threads, each thread with the stack of its calls,
and the volatile flag of `IntegrationOptions<TIntegration, TTarget>` that
`LogException` sets from any of them. `BeginMethod` and `EndMethod` test the flag
each on its own: a call that was begun and whose integration is disabled before
its `EndMethod` gets none of the end handlers.
-/

namespace DdTrace.CallTarget.Disabling

open DdTrace.Lib

/-- The type arguments `<TIntegration, TTarget>`. -/
structure Key where
  integration : ℕ
  target : ℕ
deriving DecidableEq

/-- Exceptions, as far as `LogException` tells them apart. -/
inductive Exception where
  | duckType
  | targetInvocation (inner : Option Exception)
  | callTargetInvoker
  | other

/-- `LogException` disables the integration. -/
def Exception.disables : Exception → Bool
  | .duckType | .targetInvocation (some .duckType) | .callTargetInvoker => true
  | _ => false

/-- Where a rewritten method is. In `begin` and `«end»` it is about to test the flag, in
`invoke` in the static constructor of `EndMethodHandler`, in the `catch` phases about to log
what a handler threw. -/
inductive Phase where
  | begin
  | onMethodBegin
  | catchBegin (ex : Exception)
  | body
  | «end»
  | invoke
  | setContinuation
  | onMethodEnd
  | catchEnd (ex : Exception)

/-- A call under way, or finished. The fields from `tested` on only record: the `LogException`
calls made before `EndMethod` tested the flag and the scope active then, the end handlers that
ran, the handler code whose throwing kept `OnMethodEnd` from running, the scope active in the
end. -/
structure Frame where
  key : Key
  /-- The return type has a continuation generator. -/
  taskLike : Bool
  phase : Phase := .begin
  activeBefore : Option Scope := none
  previousScope : Option Scope := none
  /-- `OnMethodBegin` ran to completion. -/
  begun : Bool := false
  tested : Option (List (Key × Exception)) := none
  activeAtTest : Option Scope := none
  continued : Bool := false
  ended : Bool := false
  handlerThrew : Bool := false
  activeAfter : Option Scope := none

structure State where
  stack : ℕ → List Frame := fun _ => []
  active : ℕ → Option Scope := fun _ => none
  disableIntegration : Key → Bool := fun _ => false
  logged : List (Key × Exception) := []
  finished : List Frame := []

/-- A thread calls a rewritten method, or goes on in its topmost call: it tests the flag, the
running part returns or throws, the rewritten method catches and logs. Any code may call
`LogException` and change the active scope of its flow. -/
inductive Event where
  | call (t : ℕ) (key : Key) (taskLike : Bool)
  | test (t : ℕ)
  | returns (t : ℕ)
  | throws (t : ℕ) (ex : Exception)
  | catches (t : ℕ)
  | logException (key : Key) (ex : Exception)
  | activate (t : ℕ) (id : ℕ)
  | close (t : ℕ) (scope : Scope)

/-- `IntegrationOptions<TIntegration, TTarget>.LogException`. -/
def State.logException (s : State) (key : Key) (ex : Exception) : State :=
  { s with
    logged := s.logged ++ [(key, ex)]
    disableIntegration :=
      if ex.disables then Function.update s.disableIntegration key true
      else s.disableIntegration }

def State.setActive (s : State) (t : ℕ) (scope : Option Scope) : State :=
  { s with active := Function.update s.active t scope }

/-- The topmost call of thread `t` becomes `f`. -/
def State.replace (s : State) (t : ℕ) (f : Frame) (rest : List Frame) : State :=
  { s with stack := Function.update s.stack t (f :: rest) }

/-- The topmost call of thread `t` returns to its caller. -/
def State.leave (s : State) (t : ℕ) (f : Frame) (rest : List Frame) : State :=
  { s with
    stack := Function.update s.stack t rest
    finished := s.finished ++ [{ f with activeAfter := s.active t }] }

/-- Code of the application or of a handler is running in thread `t`. -/
def State.runs (s : State) (t : ℕ) : Bool :=
  match s.stack t with
  | [] => true
  | f :: _ =>
    match f.phase with
    | .onMethodBegin | .body | .setContinuation | .onMethodEnd => true
    | _ => false

/-- The tests of `IsIntegrationEnabled` in `BeginMethod` and in `EndMethod`. -/
def test (s : State) (t : ℕ) (f : Frame) (rest : List Frame) : Option State :=
  match f.phase with
  | .begin =>
    if s.disableIntegration f.key then some (s.replace t { f with phase := .body } rest)
    else some (s.replace t { f with phase := .onMethodBegin, activeBefore := s.active t } rest)
  | .end =>
    let f := { f with tested := some s.logged, activeAtTest := s.active t }
    if s.disableIntegration f.key then some (s.leave t f rest)
    else some (s.replace t { f with phase := .invoke } rest)
  | _ => none

def returns (s : State) (t : ℕ) (f : Frame) (rest : List Frame) : Option State :=
  match f.phase with
  | .onMethodBegin =>
    some (s.replace t { f with phase := .body, previousScope := f.activeBefore, begun := true } rest)
  | .body => some (s.replace t { f with phase := .end } rest)
  | .invoke =>
    if f.taskLike then
      some (s.replace t { f with phase := .setContinuation, continued := true } rest)
    else some (s.replace t { f with phase := .onMethodEnd, ended := true } rest)
  | .setContinuation =>
    -- restores the previous scope before the next handler
    some ((s.setActive t f.previousScope).replace t
      { f with phase := .onMethodEnd, ended := true } rest)
  | .onMethodEnd => some (s.leave t f rest)
  | _ => none

def throws (s : State) (t : ℕ) (ex : Exception) (f : Frame) (rest : List Frame) : Option State :=
  match f.phase with
  | .onMethodBegin => some (s.replace t { f with phase := .catchBegin ex } rest)
  | .body => some (s.replace t { f with phase := .end } rest)
  | .invoke | .setContinuation =>
    some (s.replace t { f with phase := .catchEnd ex, handlerThrew := true } rest)
  | .onMethodEnd => some (s.replace t { f with phase := .catchEnd ex } rest)
  | _ => none

/-- The `catch` blocks of the rewritten method. -/
def catches (s : State) (t : ℕ) (f : Frame) (rest : List Frame) : Option State :=
  match f.phase with
  | .catchBegin ex => some ((s.logException f.key ex).replace t { f with phase := .body } rest)
  | .catchEnd ex => some ((s.logException f.key ex).leave t f rest)
  | _ => none

def topmost (s : State) (t : ℕ) (go : Frame → List Frame → Option State) : Option State :=
  match s.stack t with
  | [] => none
  | f :: rest => go f rest

def next (s : State) : Event → Option State
  | .call t key taskLike =>
    if s.runs t then some (s.replace t { key, taskLike } (s.stack t)) else none
  | .test t => topmost s t (test s t)
  | .returns t => topmost s t (returns s t)
  | .throws t ex => topmost s t (throws s t ex)
  | .catches t => topmost s t (catches s t)
  | .logException key ex => some (s.logException key ex)
  | .activate t id => some (s.setActive t (some (.new id (s.active t))))
  | .close t scope =>
    some (if s.active t = some scope then s.setActive t scope.parent else s)

/-! ## What a call has run -/

/-- One of the `LogException` calls disables the integration. -/
def Disabled (key : Key) (logged : List (Key × Exception)) : Prop :=
  ∃ ex, (key, ex) ∈ logged ∧ ex.disables = true

/-- The end handlers ran: the continuation was set if there is one, and `OnMethodEnd` was
called unless the handler's static constructor or the continuation threw before. -/
def Frame.Ended (f : Frame) : Prop :=
  f.handlerThrew = false → (f.taskLike = true → f.continued = true) ∧ f.ended = true

/-- No end handler ran, and the active scope is what the body left. -/
def Frame.Skipped (f : Frame) : Prop :=
  f.continued = false ∧ f.ended = false ∧ f.handlerThrew = false ∧ f.activeAfter = f.activeAtTest

/-- What holds of a call that has returned, given the `LogException` calls so far: the ones
made before its `EndMethod` tested the flag decide. -/
def Frame.Left (f : Frame) (logged : List (Key × Exception)) : Prop :=
  ∃ before, f.tested = some before ∧ before <+: logged ∧
    (Disabled f.key before → f.Skipped) ∧ (¬ Disabled f.key before → f.Ended)

/-- `EndMethod` has not tested the flag. -/
def Frame.Untested (f : Frame) : Prop :=
  f.tested = none ∧ f.continued = false ∧ f.ended = false ∧ f.handlerThrew = false

/-- `EndMethod` found the integration enabled. -/
def Frame.Enabled (f : Frame) (logged : List (Key × Exception)) : Prop :=
  ∃ before, f.tested = some before ∧ before <+: logged ∧ ¬ Disabled f.key before

/-- What holds of a call under way, by the place it has reached. -/
def Frame.Fits (f : Frame) (logged : List (Key × Exception)) : Prop :=
  match f.phase with
  | .begin | .onMethodBegin | .catchBegin _ | .body | .end => f.Untested
  | .invoke => f.Enabled logged
  | .setContinuation => f.Enabled logged ∧ f.continued = true
  | .onMethodEnd | .catchEnd _ => f.Enabled logged ∧ f.Ended

theorem Frame.Enabled.mono {f : Frame} {l l' : List (Key × Exception)} (h : f.Enabled l)
    (hl : l <+: l') : f.Enabled l' := by
  obtain ⟨before, ht, hp, hd⟩ := h
  exact ⟨before, ht, hp.trans hl, hd⟩

theorem Frame.Left.mono {f : Frame} {l l' : List (Key × Exception)} (h : f.Left l)
    (hl : l <+: l') : f.Left l' := by
  obtain ⟨before, ht, hp, hd⟩ := h
  exact ⟨before, ht, hp.trans hl, hd⟩

theorem Frame.Fits.mono {f : Frame} {l l' : List (Key × Exception)} (h : f.Fits l)
    (hl : l <+: l') : f.Fits l' := by
  unfold Frame.Fits at h ⊢
  split at h
  · exact h
  · exact h
  · exact h
  · exact h
  · exact h
  · exact h.mono hl
  · exact ⟨h.1.mono hl, h.2⟩
  · exact ⟨h.1.mono hl, h.2⟩
  · exact ⟨h.1.mono hl, h.2⟩

/-- A call whose `EndMethod` found the integration enabled may return once its handlers have
run. -/
theorem Frame.Enabled.left {f : Frame} {l : List (Key × Exception)} (h : f.Enabled l)
    (he : f.Ended) (scope : Option Scope) : Frame.Left { f with activeAfter := scope } l := by
  obtain ⟨before, ht, hp, hd⟩ := h
  exact ⟨before, ht, hp, fun hd' => absurd hd' hd, fun _ => he⟩

theorem disabled_append {key key' : Key} {ex : Exception} {logged : List (Key × Exception)} :
    Disabled key (logged ++ [(key', ex)]) ↔
      Disabled key logged ∨ key = key' ∧ ex.disables = true := by
  constructor
  · rintro ⟨ex', hm, hd⟩
    rcases List.mem_append.1 hm with hm | hm
    · exact .inl ⟨ex', hm, hd⟩
    · obtain ⟨rfl, rfl⟩ := Prod.mk.inj (List.mem_singleton.1 hm)
      exact .inr ⟨rfl, hd⟩
  · rintro (⟨ex', hm, hd⟩ | ⟨rfl, hd⟩)
    · exact ⟨ex', List.mem_append_left _ hm, hd⟩
    · exact ⟨ex, by simp, hd⟩

/-! ## The invariant -/

structure Inv (s : State) : Prop where
  flag : ∀ key, s.disableIntegration key = true ↔ Disabled key s.logged
  fits : ∀ t, ∀ f ∈ s.stack t, f.Fits s.logged
  left : ∀ f ∈ s.finished, f.Left s.logged

theorem Inv.init : Inv {} where
  flag key := by
    constructor
    · intro h
      cases h
    · rintro ⟨_, hm, _⟩
      cases hm
  fits t f h := by cases h
  left f h := by cases h

theorem Inv.setActive {s : State} (h : Inv s) (t : ℕ) (scope : Option Scope) :
    Inv (s.setActive t scope) := ⟨h.flag, h.fits, h.left⟩

theorem Inv.logException {s : State} (h : Inv s) (key : Key) (ex : Exception) :
    Inv (s.logException key ex) where
  flag k := by
    rw [show (s.logException key ex).logged = s.logged ++ [(key, ex)] from rfl, disabled_append,
      ← h.flag k]
    by_cases hd : ex.disables = true
    · by_cases hk : k = key
      · subst hk; simp [State.logException, hd]
      · simp [State.logException, hd, hk]
    · simp [State.logException, hd]
  fits t f hf := (h.fits t f hf).mono (List.prefix_append _ _)
  left f hf := (h.left f hf).mono (List.prefix_append _ _)

theorem Inv.replace {s : State} (h : Inv s) {t : ℕ} {f : Frame} {rest : List Frame}
    (hrest : ∀ g ∈ rest, g ∈ s.stack t) (hf : f.Fits s.logged) : Inv (s.replace t f rest) where
  flag := h.flag
  fits u g hg := by
    by_cases hu : u = t
    · subst hu
      rw [show (s.replace u f rest).stack u = f :: rest from Function.update_self ..] at hg
      rcases List.mem_cons.1 hg with rfl | hg
      · exact hf
      · exact h.fits u g (hrest g hg)
    · rw [show (s.replace t f rest).stack u = s.stack u from Function.update_of_ne hu ..] at hg
      exact h.fits u g hg
  left := h.left

theorem Inv.leave {s : State} (h : Inv s) {t : ℕ} {f : Frame} {rest : List Frame}
    (hrest : ∀ g ∈ rest, g ∈ s.stack t)
    (hf : Frame.Left { f with activeAfter := s.active t } s.logged) : Inv (s.leave t f rest) where
  flag := h.flag
  fits u g hg := by
    by_cases hu : u = t
    · subst hu
      rw [show (s.leave u f rest).stack u = rest from Function.update_self ..] at hg
      exact h.fits u g (hrest g hg)
    · rw [show (s.leave t f rest).stack u = s.stack u from Function.update_of_ne hu ..] at hg
      exact h.fits u g hg
  left g hg := by
    rcases List.mem_append.1 hg with hg | hg
    · exact h.left g hg
    · rw [List.mem_singleton.1 hg]
      exact hf

/-! ## Steps -/

section

variable {s s' : State} {t : ℕ} {f : Frame} {rest : List Frame}

theorem topmost_cases {go : Frame → List Frame → Option State} (h : topmost s t go = some s') :
    ∃ f rest, s.stack t = f :: rest ∧ go f rest = some s' := by
  unfold topmost at h
  split at h
  · cases h
  · exact ⟨_, _, by assumption, h⟩

variable (hi : Inv s) (hrest : ∀ g ∈ rest, g ∈ s.stack t) (hf : f.Fits s.logged)
include hi hrest hf

theorem inv_test (h : test s t f rest = some s') : Inv s' := by
  unfold test at h
  split at h
  next hp =>
    have hu : f.Untested := by simpa [Frame.Fits, hp] using hf
    split at h
    · cases h
      exact hi.replace hrest hu
    · cases h
      exact hi.replace hrest hu
  next hp =>
    have hu : f.Untested := by simpa [Frame.Fits, hp] using hf
    dsimp only at h
    split at h
    next hd =>
      cases h
      refine hi.leave hrest ⟨s.logged, rfl, List.prefix_rfl, fun _ => ?_, fun hn => ?_⟩
      · exact ⟨hu.2.1, hu.2.2.1, hu.2.2.2, rfl⟩
      · exact absurd ((hi.flag f.key).1 hd) hn
    next hd =>
      cases h
      refine hi.replace hrest ?_
      exact ⟨s.logged, rfl, List.prefix_rfl, fun hn => hd ((hi.flag f.key).2 hn)⟩
  · cases h

theorem inv_returns (h : returns s t f rest = some s') : Inv s' := by
  unfold returns at h
  split at h
  next hp =>
    have hu : f.Untested := by simpa [Frame.Fits, hp] using hf
    cases h
    exact hi.replace hrest hu
  next hp =>
    have hu : f.Untested := by simpa [Frame.Fits, hp] using hf
    cases h
    exact hi.replace hrest hu
  next hp =>
    have he : f.Enabled s.logged := by simpa [Frame.Fits, hp] using hf
    split at h
    · cases h
      exact hi.replace hrest ⟨he, rfl⟩
    next hk =>
      cases h
      exact hi.replace hrest ⟨he, fun _ => ⟨fun h => absurd h hk, rfl⟩⟩
  next hp =>
    have he : f.Enabled s.logged ∧ f.continued = true := by simpa [Frame.Fits, hp] using hf
    cases h
    exact (hi.setActive t _).replace hrest ⟨he.1, fun _ => ⟨fun _ => he.2, rfl⟩⟩
  next hp =>
    have he : f.Enabled s.logged ∧ f.Ended := by simpa [Frame.Fits, hp] using hf
    cases h
    exact hi.leave hrest (he.1.left he.2 _)
  · cases h

theorem inv_throws {ex : Exception} (h : throws s t ex f rest = some s') : Inv s' := by
  unfold throws at h
  split at h
  next hp =>
    have hu : f.Untested := by simpa [Frame.Fits, hp] using hf
    cases h
    exact hi.replace hrest hu
  next hp =>
    have hu : f.Untested := by simpa [Frame.Fits, hp] using hf
    cases h
    exact hi.replace hrest hu
  next hp =>
    have he : f.Enabled s.logged := by simpa [Frame.Fits, hp] using hf
    cases h
    exact hi.replace hrest ⟨he, fun hn => by cases hn⟩
  next hp =>
    have he : f.Enabled s.logged ∧ f.continued = true := by simpa [Frame.Fits, hp] using hf
    cases h
    exact hi.replace hrest ⟨he.1, fun hn => by cases hn⟩
  next hp =>
    have he : f.Enabled s.logged ∧ f.Ended := by simpa [Frame.Fits, hp] using hf
    cases h
    exact hi.replace hrest he
  · cases h

theorem inv_catches (h : catches s t f rest = some s') : Inv s' := by
  unfold catches at h
  split at h
  next ex hp =>
    have hu : f.Untested := by simpa [Frame.Fits, hp] using hf
    cases h
    exact (hi.logException f.key ex).replace hrest hu
  next ex hp =>
    have he : f.Enabled s.logged ∧ f.Ended := by simpa [Frame.Fits, hp] using hf
    cases h
    have he' := he.1.mono (List.prefix_append s.logged [(f.key, ex)])
    exact (hi.logException f.key ex).leave hrest (he'.left he.2 _)
  · cases h

end

theorem inv_step (s : State) (e : Event) (s' : State) (hi : Inv s) (h : stepOf next s e s') :
    Inv s' := by
  have top : ∀ t f rest, s.stack t = f :: rest →
      (∀ g ∈ rest, g ∈ s.stack t) ∧ f.Fits s.logged := by
    intro t f rest hs
    exact ⟨fun g hg => by rw [hs]; exact .tail _ hg, hi.fits t f (by rw [hs]; exact .head _)⟩
  cases e with
  | call t key taskLike =>
    simp only [stepOf, next] at h
    split at h
    · cases h
      exact hi.replace (fun g hg => hg) ⟨rfl, rfl, rfl, rfl⟩
    · cases h
  | test t =>
    obtain ⟨f, rest, hs, h⟩ := topmost_cases h
    exact inv_test hi (top t f rest hs).1 (top t f rest hs).2 h
  | returns t =>
    obtain ⟨f, rest, hs, h⟩ := topmost_cases h
    exact inv_returns hi (top t f rest hs).1 (top t f rest hs).2 h
  | throws t ex =>
    obtain ⟨f, rest, hs, h⟩ := topmost_cases h
    exact inv_throws hi (top t f rest hs).1 (top t f rest hs).2 h
  | catches t =>
    obtain ⟨f, rest, hs, h⟩ := topmost_cases h
    exact inv_catches hi (top t f rest hs).1 (top t f rest hs).2 h
  | logException key ex =>
    cases h
    exact hi.logException key ex
  | activate t id =>
    cases h
    exact hi.setActive t _
  | close t scope =>
    cases h
    split
    · exact hi.setActive t _
    · exact hi

/-! ## Every run -/

/-- However calls and `LogException` calls interleave: a call that has returned has run its end
handlers, unless `LogException` had disabled its integration when its `EndMethod` tested the
flag. Then it ran none of them and left the active scope alone. -/
theorem ended_unless_disabled {es : List Event} {s : State} (h : Run (stepOf next) {} es s) :
    ∀ f ∈ s.finished, f.Left s.logged := by
  have hi : Inv s :=
    h.invariant (C := fun _ _ => True) (fun s i t hs _ => inv_step s i t hs)
      (fun _ _ _ _ _ _ => trivial) Inv.init
  exact hi.left

/-- Thread 0 begins a call and opens a scope in `OnMethodBegin`; thread 1 logs a
`DuckTypeException`; the call returns. -/
def disabledInBetween : List Event :=
  [.call 0 ⟨0, 0⟩ true, .test 0, .activate 0 1, .returns 0, .logException ⟨0, 0⟩ .duckType,
    .returns 0, .test 0]

theorem run_disabledInBetween :
    ∃ s, Run (stepOf next) {} disabledInBetween s ∧ s.active 0 = some (.root 1) ∧
      ∃ f ∈ s.finished, f.begun = true ∧ f.continued = false ∧ f.ended = false := by
  refine ⟨_, .cons rfl (.cons rfl (.cons rfl (.cons rfl (.cons rfl (.cons rfl (.cons rfl
    (.nil _))))))), rfl, ?_⟩
  exact ⟨_, .head _, rfl, rfl, rfl⟩

/-- The continuation throws, without disabling anything. -/
def continuationThrows : List Event :=
  [.call 0 ⟨0, 0⟩ true, .test 0, .returns 0, .returns 0, .test 0, .returns 0, .throws 0 .other,
    .catches 0]

theorem run_continuationThrows :
    ∃ s, Run (stepOf next) {} continuationThrows s ∧ ¬ Disabled ⟨0, 0⟩ s.logged ∧
      ∃ f ∈ s.finished, f.begun = true ∧ f.ended = false := by
  refine ⟨_, .cons rfl (.cons rfl (.cons rfl (.cons rfl (.cons rfl (.cons rfl (.cons rfl
    (.cons rfl (.nil _)))))))), ?_, ?_⟩
  · rintro ⟨ex, hm, hd⟩
    obtain ⟨-, rfl⟩ := Prod.mk.inj (List.mem_singleton.1 hm)
    cases hd
  · exact ⟨_, .head _, rfl, rfl⟩

theorem ended_unless_disabled_inBetween :
    ∃ s, Run (stepOf next) {} disabledInBetween s ∧ (∃ f ∈ s.finished, f.begun = true) ∧
      ∀ f ∈ s.finished, f.Left s.logged := by
  obtain ⟨s, run, -, f, hf, hb, -⟩ := run_disabledInBetween
  exact ⟨s, run, ⟨f, hf, hb⟩, ended_unless_disabled run⟩

theorem begun_not_ended :
    (∃ s, Run (stepOf next) {} disabledInBetween s ∧ s.active 0 = some (.root 1) ∧
      ∃ f ∈ s.finished, f.begun = true ∧ f.continued = false ∧ f.ended = false) ∧
    (∃ s, Run (stepOf next) {} continuationThrows s ∧ ¬ Disabled ⟨0, 0⟩ s.logged ∧
      ∃ f ∈ s.finished, f.begun = true ∧ f.ended = false) :=
  ⟨run_disabledInBetween, run_continuationThrows⟩

end DdTrace.CallTarget.Disabling
