import DdTrace.Lib.Throwing

/-!
# Tasks and exceptions

A task is its ending and whether it has ended when someone looks at it; awaiting
it waits for the ending. Handlers run in `M`: a computation that can throw and
records the calls of an integration's continuation, also those of an `async`
method that resumes later.
-/

namespace DdTrace.CallTarget

/-! ## Exceptions and tasks -/

/-- An exception object. Equality is identity: two objects never share an id. -/
inductive Exception where
  | other (id : Nat)
  | operationCanceled (id : Nat)
  | aggregate (id : Nat) (innerExceptions : List Exception)

namespace Exception

/-- `AggregateException.GetBaseException`: unwraps as long as there is one inner exception. -/
def getBaseException : Exception → Exception
  | aggregate _ [e] => e.getBaseException
  | e => e

/-- An aggregate of one exception. -/
def IsSingleAggregate (e : Exception) : Prop := ∃ id inner, e = aggregate id [inner]

theorem getBaseException_of_not_single {e : Exception} (h : ¬e.IsSingleAggregate) :
    e.getBaseException = e := by
  unfold getBaseException
  split
  · rename_i id inner
    exact absurd ⟨id, inner, rfl⟩ h
  · rfl

theorem sizeOf_getBaseException_le (e : Exception) : sizeOf e.getBaseException ≤ sizeOf e := by
  fun_induction getBaseException e with
  | case1 id e ih =>
    simp only [aggregate.sizeOf_spec, List.cons.sizeOf_spec]
    omega
  | case2 e h => exact Nat.le_refl _

end Exception

/-- `GetBaseException` gives the exception that awaiting throws exactly if the task has one
exception and this is no aggregate of one. -/
theorem getBaseException_eq_first (id : Nat) (first : Exception) (rest : List Exception) :
    (Exception.aggregate id (first :: rest)).getBaseException = first ↔
      rest = [] ∧ ¬first.IsSingleAggregate := by
  cases rest with
  | nil =>
    rw [Exception.getBaseException]
    refine ⟨fun h => ⟨rfl, ?_⟩, fun h => Exception.getBaseException_of_not_single h.2⟩
    rintro ⟨id', inner, rfl⟩
    rw [Exception.getBaseException] at h
    have hle := Exception.sizeOf_getBaseException_le inner
    rw [h, Exception.aggregate.sizeOf_spec, List.cons.sizeOf_spec] at hle
    omega
  | cons e rest =>
    have hb : (Exception.aggregate id (first :: e :: rest)).getBaseException =
        .aggregate id (first :: e :: rest) :=
      Exception.getBaseException_of_not_single (by rintro ⟨_, _, h⟩; simp at h)
    rw [hb]
    refine ⟨fun h => ?_, fun h => by simp at h⟩
    have hsize := congrArg sizeOf h
    rw [Exception.aggregate.sizeOf_spec, List.cons.sizeOf_spec] at hsize
    omega

/-- How a task ends. `aggregateId` is the identity of `Task.Exception`, which wraps the
exceptions of a faulted task. -/
inductive Ending (α : Type) where
  | ranToCompletion (result : α)
  | faulted (aggregateId : Nat) (first : Exception) (rest : List Exception)
  | canceled (exception : Exception)

structure Task (α : Type) where
  ending : Ending α
  isCompleted : Bool

variable {α Object : Type}

/-- Awaiting a task that ends so. -/
def Ending.await : Ending α → Except Exception α
  | ranToCompletion result => .ok result
  | faulted _ first _ => .error first
  | canceled exception => .error exception

@[simp] theorem Ending.await_ranToCompletion (result : α) :
    (ranToCompletion result).await = .ok result := rfl

@[simp] theorem Ending.await_faulted (id : Nat) (first : Exception) (rest : List Exception) :
    (faulted id first rest : Ending α).await = .error first := rfl

@[simp] theorem Ending.await_canceled (e : Exception) :
    (canceled e : Ending α).await = .error e := rfl

/-- `Task.FromResult`. -/
def Task.fromResult (result : α) : Task α := ⟨.ranToCompletion result, true⟩

/-- `Task.Status == RanToCompletion`, with the result. -/
def Task.ranToCompletion? (task : Task α) : Option α :=
  match task with
  | ⟨.ranToCompletion result, true⟩ => some result
  | _ => none

/-- Computations that may throw and that call the continuation. -/
abbrev M (β : Type) := Lib.Throwing Exception (List (β × Option Exception))

/-- An integration's `OnAsyncMethodEnd`, on the result and the exception of the task. -/
abbrev Continuation (α : Type) := α → Option Exception → Except Exception α

/-- `_continuation(instance, result, exception, state)`. -/
def invoke (continuation : Continuation α) (result : α) (exception : Option Exception) : M α α := do
  modify fun calls => calls ++ [(result, exception)]
  match continuation result exception with
  | .ok r => return r
  | .error e => throw e

@[simp] theorem runWith_invoke (k : Continuation α) (v : α) (e : Option Exception)
    (calls : List (α × Option Exception)) :
    Lib.Throwing.runWith (invoke k v e) calls = (k v e, calls ++ [(v, e)]) := by
  unfold invoke
  rw [Lib.Throwing.runWith_bind]
  cases k v e <;> rfl

/-- How an `async` method ends when its body throws; nothing here reads the aggregate that
its `Task.Exception` would make. -/
def Ending.ofException (e : Exception) : Ending α :=
  match e with
  | .operationCanceled _ => .canceled e
  | _ => .faulted 0 e []

@[simp] theorem Ending.await_ofException (e : Exception) :
    (Ending.ofException e : Ending α).await = .error e := by
  unfold ofException
  split <;> rfl

/-- The task of an `async` method over `previousTask`. -/
def async {β γ : Type} (previousTask : Task γ) (body : M β α) : M β (Task α) := do
  let ending ← try
      let result ← body
      pure (.ranToCompletion result)
    catch e => pure (.ofException e)
  return ⟨ending, previousTask.isCompleted⟩

theorem runWith_async {β γ : Type} (previousTask : Task γ) (body : M β α)
    (calls : List (β × Option Exception)) :
    Lib.Throwing.runWith (async previousTask body) calls =
      match Lib.Throwing.runWith body calls with
      | (.ok a, calls) => (.ok ⟨.ranToCompletion a, previousTask.isCompleted⟩, calls)
      | (.error e, calls) => (.ok ⟨.ofException e, previousTask.isCompleted⟩, calls) := by
  simp only [async, Lib.Throwing.runWith_bind, Lib.Throwing.runWith_tryCatch,
    Lib.Throwing.runWith_pure]
  rcases Lib.Throwing.runWith body calls with ⟨_ | _, _⟩ <;> rfl

/-- `await task` inside an `async` method. -/
def awaitTask {β : Type} (task : Task α) : M β α :=
  match task.ending.await with
  | .ok result => pure result
  | .error e => throw e

@[simp] theorem runWith_awaitTask {β : Type} (task : Task α)
    (calls : List (β × Option Exception)) :
    Lib.Throwing.runWith (awaitTask task) calls = (task.ending.await, calls) := by
  unfold awaitTask
  cases task.ending.await <;> rfl

end DdTrace.CallTarget
