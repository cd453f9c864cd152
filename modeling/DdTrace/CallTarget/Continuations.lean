import DdTrace.CallTarget.Tasks

/-!
# Task continuations

The four generators under `CallTarget/Handlers/Continuations`: what the
application awaits after `SetContinuation` against what it would have awaited.
-/

namespace DdTrace.CallTarget

variable {α Object : Type}

/-! ## The generators -/

namespace TaskContinuationGenerator

variable [Inhabited Object] (continuation : Option (Continuation Object))

/-- The exception the continuation is told, and that is rethrown after it. The task has
ended when this is read. -/
def exceptionOf {β : Type} (previousTask : Task α) : M β (Option Exception) :=
  match previousTask.ending with
  | .ranToCompletion _ => pure none
  | .faulted id first rest => pure (some (Exception.aggregate id (first :: rest)).getBaseException)
  | .canceled _ => do
    try
      let _ ← awaitTask previousTask
      pure none
    catch ex => pure (some ex)

def continuationAction (continuation : Continuation Object) (previousTask : Task Unit) :
    M Object (Task Unit) :=
  async previousTask do
    let exception ← exceptionOf previousTask
    try
      let _ ← invoke continuation default exception
    catch _ => pure ()
    match exception with
    | some e => throw e
    | none => return

/-- `TaskContinuationGenerator.cs`; null is the default of `Object`. -/
def setContinuation (returnValue : Option (Task Unit)) (exception : Option Exception) :
    M Object (Option (Task Unit)) := do
  match continuation with
  | none => return returnValue
  | some continuation =>
    match exception, returnValue with
    | none, some previousTask =>
      match previousTask.ranToCompletion? with
      | some _ =>
        let _ ← invoke continuation default none
        return returnValue
      | none => return some (← continuationAction continuation previousTask)
    | _, _ =>
      let _ ← invoke continuation default exception
      return returnValue

end TaskContinuationGenerator

namespace TaskOfContinuationGenerator

variable [Inhabited α] (continuation : Option (Continuation α))

def continuationAction (continuation : Continuation α) (previousTask : Task α) : M α (Task α) :=
  async previousTask do
    let exception ← TaskContinuationGenerator.exceptionOf previousTask
    let taskResult := match previousTask.ending with
      | .ranToCompletion result => result
      | _ => default
    let continuationResult ← try invoke continuation taskResult exception
      catch _ => pure default
    match exception with
    | some e => throw e
    | none => return continuationResult

/-- TaskContinuationGenerator`1.cs. -/
def setContinuation (returnValue : Option (Task α)) (exception : Option Exception) :
    M α (Option (Task α)) := do
  match continuation with
  | none => return returnValue
  | some continuation =>
    match exception, returnValue with
    | none, some previousTask =>
      match previousTask.ranToCompletion? with
      | some result => return some (.fromResult (← invoke continuation result none))
      | none => return some (← continuationAction continuation previousTask)
    | _, _ =>
      let _ ← invoke continuation default exception
      return returnValue

end TaskOfContinuationGenerator

namespace ValueTaskContinuationGenerator

variable [Inhabited Object] (continuation : Option (Continuation Object))

def innerSetValueTaskContinuation (continuation : Continuation Object)
    (previousValueTask : Task Unit) : M Object (Task Unit) :=
  async previousValueTask do
    try awaitTask previousValueTask
    catch ex =>
      try
        let _ ← invoke continuation default (some ex)
      catch _ => pure ()
      throw ex
    try
      let _ ← invoke continuation default none
    catch _ => pure ()

/-- `ValueTaskContinuationGenerator.cs`. -/
def setContinuation (returnValue : Task Unit) (exception : Option Exception) :
    M Object (Task Unit) := do
  match continuation with
  | none => return returnValue
  | some continuation =>
    match exception with
    | some _ =>
      let _ ← invoke continuation default exception
      return returnValue
    | none => innerSetValueTaskContinuation continuation returnValue

end ValueTaskContinuationGenerator

namespace ValueTaskOfContinuationGenerator

variable [Inhabited α] (continuation : Option (Continuation α))

def innerSetValueTaskContinuation (continuation : Continuation α) (previousValueTask : Task α) :
    M α (Task α) :=
  async previousValueTask do
    let result ← try awaitTask previousValueTask
      catch ex =>
        try
          let _ ← invoke continuation default (some ex)
        catch _ => pure ()
        throw ex
    try invoke continuation result none
    catch _ => pure result

/-- ValueTaskContinuationGenerator`1.cs. -/
def setContinuation (returnValue : Task α) (exception : Option Exception) : M α (Task α) := do
  match continuation with
  | none => return returnValue
  | some continuation =>
    match exception with
    | some _ =>
      let _ ← invoke continuation default exception
      return returnValue
    | none => innerSetValueTaskContinuation continuation returnValue

end ValueTaskOfContinuationGenerator

/-! ## Transparency -/

/-- The continuation gives back the value it was given, or throws. -/
def Continuation.ReturnsOrThrows (k : Continuation α) : Prop :=
  ∀ v e, k v e = .ok v ∨ ∃ ex, k v e = .error ex

/-- The calls of the continuation and the task the application gets: when `SetContinuation`
throws, the rewritten method logs the exception and returns the task it already had. -/
def handed {β ρ : Type} (original : ρ) (setContinuation : M β ρ) :
    List (β × Option Exception) × ρ :=
  match setContinuation.runWith [] with
  | (.ok task, calls) => (calls, task)
  | (.error _, calls) => (calls, original)

/-- One call of the continuation, and awaiting the new task is awaiting the original. -/
def Transparent {β : Type} (original : Task α) (h : List (β × Option Exception) × Task α) : Prop :=
  h.1.length = 1 ∧ h.2.ending.await = original.ending.await

/-- The same for a generator whose task can be null. -/
def TransparentTask {β : Type} (original : Task α)
    (h : List (β × Option Exception) × Option (Task α)) : Prop :=
  ∃ task, h.2 = some task ∧ Transparent original (h.1, task)

/-- Two generators call the continuation as often and hand out tasks that await alike. -/
def Agree {β : Type} (h : List (β × Option Exception) × Option (Task α))
    (h' : List (β × Option Exception) × Task α) : Prop :=
  ∃ task, h.2 = some task ∧ h.1.length = h'.1.length ∧
    task.ending.await = h'.2.ending.await

theorem agree_iff {β : Type} {t : Task α} {h : List (β × Option Exception) × Option (Task α)}
    {h' : List (β × Option Exception) × Task α} (ht : Transparent t h') :
    Agree h h' ↔ TransparentTask t h := by
  unfold Agree TransparentTask Transparent
  rw [ht.1, ht.2]

/-- If the task faults, then with one exception, and that is no aggregate of one. -/
def Ending.FaultsPlainly : Ending α → Prop
  | faulted _ first rest => rest = [] ∧ ¬first.IsSingleAggregate
  | _ => True

section

variable [Inhabited α] [Inhabited Object]

theorem transparent_valueTask {k : Continuation Object} (hk : k.ReturnsOrThrows) (t : Task Unit) :
    Transparent t (handed t (ValueTaskContinuationGenerator.setContinuation (some k) t none)) := by
  simp only [Transparent, handed, ValueTaskContinuationGenerator.setContinuation,
    ValueTaskContinuationGenerator.innerSetValueTaskContinuation, runWith_async]
  cases ht : t.ending.await with
  | ok r => rcases hk default none with h | ⟨ex, h⟩ <;> simp [ht, h]
  | error e => rcases hk default (some e) with h | ⟨ex, h⟩ <;> simp [ht, h]

theorem transparent_valueTaskOf {k : Continuation α} (hk : k.ReturnsOrThrows) (t : Task α) :
    Transparent t
      (handed t (ValueTaskOfContinuationGenerator.setContinuation (some k) t none)) := by
  simp only [Transparent, handed, ValueTaskOfContinuationGenerator.setContinuation,
    ValueTaskOfContinuationGenerator.innerSetValueTaskContinuation, runWith_async]
  cases ht : t.ending.await with
  | ok r => rcases hk r none with h | ⟨ex, h⟩ <;> simp [ht, h]
  | error e => rcases hk default (some e) with h | ⟨ex, h⟩ <;> simp [ht, h]

/-- The exception a Task generator tells the continuation and rethrows. -/
def Ending.rethrown : Ending α → Option Exception
  | ranToCompletion _ => none
  | faulted id first rest => some (Exception.aggregate id (first :: rest)).getBaseException
  | canceled e => some e

omit [Inhabited α] in
@[simp] theorem runWith_exceptionOf {β : Type} (t : Task α)
    (calls : List (β × Option Exception)) :
    Lib.Throwing.runWith (TaskContinuationGenerator.exceptionOf t) calls =
      (.ok t.ending.rethrown, calls) := by
  unfold TaskContinuationGenerator.exceptionOf
  cases ht : t.ending <;> simp [ht, Ending.rethrown]

theorem TaskContinuationGenerator.runWith_continuationAction {k : Continuation Object}
    (hk : k.ReturnsOrThrows) (t : Task Unit) :
    Lib.Throwing.runWith (continuationAction k t) [] =
      (.ok ⟨match t.ending.rethrown with
        | some e => .ofException e
        | none => .ranToCompletion (), t.isCompleted⟩, [(default, t.ending.rethrown)]) := by
  rw [continuationAction, runWith_async]
  rcases hk default t.ending.rethrown with h | ⟨ex, h⟩ <;>
    cases he : t.ending.rethrown <;> rw [he] at h <;> simp [he, h]

theorem TaskOfContinuationGenerator.runWith_continuationAction {k : Continuation α}
    (t : Task α) {v : α} (hv : v = match t.ending with
      | .ranToCompletion r => r
      | _ => default) :
    Lib.Throwing.runWith (continuationAction k t) [] =
      (.ok ⟨match t.ending.rethrown with
        | some e => .ofException e
        | none => .ranToCompletion ((k v none).toOption.getD default), t.isCompleted⟩,
        [(v, t.ending.rethrown)]) := by
  rw [continuationAction, runWith_async]
  simp only [← hv]
  cases he : t.ending.rethrown with
  | some e => cases h : k v (some e) <;> simp [he, h]
  | none => cases h : k v none <;> simp [he, h, Except.toOption]

theorem transparent_task {k : Continuation Object} (hk : k.ReturnsOrThrows) (t : Task Unit) :
    TransparentTask t
        (handed (some t) (TaskContinuationGenerator.setContinuation (some k) (some t) none)) ↔
      t.ending.FaultsPlainly := by
  have hact := TaskContinuationGenerator.runWith_continuationAction hk t
  obtain ⟨ending, b⟩ := t
  unfold TransparentTask handed TaskContinuationGenerator.setContinuation
  cases ending with
  | ranToCompletion r =>
    cases b with
    | true =>
      -- the continuation runs at once; if it throws, the application keeps its task
      rcases hk default none with h | ⟨ex, h⟩ <;>
        simp [Task.ranToCompletion?, Transparent, Ending.FaultsPlainly, h]
    | false =>
      simp [Task.ranToCompletion?, Transparent, Ending.FaultsPlainly, Ending.rethrown, hact]
  | faulted id first rest =>
    rw [Ending.FaultsPlainly, ← getBaseException_eq_first id]
    simp [Task.ranToCompletion?, Transparent, Ending.rethrown, hact]
  | canceled e =>
    simp [Task.ranToCompletion?, Transparent, Ending.FaultsPlainly, Ending.rethrown, hact]

/-- A result that comes later is not replaced by the default when the continuation throws. -/
def KeepsLateResult (k : Continuation α) (t : Task α) : Prop :=
  ∀ r, t.ending = .ranToCompletion r → t.isCompleted = false →
    (∃ ex, k r none = .error ex) → r = default

theorem transparent_taskOf {k : Continuation α} (hk : k.ReturnsOrThrows) (t : Task α) :
    TransparentTask t
        (handed (some t) (TaskOfContinuationGenerator.setContinuation (some k) (some t) none)) ↔
      t.ending.FaultsPlainly ∧ KeepsLateResult k t := by
  have hact := TaskOfContinuationGenerator.runWith_continuationAction (k := k) t rfl
  obtain ⟨ending, b⟩ := t
  unfold TransparentTask handed TaskOfContinuationGenerator.setContinuation KeepsLateResult
  cases ending with
  | ranToCompletion r =>
    cases b with
    | true =>
      rcases hk r none with h | ⟨ex, h⟩ <;>
        simp [Task.ranToCompletion?, Task.fromResult, Transparent, Ending.FaultsPlainly, h]
    | false =>
      rcases hk r none with h | ⟨ex, h⟩
      · simp [Task.ranToCompletion?, Transparent, Ending.FaultsPlainly, Ending.rethrown, hact, h,
          Except.toOption]
      · simp [Task.ranToCompletion?, Transparent, Ending.FaultsPlainly, Ending.rethrown, hact, h,
          Except.toOption, eq_comm]
  | faulted id first rest =>
    rw [Ending.FaultsPlainly, ← getBaseException_eq_first id]
    simp [Task.ranToCompletion?, Transparent, Ending.rethrown, hact]
  | canceled e =>
    simp [Task.ranToCompletion?, Transparent, Ending.FaultsPlainly, Ending.rethrown, hact]

/-- The ValueTask generators are always transparent. The Task generators are so exactly if a
fault is one plain exception and, with a result, if no late result is lost to a throwing
continuation; then and only then they agree with the ValueTask generators. -/
theorem continuations_transparent (k : Continuation Object) (hk : k.ReturnsOrThrows)
    (l : Continuation α) (hl : l.ReturnsOrThrows) (t : Task Unit) (u : Task α) :
    let valueTask := handed t (ValueTaskContinuationGenerator.setContinuation (some k) t none)
    let valueTaskOf := handed u (ValueTaskOfContinuationGenerator.setContinuation (some l) u none)
    let task := handed (some t)
      (TaskContinuationGenerator.setContinuation (some k) (some t) none)
    let taskOf := handed (some u)
      (TaskOfContinuationGenerator.setContinuation (some l) (some u) none)
    Transparent t valueTask ∧ Transparent u valueTaskOf ∧
    (TransparentTask t task ↔ t.ending.FaultsPlainly) ∧
    (TransparentTask u taskOf ↔ u.ending.FaultsPlainly ∧ KeepsLateResult l u) ∧
    (Agree task valueTask ↔ t.ending.FaultsPlainly) ∧
    (Agree taskOf valueTaskOf ↔ u.ending.FaultsPlainly ∧ KeepsLateResult l u) := by
  have hv := transparent_valueTask hk t
  have hvo := transparent_valueTaskOf hl u
  have ht := transparent_task hk t
  have hto := transparent_taskOf hl u
  exact ⟨hv, hvo, ht, hto, (agree_iff hv).trans ht, (agree_iff hvo).trans hto⟩

/-- A late result 7 and a continuation that throws: a ValueTask keeps the result. -/
theorem continuations_transparent_late_result :
    Transparent (⟨.ranToCompletion 7, false⟩ : Task Nat)
        (handed ⟨.ranToCompletion 7, false⟩ (ValueTaskOfContinuationGenerator.setContinuation
          (some fun _ _ => .error (.other 0)) ⟨.ranToCompletion 7, false⟩ none)) ∧
      Transparent (⟨.canceled (.operationCanceled 1), false⟩ : Task Unit)
        (handed ⟨.canceled (.operationCanceled 1), false⟩
          (ValueTaskContinuationGenerator.setContinuation (some fun v _ => .ok (v : Unit))
            ⟨.canceled (.operationCanceled 1), false⟩ none)) := by
  obtain ⟨h1, h2, -⟩ := continuations_transparent (fun (v : Unit) _ => .ok v)
    (fun _ _ => .inl rfl) (fun (_ : Nat) _ => .error (.other 0)) (fun _ _ => .inr ⟨_, rfl⟩)
    ⟨.canceled (.operationCanceled 1), false⟩ ⟨.ranToCompletion 7, false⟩
  exact ⟨h2, h1⟩

/-- Two exceptions: the application catches the aggregate in place of the first one. -/
theorem task_continuation_changes_exception :
    ¬∀ (k : Continuation Unit) (t : Task Unit), k.ReturnsOrThrows → TransparentTask t
      (handed (some t) (TaskContinuationGenerator.setContinuation (some k) (some t) none)) := by
  intro h
  obtain ⟨task, htask, -, hawait⟩ := h (fun v _ => .ok v)
    ⟨.faulted 0 (.other 1) [.other 2], true⟩ fun _ _ => .inl rfl
  have hact := TaskContinuationGenerator.runWith_continuationAction
    (k := (fun v _ => .ok v : Continuation Unit)) (fun _ _ => .inl rfl) ⟨.faulted 0 (.other 1) [.other 2], true⟩
  simp [handed, TaskContinuationGenerator.setContinuation, Task.ranToCompletion?, hact,
    Ending.rethrown] at htask
  subst htask
  simp [Exception.getBaseException] at hawait

end

end DdTrace.CallTarget
