import DdTrace.Lib.Run
import DdTrace.Rejit.Handler

/-!
# Promises given to the ReJIT worker

`InitializeProfiler` hands a promise to `EnqueueProcessModule` and waits for its value with
`module_id_to_info_map_lock_` held; the worker sets it when it has processed the item. The
other threads are `EnqueueForRejit` from anywhere, `ModuleLoadFinished` as far as it records
modules, and `CorProfiler::Shutdown`, the only caller of `RejitHandler::Shutdown`, which
needs the same lock: so no item with a promise is behind its end item. What is left is the
worker's test for empty vectors, which passes over the promise: every promise is kept exactly
as long as there are modules and integrations to process (`promisesKept_iff`).
-/

namespace DdTrace.Rejit

open Lib

abbrev CallerId := ℕ

/-- `RejitItem`, with the caller that waits for the promise. -/
inductive QueueItem where
  | endRejitThread
  | rejit (methods : List Method)
  | processModule (modules : List ModuleID) (integrations : List IntegrationMethod)
      (promise : Option CallerId)
  deriving DecidableEq

/-- How far `EnqueueThreadLoop` has come. -/
inductive WorkerPc where
  | popping
  | handling (item : QueueItem)
  | exited
  deriving DecidableEq

/-- How far an `InitializeProfiler` call has come. -/
inductive InitializePc where
  | notStarted
  | lockingDefinitions (id : String) (items : Option (List IntegrationMethod))
  /-- Under `definitions_ids_lock_`. -/
  | checking (id : String) (items : Option (List IntegrationMethod))
  | lockingModules (id : String) (integrationMethods : List IntegrationMethod)
  /-- About to call `EnqueueProcessModule`. -/
  | enqueuing (integrationMethods : List IntegrationMethod)
  /-- In `future.get()`. -/
  | waiting (integrationMethods : List IntegrationMethod)
  | appending (integrationMethods : List IntegrationMethod)
  | returned
  deriving DecidableEq

/-- How far `CorProfiler::Shutdown` has come. -/
inductive ShutdownPc where
  | notStarted
  | locking
  /-- About to push the end item. -/
  | ending
  | joining
  /-- About to set `m_shutdown`. -/
  | marking
  /-- About to delete the handler. -/
  | deleting
  | returned
  deriving DecidableEq

inductive ModulesHolder where
  | caller (p : CallerId)
  | shutdown
  deriving DecidableEq

/-- The worker sets the promise of the caller when it handles the item. -/
def QueueItem.Fulfils (item : QueueItem) (p : CallerId) : Prop :=
  ∃ modules integrations, item = .processModule modules integrations (some p) ∧
    modules ≠ [] ∧ integrations ≠ []

/-- The call has `module_id_to_info_map_lock_`. -/
def InitializePc.HoldsModules : InitializePc → Prop
  | .enqueuing _ | .waiting _ | .appending _ => True
  | _ => False

/-- The call is not going to enqueue any more. -/
def InitializePc.PastEnqueue : InitializePc → Prop
  | .waiting _ | .appending _ | .returned => True
  | _ => False

def ShutdownPc.HoldsModules : ShutdownPc → Prop
  | .ending | .joining | .marking | .deleting => True
  | _ => False

/-- `modulesLock` is `module_id_to_info_map_lock_`, `rejitHandler` whether the pointer is set,
`shutdown` its `m_shutdown`. `handed` are the callers that have passed a promise. -/
structure Profiler where
  moduleIds : List ModuleID
  integrationMethods : List IntegrationMethod
  definitionsIds : List String
  definitionsLock : Option CallerId
  modulesLock : Option ModulesHolder
  rejitHandler : Bool
  shutdown : Bool
  queue : List QueueItem
  worker : WorkerPc
  shutdownPc : ShutdownPc
  caller : CallerId → InitializePc
  promise : CallerId → Option ℕ
  handed : List CallerId

namespace Profiler

def init (rejitHandler : Bool) : Profiler where
  moduleIds := []
  integrationMethods := []
  definitionsIds := []
  definitionsLock := none
  modulesLock := none
  rejitHandler
  shutdown := false
  queue := []
  worker := .popping
  shutdownPc := .notStarted
  caller _ := .notStarted
  promise _ := none
  handed := []

def setCaller (s : Profiler) (p : CallerId) (pc : InitializePc) : Profiler :=
  { s with caller := Function.update s.caller p pc }

/-- `promise->set_value`, unless the promise is null. -/
def setValue (s : Profiler) (promise : Option CallerId) (value : ℕ) : Profiler :=
  match promise with
  | none => s
  | some p => { s with promise := Function.update s.promise p (some value) }

def enqueueProcessModule (s : Profiler) (modules : List ModuleID)
    (integrations : List IntegrationMethod) (promise : Option CallerId) : Profiler :=
  if s.shutdown then s.setValue promise 0
  else { s with queue := s.queue ++ [QueueItem.processModule modules integrations promise] }

/-- `EnqueueForRejit`, while there is a handler to call it on. -/
def enqueueForRejit (s : Profiler) (methods : List Method) : Option Profiler :=
  if s.rejitHandler then
    if s.shutdown then some s else some { s with queue := s.queue ++ [.rejit methods] }
  else none

/-- `module_ids_.push_back` of `ModuleLoadFinished`, under the module lock. -/
def moduleLoadFinished (s : Profiler) (m : ModuleID) : Option Profiler :=
  match s.modulesLock with
  | none => some { s with moduleIds := s.moduleIds ++ [m] }
  | some _ => none

/-- `InitializeProfiler` is called. -/
def initializeProfiler (s : Profiler) (p : CallerId) (id : String)
    (items : Option (List IntegrationMethod)) : Option Profiler :=
  match s.caller p with
  | .notStarted => some (s.setCaller p (.lockingDefinitions id items))
  | _ => none

/-- The next step of `InitializeProfiler`. -/
def advance (s : Profiler) (p : CallerId) : Option Profiler :=
  match s.caller p with
  | .lockingDefinitions id items =>
    if s.definitionsLock = none then
      some ({ s with definitionsLock := some p }.setCaller p (.checking id items))
    else none
  | .checking id items =>
    if id ∈ s.definitionsIds then some ({ s with definitionsLock := none }.setCaller p .returned)
    else
      match items, s.rejitHandler with
      | some is, true => some (s.setCaller p (.lockingModules id is))
      | _, _ => some ({ s with definitionsLock := none }.setCaller p .returned)
  | .lockingModules id is =>
    if s.modulesLock = none then
      some ({ s with
          modulesLock := some (.caller p)
          definitionsIds := s.definitionsIds ++ [id] }.setCaller p
        (if s.rejitHandler then .enqueuing is else .appending is))
    else none
  | .enqueuing is =>
    some ({ s.enqueueProcessModule s.moduleIds is (some p) with
      handed := s.handed ++ [p] }.setCaller p (.waiting is))
  | .waiting is => if (s.promise p).isSome then some (s.setCaller p (.appending is)) else none
  | .appending is =>
    some ({ s with
      integrationMethods := s.integrationMethods ++ is
      modulesLock := none
      definitionsLock := none }.setCaller p .returned)
  | .notStarted | .returned => none

/-- The next step of `CorProfiler::Shutdown`. -/
def advanceShutdown (s : Profiler) : Option Profiler :=
  match s.shutdownPc with
  | .notStarted => some { s with shutdownPc := .locking }
  | .locking =>
    if s.modulesLock = none then
      if s.rejitHandler then some { s with modulesLock := some .shutdown, shutdownPc := .ending }
      else some { s with shutdownPc := .returned }
    else none
  | .ending => some { s with queue := s.queue ++ [.endRejitThread], shutdownPc := .joining }
  | .joining => if s.worker = .exited then some { s with shutdownPc := .marking } else none
  | .marking => some { s with shutdown := true, shutdownPc := .deleting }
  | .deleting => some { s with rejitHandler := false, modulesLock := none, shutdownPc := .returned }
  | .returned => none

/-- The next step of `EnqueueThreadLoop`; `rejitCount` is what `ProcessModuleForRejit` answers. -/
def work (s : Profiler) (rejitCount : ℕ) : Option Profiler :=
  match s.worker with
  | .popping =>
    match s.queue with
    | [] => none
    | item :: queue => some { s with queue, worker := .handling item }
  | .handling .endRejitThread => some { s with worker := .exited }
  | .handling (.rejit _) => some { s with worker := .popping }
  | .handling (.processModule modules integrations promise) =>
    let s := { s with worker := .popping }
    if modules.length > 0 ∧ integrations.length > 0 then some (s.setValue promise rejitCount)
    else some s
  | .exited => none

inductive Event where
  | initializeProfiler (p : CallerId) (id : String) (items : Option (List IntegrationMethod))
  | advance (p : CallerId)
  | moduleLoadFinished (m : ModuleID)
  | enqueueForRejit (methods : List Method)
  | shutdown
  | work (rejitCount : ℕ)

def Event.isWork : Event → Bool
  | .work _ => true
  | _ => false

def step (s : Profiler) : Event → Option Profiler
  | .initializeProfiler p id items => s.initializeProfiler p id items
  | .advance p => s.advance p
  | .moduleLoadFinished m => s.moduleLoadFinished m
  | .enqueueForRejit methods => s.enqueueForRejit methods
  | .shutdown => s.advanceShutdown
  | .work rejitCount => s.work rejitCount

/-- The items that the worker has not consumed. -/
def items (s : Profiler) : List QueueItem :=
  match s.worker with
  | .handling item => item :: s.queue
  | _ => s.queue

/-- The item of the caller has not been consumed. -/
def Outstanding (s : Profiler) (p : CallerId) : Prop :=
  ∃ modules integrations, .processModule modules integrations (some p) ∈ s.items

/-- However the run goes on, the worker sets the value within `n` of its steps, and can
step until it has. -/
def Released (s : Profiler) (p : CallerId) : Prop :=
  ∃ n, ∀ events t, Run (stepOf step) s events t →
    (t.promise p).isSome ∨ (∃ c, (t.work c).isSome) ∧ events.countP Event.isWork < n

structure PromisesKept (s : Profiler) : Prop where
  fulfilled : ∀ p ∈ s.handed, ¬ s.Outstanding p ∨ s.worker = .exited → (s.promise p).isSome
  released : ∀ p is, s.caller p = .waiting is → s.Released p

/-- The step does not hand over a promise without modules or without integrations. -/
def HasWork (s : Profiler) : Event → Prop
  | .advance p => ∀ is, s.caller p = .enqueuing is → s.moduleIds ≠ [] ∧ is ≠ []
  | _ => True

variable {s t : Profiler} {p q : CallerId} {event : Event} {c : ℕ} {item : QueueItem}

/-! ## What a step does -/

/-- The worker takes an item, exits, or finishes an item and sets its promise. -/
theorem work_cases (h : s.work c = some t) :
    (∃ item queue, s.worker = .popping ∧ s.queue = item :: queue ∧
      t = { s with queue, worker := .handling item }) ∨
    (s.worker = .handling .endRejitThread ∧ t = { s with worker := .exited }) ∨
    ∃ item promise, s.worker = .handling item ∧ item ≠ .endRejitThread ∧
      t = { s with worker := .popping, promise } ∧
      ∀ p, (promise p).isSome ↔ (s.promise p).isSome ∨ item.Fulfils p := by
  unfold work at h
  split at h
  case h_1 hw =>
    split at h
    · cases h
    · rename_i item queue hq
      exact .inl ⟨item, queue, hw, hq, (Option.some.inj h).symm⟩
  case h_2 hw => exact .inr (.inl ⟨hw, (Option.some.inj h).symm⟩)
  case h_3 methods hw =>
    refine .inr (.inr ⟨_, s.promise, hw, by simp, (Option.some.inj h).symm, fun p => ?_⟩)
    simp [QueueItem.Fulfils]
  case h_4 modules integrations promise hw =>
    simp only [List.length_pos_iff, gt_iff_lt] at h
    split at h
    · rename_i hwork
      obtain rfl := Option.some.inj h
      cases promise with
      | none =>
        refine .inr (.inr ⟨_, s.promise, hw, by simp, rfl, fun p => ?_⟩)
        simp [QueueItem.Fulfils]
      | some q =>
        refine .inr (.inr ⟨_, Function.update s.promise q (some c), hw, by simp, rfl, fun p => ?_⟩)
        by_cases hpq : p = q
        · subst hpq
          simp [QueueItem.Fulfils, hwork]
        · simp [QueueItem.Fulfils, Function.update_of_ne hpq, Ne.symm hpq]
    · rename_i hwork
      obtain rfl := Option.some.inj h
      refine .inr (.inr ⟨_, s.promise, hw, by simp, rfl, fun p => ?_⟩)
      constructor
      · exact .inl
      · rintro (hp | ⟨ms, is, he, hms, his⟩)
        · exact hp
        · cases he
          exact absurd ⟨hms, his⟩ hwork
  case h_5 => cases h

/-- A step of a call enqueues its item, or moves the call and its locks. -/
theorem advance_cases (h : s.advance p = some t) :
    (∃ is, s.caller p = .enqueuing is ∧
      t = { s.enqueueProcessModule s.moduleIds is (some p) with
        handed := s.handed ++ [p] }.setCaller p (.waiting is)) ∨
    ∃ added ids definitionsLock modulesLock pc,
      t = { s with
        integrationMethods := added, definitionsIds := ids, definitionsLock
        modulesLock }.setCaller p pc ∧
      (∀ is, s.caller p = .waiting is → (s.promise p).isSome) ∧ (∀ is, pc ≠ .waiting is) ∧
      ((s.caller p).PastEnqueue → pc.PastEnqueue) ∧
      (∀ is, pc = .enqueuing is → s.rejitHandler = true) ∧
      (modulesLock = s.modulesLock ∧ (pc.HoldsModules → (s.caller p).HoldsModules) ∨
        s.modulesLock = none ∧ modulesLock = some (.caller p) ∨
        (s.caller p).HoldsModules ∧ modulesLock = none ∧ ¬ pc.HoldsModules) := by
  unfold advance at h
  split at h
  case h_4 is hpc => exact .inl ⟨is, hpc, (Option.some.inj h).symm⟩
  case h_1 id items hpc =>
    split at h
    · exact .inr ⟨_, _, _, _, _, (Option.some.inj h).symm, by simp [hpc], by simp,
        by simp [hpc, InitializePc.PastEnqueue], by simp, .inl ⟨rfl, by simp [InitializePc.HoldsModules]⟩⟩
    · cases h
  case h_2 id items hpc =>
    split at h
    · exact .inr ⟨_, _, _, _, _, (Option.some.inj h).symm, by simp [hpc], by simp,
        by simp [hpc, InitializePc.PastEnqueue], by simp, .inl ⟨rfl, by simp [InitializePc.HoldsModules]⟩⟩
    · split at h
      · exact .inr ⟨_, _, _, _, _, (Option.some.inj h).symm, by simp [hpc], by simp,
          by simp [hpc, InitializePc.PastEnqueue], by simp, .inl ⟨rfl, by simp [InitializePc.HoldsModules]⟩⟩
      · exact .inr ⟨_, _, _, _, _, (Option.some.inj h).symm, by simp [hpc], by simp,
          by simp [hpc, InitializePc.PastEnqueue], by simp, .inl ⟨rfl, by simp [InitializePc.HoldsModules]⟩⟩
  case h_3 id is hpc =>
    split at h
    · rename_i hlock
      refine .inr ⟨_, _, _, _, _, (Option.some.inj h).symm, by simp [hpc], ?_,
        by simp [hpc, InitializePc.PastEnqueue], ?_,
        .inr (.inl ⟨hlock, rfl⟩)⟩
      · cases s.rejitHandler <;> simp
      · cases s.rejitHandler <;> simp
    · cases h
  case h_5 is hpc =>
    split at h
    · rename_i hp
      exact .inr ⟨_, _, _, _, _, (Option.some.inj h).symm, fun _ _ => hp, by simp,
        fun _ => trivial, by simp, .inl ⟨rfl, by simp [hpc, InitializePc.HoldsModules]⟩⟩
    · cases h
  case h_6 is hpc =>
    exact .inr ⟨_, _, _, _, _, (Option.some.inj h).symm, by simp [hpc], by simp, fun _ => trivial,
      by simp, .inr (.inr ⟨by simp [hpc, InitializePc.HoldsModules], rfl,
        by simp [InitializePc.HoldsModules]⟩)⟩
  all_goals cases h

/-- `Shutdown` is before its lock, between lock and release, or at its release, which is when
the handler goes. -/
theorem advanceShutdown_cases (h : s.advanceShutdown = some t) :
    (∃ pc, ¬ s.shutdownPc.HoldsModules ∧ ¬ pc.HoldsModules ∧ t = { s with shutdownPc := pc }) ∨
    (∃ modulesLock shutdown new pc, pc.HoldsModules ∧ (∀ x ∈ new, x = .endRejitThread) ∧
      (s.modulesLock = none ∧ modulesLock = some .shutdown ∨
        s.shutdownPc.HoldsModules ∧ modulesLock = s.modulesLock) ∧
      t = { s with modulesLock, shutdown, queue := s.queue ++ new, shutdownPc := pc }) ∨
    ∃ pc, s.shutdownPc.HoldsModules ∧ ¬ pc.HoldsModules ∧
      t = { s with rejitHandler := false, modulesLock := none, shutdownPc := pc } := by
  unfold advanceShutdown at h
  split at h
  case h_1 hpc =>
    exact .inl ⟨.locking, by simp [hpc, ShutdownPc.HoldsModules], by simp [ShutdownPc.HoldsModules],
      (Option.some.inj h).symm⟩
  case h_2 hpc =>
    split at h
    · rename_i hlock
      split at h
      · exact .inr (.inl ⟨_, s.shutdown, [], .ending, trivial, by simp, .inl ⟨hlock, rfl⟩,
          by simpa using h.symm⟩)
      · exact .inl ⟨.returned, by simp [hpc, ShutdownPc.HoldsModules],
          by simp [ShutdownPc.HoldsModules], (Option.some.inj h).symm⟩
    · cases h
  case h_3 hpc =>
    exact .inr (.inl ⟨_, _, [.endRejitThread], .joining, trivial, by simp,
      .inr ⟨by simp [hpc, ShutdownPc.HoldsModules], rfl⟩, (Option.some.inj h).symm⟩)
  case h_4 hpc =>
    split at h
    · exact .inr (.inl ⟨_, s.shutdown, [], .marking, trivial, by simp,
        .inr ⟨by simp [hpc, ShutdownPc.HoldsModules], rfl⟩, by simpa using h.symm⟩)
    · cases h
  case h_5 hpc =>
    exact .inr (.inl ⟨_, true, [], .deleting, trivial, by simp,
      .inr ⟨by simp [hpc, ShutdownPc.HoldsModules], rfl⟩, by simpa using h.symm⟩)
  case h_6 hpc =>
    exact .inr (.inr ⟨.returned, by simp [hpc, ShutdownPc.HoldsModules],
      by simp [ShutdownPc.HoldsModules], (Option.some.inj h).symm⟩)
  case h_7 => cases h

theorem enqueueProcessModule_of_running {ms : List ModuleID} {is : List IntegrationMethod}
    {promise : Option CallerId} (h : s.shutdown = false) :
    s.enqueueProcessModule ms is promise =
      { s with queue := s.queue ++ [QueueItem.processModule ms is promise] } := by
  unfold enqueueProcessModule
  rw [if_neg (Bool.eq_false_iff.1 h)]

theorem enqueueProcessModule_of_shutdown {ms : List ModuleID} {is : List IntegrationMethod}
    (h : s.shutdown = true) :
    s.enqueueProcessModule ms is (some p) =
      { s with promise := Function.update s.promise p (some 0) } := by
  unfold enqueueProcessModule
  rw [if_pos h]
  rfl

@[simp] theorem setCaller_caller_self {pc : InitializePc} : (s.setCaller p pc).caller p = pc :=
  Function.update_self ..

@[simp] theorem setCaller_caller_of_ne {pc : InitializePc} (h : q ≠ p) :
    (s.setCaller p pc).caller q = s.caller q :=
  Function.update_of_ne h ..

/-- What a step leaves that is neither the worker's nor a call that enqueues. -/
structure Move (s t : Profiler) (new : List QueueItem) : Prop where
  worker : t.worker = s.worker
  queue : t.queue = s.queue ++ new
  fulfils : ∀ item ∈ new, ∀ p, ¬ item.Fulfils p
  promise : t.promise = s.promise
  handed : t.handed = s.handed
  waits : ∀ p is, s.caller p = .waiting is → (s.promise p).isSome ∨ t.caller p = .waiting is
  waited : ∀ p is, t.caller p = .waiting is → s.caller p = .waiting is
  past : ∀ p, (s.caller p).PastEnqueue → (t.caller p).PastEnqueue

/-- A step that leaves the calls alone. -/
theorem Move.of_caller {new : List QueueItem} (hw : t.worker = s.worker)
    (hq : t.queue = s.queue ++ new) (hnew : ∀ item ∈ new, ∀ p, ¬ item.Fulfils p)
    (hp : t.promise = s.promise) (hh : t.handed = s.handed) (hc : t.caller = s.caller) :
    Move s t new where
  worker := hw
  queue := hq
  fulfils := hnew
  promise := hp
  handed := hh
  waits p is h := .inr (by rwa [hc])
  waited p is h := by rwa [← hc]
  past p h := by rwa [hc]

/-- A step of a call that leaves the queue alone. -/
theorem Move.of_setCaller {pc : InitializePc} (hw : t.worker = s.worker) (hq : t.queue = s.queue)
    (hp : t.promise = s.promise) (hh : t.handed = s.handed)
    (hc : t.caller = Function.update s.caller p pc)
    (hleave : ∀ is, s.caller p = .waiting is → (s.promise p).isSome)
    (hwait : ∀ is, pc ≠ .waiting is) (hpast : (s.caller p).PastEnqueue → pc.PastEnqueue) :
    Move s t [] where
  worker := hw
  queue := hq.trans (List.append_nil _).symm
  fulfils _ h := by cases h
  promise := hp
  handed := hh
  waits q is h := by
    by_cases hqp : q = p
    · subst hqp
      exact .inl (hleave is h)
    · exact .inr (by rwa [hc, Function.update_of_ne hqp])
  waited q is h := by
    rw [hc] at h
    by_cases hqp : q = p
    · subst hqp
      rw [Function.update_self] at h
      exact absurd h (hwait is)
    · rwa [Function.update_of_ne hqp] at h
  past q h := by
    rw [hc]
    by_cases hqp : q = p
    · subst hqp
      rw [Function.update_self]
      exact hpast h
    · rwa [Function.update_of_ne hqp]

theorem not_fulfils_end : ¬ QueueItem.Fulfils .endRejitThread p := by
  rintro ⟨_, _, h, -⟩
  cases h

theorem not_fulfils_rejit {methods : List Method} : ¬ QueueItem.Fulfils (.rejit methods) p := by
  rintro ⟨_, _, h, -⟩
  cases h

/-- A step that is not the worker's enqueues a promise, or moves. -/
theorem step_cases (h : s.step event = some t) (he : event.isWork = false) :
    (∃ p is, event = .advance p ∧ s.caller p = .enqueuing is) ∨ ∃ new, Move s t new := by
  cases event with
  | work => cases he
  | initializeProfiler p id items =>
    simp only [step, initializeProfiler] at h
    split at h
    · rename_i hpc
      obtain rfl := Option.some.inj h
      exact .inr ⟨[], .of_setCaller rfl rfl rfl rfl rfl (by simp [hpc]) (by simp)
        (by simp [hpc, InitializePc.PastEnqueue])⟩
    · cases h
  | advance p =>
    rcases advance_cases h with ⟨is, hpc, -⟩ | ⟨_, _, _, _, pc, rfl, hleave, hwait, hpast, -⟩
    · exact .inl ⟨p, is, rfl, hpc⟩
    · exact .inr ⟨[], .of_setCaller rfl rfl rfl rfl rfl hleave hwait hpast⟩
  | moduleLoadFinished m =>
    simp only [step, moduleLoadFinished] at h
    split at h
    · obtain rfl := Option.some.inj h
      exact .inr ⟨[], .of_caller rfl (List.append_nil _).symm (by simp) rfl rfl rfl⟩
    · cases h
  | enqueueForRejit methods =>
    simp only [step, enqueueForRejit] at h
    split at h
    · split at h
      all_goals obtain rfl := Option.some.inj h
      · exact .inr ⟨[], .of_caller rfl (List.append_nil _).symm (by simp) rfl rfl rfl⟩
      · refine .inr ⟨_, .of_caller rfl rfl (fun item hi p => ?_) rfl rfl rfl⟩
        rw [List.mem_singleton.1 hi]
        exact not_fulfils_rejit
    · cases h
  | shutdown =>
    rcases advanceShutdown_cases h with ⟨_, -, -, rfl⟩ | ⟨_, _, new, _, -, hnew, -, rfl⟩ |
      ⟨_, -, -, rfl⟩
    · exact .inr ⟨[], .of_caller rfl (List.append_nil _).symm (by simp) rfl rfl rfl⟩
    · refine .inr ⟨new, .of_caller rfl rfl (fun item hi p => ?_) rfl rfl rfl⟩
      rw [hnew item hi]
      exact not_fulfils_end
    · exact .inr ⟨[], .of_caller rfl (List.append_nil _).symm (by simp) rfl rfl rfl⟩

/-- A call that enqueues sets its promise if the handler is shut down, or leaves its item. -/
theorem enqueue_eq_some {is : List IntegrationMethod} (hpc : s.caller p = .enqueuing is)
    (h : s.step (.advance p) = some t) :
    s.shutdown = true ∧ t = { s with
      promise := Function.update s.promise p (some 0)
      handed := s.handed ++ [p] }.setCaller p (.waiting is) ∨
    s.shutdown = false ∧ t = { s with
      queue := s.queue ++ [QueueItem.processModule s.moduleIds is (some p)]
      handed := s.handed ++ [p] }.setCaller p (.waiting is) := by
  simp only [step, advance, hpc] at h
  rcases Bool.eq_false_or_eq_true s.shutdown with hsd | hsd
  · rw [enqueueProcessModule_of_shutdown hsd] at h
    exact .inl ⟨hsd, (Option.some.inj h).symm⟩
  · rw [enqueueProcessModule_of_running hsd] at h
    exact .inr ⟨hsd, (Option.some.inj h).symm⟩

/-- A step that is not the worker's leaves the items in the queue, and the values that are set. -/
theorem step_keeps (h : s.step event = some t) (he : event.isWork = false) :
    t.worker = s.worker ∧ (∃ new, t.queue = s.queue ++ new) ∧
      ∀ p, (s.promise p).isSome → (t.promise p).isSome := by
  rcases step_cases h he with ⟨p, is, rfl, hpc⟩ | ⟨new, hm⟩
  · rcases enqueue_eq_some hpc h with ⟨-, rfl⟩ | ⟨-, rfl⟩
    · refine ⟨rfl, ⟨[], (List.append_nil _).symm⟩, fun q hq => ?_⟩
      by_cases hqp : q = p
      · subst hqp
        simp [setCaller]
      · simpa [setCaller, Function.update_of_ne hqp] using hq
    · exact ⟨rfl, ⟨_, rfl⟩, fun _ => id⟩
  · exact ⟨hm.worker, ⟨new, hm.queue⟩, fun p hp => by rwa [hm.promise]⟩

/-! ## An item with work is handled -/

/-- The worker comes to the item of `p` and sets its promise within `n` of its steps. -/
def Reaches (s : Profiler) (p : CallerId) (n : ℕ) : Prop :=
  ∃ ahead item behind, s.items = ahead ++ item :: behind ∧ item.Fulfils p ∧
    .endRejitThread ∉ ahead ∧ s.worker ≠ .exited ∧
    n = 2 * ahead.length + if s.worker = .popping then 2 else 1

theorem items_of_popping (h : s.worker = .popping) : s.items = s.queue := by
  simp only [items, h]

theorem items_of_handling (h : s.worker = .handling item) : s.items = item :: s.queue := by
  simp only [items, h]

theorem items_append {new : List QueueItem} (hw : t.worker = s.worker)
    (hq : t.queue = s.queue ++ new) : t.items = s.items ++ new := by
  unfold items
  rw [hw, hq]
  split
  · rfl
  · rfl

theorem items_enqueue {handed : List CallerId} {pc : InitializePc} :
    ({ s with queue := s.queue ++ [item], handed }.setCaller p pc).items = s.items ++ [item] :=
  items_append rfl rfl

theorem Reaches.of_not_isWork {n : ℕ} (hr : s.Reaches p n) (h : s.step event = some t)
    (he : event.isWork = false) : t.Reaches p n := by
  obtain ⟨ahead, item, behind, hitems, hf, hend, hexit, hn⟩ := hr
  obtain ⟨hw, ⟨new, hq⟩, -⟩ := step_keeps h he
  refine ⟨ahead, item, behind ++ new, ?_, hf, hend, hw ▸ hexit, hw ▸ hn⟩
  rw [items_append hw hq, hitems]
  simp

theorem Reaches.work {n : ℕ} (hr : s.Reaches p n) (h : s.work c = some t) :
    (t.promise p).isSome ∨ ∃ m, n = m + 1 ∧ t.Reaches p m := by
  obtain ⟨ahead, item, behind, hitems, hf, hend, hexit, rfl⟩ := hr
  rcases work_cases h with ⟨x, queue, hw, hq, rfl⟩ | ⟨hw, rfl⟩ | ⟨x, promise, hw, -, rfl, hset⟩
  · -- the item goes to the worker, and is still the next
    rw [items_of_popping hw, hq] at hitems
    refine .inr ⟨2 * ahead.length + 1, by simp [hw], ahead, item, behind, ?_, hf, hend, ?_, ?_⟩
    · exact (items_of_handling rfl).trans hitems
    · simp
    · simp
  · rw [items_of_handling hw] at hitems
    cases ahead with
    | nil =>
      obtain ⟨ms, is, rfl, -⟩ := hf
      cases (List.cons_eq_cons.1 hitems).1
    | cons y ahead =>
      obtain ⟨rfl, -⟩ := List.cons_eq_cons.1 hitems
      exact absurd (.head _) hend
  · rw [items_of_handling hw] at hitems
    cases ahead with
    | nil =>
      obtain ⟨rfl, -⟩ := List.cons_eq_cons.1 hitems
      exact .inl ((hset p).2 (.inr hf))
    | cons y ahead =>
      obtain ⟨rfl, hq⟩ := List.cons_eq_cons.1 hitems
      refine .inr ⟨2 * ahead.length + 2, ?_, ahead, item, behind, ?_, hf, ?_, ?_, ?_⟩
      · simp [hw]
        omega
      · exact (items_of_popping rfl).trans hq
      · exact fun hm => hend (.tail _ hm)
      · simp
      · simp

theorem Reaches.can_work {n : ℕ} (hr : s.Reaches p n) : (s.work c).isSome := by
  obtain ⟨ahead, item, behind, hitems, -, -, hexit, -⟩ := hr
  unfold Profiler.work
  split
  case h_1 hw =>
    rw [items_of_popping hw] at hitems
    split
    · rename_i hq
      simp [hq] at hitems
    · rfl
  case h_4 => split <;> rfl
  case h_5 he => exact absurd he hexit
  all_goals rfl

theorem promise_isSome_step (h : s.step event = some t) (hp : (s.promise p).isSome) :
    (t.promise p).isSome := by
  cases he : event.isWork with
  | false => exact (step_keeps h he).2.2 p hp
  | true =>
    cases event with
    | work c =>
      rcases work_cases h with ⟨_, _, -, -, rfl⟩ | ⟨-, rfl⟩ | ⟨_, promise, -, -, rfl, hset⟩
      · exact hp
      · exact hp
      · exact (hset p).2 (.inl hp)
    | _ => cases he

theorem promise_isSome_run {events : List Event} (h : Run (stepOf step) s events t)
    (hp : (s.promise p).isSome) : (t.promise p).isSome := by
  induction h with
  | nil => exact hp
  | cons hstep _ ih => exact ih (promise_isSome_step hstep hp)

/-- Each step of the worker brings the item nearer, until the promise is set. -/
theorem Reaches.run {n : ℕ} {events : List Event} (hr : s.Reaches p n)
    (h : Run (stepOf step) s events t) :
    (t.promise p).isSome ∨ ∃ m, t.Reaches p m ∧ m + events.countP Event.isWork = n := by
  induction h generalizing n with
  | nil s => exact .inr ⟨n, hr, rfl⟩
  | @cons s u t event events hstep hrun ih =>
    cases he : event.isWork with
    | false =>
      rw [List.countP_cons_of_neg (by simp [he])]
      exact ih (hr.of_not_isWork hstep he)
    | true =>
      obtain ⟨c, rfl⟩ : ∃ c, event = .work c := by
        cases event with
        | work c => exact ⟨c, rfl⟩
        | _ => cases he
      rcases hr.work hstep with hp | ⟨m, rfl, hu⟩
      · exact .inl (promise_isSome_run hrun hp)
      · rw [List.countP_cons_of_pos he]
        refine (ih hu).imp_right ?_
        rintro ⟨k, hk, hcount⟩
        exact ⟨k, hk, by omega⟩

theorem Reaches.released {n : ℕ} (hr : s.Reaches p n) : s.Released p := by
  refine ⟨n, fun events t h => (hr.run h).imp_right ?_⟩
  rintro ⟨m, hm, rfl⟩
  have hpos : 0 < m := by
    obtain ⟨_, _, _, -, -, -, -, hm⟩ := hm
    split at hm <;> omega
  exact ⟨⟨0, hm.can_work⟩, by omega⟩

/-! ## The lock keeps the end item behind the promises -/

/-- The handler has got its end item. -/
def Ending (s : Profiler) : Prop :=
  .endRejitThread ∈ s.items ∨ s.worker = .exited ∨ s.shutdown = true

structure LockInv (s : Profiler) : Prop where
  caller : ∀ p, (s.caller p).HoldsModules → s.modulesLock = some (.caller p)
  shutdown : s.shutdownPc.HoldsModules → s.modulesLock = some .shutdown
  alive : ∀ p is, s.caller p = .enqueuing is ∨ s.caller p = .waiting is → s.rejitHandler = true
  ending : s.Ending → s.shutdownPc.HoldsModules ∨ s.rejitHandler = false

theorem lockInv_init (rejitHandler : Bool) : LockInv (init rejitHandler) where
  caller _ h := h.elim
  shutdown h := h.elim
  alive _ _ h := by rcases h with h | h <;> cases h
  ending h := by rcases h with h | h | h <;> cases h

theorem holdsModules_of_waiting {pc : InitializePc} {is : List IntegrationMethod}
    (h : pc = .enqueuing is ∨ pc = .waiting is) : pc.HoldsModules := by
  rcases h with rfl | rfl
  · trivial
  · trivial

/-- While a call is about to enqueue or waits, the handler is not being shut down. -/
theorem LockInv.not_ending {is : List IntegrationMethod} (h : s.LockInv)
    (hp : s.caller p = .enqueuing is ∨ s.caller p = .waiting is) : ¬ s.Ending := by
  intro he
  rcases h.ending he with hs | hs
  · have := (h.caller p (holdsModules_of_waiting hp)).symm.trans (h.shutdown hs)
    cases this
  · rw [h.alive p is hp] at hs
    cases hs

theorem Ending.of_append {new : List QueueItem} (he : t.Ending) (hw : t.worker = s.worker)
    (hq : t.queue = s.queue ++ new) (hnew : .endRejitThread ∉ new)
    (hsd : t.shutdown = s.shutdown) : s.Ending := by
  unfold Ending at he
  rw [hw, hsd, items_append hw hq] at he
  exact he.imp_left fun hmem => (List.mem_append.1 hmem).resolve_right hnew

/-- A step of a call, with the locks it takes or releases. -/
theorem LockInv.call {pc : InitializePc} (h : s.LockInv)
    (hc : t.caller = Function.update s.caller p pc) (hsp : t.shutdownPc = s.shutdownPc)
    (hrej : t.rejitHandler = s.rejitHandler) (hend : t.Ending → s.Ending)
    (halive : ∀ is, pc = .enqueuing is ∨ pc = .waiting is → s.rejitHandler = true)
    (hlock : t.modulesLock = s.modulesLock ∧ (pc.HoldsModules → (s.caller p).HoldsModules) ∨
      s.modulesLock = none ∧ t.modulesLock = some (.caller p) ∨
      (s.caller p).HoldsModules ∧ t.modulesLock = none ∧ ¬ pc.HoldsModules) : t.LockInv := by
  -- whoever else has the lock keeps it
  have hother : ∀ x, x ≠ .caller p → s.modulesLock = some x → t.modulesLock = some x := by
    intro x hx hsx
    rcases hlock with ⟨hl, -⟩ | ⟨hnone, -⟩ | ⟨hp, -⟩
    · exact hl.trans hsx
    · rw [hsx] at hnone
      cases hnone
    · exact absurd (Option.some.inj (hsx.symm.trans (h.caller p hp))) hx
  refine ⟨fun q hq => ?_, fun hs => ?_, fun q is hq => ?_, fun he => ?_⟩
  · rw [hc] at hq
    by_cases hqp : q = p
    · subst hqp
      rw [Function.update_self] at hq
      rcases hlock with ⟨hl, hhold⟩ | ⟨-, hl⟩ | ⟨-, -, hnot⟩
      · exact hl.trans (h.caller q (hhold hq))
      · exact hl
      · exact absurd hq hnot
    · rw [Function.update_of_ne hqp] at hq
      exact hother _ (by simpa using hqp) (h.caller q hq)
  · exact hother _ (by simp) (h.shutdown (hsp ▸ hs))
  · rw [hrej]
    rw [hc] at hq
    by_cases hqp : q = p
    · subst hqp
      rw [Function.update_self] at hq
      exact halive is hq
    · rw [Function.update_of_ne hqp] at hq
      exact h.alive q is hq
  · rw [hsp, hrej]
    exact h.ending (hend he)

theorem LockInv.advance (h : s.LockInv) (hs : s.advance p = some t) : t.LockInv := by
  rcases advance_cases hs with ⟨is, hpc, -⟩ | ⟨_, _, _, _, pc, rfl, -, hwait, -, henq, hlock⟩
  · have hrej := h.alive p is (.inl hpc)
    have hhold : (s.caller p).HoldsModules := holdsModules_of_waiting (.inl hpc)
    rcases enqueue_eq_some hpc hs with ⟨-, rfl⟩ | ⟨-, rfl⟩
    · exact h.call rfl rfl rfl id (fun _ _ => hrej) (.inl ⟨rfl, fun _ => hhold⟩)
    · exact h.call rfl rfl rfl (fun he => he.of_append rfl rfl (by simp) rfl) (fun _ _ => hrej)
        (.inl ⟨rfl, fun _ => hhold⟩)
  · exact h.call rfl rfl rfl id (fun is hpc => henq is (hpc.resolve_right (hwait is))) hlock

theorem LockInv.shutdownStep (h : s.LockInv) (hs : s.advanceShutdown = some t) : t.LockInv := by
  rcases advanceShutdown_cases hs with ⟨pc, hnot, hpc, rfl⟩ |
    ⟨lock, b, new, pc, hpc, hnew, hlock, rfl⟩ | ⟨pc, hhold, hpc, rfl⟩
  · refine ⟨h.caller, fun hp => absurd hp hpc, h.alive, fun he => ?_⟩
    exact .inr ((h.ending he).resolve_left hnot)
  · refine ⟨fun p hp => ?_, fun _ => ?_, h.alive, fun _ => .inl hpc⟩
    · rcases hlock with ⟨hnone, -⟩ | ⟨-, rfl⟩
      · rw [h.caller p hp] at hnone
        cases hnone
      · exact h.caller p hp
    · rcases hlock with ⟨-, rfl⟩ | ⟨hhold, rfl⟩
      · rfl
      · exact h.shutdown hhold
  · have hfree : ∀ p, ¬ (s.caller p).HoldsModules := by
      intro p hp
      have := (h.caller p hp).symm.trans (h.shutdown hhold)
      cases this
    exact ⟨fun p hp => absurd hp (hfree p), fun hp => absurd hp hpc,
      fun p is hp => absurd (holdsModules_of_waiting hp) (hfree p), fun _ => .inr rfl⟩

theorem LockInv.work (h : s.LockInv) (hs : s.work c = some t) : t.LockInv := by
  rcases work_cases hs with ⟨x, queue, hw, hq, rfl⟩ | ⟨hw, rfl⟩ | ⟨x, promise, hw, -, rfl, -⟩
  · refine ⟨h.caller, h.shutdown, h.alive, fun he => h.ending ?_⟩
    rcases he with he | he | he
    · left
      rwa [items_of_popping hw, hq]
    · cases he
    · exact .inr (.inr he)
  · have hend : .endRejitThread ∈ s.items := by
      rw [items_of_handling hw]
      exact .head _
    exact ⟨h.caller, h.shutdown, h.alive, fun _ => h.ending (.inl hend)⟩
  · refine ⟨h.caller, h.shutdown, h.alive, fun he => h.ending ?_⟩
    rcases he with he | he | he
    · left
      rw [items_of_handling hw]
      exact .tail _ he
    · cases he
    · exact .inr (.inr he)

theorem LockInv.step (h : s.LockInv) (hs : s.step event = some t) : t.LockInv := by
  cases event with
  | work c => exact h.work hs
  | shutdown => exact h.shutdownStep hs
  | advance p => exact h.advance hs
  | initializeProfiler p id items =>
    simp only [Profiler.step, initializeProfiler] at hs
    split at hs
    · obtain rfl := Option.some.inj hs
      exact h.call rfl rfl rfl (fun he => he) (by simp) (.inl ⟨rfl, fun hp => hp.elim⟩)
    · cases hs
  | moduleLoadFinished m =>
    simp only [Profiler.step, moduleLoadFinished] at hs
    split at hs
    · obtain rfl := Option.some.inj hs
      exact ⟨h.caller, h.shutdown, h.alive, h.ending⟩
    · cases hs
  | enqueueForRejit methods =>
    simp only [Profiler.step, enqueueForRejit] at hs
    split at hs
    · split at hs
      all_goals obtain rfl := Option.some.inj hs
      · exact h
      · exact ⟨h.caller, h.shutdown, h.alive,
          fun he => h.ending (he.of_append rfl rfl (by simp) rfl)⟩
    · cases hs

/-! ## Promises that are handed over -/

/-- The promise is set, or its caller waits and its item has work. -/
def Kept (s : Profiler) (p : CallerId) : Prop :=
  (s.promise p).isSome ∨ (∃ is, s.caller p = .waiting is) ∧ ∃ item ∈ s.items, item.Fulfils p

structure PromiseInv (s : Profiler) : Prop where
  kept : ∀ p ∈ s.handed, s.Kept p
  waiting : ∀ p is, s.caller p = .waiting is → p ∈ s.handed
  past : ∀ p ∈ s.handed, (s.caller p).PastEnqueue
  unhanded : ∀ p, p ∉ s.handed → s.promise p = none ∧ ∀ item ∈ s.items, ¬ item.Fulfils p

theorem promiseInv_init (rejitHandler : Bool) : PromiseInv (init rejitHandler) where
  kept _ h := by cases h
  waiting _ _ h := by cases h
  past _ h := by cases h
  unhanded _ _ := ⟨rfl, fun _ h => by cases h⟩

theorem Move.kept {new : List QueueItem} (h : Move s t new) (hp : s.Kept p) : t.Kept p := by
  rcases hp with hp | ⟨⟨is, hpc⟩, item, hmem, hf⟩
  · exact .inl (by rwa [h.promise])
  · rcases h.waits p is hpc with hp | hpc
    · exact .inl (by rwa [h.promise])
    · refine .inr ⟨⟨is, hpc⟩, item, ?_, hf⟩
      rw [items_append h.worker h.queue]
      exact List.mem_append_left _ hmem

theorem PromiseInv.move {new : List QueueItem} (h : s.PromiseInv) (hm : Move s t new) :
    t.PromiseInv where
  kept p hp := hm.kept (h.kept p (hm.handed ▸ hp))
  waiting p is hp := hm.handed ▸ h.waiting p is (hm.waited p is hp)
  past p hp := hm.past p (h.past p (hm.handed ▸ hp))
  unhanded p hp := by
    obtain ⟨hnone, hi⟩ := h.unhanded p (hm.handed ▸ hp)
    refine ⟨by rwa [hm.promise], fun item hmem => ?_⟩
    rw [items_append hm.worker hm.queue] at hmem
    rcases List.mem_append.1 hmem with hmem | hmem
    · exact hi item hmem
    · exact hm.fulfils item hmem p

theorem PromiseInv.work (h : s.PromiseInv) (hs : s.work c = some t)
    (hexit : ∀ p is, s.caller p = .waiting is → .endRejitThread ∉ s.items) : t.PromiseInv := by
  rcases work_cases hs with ⟨x, queue, hw, hq, rfl⟩ | ⟨hw, rfl⟩ | ⟨x, promise, hw, hx, rfl, hset⟩
  · have hitems : s.items = x :: queue := by rw [items_of_popping hw, hq]
    refine ⟨fun p hp => ?_, h.waiting, h.past, fun p hp => ?_⟩
    · have := h.kept p hp
      unfold Kept at this
      rwa [hitems] at this
    · have := h.unhanded p hp
      rwa [hitems] at this
  · have hitems := items_of_handling hw
    refine ⟨fun p hp => ?_, h.waiting, h.past, fun p hp => ?_⟩
    · rcases h.kept p hp with hp | ⟨⟨is, hpc⟩, -⟩
      · exact .inl hp
      · refine absurd ?_ (hexit p is hpc)
        rw [hitems]
        exact .head _
    · obtain ⟨hnone, hi⟩ := h.unhanded p hp
      rw [hitems] at hi
      exact ⟨hnone, fun item hmem => hi item (.tail _ hmem)⟩
  · have hitems := items_of_handling hw
    refine ⟨fun p hp => ?_, h.waiting, h.past, fun p hp => ?_⟩
    · rcases h.kept p hp with hp | ⟨hpc, item, hmem, hf⟩
      · exact .inl ((hset p).2 (.inl hp))
      · rw [hitems] at hmem
        rcases List.mem_cons.1 hmem with rfl | hmem
        · exact .inl ((hset p).2 (.inr hf))
        · exact .inr ⟨hpc, item, hmem, hf⟩
    · obtain ⟨hnone, hi⟩ := h.unhanded p hp
      rw [hitems] at hi
      refine ⟨?_, fun item hmem => hi item (.tail _ hmem)⟩
      rw [← Option.not_isSome_iff_eq_none, hset p, hnone]
      rintro (hp | hf)
      · cases hp
      · exact hi x (.head _) hf

/-- A call enqueues an item, with work or without. -/
theorem PromiseInv.enqueue {is : List IntegrationMethod} (h : s.PromiseInv)
    (ht : t = { s with
      queue := s.queue ++ [QueueItem.processModule s.moduleIds is (some p)]
      handed := s.handed ++ [p] }.setCaller p (.waiting is)) (hwork : s.moduleIds ≠ [] ∧ is ≠ []) :
    t.PromiseInv := by
  have hitems : t.items = s.items ++ [QueueItem.processModule s.moduleIds is (some p)] :=
    ht ▸ items_enqueue
  have hself : t.caller p = .waiting is := by rw [ht, setCaller_caller_self]
  have hne : ∀ q, q ≠ p → t.caller q = s.caller q := by
    intro q hq
    rw [ht, setCaller_caller_of_ne hq]
  have hhanded : ∀ q, q ∈ t.handed ↔ q ∈ s.handed ∨ q = p := by
    intro q
    rw [ht]
    simp [setCaller]
  have hpromise : t.promise = s.promise := by rw [ht]; rfl
  refine ⟨fun q hq => ?_, fun q js hq => ?_, fun q hq => ?_, fun q hq => ?_⟩
  · by_cases hqp : q = p
    · subst hqp
      refine .inr ⟨⟨is, hself⟩, _, ?_, _, _, rfl, hwork⟩
      rw [hitems]
      exact List.mem_append_right _ (.head _)
    · have hq := ((hhanded q).1 hq).resolve_right hqp
      unfold Kept
      rw [hpromise, hne q hqp, hitems]
      refine (h.kept q hq).imp_right fun ⟨hpc, item, hmem, hf⟩ => ⟨hpc, item, ?_, hf⟩
      exact List.mem_append_left _ hmem
  · rw [hhanded]
    by_cases hqp : q = p
    · exact .inr hqp
    · rw [hne q hqp] at hq
      exact .inl (h.waiting q js hq)
  · by_cases hqp : q = p
    · subst hqp
      rw [hself]
      trivial
    · rw [hne q hqp]
      exact h.past q (((hhanded q).1 hq).resolve_right hqp)
  · rw [hhanded] at hq
    have hqp : q ≠ p := fun he => hq (.inr he)
    obtain ⟨hnone, hi⟩ := h.unhanded q fun he => hq (.inl he)
    refine ⟨by rwa [hpromise], fun item hmem => ?_⟩
    rw [hitems] at hmem
    rcases List.mem_append.1 hmem with hmem | hmem
    · exact hi item hmem
    · rintro ⟨ms, js, he, -⟩
      rw [List.mem_singleton.1 hmem] at he
      cases he
      exact hqp rfl

structure Inv (s : Profiler) : Prop where
  lock : s.LockInv
  promise : s.PromiseInv

theorem inv_init (rejitHandler : Bool) : Inv (init rejitHandler) :=
  ⟨lockInv_init rejitHandler, promiseInv_init rejitHandler⟩

theorem Inv.step (h : s.Inv) (hwork : s.HasWork event) (hs : s.step event = some t) : t.Inv := by
  refine ⟨h.lock.step hs, ?_⟩
  cases he : event.isWork with
  | true =>
    cases event with
    | work c => exact h.promise.work hs fun p is hp hend => h.lock.not_ending (.inr hp) (.inl hend)
    | _ => cases he
  | false =>
    rcases step_cases hs he with ⟨p, is, rfl, hpc⟩ | ⟨new, hm⟩
    · rcases enqueue_eq_some hpc hs with ⟨hsd, -⟩ | ⟨-, ht⟩
      · exact absurd (.inr (.inr hsd)) (h.lock.not_ending (.inl hpc))
      · exact h.promise.enqueue ht (hwork is hpc)
    · exact h.promise.move hm

theorem Inv.reaches {is : List IntegrationMethod} (h : s.Inv) (hp : s.caller p = .waiting is)
    (hi : ∃ item ∈ s.items, item.Fulfils p) : ∃ n, s.Reaches p n := by
  obtain ⟨item, hmem, hf⟩ := hi
  obtain ⟨ahead, behind, hitems⟩ := List.append_of_mem hmem
  have hend := h.lock.not_ending (.inr hp)
  refine ⟨_, ahead, item, behind, hitems, hf, fun he => hend (.inl ?_),
    fun he => hend (.inr (.inl he)), rfl⟩
  rw [hitems]
  exact List.mem_append_left _ he

theorem Inv.promisesKept (h : s.Inv) : s.PromisesKept where
  fulfilled p hp hdone := by
    rcases h.promise.kept p hp with hset | ⟨⟨is, hpc⟩, item, hmem, hf⟩
    · exact hset
    · rcases hdone with hout | hexit
      · obtain ⟨ms, is, rfl, -⟩ := hf
        exact absurd ⟨ms, is, hmem⟩ hout
      · exact absurd (.inr (.inl hexit)) (h.lock.not_ending (.inr hpc))
  released p is hpc := by
    rcases h.promise.kept p (h.promise.waiting p is hpc) with hset | ⟨-, hi⟩
    · exact ⟨0, fun events t hrun => .inl (promise_isSome_run hrun hset)⟩
    · obtain ⟨n, hr⟩ := h.reaches hpc hi
      exact hr.released

/-! ## An item without work is passed over -/

/-- The caller waits, and no item is going to set its promise. -/
structure Doomed (s : Profiler) (p : CallerId) : Prop where
  waiting : ∃ is, s.caller p = .waiting is
  promise : s.promise p = none
  items : ∀ item ∈ s.items, ¬ item.Fulfils p

theorem Doomed.work (h : s.Doomed p) (hs : s.work c = some t) : t.Doomed p := by
  obtain ⟨hpc, hpr, hi⟩ := h
  rcases work_cases hs with ⟨x, queue, hw, hq, rfl⟩ | ⟨hw, rfl⟩ | ⟨x, promise, hw, -, rfl, hset⟩
  · rw [items_of_popping hw, hq] at hi
    exact ⟨hpc, hpr, hi⟩
  · rw [items_of_handling hw] at hi
    exact ⟨hpc, hpr, fun item hmem => hi item (.tail _ hmem)⟩
  · rw [items_of_handling hw] at hi
    refine ⟨hpc, ?_, fun item hmem => hi item (.tail _ hmem)⟩
    rw [← Option.not_isSome_iff_eq_none, hset p, hpr]
    rintro (hp | hf)
    · cases hp
    · exact hi x (.head _) hf

theorem Doomed.enqueue {is : List IntegrationMethod} (h : s.Doomed p)
    (hpc : s.caller q = .enqueuing is) (hs : s.step (.advance q) = some t) : t.Doomed p := by
  obtain ⟨⟨js, hjs⟩, hpr, hi⟩ := h
  have hpq : p ≠ q := by
    rintro rfl
    rw [hjs] at hpc
    cases hpc
  rcases enqueue_eq_some hpc hs with ⟨-, rfl⟩ | ⟨-, rfl⟩
  · exact ⟨⟨js, (setCaller_caller_of_ne hpq).trans hjs⟩, (Function.update_of_ne hpq ..).trans hpr, hi⟩
  · refine ⟨⟨js, (setCaller_caller_of_ne hpq).trans hjs⟩, hpr, fun item hmem => ?_⟩
    rw [items_enqueue] at hmem
    rcases List.mem_append.1 hmem with hmem | hmem
    · exact hi item hmem
    · rintro ⟨_, _, he, -⟩
      rw [List.mem_singleton.1 hmem] at he
      cases he
      exact hpq rfl

theorem Doomed.move {new : List QueueItem} (h : s.Doomed p) (hm : Move s t new) : t.Doomed p := by
  obtain ⟨⟨is, hpc⟩, hpr, hi⟩ := h
  refine ⟨⟨is, (hm.waits p is hpc).resolve_left (by simp [hpr])⟩, by rwa [hm.promise],
    fun item hmem => ?_⟩
  rw [items_append hm.worker hm.queue] at hmem
  rcases List.mem_append.1 hmem with hmem | hmem
  · exact hi item hmem
  · exact hm.fulfils item hmem p

theorem Doomed.step (h : s.Doomed p) (hs : s.step event = some t) : t.Doomed p := by
  cases he : event.isWork with
  | true =>
    cases event with
    | work c => exact h.work hs
    | _ => cases he
  | false =>
    rcases step_cases hs he with ⟨q, is, rfl, hpc⟩ | ⟨new, hm⟩
    · exact h.enqueue hpc hs
    · exact h.move hm

theorem Doomed.run {events : List Event} (h : s.Doomed p)
    (hr : Run (stepOf Profiler.step) s events t) : t.Doomed p := by
  induction hr with
  | nil => exact h
  | cons hstep _ ih => exact ih (h.step hstep)

/-- As long as the worker can step the caller is no nearer to its value. -/
theorem Doomed.not_released (h : s.Doomed p) : ¬ s.Released p := by
  rintro ⟨n, hn⟩
  have hlong : ∀ k, ∃ events t, Run (stepOf Profiler.step) s events t ∧
      events.countP Event.isWork = k := by
    intro k
    induction k with
    | zero => exact ⟨[], s, .nil s, rfl⟩
    | succ k ih =>
      obtain ⟨events, t, hr, hk⟩ := ih
      rcases hn events t hr with hp | ⟨⟨c, hc⟩, -⟩
      · rw [(h.run hr).promise] at hp
        cases hp
      · obtain ⟨u, hu⟩ := Option.isSome_iff_exists.1 hc
        have hwork : stepOf Profiler.step t (.work c) u := hu
        refine ⟨events ++ [.work c], u, run_snoc_iff.2 ⟨t, hr, hwork⟩, ?_⟩
        rw [List.countP_append, hk]
        rfl
  obtain ⟨events, t, hr, hk⟩ := hlong n
  rcases hn events t hr with hp | ⟨-, hlt⟩
  · rw [(h.run hr).promise] at hp
    cases hp
  · omega

/-- A promise handed over without modules or without integrations is never kept. -/
theorem Inv.loses (h : s.Inv) (hw : ¬ s.HasWork event) :
    ∃ t, s.step event = some t ∧ ¬ t.PromisesKept := by
  cases event with
  | advance p =>
    simp only [HasWork, not_forall] at hw
    obtain ⟨is, hpc, hempty⟩ := hw
    have hsd : s.shutdown = false :=
      Bool.eq_false_iff.2 fun he => h.lock.not_ending (.inl hpc) (.inr (.inr he))
    let item : QueueItem := .processModule s.moduleIds is (some p)
    let t : Profiler := { s with
      queue := s.queue ++ [item]
      handed := s.handed ++ [p] }.setCaller p (.waiting is)
    have hs : s.step (.advance p) = some t := by
      simp only [Profiler.step, Profiler.advance, hpc, enqueueProcessModule_of_running hsd]
      rfl
    refine ⟨t, hs, fun hkept => ?_⟩
    have hnot : p ∉ s.handed := by
      intro hp
      have := h.promise.past p hp
      rw [hpc] at this
      exact this
    obtain ⟨hnone, hi⟩ := h.promise.unhanded p hnot
    have hdoomed : t.Doomed p := by
      refine ⟨⟨is, setCaller_caller_self⟩, hnone, fun x hmem => ?_⟩
      rw [show t.items = s.items ++ [item] from items_enqueue] at hmem
      rcases List.mem_append.1 hmem with hmem | hmem
      · exact hi x hmem
      · rintro ⟨ms, js, he, hwork⟩
        obtain ⟨rfl, rfl, -⟩ := QueueItem.processModule.inj ((List.mem_singleton.1 hmem).symm.trans he)
        exact hempty hwork
    exact hdoomed.not_released (hkept.released p is setCaller_caller_self)
  | _ => exact absurd trivial hw

/-- Every promise is kept in a run exactly when no step of the run hands one over without
modules or without integrations. -/
theorem promisesKept_iff (rejitHandler : Bool) (events : List Event) :
    EachState (stepOf step) PromisesKept (init rejitHandler) events ↔
      EachStep (stepOf step) HasWork (init rejitHandler) events := by
  apply eachState_iff_eachStep (I := fun _ s => s.Inv)
  · intro _ event _ s t _ h _ hw hs
    exact ⟨h.step hw hs, (h.step hw hs).promisesKept⟩
  · intro _ event _ s _ h _ hw
    exact h.loses hw
  · exact inv_init rejitHandler
  · exact (inv_init rejitHandler).promisesKept

/-- `InitializeProfiler` is called before a module is recorded. -/
theorem promise_never_set : ¬ ∀ rejitHandler events,
    EachState (stepOf step) PromisesKept (init rejitHandler) events := by
  intro h
  have hrun : ∃ s, Run (stepOf step) (init true)
      [.initializeProfiler 0 "id" (some [7]), .advance 0, .advance 0, .advance 0, .advance 0,
        .work 0, .work 0] s ∧
      0 ∈ s.handed ∧ s.promise 0 = none ∧ s.items = [] :=
    ⟨_, .cons rfl (.cons rfl (.cons rfl (.cons rfl (.cons rfl (.cons rfl (.cons rfl
      (.nil _))))))), .head _, rfl, rfl⟩
  obtain ⟨s, hrun, hmem, hnone, hitems⟩ := hrun
  have hset := (h _ _ _ [] s (List.append_nil _).symm hrun).fulfilled 0 hmem (.inl ?_)
  · rw [hnone] at hset
    cases hset
  · rintro ⟨ms, is, hm⟩
    rw [hitems] at hm
    cases hm

end Profiler

end DdTrace.Rejit
