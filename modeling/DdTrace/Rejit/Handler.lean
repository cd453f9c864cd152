import DdTrace.Lib.Locks

/-!
# RejitHandler

The operations of `RejitHandler`, its modules and methods as threads that take
locks by scope (`Lib.Locks`). A `Block` is the part of a function under one of
its guards: the functions that take `m_shutdown_lock` and then a second lock
are two blocks. The test of `m_shutdown`, which only changes under the
exclusive lock, is part of entering a block under `m_shutdown_lock`.

The runtime is a parameter: which methods of the modules match the
integrations, what the enumerations of inliners answer, and the order in which
the hash tables are iterated. The calls into the runtime that only request or
rewrite (`RequestReJIT`, `m_rewriteCallback`, the metadata) take none of these
locks and leave these tables alone; they are not modelled.
-/

namespace DdTrace.Rejit

open DdTrace.Lib DdTrace.Lib.Locks

abbrev ModuleID := ℕ
abbrev MethodDef := ℕ
abbrev IntegrationMethod := ℕ

/-- A method of a module: an entry of the parallel vectors `modulesVector` and
`modulesMethodDef`. -/
abbrev Method := ModuleID × MethodDef

/-- The question `EnumNgenModuleMethodsInliningThisMethod(ngen, module, method)`. -/
structure Key where
  module : ModuleID
  method : MethodDef
  ngen : ModuleID
deriving DecidableEq

inductive RejitItem where
  | endRejitThread
  | rejit (methods : List Method)
  | processModule (modules : List ModuleID) (integrations : List IntegrationMethod)
deriving DecidableEq

inductive Lock where
  /-- `m_shutdown_lock` -/
  | shutdown
  /-- `m_ngenModules_lock` -/
  | ngenModules
  /-- `m_modules_lock` -/
  | modules
  /-- `RejitHandlerModule::m_methods_lock` -/
  | methods (m : ModuleID)
  /-- `RejitHandlerModuleMethod::m_ngenModulesLock` -/
  | inliners (m : ModuleID) (d : MethodDef)
deriving DecidableEq

/-- What the runtime answers. The `k`th enumeration is `none` when its `HRESULT` is a failure,
else the inliners and `incompleteData`. -/
structure Clr where
  targets : List ModuleID → List IntegrationMethod → List Method
  enumerate : ℕ → Key → Option (List Method × Bool)
  order : List ℕ → List ℕ
  order_perm : ∀ xs, (order xs).Perm xs

/-- A runtime in which nothing matches and nothing is inlined. -/
def silent : Clr := ⟨fun _ _ => [], fun _ _ => some ([], false), id, fun _ => .refl _⟩

/-- The tables of the handler. The last three fields only record: the methods
`ProcessModuleForRejit` has registered, the enumerations made with their answers, and the
inliners enqueued with the enumeration they come from. -/
structure Handler where
  shutdown : Bool := false
  profilerInfo6 : Bool
  modules : List ModuleID := []
  methods : ModuleID → List MethodDef := fun _ => []
  inlinersDone : ModuleID → MethodDef → List ModuleID := fun _ _ => []
  ngenModules : List ModuleID := []
  queue : List RejitItem := []
  exited : Bool := false
  registered : List Method := []
  enumerated : List (Key × Option (List Method × Bool)) := []
  enqueued : List (Key × List Method) := []

inductive Block where
  | addNGenModule (n : ModuleID)
  | addNGenModuleLocked (n : ModuleID)
  | requestRejitForInlinersInModule (n : ModuleID)
  | modulesInliners (n : ModuleID)
  | moduleInliners (m n : ModuleID)
  | methodInliners (key : Key)
  | enqueueForRejit (methods : List Method) (source : Option Key)
  | enqueueProcessModule (modules : List ModuleID) (integrations : List IntegrationMethod)
  | requestRejit (methods : List Method)
  | requestRejitForNGenInliners
  | ngenInliners
  | processModuleForRejit (modules : List ModuleID) (integrations : List IntegrationMethod)
      (enqueueInSameThread : Bool)
  | getOrAddModule (m : ModuleID)
  | addModule (m : ModuleID)
  | getOrAddMethod (m : ModuleID) (d : MethodDef) (register : Bool)
  | hasModuleAndMethod (m : ModuleID) (d : MethodDef)
  | findModule (m : ModuleID) (d : MethodDef)
  | containsMethod (m : ModuleID) (d : MethodDef)
  | removeModule (m : ModuleID)
  | eraseModule (m : ModuleID)
  | notifyReJITParameters (m : ModuleID) (d : MethodDef)
  | shutdownModules
  | shutdownNgenModules
  | shutdownWrite
deriving DecidableEq

inductive Action where
  | pop
  | markDone (key : Key)
  | pushEnd
  | join
deriving DecidableEq

abbrev Code := List (Instr Lock Block Action)

/-- `ReadLock r_lock(m_shutdown_lock)`. -/
def readLock : Hold Lock := ⟨.shutdown, true⟩

/-- `WriteLock w_lock(m_shutdown_lock)`. -/
def writeLock : Hold Lock := ⟨.shutdown, false⟩

def hold : Block → Hold Lock
  | .addNGenModuleLocked _ | .ngenInliners | .shutdownNgenModules => ⟨.ngenModules, false⟩
  | .modulesInliners _ | .addModule _ | .findModule _ _ | .eraseModule _ | .shutdownModules =>
    ⟨.modules, false⟩
  | .moduleInliners m _ | .getOrAddMethod m _ _ | .containsMethod m _ => ⟨.methods m, false⟩
  | .methodInliners key => ⟨.inliners key.module key.method, false⟩
  | .shutdownWrite => writeLock
  | _ => readLock

/-- `if (m_shutdown) return`. -/
def unlessShutdown (s : Handler) (c : Code) : Code := if s.shutdown then [] else c

/-- A vector of targets is passed on only when it is not empty. -/
def ifAny (ms : List Method) (c : Code) : Code := if ms = [] then [] else c

/-- `RejitHandlerModuleMethod::RequestRejitForInlinersInModule` skips the NGEN modules it is done
with, and has nothing to ask without `ICorProfilerInfo6`. -/
def asks (key : Key) (s : Handler) : Bool :=
  key.ngen ∉ s.inlinersDone key.module key.method ∧ s.profilerInfo6

def methodInliners (clr : Clr) (key : Key) (s : Handler) : Code :=
  if asks key s then
    match clr.enumerate s.enumerated.length key with
    | none => []
    | some (inliners, incompleteData) =>
      ifAny inliners [.enter (.enqueueForRejit inliners (some key))] ++
        if incompleteData then [] else [.act (.markDone key)]
  else []

/-- The targets are looked up one after the other; the rejit is requested once all are stored. -/
def processModuleForRejit (clr : Clr) (modules : List ModuleID)
    (integrations : List IntegrationMethod) (enqueueInSameThread : Bool) : Code :=
  let targets := clr.targets modules integrations
  targets.flatMap (fun t => [.enter (.getOrAddModule t.1), .enter (.getOrAddMethod t.1 t.2 true)]) ++
    ifAny targets [.enter (if enqueueInSameThread then .requestRejit targets
      else .enqueueForRejit targets none)]

def body (clr : Clr) : Block → Handler → Code
  | .addNGenModule n, s => unlessShutdown s [.enter (.addNGenModuleLocked n)]
  | .addNGenModuleLocked n, _ => [.enter (.requestRejitForInlinersInModule n)]
  | .requestRejitForInlinersInModule n, s => unlessShutdown s [.enter (.modulesInliners n)]
  | .modulesInliners n, s =>
    if s.profilerInfo6 then (clr.order s.modules).map fun m => .enter (.moduleInliners m n) else []
  | .moduleInliners m n, s =>
    (clr.order (s.methods m)).map fun d => .enter (.methodInliners ⟨m, d, n⟩)
  | .methodInliners key, s => methodInliners clr key s
  | .requestRejit ms, s => unlessShutdown s (ifAny ms [.enter .requestRejitForNGenInliners])
  | .requestRejitForNGenInliners, s => unlessShutdown s [.enter .ngenInliners]
  | .ngenInliners, s =>
    if s.profilerInfo6 then s.ngenModules.map fun n => .enter (.requestRejitForInlinersInModule n)
    else []
  | .processModuleForRejit ms is same, s => unlessShutdown s (processModuleForRejit clr ms is same)
  | .getOrAddModule m, s => unlessShutdown s [.enter (.addModule m)]
  | .hasModuleAndMethod m d, s => unlessShutdown s [.enter (.findModule m d)]
  | .findModule m d, s => if m ∈ s.modules then [.enter (.containsMethod m d)] else []
  | .removeModule m, s => unlessShutdown s [.enter (.eraseModule m)]
  | .notifyReJITParameters m d, s =>
    unlessShutdown s [.enter (.getOrAddModule m), .enter (.getOrAddMethod m d false)]
  | .shutdownModules, _ => [.enter .shutdownNgenModules]
  | .shutdownNgenModules, _ => [.enter .shutdownWrite]
  | _, _ => []

/-- A new key of a hash table; one that is there stays where it is. -/
def insertNew (x : ℕ) (xs : List ℕ) : List ℕ := if x ∈ xs then xs else xs ++ [x]

def effect (clr : Clr) : Block → Handler → Handler
  | .addNGenModuleLocked n, s => { s with ngenModules := s.ngenModules ++ [n] }
  | .methodInliners key, s =>
    if asks key s then
      { s with enumerated := s.enumerated ++ [(key, clr.enumerate s.enumerated.length key)] }
    else s
  | .enqueueForRejit ms source, s =>
    if s.shutdown then s
    else { s with
      queue := s.queue ++ [.rejit ms]
      enqueued := s.enqueued ++ (source.map (·, ms)).toList }
  | .enqueueProcessModule ms is, s =>
    if s.shutdown then s else { s with queue := s.queue ++ [.processModule ms is] }
  | .addModule m, s => { s with modules := insertNew m s.modules }
  | .getOrAddMethod m d register, s =>
    { s with
      methods := Function.update s.methods m (insertNew d (s.methods m))
      registered := if register then (m, d) :: s.registered else s.registered }
  | .eraseModule m, s =>
    { s with
      modules := s.modules.erase m
      methods := Function.update s.methods m []
      inlinersDone := Function.update s.inlinersDone m fun _ => [] }
  | .shutdownWrite, s =>
    { s with
      shutdown := true, profilerInfo6 := false, modules := [], methods := fun _ => []
      inlinersDone := fun _ _ => [] }
  | _, s => s

/-- The work of `EnqueueThreadLoop` on one item. -/
def RejitItem.code : RejitItem → Code
  | .endRejitThread => []
  | .rejit ms => ifAny ms [.enter (.requestRejit ms)] ++ [.act .pop]
  | .processModule ms is =>
    (if ms ≠ [] ∧ is ≠ [] then [.enter (.processModuleForRejit ms is true)] else []) ++ [.act .pop]

def perform : Action → Handler → Option (Handler × Code)
  | .pop, s =>
    match s.queue with
    | [] => none
    | item :: queue => some ({ s with queue, exited := item = .endRejitThread }, item.code)
  | .markDone key, s =>
    some ({ s with
      inlinersDone := Function.update s.inlinersDone key.module
        (Function.update (s.inlinersDone key.module) key.method
          (key.ngen :: s.inlinersDone key.module key.method)) }, [])
  | .pushEnd, s => some ({ s with queue := s.queue ++ [.endRejitThread] }, [])
  | .join, s => if s.exited then some (s, []) else none

inductive Thread where
  | queue
  | caller (i : ℕ)
deriving DecidableEq

inductive Op where
  | addNGenModule (n : ModuleID)
  | getOrAddModule (m : ModuleID)
  | removeModule (m : ModuleID)
  | hasModuleAndMethod (m : ModuleID) (d : MethodDef)
  | enqueueProcessModule (modules : List ModuleID) (integrations : List IntegrationMethod)
  | enqueueForRejit (methods : List Method)
  | notifyReJITParameters (m : ModuleID) (d : MethodDef)
  | requestRejitForNGenInliners
  | processModuleForRejit (modules : List ModuleID) (integrations : List IntegrationMethod)
      (enqueueInSameThread : Bool)
  | shutdown
deriving DecidableEq

def Op.code : Op → Code
  | .addNGenModule n => [.enter (.addNGenModule n)]
  | .getOrAddModule m => [.enter (.getOrAddModule m)]
  | .removeModule m => [.enter (.removeModule m)]
  | .hasModuleAndMethod m d => [.enter (.hasModuleAndMethod m d)]
  | .enqueueProcessModule ms is => [.enter (.enqueueProcessModule ms is)]
  | .enqueueForRejit ms => [.enter (.enqueueForRejit ms none)]
  | .notifyReJITParameters m d => [.enter (.notifyReJITParameters m d)]
  | .requestRejitForNGenInliners => [.enter .requestRejitForNGenInliners]
  | .processModuleForRejit ms is same => [.enter (.processModuleForRejit ms is same)]
  | .shutdown => [.act .pushEnd, .act .join, .enter .shutdownModules]

def start : Thread → Op → Option Code
  | .queue, _ => none
  | .caller _, o => some o.code

def program (clr : Clr) : Program Thread Lock Block Action Handler Op where
  hold := hold
  body := body clr
  effect := effect clr
  perform := perform
  start := start

abbrev State := Locks.State Thread Lock Block Action Handler
abbrev Event := Locks.Event Thread Op

/-- A handler just built: the queue thread waits for its first item. -/
def init (profilerInfo6 : Bool) : State where
  mem := { profilerInfo6 }
  code
    | .queue => [.act .pop]
    | .caller _ => []

/-- The states a handler can be in. -/
abbrev Runs (clr : Clr) (profilerInfo6 : Bool) (es : List Event) (s : State) : Prop :=
  Run (program clr).Step (init profilerInfo6) es s

/-! ## Scopes -/

variable {clr : Clr}

@[simp] theorem program_hold (b : Block) : (program clr).hold b = hold b := rfl
@[simp] theorem program_body : (program clr).body = body clr := rfl
@[simp] theorem program_effect : (program clr).effect = effect clr := rfl
@[simp] theorem program_perform : (program clr).perform = perform := rfl
@[simp] theorem program_start : (program clr).start = start := rfl

theorem start_eq_some {t : Thread} {o : Op} {c : Code} :
    start t o = some c ↔ t ≠ .queue ∧ c = o.code := by
  cases t with
  | queue => simp [start]
  | caller i => simp [start, eq_comm]

@[simp] theorem mem_unlessShutdown {s : Handler} {c : Code} {i : Instr Lock Block Action} :
    i ∈ unlessShutdown s c ↔ s.shutdown = false ∧ i ∈ c := by
  cases h : s.shutdown <;> simp [unlessShutdown, h]

@[simp] theorem mem_ifAny {ms : List Method} {c : Code} {i : Instr Lock Block Action} :
    i ∈ ifAny ms c ↔ ms ≠ [] ∧ i ∈ c := by
  by_cases h : ms = [] <;> simp [ifAny, h]

@[simp] theorem mem_order {xs : List ℕ} {x : ℕ} : x ∈ clr.order xs ↔ x ∈ xs :=
  (clr.order_perm xs).mem_iff

/-- The instructions of the body of `methodInliners`. -/
theorem mem_methodInliners {key : Key} {s : Handler} {i : Instr Lock Block Action} :
    i ∈ methodInliners clr key s ↔ asks key s = true ∧
      ∃ ms inc, clr.enumerate s.enumerated.length key = some (ms, inc) ∧
        (ms ≠ [] ∧ i = .enter (.enqueueForRejit ms (some key)) ∨
          inc = false ∧ i = .act (.markDone key)) := by
  rw [methodInliners]
  by_cases ha : asks key s = true
  · rw [if_pos ha]
    rcases he : clr.enumerate s.enumerated.length key with _ | ⟨ms, inc⟩
    · simp
    · cases inc <;> simp [ha]
  · simp [ha]

theorem mem_processModuleForRejit {ms : List ModuleID} {is : List IntegrationMethod} {same : Bool}
    {i : Instr Lock Block Action} :
    i ∈ processModuleForRejit clr ms is same ↔
      (∃ t ∈ clr.targets ms is,
        i = .enter (.getOrAddModule t.1) ∨ i = .enter (.getOrAddMethod t.1 t.2 true)) ∨
      clr.targets ms is ≠ [] ∧ i = .enter (if same then .requestRejit (clr.targets ms is)
        else .enqueueForRejit (clr.targets ms is) none) := by
  simp [processModuleForRejit]

/-- What a step of the queue thread leads to. -/
theorem perform_pop_eq_some {s s' : Handler} {c : Code} (h : perform .pop s = some (s', c)) :
    ∃ item queue, s.queue = item :: queue ∧
      s' = { s with queue, exited := item = .endRejitThread } ∧ c = item.code := by
  simp only [perform] at h
  split at h
  · cases h
  · rename_i item queue hq
    cases h
    exact ⟨item, queue, hq, rfl, rfl⟩

theorem perform_of_ne_pop {a : Action} {s s' : Handler} {c : Code} (ha : a ≠ .pop)
    (h : perform a s = some (s', c)) : c = [] := by
  cases a with
  | pop => exact absurd rfl ha
  | markDone key => cases h; rfl
  | pushEnd => cases h; rfl
  | join =>
    simp only [perform] at h
    split at h
    · cases h; rfl
    · cases h

theorem mem_itemCode {item : RejitItem} {i : Instr Lock Block Action} :
    i ∈ item.code ↔
      (∃ ms, item = .rejit ms ∧ ms ≠ [] ∧ i = .enter (.requestRejit ms)) ∨
      (∃ ms is, item = .processModule ms is ∧ ms ≠ [] ∧ is ≠ [] ∧
        i = .enter (.processModuleForRejit ms is true)) ∨
      item ≠ .endRejitThread ∧ i = .act .pop := by
  cases item with
  | endRejitThread => simp [RejitItem.code]
  | rejit ms => simp [RejitItem.code]
  | processModule ms is =>
    by_cases h : ms ≠ [] ∧ is ≠ []
    · simp [RejitItem.code, h]
    · simp [RejitItem.code, h]
      tauto

theorem program_scoped (clr : Clr) : (program clr).Scoped where
  start {t o c} h := by
    obtain ⟨_, rfl⟩ := start_eq_some.1 h
    intro k
    cases o <;> simp [Op.code]
  body b s k := by
    cases b <;> simp [body, mem_methodInliners, mem_processModuleForRejit]
  perform {a s s' c} h k := by
    by_cases ha : a = .pop
    · subst ha
      obtain ⟨item, _, _, _, rfl⟩ := perform_pop_eq_some h
      simp [mem_itemCode]
    · simp [perform_of_ne_pop ha h]

end DdTrace.Rejit
