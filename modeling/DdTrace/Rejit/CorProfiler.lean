import DdTrace.Lib.Locks

/-!
# CorProfiler: modules and integrations

`ModuleLoadFinished`, `ModuleUnloadStarted` and `InitializeProfiler` with
CallTarget enabled, as threads that take `definitions_ids_lock_` and
`module_id_to_info_map_lock_` by scope (`Lib.Locks`), and the part of the ReJIT
thread that answers `EnqueueProcessModule`. The other items of its queue, the
metadata and the PInvoke maps do not touch these tables; they are not modelled.
`ProcessModuleForRejit` is its call here: the pairs it is given are `submitted`.
-/

namespace DdTrace.Rejit.CorProfiler

open DdTrace.Lib DdTrace.Lib.Locks

abbrev ModuleID := ℕ

/-- What `GetModuleInfo` answers, as far as `ModuleLoadFinished` reads it. -/
structure ModuleInfo where
  isValid : Bool := true
  assemblyName : String
  isWindowsRuntime : Bool := false
  isResource : Bool := false
  isDynamic : Bool := false
deriving DecidableEq

def mscorlib_assemblyName : String := "mscorlib"
def system_private_corelib_assemblyName : String := "System.Private.CoreLib"
def managed_loader_assemblyName : String := "Datadog.Trace.ClrProfiler.Managed.Loader"
def managed_profiler_name : String := "Datadog.Trace"

def skip_assemblies : List String :=
  ["mscorlib", "netstandard", "System.Configuration", "Microsoft.AspNetCore.Razor.Language",
    "Microsoft.AspNetCore.Mvc.RazorPages", "Anonymously Hosted DynamicMethods Assembly",
    "ISymWrapper"]

def skip_assembly_prefixes : List String :=
  ["Microsoft.AI", "Microsoft.ApplicationInsights", "Microsoft.Build", "Microsoft.CSharp",
    "Microsoft.Extensions.Caching", "Microsoft.Extensions.Configuration",
    "Microsoft.Extensions.DependencyInjection", "Microsoft.Extensions.DependencyModel",
    "Microsoft.Extensions.Diagnostics", "Microsoft.Extensions.FileProviders",
    "Microsoft.Extensions.FileSystemGlobbing", "Microsoft.Extensions.Hosting",
    "Microsoft.Extensions.Http", "Microsoft.Extensions.Identity",
    "Microsoft.Extensions.Localization", "Microsoft.Extensions.ObjectPool",
    "Microsoft.Extensions.Options", "Microsoft.Extensions.PlatformAbstractions",
    "Microsoft.Extensions.Primitives", "Microsoft.Extensions.WebEncoders ",
    "Microsoft.Web.Compilation.Snapshots", "System.Core", "System.Console", "System.Collections",
    "System.ComponentModel", "System.Diagnostics", "System.Drawing", "System.EnterpriseServices",
    "System.IO", "System.Runtime", "System.Text", "System.Threading", "System.Xml"]

variable (ι : Type) [DecidableEq ι]

/-- An item of the ReJIT queue made by `EnqueueProcessModule`, with its promise. -/
structure ProcessModule where
  modules : List ModuleID
  integrations : List ι
  promise : ℕ

/-- The tables of the profiler. The last three fields only record: the modules recorded in
`module_ids_` that are still loaded, the `InitializeProfiler` calls accepted, and the pairs
submitted of each module since it was recorded. -/
structure Tables where
  corlibModuleLoaded : Bool := false
  moduleIds : List ModuleID := []
  integrationMethods : List ι
  definitionsIds : List String := []
  queue : List (ProcessModule ι) := []
  promises : ℕ := 0
  resolved : List ℕ := []
  loaded : List ModuleID := []
  accepted : List (String × List ι) := []
  submitted : List (ModuleID × ι) := []

inductive Lock where
  /-- `definitions_ids_lock_` -/
  | definitionsIds
  /-- `module_id_to_info_map_lock_` -/
  | moduleInfoMap
deriving DecidableEq

inductive Block where
  | moduleLoadFinished (m : ModuleID) (failed : Bool) (info : ModuleInfo)
  | moduleUnloadStarted (m : ModuleID)
  | initializeProfiler (id : String) (items : Option (List ι))
  | register (id : String) (integrationMethods : List ι)
deriving DecidableEq

inductive Action where
  | enqueueProcessModule (integrationMethods : List ι) (promise : ℕ)
  | awaitPromise (promise : ℕ)
  | append (integrationMethods : List ι)
  | pop
deriving DecidableEq

abbrev Code := List (Instr Lock (Block ι) (Action ι))

variable {ι}

def hold : Block ι → Hold Lock
  | .initializeProfiler _ _ => ⟨.definitionsIds, false⟩
  | _ => ⟨.moduleInfoMap, false⟩

def isCorlib (info : ModuleInfo) : Bool :=
  info.assemblyName = mscorlib_assemblyName ∨ info.assemblyName = system_private_corelib_assemblyName

/-- `ModuleLoadFinished` gets as far as `module_ids_.push_back`. -/
def records (s : Tables ι) (info : ModuleInfo) : Bool :=
  info.isValid && !(!s.corlibModuleLoaded && isCorlib info) &&
    info.assemblyName ≠ managed_loader_assemblyName && !info.isWindowsRuntime &&
    !info.isResource && info.assemblyName ∉ skip_assemblies &&
    !skip_assembly_prefixes.any (·.isPrefixOf info.assemblyName) && !info.isDynamic &&
    info.assemblyName ≠ managed_profiler_name

/-- The call `ProcessModuleForRejit(modules, integrations)`. -/
def Tables.process (s : Tables ι) (modules : List ModuleID) (integrations : List ι) : Tables ι :=
  { s with submitted := s.submitted ++ modules.flatMap fun m => integrations.map (m, ·) }

/-- A module recorded under an id that was another's before starts without submissions. -/
def Tables.record (s : Tables ι) (m : ModuleID) : Tables ι :=
  { s with
    moduleIds := s.moduleIds ++ [m]
    loaded := if m ∈ s.loaded then s.loaded else m :: s.loaded
    submitted := s.submitted.filter (·.1 ≠ m) }

/-- A module whose load failed is skipped before the lock is taken. -/
def moduleLoadFinished (m : ModuleID) (failed : Bool) (info : ModuleInfo) (s : Tables ι) :
    Tables ι :=
  if failed then s
  else if records s info then
    let s := s.record m
    if s.integrationMethods = [] then s else s.process [m] s.integrationMethods
  else { s with corlibModuleLoaded := s.corlibModuleLoaded || (info.isValid && isCorlib info) }

def effect : Block ι → Tables ι → Tables ι
  | .moduleLoadFinished m failed info, s => moduleLoadFinished m failed info s
  | .moduleUnloadStarted m, s => { s with loaded := s.loaded.filter (· ≠ m) }
  | .initializeProfiler _ _, s => s
  | .register id integrationMethods, s =>
    { s with
      definitionsIds := id :: s.definitionsIds
      promises := s.promises + 1
      accepted := s.accepted ++ [(id, integrationMethods)] }

def body : Block ι → Tables ι → Code ι
  | .initializeProfiler id (some items), s =>
    if id ∈ s.definitionsIds then [] else [.enter (.register id items)]
  | .register _ integrationMethods, s =>
    [.act (.enqueueProcessModule integrationMethods s.promises), .act (.awaitPromise s.promises),
      .act (.append integrationMethods)]
  | _, _ => []

/-- `EnqueueThreadLoop` on an item: the promise is resolved when there was something to process. -/
def Tables.answer (s : Tables ι) (item : ProcessModule ι) : Tables ι :=
  if item.modules ≠ [] ∧ item.integrations ≠ [] then
    { s.process item.modules item.integrations with resolved := item.promise :: s.resolved }
  else s

def perform : Action ι → Tables ι → Option (Tables ι × Code ι)
  | .enqueueProcessModule integrationMethods promise, s =>
    some ({ s with queue := s.queue ++ [⟨s.moduleIds, integrationMethods, promise⟩] }, [])
  | .awaitPromise promise, s => if promise ∈ s.resolved then some (s, []) else none
  | .append integrationMethods, s =>
    some ({ s with integrationMethods := s.integrationMethods ++ integrationMethods }, [])
  | .pop, s =>
    match s.queue with
    | [] => none
    | item :: queue => some ({ s with queue }.answer item, [.act .pop])

inductive Thread where
  | queue
  | caller (i : ℕ)
deriving DecidableEq

def start : Thread → Block ι → Option (Code ι)
  | .caller _, .register _ _ => none
  | .caller _, b => some [.enter b]
  | .queue, _ => none

/-- The calls are the blocks a caller enters from outside. -/
def program (ι : Type) [DecidableEq ι] :
    Program Thread Lock (Block ι) (Action ι) (Tables ι) (Block ι) where
  hold := hold
  body := body
  effect := effect
  perform := perform
  start := start

abbrev State (ι : Type) := Locks.State Thread Lock (Block ι) (Action ι) (Tables ι)
abbrev Event (ι : Type) := Locks.Event Thread (Block ι)

/-- A profiler just initialized, with the integrations loaded from the environment. -/
def init (integrationMethods : List ι) : State ι where
  mem := { integrationMethods }
  code
    | .queue => [.act .pop]
    | .caller _ => []

variable {s s' : Tables ι} {c : Code ι}

omit [DecidableEq ι] in
theorem start_eq_some {t : Thread} {b : Block ι} (h : start t b = some c) : c = [.enter b] := by
  cases t with
  | queue => cases h
  | caller i =>
    cases b
    case register => cases h
    all_goals
      cases h
      rfl

omit [DecidableEq ι] in
theorem perform_pop_eq_some (h : perform .pop s = some (s', c)) :
    ∃ item queue, s.queue = item :: queue ∧ s' = { s with queue }.answer item ∧
      c = [.act .pop] := by
  simp only [perform] at h
  split at h
  · cases h
  · rename_i item queue hq
    cases h
    exact ⟨item, queue, hq, rfl, rfl⟩

omit [DecidableEq ι] in
theorem mem_performCode {a : Action ι} (h : perform a s = some (s', c)) :
    ∀ i ∈ c, i = .act .pop := by
  cases a with
  | pop =>
    obtain ⟨_, _, _, _, rfl⟩ := perform_pop_eq_some h
    simp
  | awaitPromise p =>
    simp only [perform] at h
    split at h
    · cases h
      simp
    · cases h
  | enqueueProcessModule is p =>
    cases h
    simp
  | append is =>
    cases h
    simp

end DdTrace.Rejit.CorProfiler
