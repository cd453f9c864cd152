import DdTrace.Lib.Monitor
import DdTrace.Rejit.CorProfiler
import Mathlib.Data.Finset.Insert
import Mathlib.Data.Finset.Basic

/-!
# CorProfiler: its callbacks one after the other

The tables of the native profiler and the callbacks that read or write them, as
a step function. Each callback holds `module_id_to_info_map_lock_`, so a run of
the profiler is a sequence of them. A callback carries what the runtime answers
while it runs: the properties of the module or assembly, and an `HRESULT` for
every call that may fail. The profiler is attached throughout, and there is a
ReJIT handler exactly when CallTarget is enabled (`Initialize`). The handler's
own tables, the metadata itself and the PInvoke maps are not modelled, nor are
the insertion and replacement of calls at the end of `JITCompilationStarted`.
-/

namespace DdTrace.Profiler

open DdTrace.Lib
open DdTrace.Rejit.CorProfiler (ModuleID mscorlib_assemblyName
  system_private_corelib_assemblyName managed_loader_assemblyName managed_profiler_name
  skip_assemblies skip_assembly_prefixes)

abbrev AppDomainID := ℕ
abbrev HRESULT := Int32

def S_OK : HRESULT := 0

def FAILED (hr : HRESULT) : Bool := hr < 0

def microsoft_aspnetcore_hosting_assemblyName : String := "Microsoft.AspNetCore.Hosting"
def dapper_assemblyName : String := "Dapper"

/-! ## Versions and integrations -/

structure Version where
  major : UInt16 := 0
  minor : UInt16 := 0
  build : UInt16 := 0
  revision : UInt16 := 0
deriving DecidableEq

/-- `operator<`, which does not read the revision. -/
def Version.lt (v w : Version) : Bool :=
  v.major < w.major || (v.major = w.major && v.minor < w.minor) ||
    (v.major = w.major && v.minor = w.minor && v.build < w.build)

/-- The version in `managed_profiler_full_assembly_version`. -/
def managedProfilerVersion : Version := ⟨1, 29, 1, 0⟩

structure AssemblyMetadata where
  name : String := ""
  version : Version := {}
deriving DecidableEq

/-- An integration, as far as the filters read its method replacement. -/
structure IntegrationMethod where
  callerAssembly : String := ""
  targetAssembly : String
  minVersion : Version
  maxVersion : Version
deriving DecidableEq

structure CallTargetDefinition where
  targetAssembly : Option String
  targetMinimumMajor : UInt16
  targetMinimumMinor : UInt16
  targetMinimumPatch : UInt16
  targetMaximumMajor : UInt16
  targetMaximumMinor : UInt16
  targetMaximumPatch : UInt16
deriving DecidableEq

def CallTargetDefinition.toIntegration (d : CallTargetDefinition) : IntegrationMethod where
  targetAssembly := d.targetAssembly.getD ""
  minVersion := ⟨d.targetMinimumMajor, d.targetMinimumMinor, d.targetMinimumPatch, 0⟩
  maxVersion := ⟨d.targetMaximumMajor, d.targetMaximumMinor, d.targetMaximumPatch, 0⟩

def filterIntegrationsByCaller (integrations : List IntegrationMethod) (assemblyName : String) :
    List IntegrationMethod :=
  integrations.filter fun i => i.callerAssembly = "" || i.callerAssembly = assemblyName

def assemblyMeetsIntegrationRequirements (metadata : AssemblyMetadata) (i : IntegrationMethod) :
    Bool :=
  i.targetAssembly = metadata.name && !metadata.version.lt i.minVersion &&
    !i.maxVersion.lt metadata.version

/-- The assembly itself is looked at first, then the assemblies it references. -/
def filterIntegrationsByTarget (integrations : List IntegrationMethod)
    (assembly : AssemblyMetadata) (references : List AssemblyMetadata) : List IntegrationMethod :=
  integrations.filter fun i =>
    (assembly :: references).any (assemblyMeetsIntegrationRequirements · i)

/-! ## The tables -/

inductive RuntimeType where
  | desktop
  | core
deriving DecidableEq

/-- What `Initialize` finds out once. -/
structure Settings where
  /-- `IsCallTargetEnabled(is_net46_or_greater)` -/
  isCallTargetEnabled : Bool
  runtime : RuntimeType
  /-- The process is `w3wp.exe` or `iisexpress.exe`. -/
  isIisProcess : Bool := false
deriving DecidableEq

def Settings.isDesktop (c : Settings) : Bool := c.runtime = .desktop
def Settings.isCore (c : Settings) : Bool := c.runtime = .core
def Settings.isDesktopIis (c : Settings) : Bool := c.isIisProcess && c.isDesktop
def Settings.hasRejitHandler (c : Settings) : Bool := c.isCallTargetEnabled

structure ModuleMetadata where
  assemblyName : String
  appDomainId : AppDomainID
deriving DecidableEq

structure CorProfiler where
  corlibModuleLoaded : Bool := false
  corlibAppDomainId : AppDomainID := 0
  moduleIdToInfoMap : ModuleID → Option ModuleMetadata := fun _ => none
  moduleIds : List ModuleID := []
  firstJitCompilationAppDomains : Finset AppDomainID := ∅
  managedProfilerLoadedAppDomains : Finset AppDomainID := ∅
  managedProfilerLoadedDomainNeutral : Bool := false
  definitionsIds : List String := []
  integrationMethods : List IntegrationMethod

/-! ## The callbacks and what the runtime answers in them -/

/-- `AssemblyLoadFinished`, with what is true of the assembly and which calls answer. -/
structure AssemblyLoad where
  hrStatus : HRESULT := S_OK
  name : String
  manifestModuleId : ModuleID
  appDomainId : AppDomainID
  version : Version
  /-- `GetAssemblyInfo` answers; it gives an invalid assembly otherwise. -/
  getAssemblyInfo : Bool := true
  getModuleMetaData : HRESULT := S_OK
  /-- `GetAssemblyImportMetadata` answers; the version is 0.0.0.0 otherwise. -/
  getAssemblyProps : Bool := true
deriving DecidableEq

structure ModuleInfo extends Rejit.CorProfiler.ModuleInfo where
  appDomainId : AppDomainID
deriving DecidableEq

structure ModuleLoad where
  moduleId : ModuleID
  hrStatus : HRESULT := S_OK
  info : ModuleInfo
  getModuleMetaData : HRESULT := S_OK
  assembly : AssemblyMetadata := {}
  references : List AssemblyMetadata := []
  getModuleFromScope : HRESULT := S_OK
  getScopeProps : HRESULT := S_OK
deriving DecidableEq

structure JitCompilation where
  isSafeToBlock : Bool := true
  getFunctionInfo : HRESULT := S_OK
  moduleId : ModuleID
  info : ModuleInfo
  callerIsValid : Bool := true
  callerTypeName : String
  callerName : String
  generateVoidILStartupMethod : HRESULT := S_OK
  rewriterImport : HRESULT := S_OK
  rewriterExport : HRESULT := S_OK
  addIISPreStartInitFlags : HRESULT := S_OK
deriving DecidableEq

structure CachedFunctionSearch where
  getFunctionInfo : HRESULT := S_OK
  moduleId : ModuleID
  info : ModuleInfo
deriving DecidableEq

inductive Callback where
  | assemblyLoadFinished (a : AssemblyLoad)
  | moduleLoadFinished (l : ModuleLoad)
  | moduleUnloadStarted (m : ModuleID)
  | jitCompilationStarted (j : JitCompilation)
  | jitCachedFunctionSearchStarted (j : CachedFunctionSearch)
  | appDomainShutdownFinished (d : AppDomainID)
  | initializeProfiler (id : String) (items : Option (List CallTargetDefinition))

/-- What a callback asks of the ReJIT handler, of the rewriter or of the runtime. -/
inductive Request where
  | processModuleForRejit (modules : List ModuleID) (integrations : List IntegrationMethod)
  | enqueueProcessModule (modules : List ModuleID) (integrations : List IntegrationMethod)
  | startupHook (appDomain : AppDomainID) (hr : HRESULT)
  | useCachedFunction (use : Bool)
deriving DecidableEq

/-! ## AssemblyLoadFinished -/

/-- On .NET Core the managed library may be of a higher version than the native one. -/
def isViableVersion (c : Settings) (v : Version) : Bool :=
  if c.isCore then !v.lt managedProfilerVersion else v = managedProfilerVersion

def AssemblyLoad.importedVersion (a : AssemblyLoad) : Version :=
  if a.getAssemblyProps then a.version else {}

def assemblyLoadFinished (c : Settings) (a : AssemblyLoad) (s : CorProfiler) : CorProfiler :=
  if FAILED a.hrStatus then s
  else if !a.getAssemblyInfo then s
  else if a.name ≠ managed_profiler_name then s
  else if FAILED a.getModuleMetaData then s
  else if isViableVersion c a.importedVersion then
    { s with
      managedProfilerLoadedAppDomains := insert a.appDomainId s.managedProfilerLoadedAppDomains
      managedProfilerLoadedDomainNeutral :=
        s.managedProfilerLoadedDomainNeutral ||
          (c.isDesktop && s.corlibModuleLoaded && a.appDomainId = s.corlibAppDomainId) }
  else s

/-! ## ModuleLoadFinished and ModuleUnloadStarted -/

def ModuleInfo.isCorlib (info : ModuleInfo) : Bool :=
  info.assemblyName = mscorlib_assemblyName ||
    info.assemblyName = system_private_corelib_assemblyName

/-- The checks in front of the two instrumentation modes. -/
def ModuleInfo.isSkipped (info : ModuleInfo) : Bool :=
  info.isWindowsRuntime || info.isResource || info.assemblyName ∈ skip_assemblies ||
    skip_assembly_prefixes.any (·.isPrefixOf info.assemblyName)

/-- With CallTarget: dynamic modules are skipped, the PInvoke maps of Datadog.Trace are fixed,
any other module is recorded and analysed with the integrations known so far. -/
def recordModule (c : Settings) (l : ModuleLoad) (s : CorProfiler) : CorProfiler × Option Request :=
  if l.info.isDynamic then (s, none)
  else if l.info.assemblyName = managed_profiler_name then (s, none)
  else
    ({ s with moduleIds := s.moduleIds ++ [l.moduleId] },
      if c.hasRejitHandler && !s.integrationMethods.isEmpty then
        some (.processModuleForRejit [l.moduleId] s.integrationMethods)
      else none)

/-- The assemblies that are stored whatever they reference. -/
def keptWithoutTarget (assemblyName : String) : Bool :=
  assemblyName = microsoft_aspnetcore_hosting_assemblyName || assemblyName = dapper_assemblyName ||
    assemblyName = managed_profiler_name

/-- Without CallTarget: the metadata is stored for the modules some integration may be for. -/
def storeModule (l : ModuleLoad) (s : CorProfiler) : CorProfiler :=
  let filtered := filterIntegrationsByCaller s.integrationMethods l.info.assemblyName
  if filtered.isEmpty then s
  else if FAILED l.getModuleMetaData then s
  else if !keptWithoutTarget l.info.assemblyName &&
      (filterIntegrationsByTarget filtered l.assembly l.references).isEmpty then s
  else if FAILED l.getModuleFromScope then s
  else if FAILED l.getScopeProps then s
  else
    { s with
      moduleIdToInfoMap := Function.update s.moduleIdToInfoMap l.moduleId
        (some ⟨l.info.assemblyName, l.info.appDomainId⟩) }

def moduleLoadFinished (c : Settings) (l : ModuleLoad) (s : CorProfiler) :
    CorProfiler × Option Request :=
  if FAILED l.hrStatus then (s, none)
  else if !l.info.isValid then (s, none)
  else if !s.corlibModuleLoaded && l.info.isCorlib then
    ({ s with corlibModuleLoaded := true, corlibAppDomainId := l.info.appDomainId }, none)
  else if l.info.assemblyName = managed_loader_assemblyName then
    ({ s with
      firstJitCompilationAppDomains :=
        insert l.info.appDomainId s.firstJitCompilationAppDomains }, none)
  else if l.info.isSkipped then (s, none)
  else if c.isCallTargetEnabled then recordModule c l s
  else (storeModule l s, none)

/-- The AppDomain of a stored module is taken out of the set whatever the module is. -/
def moduleUnloadStarted (m : ModuleID) (s : CorProfiler) : CorProfiler :=
  match s.moduleIdToInfoMap m with
  | some metadata =>
    { s with
      managedProfilerLoadedAppDomains :=
        s.managedProfilerLoadedAppDomains.erase metadata.appDomainId
      moduleIdToInfoMap := Function.update s.moduleIdToInfoMap m none }
  | none => s

/-! ## JITCompilationStarted and JITCachedFunctionSearchStarted -/

/-- The stored metadata or, with CallTarget and the module recorded, a temporary one. -/
def moduleMetadata (c : Settings) (s : CorProfiler) (m : ModuleID) (info : ModuleInfo) :
    Option ModuleMetadata :=
  match s.moduleIdToInfoMap m with
  | some metadata => some metadata
  | none =>
    if c.isCallTargetEnabled && m ∈ s.moduleIds then some ⟨info.assemblyName, info.appDomainId⟩
    else none

def validStartupHookCallsite (c : Settings) (metadata : ModuleMetadata) (j : JitCompilation) :
    Bool :=
  if c.isDesktopIis then
    metadata.assemblyName = "System.Web" &&
      j.callerTypeName = "System.Web.Compilation.BuildManager" &&
      j.callerName = "InvokePreStartInitMethods"
  else !(metadata.assemblyName = "System" || metadata.assemblyName = "System.Net.Http")

def runILStartupHook (j : JitCompilation) : HRESULT :=
  if FAILED j.generateVoidILStartupMethod then j.generateVoidILStartupMethod
  else if FAILED j.rewriterImport then j.rewriterImport
  else if FAILED j.rewriterExport then j.rewriterExport
  else S_OK

/-- The two injection steps: the second is for IIS, and is not run after the first failed. -/
def injectStartupHook (c : Settings) (j : JitCompilation) : HRESULT :=
  if FAILED (runILStartupHook j) then runILStartupHook j
  else if c.isDesktopIis then j.addIISPreStartInitFlags
  else runILStartupHook j

def jitCompilationStarted (c : Settings) (j : JitCompilation) (s : CorProfiler) :
    CorProfiler × Option Request :=
  if !j.isSafeToBlock then (s, none)
  else if FAILED j.getFunctionInfo then (s, none)
  else
    match moduleMetadata c s j.moduleId j.info with
    | none => (s, none)
    | some metadata =>
      let hasLoaderInjectedInAppdomain :=
        metadata.appDomainId ∈ s.firstJitCompilationAppDomains
      if c.isCallTargetEnabled && hasLoaderInjectedInAppdomain then (s, none)
      else if !j.callerIsValid then (s, none)
      else if validStartupHookCallsite c metadata j && !hasLoaderInjectedInAppdomain then
        -- the mark is set before the steps, and a failed step leaves it
        ({ s with
          firstJitCompilationAppDomains :=
            insert metadata.appDomainId s.firstJitCompilationAppDomains },
          some (.startupHook metadata.appDomainId (injectStartupHook c j)))
      else (s, none)

/-- Whether the NGEN image is used; `none` where the callback leaves it to the runtime. -/
def jitCachedFunctionSearchStarted (c : Settings) (j : CachedFunctionSearch) (s : CorProfiler) :
    Option Request :=
  if FAILED j.getFunctionInfo then none
  else
    match moduleMetadata c s j.moduleId j.info with
    | none => some (.useCachedFunction true)
    | some metadata =>
      some (.useCachedFunction (metadata.appDomainId ∈ s.firstJitCompilationAppDomains))

def appDomainShutdownFinished (d : AppDomainID) (s : CorProfiler) : CorProfiler :=
  { s with firstJitCompilationAppDomains := s.firstJitCompilationAppDomains.erase d }

/-! ## InitializeProfiler -/

/-- The modules are handed to the ReJIT thread, and the call waits for its answer. -/
def initializeProfiler (c : Settings) (id : String) (items : Option (List CallTargetDefinition))
    (s : CorProfiler) : CorProfiler × Option Request :=
  if id ∈ s.definitionsIds then (s, none)
  else
    match items with
    | some items =>
      if c.hasRejitHandler then
        let integrationMethods := items.map (·.toIntegration)
        ({ s with
          definitionsIds := id :: s.definitionsIds
          integrationMethods := s.integrationMethods ++ integrationMethods },
          some (.enqueueProcessModule s.moduleIds integrationMethods))
      else (s, none)
    | none => (s, none)

/-! ## A run of the profiler -/

def call (c : Settings) (s : CorProfiler) : Callback → CorProfiler × Option Request
  | .assemblyLoadFinished a => (assemblyLoadFinished c a s, none)
  | .moduleLoadFinished l => moduleLoadFinished c l s
  | .moduleUnloadStarted m => (moduleUnloadStarted m s, none)
  | .jitCompilationStarted j => jitCompilationStarted c j s
  | .jitCachedFunctionSearchStarted j => (s, jitCachedFunctionSearchStarted c j s)
  | .appDomainShutdownFinished d => (appDomainShutdownFinished d s, none)
  | .initializeProfiler id items => initializeProfiler c id items s

def step (c : Settings) (s : CorProfiler) (i : Callback) : CorProfiler := (call c s i).1
def request (c : Settings) (s : CorProfiler) (i : Callback) : Option Request := (call c s i).2

/-- A profiler just initialized, with the integrations loaded from the environment. -/
def init (integrationMethods : List IntegrationMethod) : CorProfiler where
  integrationMethods

def profilerAssemblyIsLoadedIntoAppDomain (s : CorProfiler) (d : AppDomainID) : Bool :=
  s.managedProfilerLoadedDomainNeutral || d ∈ s.managedProfilerLoadedAppDomains

/-! ## What the callbacks do to each table -/

/-- The loader assembly is seen loading. -/
def ModuleLoad.seesLoader (l : ModuleLoad) : Bool :=
  !FAILED l.hrStatus && l.info.isValid && l.info.assemblyName = managed_loader_assemblyName

/-- `ModuleLoadFinished` gets as far as `module_ids_.push_back`. -/
def ModuleLoad.isRecorded (c : Settings) (s : CorProfiler) (l : ModuleLoad) : Bool :=
  !FAILED l.hrStatus && l.info.isValid && !(!s.corlibModuleLoaded && l.info.isCorlib) &&
    l.info.assemblyName ≠ managed_loader_assemblyName && !l.info.isSkipped &&
    c.isCallTargetEnabled && !l.info.isDynamic && l.info.assemblyName ≠ managed_profiler_name

/-- The AppDomain a compilation is eligible for: every check but the one of its mark. -/
def JitCompilation.eligibleAppDomain (c : Settings) (s : CorProfiler) (j : JitCompilation) :
    Option AppDomainID :=
  if !j.isSafeToBlock || FAILED j.getFunctionInfo then none
  else
    match moduleMetadata c s j.moduleId j.info with
    | none => none
    | some metadata =>
      if j.callerIsValid && validStartupHookCallsite c metadata j then some metadata.appDomainId
      else none

section Tables

variable (c : Settings) (s : CorProfiler)

@[simp] theorem storeModule_firstJitCompilationAppDomains (l : ModuleLoad) :
    (storeModule l s).firstJitCompilationAppDomains = s.firstJitCompilationAppDomains := by
  simp only [storeModule]
  split_ifs <;> rfl

@[simp] theorem storeModule_managedProfilerLoadedAppDomains (l : ModuleLoad) :
    (storeModule l s).managedProfilerLoadedAppDomains = s.managedProfilerLoadedAppDomains := by
  simp only [storeModule]
  split_ifs <;> rfl

@[simp] theorem storeModule_moduleIds (l : ModuleLoad) :
    (storeModule l s).moduleIds = s.moduleIds := by
  simp only [storeModule]
  split_ifs <;> rfl

@[simp] theorem moduleLoadFinished_managedProfilerLoadedAppDomains (l : ModuleLoad) :
    (moduleLoadFinished c l s).1.managedProfilerLoadedAppDomains =
      s.managedProfilerLoadedAppDomains := by
  simp only [moduleLoadFinished, recordModule]
  split_ifs <;> simp

theorem moduleLoadFinished_moduleIds (l : ModuleLoad) :
    (moduleLoadFinished c l s).1.moduleIds =
      if l.isRecorded c s then s.moduleIds ++ [l.moduleId] else s.moduleIds := by
  simp only [moduleLoadFinished, recordModule, ModuleLoad.isRecorded]
  split_ifs <;> simp_all

theorem moduleLoadFinished_firstJitCompilationAppDomains (l : ModuleLoad) :
    (moduleLoadFinished c l s).1.firstJitCompilationAppDomains =
      if l.seesLoader then insert l.info.appDomainId s.firstJitCompilationAppDomains
      else s.firstJitCompilationAppDomains := by
  -- the loader is no core library, so the check in front of it does not take it
  have hcorlib : l.info.assemblyName = managed_loader_assemblyName → l.info.isCorlib = false := by
    intro h
    rw [ModuleInfo.isCorlib, h]
    decide
  simp only [moduleLoadFinished, recordModule, ModuleLoad.seesLoader]
  split_ifs <;> simp_all

@[simp] theorem assemblyLoadFinished_firstJitCompilationAppDomains (a : AssemblyLoad) :
    (assemblyLoadFinished c a s).firstJitCompilationAppDomains =
      s.firstJitCompilationAppDomains := by
  simp only [assemblyLoadFinished]
  split_ifs <;> rfl

@[simp] theorem assemblyLoadFinished_moduleIds (a : AssemblyLoad) :
    (assemblyLoadFinished c a s).moduleIds = s.moduleIds := by
  simp only [assemblyLoadFinished]
  split_ifs <;> rfl

@[simp] theorem moduleUnloadStarted_firstJitCompilationAppDomains (m : ModuleID) :
    (moduleUnloadStarted m s).firstJitCompilationAppDomains = s.firstJitCompilationAppDomains := by
  simp only [moduleUnloadStarted]
  split <;> rfl

@[simp] theorem moduleUnloadStarted_moduleIds (m : ModuleID) :
    (moduleUnloadStarted m s).moduleIds = s.moduleIds := by
  simp only [moduleUnloadStarted]
  split <;> rfl

/-- The AppDomain is marked exactly when the two injection steps are run in it. -/
theorem jitCompilationStarted_eq (j : JitCompilation) :
    jitCompilationStarted c j s =
      match j.eligibleAppDomain c s with
      | some d =>
        if d ∈ s.firstJitCompilationAppDomains then (s, none)
        else
          ({ s with firstJitCompilationAppDomains := insert d s.firstJitCompilationAppDomains },
            some (.startupHook d (injectStartupHook c j)))
      | none => (s, none) := by
  unfold jitCompilationStarted JitCompilation.eligibleAppDomain
  cases hsafe : j.isSafeToBlock
  · rfl
  cases hinfo : FAILED j.getFunctionInfo
  case true => rfl
  simp only [Bool.not_true, Bool.or_false, Bool.false_eq_true, if_false]
  cases moduleMetadata c s j.moduleId j.info with
  | none => rfl
  | some metadata =>
    by_cases hmark : metadata.appDomainId ∈ s.firstJitCompilationAppDomains <;>
      by_cases hcaller : j.callerIsValid <;>
      by_cases hsite : validStartupHookCallsite c metadata j <;> simp [hmark, hcaller, hsite]

theorem jitCompilationStarted_cases (j : JitCompilation) :
    jitCompilationStarted c j s = (s, none) ∨
    ∃ d, j.eligibleAppDomain c s = some d ∧ d ∉ s.firstJitCompilationAppDomains ∧
      jitCompilationStarted c j s =
        ({ s with firstJitCompilationAppDomains := insert d s.firstJitCompilationAppDomains },
          some (.startupHook d (injectStartupHook c j))) := by
  rw [jitCompilationStarted_eq]
  cases hd : j.eligibleAppDomain c s with
  | none => exact .inl rfl
  | some d =>
    by_cases hmark : d ∈ s.firstJitCompilationAppDomains
    · exact .inl (if_pos hmark)
    · exact .inr ⟨d, rfl, hmark, if_neg hmark⟩

@[simp] theorem jitCompilationStarted_managedProfilerLoadedAppDomains (j : JitCompilation) :
    (jitCompilationStarted c j s).1.managedProfilerLoadedAppDomains =
      s.managedProfilerLoadedAppDomains := by
  obtain h | ⟨d, _, _, h⟩ := jitCompilationStarted_cases c s j <;> rw [h]

@[simp] theorem jitCompilationStarted_moduleIds (j : JitCompilation) :
    (jitCompilationStarted c j s).1.moduleIds = s.moduleIds := by
  obtain h | ⟨d, _, _, h⟩ := jitCompilationStarted_cases c s j <;> rw [h]

/-- `InitializeProfiler` writes the definitions and the integrations only. -/
theorem initializeProfiler_cases (id : String) (items : Option (List CallTargetDefinition)) :
    initializeProfiler c id items s = (s, none) ∨
    ∃ definitions, items = some definitions ∧ id ∉ s.definitionsIds ∧ c.hasRejitHandler = true ∧
      initializeProfiler c id items s =
        ({ s with
          definitionsIds := id :: s.definitionsIds
          integrationMethods := s.integrationMethods ++ definitions.map (·.toIntegration) },
          some (.enqueueProcessModule s.moduleIds (definitions.map (·.toIntegration)))) := by
  by_cases hid : id ∈ s.definitionsIds
  · exact .inl (if_pos hid)
  rw [initializeProfiler.eq_def, if_neg hid]
  cases items with
  | none => exact .inl rfl
  | some definitions =>
    by_cases hhandler : c.hasRejitHandler
    · exact .inr ⟨definitions, rfl, hid, hhandler, if_pos hhandler⟩
    · exact .inl (if_neg hhandler)

@[simp] theorem initializeProfiler_managedProfilerLoadedAppDomains (id : String)
    (items : Option (List CallTargetDefinition)) :
    (initializeProfiler c id items s).1.managedProfilerLoadedAppDomains =
      s.managedProfilerLoadedAppDomains := by
  obtain h | ⟨_, _, _, _, h⟩ := initializeProfiler_cases c s id items <;> rw [h]

@[simp] theorem initializeProfiler_firstJitCompilationAppDomains (id : String)
    (items : Option (List CallTargetDefinition)) :
    (initializeProfiler c id items s).1.firstJitCompilationAppDomains =
      s.firstJitCompilationAppDomains := by
  obtain h | ⟨_, _, _, _, h⟩ := initializeProfiler_cases c s id items <;> rw [h]

@[simp] theorem initializeProfiler_moduleIds (id : String)
    (items : Option (List CallTargetDefinition)) :
    (initializeProfiler c id items s).1.moduleIds = s.moduleIds := by
  obtain h | ⟨_, _, _, _, h⟩ := initializeProfiler_cases c s id items <;> rw [h]

end Tables

end DdTrace.Profiler
