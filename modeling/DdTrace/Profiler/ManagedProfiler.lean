import DdTrace.Profiler.Callbacks
import Mathlib.Data.Finset.Filter

/-!
# CorProfiler: the AppDomains Datadog.Trace is loaded in

`managed_profiler_loaded_app_domains` is entered by `AssemblyLoadFinished` and
left by `ModuleUnloadStarted`. A monitor records the assemblies themselves: each
Datadog.Trace of a viable version that finished loading, as its AppDomain and
its manifest module, until that module is unloaded. The set follows them in
every state of a run exactly when its steps keep track (`KeepsTrack`). What
breaks it is the unload: it is keyed by the AppDomain of whichever module is
stored in the map, not by the module of Datadog.Trace.
-/

namespace DdTrace.Profiler

open DdTrace.Lib
open DdTrace.Rejit.CorProfiler (ModuleID managed_profiler_name)

/-- A Datadog.Trace assembly of a viable version finished loading. -/
def AssemblyLoad.loadsTrace (c : Settings) (a : AssemblyLoad) : Bool :=
  !FAILED a.hrStatus && a.name = managed_profiler_name && isViableVersion c a.version

/-- The runtime answers what the callback asks of the assembly. -/
def AssemblyLoad.answers (a : AssemblyLoad) : Bool :=
  a.getAssemblyInfo && !FAILED a.getModuleMetaData && a.getAssemblyProps

/-- The Datadog.Trace assemblies loaded, with their AppDomain and manifest module. -/
def traceAssemblies (c : Settings) :
    Monitor CorProfiler Callback (Finset (AppDomainID × ModuleID)) where
  next _ i g :=
    match i with
    | .assemblyLoadFinished a =>
      if a.loadsTrace c then insert (a.appDomainId, a.manifestModuleId) g else g
    | .moduleUnloadStarted m => g.filter (·.2 ≠ m)
    | _ => g

abbrev Watched := CorProfiler × Finset (AppDomainID × ModuleID)

def Tracked (w : Watched) : Prop :=
  ∀ d, d ∈ w.1.managedProfilerLoadedAppDomains ↔ ∃ m, (d, m) ∈ w.2

/-- The map holds the module under this AppDomain. -/
def StoredIn (s : CorProfiler) (m : ModuleID) (d : AppDomainID) : Prop :=
  ∃ metadata, s.moduleIdToInfoMap m = some metadata ∧ metadata.appDomainId = d

/-- A Datadog.Trace assembly loads with the answers there, or where one is loaded already; a
module unloads that is stored in an AppDomain of Datadog.Trace exactly if it is the only
Datadog.Trace module of that AppDomain. -/
def KeepsTrack (c : Settings) (w : Watched) : Callback → Prop
  | .assemblyLoadFinished a =>
    a.loadsTrace c → a.answers ∨ ∃ m, (a.appDomainId, m) ∈ w.2
  | .moduleUnloadStarted m =>
    ∀ d, (∃ m', (d, m') ∈ w.2) →
      (StoredIn w.1 m d ↔ ∀ m', (d, m') ∈ w.2 → m' = m)
  | _ => True

variable {c : Settings} {w : Watched} {s : CorProfiler}

/-! ## One step -/

theorem isViableVersion_importedVersion (a : AssemblyLoad) :
    isViableVersion c a.importedVersion = (a.getAssemblyProps && isViableVersion c a.version) := by
  cases h : a.getAssemblyProps with
  | true => simp [AssemblyLoad.importedVersion, h]
  | false =>
    -- without the properties the version is 0.0.0.0, below the profiler's
    have hzero : isViableVersion c {} = false := by
      unfold isViableVersion
      split <;> decide
    simp [AssemblyLoad.importedVersion, h, hzero]

theorem assemblyLoadFinished_managedProfilerLoadedAppDomains (a : AssemblyLoad) :
    (assemblyLoadFinished c a s).managedProfilerLoadedAppDomains =
      if a.loadsTrace c && a.answers then
        insert a.appDomainId s.managedProfilerLoadedAppDomains
      else s.managedProfilerLoadedAppDomains := by
  simp only [assemblyLoadFinished, isViableVersion_importedVersion, AssemblyLoad.loadsTrace,
    AssemblyLoad.answers]
  split_ifs <;> simp_all

theorem mem_moduleUnloadStarted_managedProfilerLoadedAppDomains {m : ModuleID} {d : AppDomainID} :
    d ∈ (moduleUnloadStarted m s).managedProfilerLoadedAppDomains ↔
      d ∈ s.managedProfilerLoadedAppDomains ∧ ¬ StoredIn s m d := by
  unfold moduleUnloadStarted StoredIn
  cases s.moduleIdToInfoMap m with
  | none => simp
  | some metadata => simp [and_comm, eq_comm]

theorem tracked_assemblyLoadFinished_iff (h : Tracked w) (a : AssemblyLoad) :
    Tracked (step c w.1 (.assemblyLoadFinished a),
        (traceAssemblies c).next w.1 (.assemblyLoadFinished a) w.2) ↔
      KeepsTrack c w (.assemblyLoadFinished a) := by
  simp only [Tracked, step, call, traceAssemblies, KeepsTrack,
    assemblyLoadFinished_managedProfilerLoadedAppDomains]
  cases hload : a.loadsTrace c
  · simpa [Tracked] using h
  cases hanswers : a.answers
  · simp only [Bool.and_false, Bool.false_eq_true, if_false, if_true, Finset.mem_insert,
      Prod.mk.injEq, false_or, forall_const]
    constructor
    · intro hd
      exact (h _).1 ((hd a.appDomainId).2 ⟨a.manifestModuleId, .inl ⟨rfl, rfl⟩⟩)
    · rintro ⟨m, hm⟩ d
      rw [h d]
      refine ⟨fun ⟨m', hm'⟩ => ⟨m', .inr hm'⟩, ?_⟩
      rintro ⟨m', ⟨rfl, rfl⟩ | hm'⟩
      · exact ⟨m, hm⟩
      · exact ⟨m', hm'⟩
  · simp only [Bool.and_true, if_true, Finset.mem_insert, Prod.mk.injEq, true_or, forall_const,
      iff_true]
    intro d
    rw [h d]
    constructor
    · rintro (rfl | ⟨m, hm⟩)
      · exact ⟨a.manifestModuleId, .inl ⟨rfl, rfl⟩⟩
      · exact ⟨m, .inr hm⟩
    · rintro ⟨m, ⟨rfl, -⟩ | hm⟩
      · exact .inl rfl
      · exact .inr ⟨m, hm⟩

theorem tracked_moduleUnloadStarted_iff (h : Tracked w) (m : ModuleID) :
    Tracked (step c w.1 (.moduleUnloadStarted m),
        (traceAssemblies c).next w.1 (.moduleUnloadStarted m) w.2) ↔
      KeepsTrack c w (.moduleUnloadStarted m) := by
  simp only [Tracked, step, call, traceAssemblies, KeepsTrack,
    mem_moduleUnloadStarted_managedProfilerLoadedAppDomains, Finset.mem_filter, h _]
  refine forall_congr' fun d => ?_
  by_cases hd : ∃ m', (d, m') ∈ w.2
  · simp only [hd, true_and, forall_const]
    have hother : (∃ m', (d, m') ∈ w.2 ∧ m' ≠ m) ↔ ¬ ∀ m', (d, m') ∈ w.2 → m' = m := by
      push Not
      rfl
    rw [hother, not_iff_not]
  · have hnone : ¬ ∃ m', (d, m') ∈ w.2 ∧ m' ≠ m := fun ⟨m', hm', _⟩ => hd ⟨m', hm'⟩
    simp [hd, hnone]

theorem tracked_step_iff (h : Tracked w) (i : Callback) :
    Tracked (step c w.1 i, (traceAssemblies c).next w.1 i w.2) ↔ KeepsTrack c w i := by
  cases i with
  | assemblyLoadFinished a => exact tracked_assemblyLoadFinished_iff h a
  | moduleUnloadStarted m => exact tracked_moduleUnloadStarted_iff h m
  | moduleLoadFinished l => simpa [Tracked, step, call, traceAssemblies, KeepsTrack] using h
  | jitCompilationStarted j => simpa [Tracked, step, call, traceAssemblies, KeepsTrack] using h
  | jitCachedFunctionSearchStarted j =>
    simpa [Tracked, step, call, traceAssemblies, KeepsTrack] using h
  | appDomainShutdownFinished d =>
    simpa [Tracked, step, call, traceAssemblies, KeepsTrack, appDomainShutdownFinished] using h
  | initializeProfiler id items =>
    simpa [Tracked, step, call, traceAssemblies, KeepsTrack] using h

/-- Where the set follows the assemblies, instrumentation goes on beside every Datadog.Trace. -/
theorem profilerAssemblyIsLoadedIntoAppDomain_of_tracked (h : Tracked w) {d : AppDomainID}
    {m : ModuleID} (hm : (d, m) ∈ w.2) : profilerAssemblyIsLoadedIntoAppDomain w.1 d = true := by
  have hd := (h d).2 ⟨m, hm⟩
  simp [profilerAssemblyIsLoadedIntoAppDomain, hd]

/-! ## A run -/

theorem tracked_init (integrationMethods : List IntegrationMethod) :
    Tracked (init integrationMethods, ∅) := by
  simp [Tracked, init]

/-- The set follows the Datadog.Trace assemblies in every state of a run of callbacks exactly when
every step of the run keeps track. -/
theorem managedProfilerLoadedAppDomains_tracked_iff (c : Settings)
    (integrationMethods : List IntegrationMethod) (is : List Callback) :
    EachState (watch (step c) (traceAssemblies c)) Tracked (init integrationMethods, ∅) is ↔
      EachStep (watch (step c) (traceAssemblies c)) (KeepsTrack c) (init integrationMethods, ∅)
        is := by
  rw [eachState_watch_iff (I := fun _ => True) (P := Tracked) (C := KeepsTrack c)
    (fun _ _ _ _ => trivial) (fun _ i _ h _ => tracked_step_iff h i) trivial
    (tracked_init integrationMethods)]
  simp only [traceAssemblies, forall_const]

/-- A module of the application, stored under AppDomain 1, is unloaded next to Datadog.Trace. -/
def unloadBesideTrace : List Callback :=
  [.moduleLoadFinished
      { moduleId := 7
        info := { assemblyName := "App", appDomainId := 1 }
        assembly := { name := "App" } },
    .assemblyLoadFinished
      { name := managed_profiler_name
        manifestModuleId := 5
        appDomainId := 1
        version := managedProfilerVersion },
    .moduleUnloadStarted 7]

theorem unloadBesideTrace_not_tracked :
    ¬ EachState (watch (step ⟨false, .core, false⟩) (traceAssemblies ⟨false, .core, false⟩)) Tracked
      (init [⟨"", "App", {}, managedProfilerVersion⟩], ∅) unloadBesideTrace := by
  intro h
  have htracked := h unloadBesideTrace [] _ (by simp) (run_watch (fun _ _ => trivial) _ _) 1
  exact absurd (htracked.2 ⟨5, by decide +kernel⟩) (by decide +kernel)

end DdTrace.Profiler
