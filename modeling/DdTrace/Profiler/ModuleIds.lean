import DdTrace.Profiler.Callbacks
import Mathlib.Data.List.Nodup

/-!
# CorProfiler: the modules handed to the ReJIT thread

`module_ids_` only grows: `ModuleUnloadStarted` takes a module out of the map
and out of the ReJIT handler, not out of the vector. So the vector holds the
modules recorded that are still loaded and, next to them, all that were recorded
and unloaded (`Modules.Holds`), and `InitializeProfiler` hands over both.
-/

namespace DdTrace.Profiler

open DdTrace.Lib
open DdTrace.Rejit.CorProfiler (ModuleID)

/-- The modules loaded, those of them recorded in `module_ids_`, and those recorded and unloaded
since. -/
structure Modules where
  loaded : Finset ModuleID := ∅
  recorded : List ModuleID := []
  unloaded : List ModuleID := []

/-- The runtime gives a module an id that no loaded module has. -/
def moduleLoads (c : Settings) : Monitor CorProfiler Callback Modules where
  allows g i :=
    match i with
    | .moduleLoadFinished l => l.moduleId ∉ g.loaded
    | _ => True
  next s i g :=
    match i with
    | .moduleLoadFinished l =>
      if FAILED l.hrStatus then g
      else
        { g with
          loaded := insert l.moduleId g.loaded
          recorded := if l.isRecorded c s then g.recorded ++ [l.moduleId] else g.recorded }
    | .moduleUnloadStarted m =>
      { loaded := g.loaded.erase m
        recorded := g.recorded.erase m
        unloaded := if m ∈ g.recorded then m :: g.unloaded else g.unloaded }
    | _ => g

abbrev Loaded := CorProfiler × Modules

/-- What the callback hands to the ReJIT thread are modules loaded and not yet unloaded, each once. -/
def HandsOverLoaded (c : Settings) (w : Loaded) (i : Callback) : Prop :=
  ∀ modules integrations, request c w.1 i = some (.enqueueProcessModule modules integrations) →
    (∀ m ∈ modules, m ∈ w.2.loaded) ∧ modules.Nodup

/-- `InitializeProfiler` with a new id and definitions, and a ReJIT handler to hand them to. -/
def handsOver (c : Settings) (s : CorProfiler) : Callback → Bool
  | .initializeProfiler id (some _) => id ∉ s.definitionsIds && c.hasRejitHandler
  | _ => false

/-- Before modules are handed over, none recorded has been unloaded, but for ids that the runtime
has given once again, to a loaded module that is not recorded. -/
def NoneUnloaded (c : Settings) (w : Loaded) (i : Callback) : Prop :=
  handsOver c w.1 i →
    w.2.unloaded.Nodup ∧ ∀ m ∈ w.2.unloaded, m ∈ w.2.loaded ∧ m ∉ w.2.recorded

/-- What the vector holds against what happened to the modules. -/
structure Modules.Holds (w : Loaded) : Prop where
  moduleIds : w.1.moduleIds.Perm (w.2.unloaded ++ w.2.recorded)
  recorded : ∀ m ∈ w.2.recorded, m ∈ w.2.loaded
  nodup : w.2.recorded.Nodup

variable {c : Settings} {w : Loaded}

/-! ## One step -/

theorem Modules.Holds.moduleLoadFinished (h : Modules.Holds w) (l : ModuleLoad)
    (hnew : l.moduleId ∉ w.2.loaded) :
    Modules.Holds (step c w.1 (.moduleLoadFinished l),
      (moduleLoads c).next w.1 (.moduleLoadFinished l) w.2) := by
  obtain ⟨hperm, hloaded, hnodup⟩ := h
  have hids := moduleLoadFinished_moduleIds c w.1 l
  have hmono : ∀ m ∈ w.2.recorded, m = l.moduleId ∨ m ∈ w.2.loaded := fun m hm =>
    .inr (hloaded m hm)
  cases hfail : FAILED l.hrStatus with
  | true =>
    have hrec : l.isRecorded c w.1 = false := by simp [ModuleLoad.isRecorded, hfail]
    rw [hrec] at hids
    refine ⟨?_, ?_, ?_⟩ <;> simpa [step, call, moduleLoads, hfail, hids]
  | false =>
    cases hrec : l.isRecorded c w.1 with
    | false =>
      rw [hrec] at hids
      refine ⟨?_, ?_, ?_⟩ <;> simpa [step, call, moduleLoads, hfail, hrec, hids]
    | true =>
      rw [hrec] at hids
      have hfresh : l.moduleId ∉ w.2.recorded := fun hm => hnew (hloaded _ hm)
      refine ⟨?_, ?_, ?_⟩
      · simpa [step, call, moduleLoads, hfail, hrec, hids, ← List.append_assoc] using
          hperm.append_right [l.moduleId]
      · simp only [moduleLoads, hfail, hrec, if_true, Bool.false_eq_true, if_false,
          List.mem_append, List.mem_singleton]
        rintro m (hm | rfl)
        · exact Finset.mem_insert_of_mem (hloaded m hm)
        · exact Finset.mem_insert_self _ _
      · simp only [moduleLoads, hfail, hrec, if_true, Bool.false_eq_true, if_false]
        exact hnodup.append (List.nodup_singleton _) (by simpa using hfresh)

theorem Modules.Holds.moduleUnloadStarted (h : Modules.Holds w) (m : ModuleID) :
    Modules.Holds (step c w.1 (.moduleUnloadStarted m),
      (moduleLoads c).next w.1 (.moduleUnloadStarted m) w.2) := by
  obtain ⟨hperm, hloaded, hnodup⟩ := h
  refine ⟨?_, ?_, ?_⟩
  · show (DdTrace.Profiler.moduleUnloadStarted m w.1).moduleIds.Perm
      ((if m ∈ w.2.recorded then m :: w.2.unloaded else w.2.unloaded) ++ w.2.recorded.erase m)
    rw [moduleUnloadStarted_moduleIds]
    split_ifs with hm
    · -- the module moves from the recorded ones to the unloaded ones
      refine hperm.trans ?_
      refine ((List.perm_cons_erase hm).append_left _).trans ?_
      exact List.perm_middle
    · rw [List.erase_of_not_mem hm]
      exact hperm
  · intro m' hm'
    obtain ⟨hne, hm'⟩ := (List.Nodup.mem_erase_iff hnodup).1 hm'
    exact Finset.mem_erase.2 ⟨hne, hloaded m' hm'⟩
  · exact hnodup.erase m

theorem Modules.Holds.step (h : Modules.Holds w) (i : Callback)
    (hi : (moduleLoads c).allows w.2 i) :
    Modules.Holds (step c w.1 i, (moduleLoads c).next w.1 i w.2) := by
  obtain ⟨hperm, hloaded, hnodup⟩ := id h
  cases i with
  | moduleLoadFinished l => exact h.moduleLoadFinished l hi
  | moduleUnloadStarted m => exact h.moduleUnloadStarted m
  | assemblyLoadFinished a =>
    exact ⟨by simpa [Profiler.step, call, moduleLoads], hloaded, hnodup⟩
  | jitCompilationStarted j =>
    exact ⟨by simpa [Profiler.step, call, moduleLoads], hloaded, hnodup⟩
  | jitCachedFunctionSearchStarted j => exact h
  | appDomainShutdownFinished d => exact ⟨hperm, hloaded, hnodup⟩
  | initializeProfiler id items =>
    exact ⟨by simpa [Profiler.step, call, moduleLoads], hloaded, hnodup⟩

/-- Only `InitializeProfiler` hands modules over, and it hands over the whole vector. -/
theorem request_eq_enqueueProcessModule {i : Callback} {modules : List ModuleID}
    {integrations : List IntegrationMethod}
    (h : request c w.1 i = some (.enqueueProcessModule modules integrations)) :
    handsOver c w.1 i = true ∧ modules = w.1.moduleIds := by
  cases i with
  | moduleLoadFinished l =>
    simp only [request, call, Profiler.moduleLoadFinished, recordModule] at h
    split_ifs at h
    simp at h
  | jitCompilationStarted j =>
    simp only [request, call] at h
    obtain hj | ⟨d, _, _, hj⟩ := jitCompilationStarted_cases c w.1 j
    · rw [hj] at h
      cases h
    · rw [hj] at h
      cases h
  | jitCachedFunctionSearchStarted j =>
    simp only [request, call, jitCachedFunctionSearchStarted] at h
    split_ifs at h
    split at h <;> simp at h
  | initializeProfiler id items =>
    simp only [request, call] at h
    obtain hi | ⟨definitions, rfl, hid, hhandler, hi⟩ := initializeProfiler_cases c w.1 id items
    · rw [hi] at h
      cases h
    · rw [hi] at h
      cases h
      exact ⟨by simp [handsOver, hid, hhandler], rfl⟩
  | _ => cases h

theorem exists_request_of_handsOver {i : Callback} (h : handsOver c w.1 i = true) :
    ∃ integrations, request c w.1 i = some (.enqueueProcessModule w.1.moduleIds integrations) := by
  cases i with
  | initializeProfiler id items =>
    cases items with
    | none => cases h
    | some items =>
      simp only [handsOver, Bool.and_eq_true, decide_eq_true_eq] at h
      refine ⟨items.map (·.toIntegration), ?_⟩
      simp [request, call, initializeProfiler.eq_def, h.1, h.2]
  | _ => cases h

theorem Modules.Holds.loaded_nodup_iff (h : Modules.Holds w) :
    ((∀ m ∈ w.1.moduleIds, m ∈ w.2.loaded) ∧ w.1.moduleIds.Nodup) ↔
      w.2.unloaded.Nodup ∧ ∀ m ∈ w.2.unloaded, m ∈ w.2.loaded ∧ m ∉ w.2.recorded := by
  rw [h.moduleIds.nodup_iff, List.nodup_append]
  simp only [h.moduleIds.mem_iff, List.mem_append]
  constructor
  · rintro ⟨hloaded, hun, -, hdisj⟩
    exact ⟨hun, fun m hm => ⟨hloaded m (.inl hm), fun hr => hdisj m hm m hr rfl⟩⟩
  · rintro ⟨hun, hall⟩
    refine ⟨?_, hun, h.nodup, ?_⟩
    · rintro m (hm | hm)
      · exact (hall m hm).1
      · exact h.recorded m hm
    · rintro m hm m' hm' rfl
      exact (hall m hm).2 hm'

theorem handsOverLoaded_iff (h : Modules.Holds w) (i : Callback) :
    HandsOverLoaded c w i ↔ NoneUnloaded c w i := by
  unfold NoneUnloaded
  rw [← h.loaded_nodup_iff]
  constructor
  · intro hl hi
    obtain ⟨integrations, hr⟩ := exists_request_of_handsOver hi
    exact hl _ integrations hr
  · intro hl modules integrations hr
    obtain ⟨hi, rfl⟩ := request_eq_enqueueProcessModule hr
    exact hl hi

/-! ## A run -/

theorem Modules.holds_init (integrationMethods : List IntegrationMethod) :
    Modules.Holds (init integrationMethods, {}) := by
  refine ⟨?_, ?_, ?_⟩ <;> simp [init]

/-- In a run of callbacks only modules loaded and not yet unloaded are handed to the ReJIT thread,
each once, exactly when no recorded module has been unloaded before a hand-over. -/
theorem initializeProfiler_handsOverLoaded_iff (c : Settings)
    (integrationMethods : List IntegrationMethod) (is : List Callback) :
    EachStep (watch (step c) (moduleLoads c)) (HandsOverLoaded c) (init integrationMethods, {})
        is ↔
      EachStep (watch (step c) (moduleLoads c)) (NoneUnloaded c) (init integrationMethods, {}) is :=
  eachStep_watch_congr (I := Modules.Holds) (fun _ i h hi => h.step i hi)
    (fun _ i h => handsOverLoaded_iff h i) (Modules.holds_init integrationMethods)

def appLoad : ModuleLoad where
  moduleId := 7
  info := { assemblyName := "App", appDomainId := 1 }

/-- A module is recorded and unloaded, and then the definitions arrive. -/
def unloadBeforeDefinitions : List Callback :=
  [.moduleLoadFinished appLoad, .moduleUnloadStarted 7,
    .initializeProfiler "1" (some [⟨"App", 1, 0, 0, 2, 0, 0⟩])]

theorem unloadBeforeDefinitions_not_handsOverLoaded :
    ¬ EachStep (watch (step ⟨true, .core, false⟩) (moduleLoads ⟨true, .core, false⟩))
      (HandsOverLoaded ⟨true, .core, false⟩) (init [], {}) unloadBeforeDefinitions := by
  intro h
  have hload := watch_of_allows (f := step ⟨true, .core, false⟩)
    (M := moduleLoads ⟨true, .core, false⟩) (w := (init [], {})) (i := .moduleLoadFinished appLoad)
    (Finset.notMem_empty 7)
  have hrun : Run (watch (step ⟨true, .core, false⟩) (moduleLoads ⟨true, .core, false⟩))
      (init [], {}) [.moduleLoadFinished appLoad, .moduleUnloadStarted 7] _ :=
    .cons hload (.cons (watch_of_allows trivial) (.nil _))
  have hhanded := h [.moduleLoadFinished appLoad, .moduleUnloadStarted 7]
    (.initializeProfiler "1" (some [⟨"App", 1, 0, 0, 2, 0, 0⟩])) [] _ rfl hrun
  have hloaded := (hhanded [7] [⟨"", "App", ⟨1, 0, 0, 0⟩, ⟨2, 0, 0, 0⟩⟩] (by decide)).1 7
    (List.mem_singleton.2 rfl)
  exact absurd hloaded (by decide)

end DdTrace.Profiler
