import DdTrace.Profiler.Callbacks

/-!
# CorProfiler: the AppDomains marked for the startup hook

`JITCompilationStarted` enters the AppDomain in `first_jit_compilation_app_domains`
in front of the two injection steps and leaves it there when one of them fails.
A monitor records where the hook was injected and where the loader assembly was
seen loading, both until the AppDomain is shut down. The marks agree with it in
every state of a run exactly when every injection the run attempts succeeds.
-/

namespace DdTrace.Profiler

open DdTrace.Lib
open DdTrace.Rejit.CorProfiler (ModuleID managed_loader_assemblyName)

/-- What happened in the AppDomains since they were started. -/
structure Hooks where
  injected : Finset AppDomainID := ∅
  loaderSeen : Finset AppDomainID := ∅

def startupHooks (c : Settings) : Monitor CorProfiler Callback Hooks where
  next s i g :=
    match i with
    | .jitCompilationStarted _ =>
      match request c s i with
      | some (.startupHook d hr) =>
        if FAILED hr then g else { g with injected := insert d g.injected }
      | _ => g
    | .moduleLoadFinished l =>
      if l.seesLoader then { g with loaderSeen := insert l.info.appDomainId g.loaderSeen } else g
    | .appDomainShutdownFinished d =>
      { injected := g.injected.erase d, loaderSeen := g.loaderSeen.erase d }
    | _ => g

abbrev Hooked := CorProfiler × Hooks

/-- A marked AppDomain has the startup hook, or its loader was seen. -/
def MarksInjected (w : Hooked) : Prop :=
  ∀ d ∈ w.1.firstJitCompilationAppDomains, d ∈ w.2.injected ∨ d ∈ w.2.loaderSeen

/-- An eligible compilation injects the hook where it is not there yet. -/
def Retries (c : Settings) (w : Hooked) : Prop :=
  ∀ j d, j.eligibleAppDomain c w.1 = some d → d ∉ w.2.injected → d ∉ w.2.loaderSeen →
    request c w.1 (.jitCompilationStarted j) = some (.startupHook d (injectStartupHook c j))

def Bookkept (c : Settings) (w : Hooked) : Prop := MarksInjected w ∧ Retries c w

def JitCompilation.injectionSucceeds (c : Settings) (j : JitCompilation) : Bool :=
  !FAILED j.generateVoidILStartupMethod && !FAILED j.rewriterImport && !FAILED j.rewriterExport &&
    (!c.isDesktopIis || !FAILED j.addIISPreStartInitFlags)

/-- No injection step fails in a compilation that is eligible for an AppDomain not marked yet. -/
def InjectionSucceeds (c : Settings) (w : Hooked) : Callback → Prop
  | .jitCompilationStarted j =>
    ∀ d, j.eligibleAppDomain c w.1 = some d → d ∉ w.1.firstJitCompilationAppDomains →
      j.injectionSucceeds c
  | _ => True

/-- Where the hook or the loader is, the AppDomain is marked. -/
structure HooksMarked (w : Hooked) : Prop where
  injected : w.2.injected ⊆ w.1.firstJitCompilationAppDomains
  loaderSeen : w.2.loaderSeen ⊆ w.1.firstJitCompilationAppDomains

variable {c : Settings} {w : Hooked}

/-! ## One step -/

theorem failed_injectStartupHook (j : JitCompilation) :
    FAILED (injectStartupHook c j) = !j.injectionSucceeds c := by
  have hok : FAILED S_OK = false := by decide
  unfold injectStartupHook runILStartupHook JitCompilation.injectionSucceeds
  split_ifs <;> simp_all

theorem retries_of_marksInjected (h : MarksInjected w) : Retries c w := by
  intro j d hd hinjected hloader
  have hmark : d ∉ w.1.firstJitCompilationAppDomains := fun hm =>
    (h d hm).elim hinjected hloader
  simp [request, call, jitCompilationStarted_eq, hd, hmark]

theorem bookkept_iff : Bookkept c w ↔ MarksInjected w :=
  ⟨And.left, fun h => ⟨h, retries_of_marksInjected h⟩⟩

/-- What a compilation does to the marks and to the record: nothing, or one injection. -/
theorem watch_jitCompilationStarted (c : Settings) (w : Hooked) (j : JitCompilation) :
    (step c w.1 (.jitCompilationStarted j) = w.1 ∧
      (startupHooks c).next w.1 (.jitCompilationStarted j) w.2 = w.2 ∧
      ∀ d, j.eligibleAppDomain c w.1 = some d → d ∈ w.1.firstJitCompilationAppDomains) ∨
    ∃ d, j.eligibleAppDomain c w.1 = some d ∧ d ∉ w.1.firstJitCompilationAppDomains ∧
      step c w.1 (.jitCompilationStarted j) =
        { w.1 with
          firstJitCompilationAppDomains := insert d w.1.firstJitCompilationAppDomains } ∧
      (startupHooks c).next w.1 (.jitCompilationStarted j) w.2 =
        if j.injectionSucceeds c then { w.2 with injected := insert d w.2.injected } else w.2 := by
  cases hd : j.eligibleAppDomain c w.1 with
  | none =>
    refine .inl ⟨?_, ?_, by simp⟩
    · simp [step, call, jitCompilationStarted_eq, hd]
    · simp [startupHooks, request, call, jitCompilationStarted_eq, hd]
  | some d =>
    by_cases hmark : d ∈ w.1.firstJitCompilationAppDomains
    · refine .inl ⟨?_, ?_, fun d' hd' => Option.some.inj hd' ▸ hmark⟩
      · simp [step, call, jitCompilationStarted_eq, hd, hmark]
      · simp [startupHooks, request, call, jitCompilationStarted_eq, hd, hmark]
    · refine .inr ⟨d, rfl, hmark, ?_, ?_⟩
      · simp [step, call, jitCompilationStarted_eq, hd, hmark]
      · simp only [startupHooks, request, call, jitCompilationStarted_eq, hd, hmark, if_false,
          failed_injectStartupHook]
        cases j.injectionSucceeds c <;> rfl

theorem hooksMarked_step (h : HooksMarked w) (i : Callback) :
    HooksMarked (step c w.1 i, (startupHooks c).next w.1 i w.2) := by
  obtain ⟨hinjected, hloader⟩ := h
  cases i with
  | jitCompilationStarted j =>
    obtain ⟨hs, hg, -⟩ | ⟨d, -, -, hs, hg⟩ := watch_jitCompilationStarted c w j
    · rw [hs, hg]
      exact ⟨hinjected, hloader⟩
    · rw [hs, hg]
      refine ⟨?_, ?_⟩
      · show (if _ then _ else _ : Hooks).injected ⊆ insert d _
        split_ifs
        · exact Finset.insert_subset_insert d hinjected
        · exact hinjected.trans (Finset.subset_insert d _)
      · show (if _ then _ else _ : Hooks).loaderSeen ⊆ insert d _
        split_ifs <;> exact hloader.trans (Finset.subset_insert d _)
  | moduleLoadFinished l =>
    have hmarks := moduleLoadFinished_firstJitCompilationAppDomains c w.1 l
    cases hl : l.seesLoader <;> rw [hl] at hmarks
    · refine ⟨?_, ?_⟩ <;> simpa [step, call, startupHooks, hl, hmarks]
    · refine ⟨?_, ?_⟩
      · simpa [step, call, startupHooks, hl, hmarks] using
          hinjected.trans (Finset.subset_insert _ _)
      · simpa [step, call, startupHooks, hl, hmarks] using Finset.insert_subset_insert _ hloader
  | appDomainShutdownFinished d =>
    exact ⟨Finset.erase_subset_erase d hinjected, Finset.erase_subset_erase d hloader⟩
  | assemblyLoadFinished a => refine ⟨?_, ?_⟩ <;> simpa [step, call, startupHooks]
  | moduleUnloadStarted m => refine ⟨?_, ?_⟩ <;> simpa [step, call, startupHooks]
  | jitCachedFunctionSearchStarted j => exact ⟨hinjected, hloader⟩
  | initializeProfiler id items => refine ⟨?_, ?_⟩ <;> simpa [step, call, startupHooks]

theorem marksInjected_jitCompilationStarted_iff (hw : HooksMarked w) (h : MarksInjected w)
    (j : JitCompilation) :
    MarksInjected (step c w.1 (.jitCompilationStarted j),
        (startupHooks c).next w.1 (.jitCompilationStarted j) w.2) ↔
      InjectionSucceeds c w (.jitCompilationStarted j) := by
  obtain ⟨hs, hg, hnone⟩ | ⟨d, hd, hmark, hs, hg⟩ := watch_jitCompilationStarted c w j
  · rw [hs, hg]
    exact iff_of_true h fun d hd hmark => absurd (hnone d hd) hmark
  rw [hs, hg]
  cases hj : j.injectionSucceeds c with
  | true =>
    refine iff_of_true ?_ fun _ _ _ => hj
    intro d' hd'
    obtain rfl | hd' := Finset.mem_insert.1 hd'
    · exact .inl (Finset.mem_insert_self _ _)
    · exact (h d' hd').imp (Finset.mem_insert_of_mem ·) id
  | false =>
    -- the AppDomain is marked now, and nothing recorded of it could have marked it before
    refine iff_of_false (fun hm => ?_) fun hc => absurd (hc d hd hmark) (by simp [hj])
    obtain hi | hl := hm d (Finset.mem_insert_self _ _)
    · exact hmark (hw.injected hi)
    · exact hmark (hw.loaderSeen hl)

theorem marksInjected_step_iff (hw : HooksMarked w) (h : MarksInjected w) (i : Callback) :
    MarksInjected (step c w.1 i, (startupHooks c).next w.1 i w.2) ↔ InjectionSucceeds c w i := by
  cases i with
  | jitCompilationStarted j => exact marksInjected_jitCompilationStarted_iff hw h j
  | moduleLoadFinished l =>
    refine iff_of_true ?_ trivial
    have hmarks := moduleLoadFinished_firstJitCompilationAppDomains c w.1 l
    intro d hd
    rw [step, call, hmarks] at hd
    simp only [startupHooks]
    split_ifs at hd ⊢
    · obtain rfl | hd := Finset.mem_insert.1 hd
      · exact .inr (Finset.mem_insert_self _ _)
      · exact (h d hd).imp id (Finset.mem_insert_of_mem ·)
    · exact h d hd
  | appDomainShutdownFinished d =>
    refine iff_of_true ?_ trivial
    intro d' hd'
    obtain ⟨hne, hd'⟩ := Finset.mem_erase.1 hd'
    exact (h d' hd').imp (Finset.mem_erase.2 ⟨hne, ·⟩) (Finset.mem_erase.2 ⟨hne, ·⟩)
  | assemblyLoadFinished a =>
    simpa [MarksInjected, step, call, startupHooks, InjectionSucceeds] using h
  | moduleUnloadStarted m =>
    simpa [MarksInjected, step, call, startupHooks, InjectionSucceeds] using h
  | jitCachedFunctionSearchStarted j => exact iff_of_true h trivial
  | initializeProfiler id items =>
    simpa [MarksInjected, step, call, startupHooks, InjectionSucceeds] using h

/-! ## A run -/

theorem hooksMarked_init (integrationMethods : List IntegrationMethod) :
    HooksMarked (init integrationMethods, {}) := by
  refine ⟨?_, ?_⟩ <;> simp [init]

theorem bookkept_init (c : Settings) (integrationMethods : List IntegrationMethod) :
    Bookkept c (init integrationMethods, {}) := by
  rw [bookkept_iff]
  simp [MarksInjected, init]

/-- The marks agree with the injections, and a failed one is tried again, in every state of a run
of callbacks exactly when every injection attempted in it succeeds. -/
theorem firstJitCompilationAppDomains_bookkept_iff (c : Settings)
    (integrationMethods : List IntegrationMethod) (is : List Callback) :
    EachState (watch (step c) (startupHooks c)) (Bookkept c) (init integrationMethods, {}) is ↔
      EachStep (watch (step c) (startupHooks c)) (InjectionSucceeds c)
        (init integrationMethods, {}) is := by
  rw [eachState_watch_iff (I := HooksMarked) (P := Bookkept c) (C := InjectionSucceeds c)
    (fun _ i h _ => hooksMarked_step h i) ?_ (hooksMarked_init integrationMethods)
    (bookkept_init c integrationMethods)]
  · simp only [startupHooks, forall_const]
  · intro w i hw h _
    rw [bookkept_iff]
    exact marksInjected_step_iff hw h.1 i

/-- `Export` fails in the first method compiled of a module recorded in AppDomain 1. -/
def failedExport : List Callback :=
  [.moduleLoadFinished
      { moduleId := 7
        info := { assemblyName := "App", appDomainId := 1 } },
    .jitCompilationStarted
      { moduleId := 7
        info := { assemblyName := "App", appDomainId := 1 }
        callerTypeName := "App.Program"
        callerName := "Main"
        rewriterExport := -2147467259 }]

theorem failedExport_not_bookkept :
    ¬ EachState (watch (step ⟨true, .core, false⟩) (startupHooks ⟨true, .core, false⟩))
      (Bookkept ⟨true, .core, false⟩) (init [], {}) failedExport := by
  intro h
  have hmarks := (h failedExport [] _ (by simp) (run_watch (fun _ _ => trivial) _ _)).1 1
  exact absurd (hmarks (by decide)) (by decide)

end DdTrace.Profiler
