import DdTrace.Rejit.CorProfiler
import Mathlib.Data.List.Count

/-!
# Each module against each integration, once

A pair of a loaded module and a registered integration is submitted by the load
of the module when the integration is there, and by the registration when the
module is. Both keep `module_id_to_info_map_lock_`, so what is left to do lies
with one thread (`Stage`). `ModuleUnloadStarted` leaves the id of the module in
`module_ids_`: when the runtime gives the id to another module, a registration
finds it there twice and submits the pair twice.
-/

namespace DdTrace.Rejit.CorProfiler

open DdTrace.Lib DdTrace.Lib.Locks

variable {ι : Type} [DecidableEq ι] {initial is extra : List ι} {s s' : Tables ι} {w c : Code ι}
variable {m : ModuleID} {p : ℕ}

def moduleLock : Hold Lock := ⟨.moduleInfoMap, false⟩

/-- Each definitions id is accepted once, the integrations are those of the accepted calls, and
each of them has been submitted once for each module recorded and still loaded. -/
structure Consistent (initial : List ι) (s : Tables ι) : Prop where
  ids : (s.accepted.map (·.1)).Nodup
  integrations : s.integrationMethods = initial ++ s.accepted.flatMap (·.2)
  once : ∀ m ∈ s.loaded, ∀ i, s.submitted.count (m, i) = s.integrationMethods.count i

/-- No call is between the module lock and its release, where it may have pairs left to submit. -/
def Covers (initial : List ι) (s : State ι) : Prop :=
  s.Free moduleLock → Consistent initial s.mem

/-- A registration finds the id of no loaded module twice in `module_ids_`. -/
def Distinct (s : State ι) : Event ι → Prop
  | .call _ _ => True
  | .step t => ∀ is p rest, s.code t = .act (.enqueueProcessModule is p) :: rest → is ≠ [] →
      ∀ m ∈ s.mem.loaded, s.mem.moduleIds.count m = 1

/-! ## The stages of a registration -/

/-- What `InitializeProfiler` does under the module lock. -/
def registers : Instr Lock (Block ι) (Action ι) → Bool
  | .act (.enqueueProcessModule _ _) | .act (.awaitPromise _) | .act (.append _) => true
  | _ => false

/-- The tables when `pending` has been accepted but not appended, and `extra` been submitted but
not appended. -/
structure Settled (initial pending extra : List ι) (s : Tables ι) : Prop where
  integrations : s.integrationMethods ++ pending = initial ++ s.accepted.flatMap (·.2)
  once : ∀ m ∈ s.loaded, ∀ i, s.submitted.count (m, i) = (s.integrationMethods ++ extra).count i
  recorded : ∀ m ∈ s.loaded, m ∈ s.moduleIds
  resolved : ∀ p ∈ s.resolved, p < s.promises

/-- How far the registration is whose work `w` is left: before the item is enqueued, while it is
in the queue, when it was taken off without an answer (`stuck`), or with one. -/
inductive Stage (initial : List ι) : Code ι → Tables ι → Prop where
  | idle {s : Tables ι} : Settled initial [] [] s → s.queue = [] → Stage initial [] s
  | enqueue {s : Tables ι} {is : List ι} {p : ℕ} : Settled initial is [] s → s.queue = [] →
      p < s.promises → p ∉ s.resolved →
      Stage initial [.act (.enqueueProcessModule is p), .act (.awaitPromise p), .act (.append is)] s
  | waiting {s : Tables ι} {is : List ι} {p : ℕ} : Settled initial is [] s →
      s.queue = [⟨s.moduleIds, is, p⟩] → p < s.promises → p ∉ s.resolved →
      (is ≠ [] → ∀ m ∈ s.loaded, s.moduleIds.count m = 1) →
      Stage initial [.act (.awaitPromise p), .act (.append is)] s
  | stuck {s : Tables ι} {is : List ι} {p : ℕ} : Settled initial is [] s → s.queue = [] →
      p ∉ s.resolved → Stage initial [.act (.awaitPromise p), .act (.append is)] s
  | answered {s : Tables ι} {is : List ι} {p : ℕ} : Settled initial is is s → s.queue = [] →
      Stage initial [.act (.awaitPromise p), .act (.append is)] s
  | append {s : Tables ι} {is : List ι} : Settled initial is is s → s.queue = [] →
      Stage initial [.act (.append is)] s

theorem guarded_registers : (program ι).Guarded (registers · = true) moduleLock where
  exclusive := rfl
  start h i hi := by
    rw [start_eq_some h] at hi
    simp_all [registers]
  body {b m i} h hi := by
    cases b with
    | register id is => rfl
    | initializeProfiler id items =>
      cases items with
      | none => cases h
      | some items =>
        simp only [program, body, List.mem_ite_nil_left, List.mem_cons, List.not_mem_nil,
          or_false] at h
        rw [h.2] at hi
        cases hi
    | _ => cases h
  release k := by simp [registers]
  perform h i hi := by
    rw [mem_performCode h i hi]
    simp [registers]

theorem count_pairs (m m' : ModuleID) (is : List ι) (i : ι) :
    (is.map (m', ·)).count (m, i) = if m' = m then is.count i else 0 := by
  by_cases h : m' = m
  · subst h
    rw [if_pos rfl]
    exact List.count_map_of_injective _ _ (fun a b hab => (Prod.mk.inj hab).2) _
  · rw [if_neg h, List.count_eq_zero]
    simp [h]

theorem count_process (ms : List ModuleID) (m : ModuleID) (i : ι) :
    (s.process ms is).submitted.count (m, i) =
      s.submitted.count (m, i) + ms.count m * is.count i := by
  have hms : (ms.flatMap fun m => is.map (m, ·)).count (m, i) = ms.count m * is.count i := by
    induction ms with
    | nil => simp
    | cons m' ms ih =>
      rw [List.flatMap_cons, List.count_append, ih, count_pairs, List.count_cons]
      by_cases h : m' = m
      · simp [h, Nat.add_mul, Nat.add_comm]
      · simp [h]
  rw [Tables.process, List.count_append, hms]

/-! ## The steps -/

theorem settled_record (hs : Settled initial [] [] s) :
    Settled initial [] [] ((s.record m).process [m] s.integrationMethods) := by
  have hloaded : ∀ m' ∈ (s.record m).loaded, m' ≠ m → m' ∈ s.loaded := by
    intro m' hm' hne
    simp only [Tables.record] at hm'
    split at hm'
    · exact hm'
    · exact (List.mem_cons.1 hm').resolve_left hne
  refine ⟨hs.integrations, fun m' hm' i => ?_, fun m' hm' => ?_, hs.resolved⟩
  · rw [count_process]
    by_cases h : m' = m
    · -- the module starts anew, and is submitted with all integrations
      subst h
      have hnone : (s.record m').submitted.count (m', i) = 0 := by
        rw [List.count_eq_zero]
        simp [Tables.record]
      rw [hnone]
      simp [Tables.process, Tables.record]
    · have hold : (s.record m).submitted.count (m', i) = s.submitted.count (m', i) :=
        List.count_filter (by simpa using h)
      have hz : [m].count m' = 0 := by simp [Ne.symm h]
      rw [hold, hs.once m' (hloaded m' hm' h) i, hz]
      simp [Tables.process, Tables.record]
  · by_cases h : m' = m
    · simp [Tables.process, Tables.record, h]
    · exact List.mem_append_left _ (hs.recorded m' (hloaded m' hm' h))

theorem settled_record_nil (hs : Settled initial [] [] s) (h : s.integrationMethods = []) :
    Settled initial [] [] (s.record m) := by
  have := settled_record (m := m) hs
  simpa [h, Tables.process] using this

theorem idle_moduleLoadFinished {failed : Bool} {info : ModuleInfo}
    (hs : Settled initial [] [] s) (hq : s.queue = []) :
    Stage initial [] (moduleLoadFinished m failed info s) := by
  rw [moduleLoadFinished]
  split
  · exact .idle hs hq
  split
  · by_cases h : s.integrationMethods = []
    · have := settled_record_nil (m := m) hs h
      simpa [Tables.record, h] using Stage.idle this hq
    · have := settled_record (m := m) hs
      simpa [Tables.record, h] using Stage.idle this hq
  · exact .idle ⟨hs.integrations, hs.once, hs.recorded, hs.resolved⟩ hq

theorem idle_moduleUnloadStarted (hs : Settled initial [] [] s) (hq : s.queue = []) :
    Stage initial [] (effect (.moduleUnloadStarted m) s) :=
  .idle ⟨hs.integrations, fun m' hm' => hs.once m' (List.mem_filter.1 hm').1,
    fun m' hm' => hs.recorded m' (List.mem_filter.1 hm').1, hs.resolved⟩ hq

/-- The registration starts: its integrations are accepted, with a promise of its own. -/
theorem stage_register {id : String} (hs : Settled initial [] [] s) (hq : s.queue = []) :
    Stage initial (body (.register id is) s) (effect (.register id is) s) := by
  refine .enqueue ⟨?_, hs.once, hs.recorded, fun p hp => ?_⟩ hq (Nat.lt_succ_self _) fun hp => ?_
  · have := hs.integrations
    simp_all [effect]
  · exact Nat.lt_succ_of_lt (hs.resolved p hp)
  · exact absurd (hs.resolved _ hp) (Nat.lt_irrefl _)

/-- The item leaves the queue: its promise is resolved and its pairs are submitted, or it is
dropped. -/
theorem stage_pop (h : Stage initial w s) (ha : perform .pop s = some (s', c)) :
    Stage initial w s' := by
  obtain ⟨item, queue, hqueue, rfl, _⟩ := perform_pop_eq_some ha
  cases h with
  | waiting hs hq hp hr hone =>
    rename_i is p
    obtain ⟨rfl, rfl⟩ := List.cons_eq_cons.1 (hqueue.symm.trans hq)
    rw [Tables.answer]
    split
    · rename_i hne
      refine .answered ⟨hs.integrations, fun m hm i => ?_, hs.recorded, fun p' hp' => ?_⟩ rfl
      · have hc := hs.once m hm i
        have hm1 := hone hne.2 m hm
        have hcount : (({ s with queue := [] } : Tables ι).process s.moduleIds is).submitted.count
            (m, i) = s.submitted.count (m, i) + s.moduleIds.count m * is.count i :=
          count_process s.moduleIds m i
        rw [hc, hm1] at hcount
        simpa [Tables.process] using hcount
      · rcases List.mem_cons.1 hp' with rfl | hp'
        · exact hp
        · exact hs.resolved p' hp'
    · exact .stuck ⟨hs.integrations, hs.once, hs.recorded, hs.resolved⟩ rfl hr
  | idle _ hq => simp [hq] at hqueue
  | enqueue _ hq _ _ => simp [hq] at hqueue
  | stuck _ hq _ => simp [hq] at hqueue
  | answered _ hq => simp [hq] at hqueue
  | append _ hq => simp [hq] at hqueue

theorem stage_act {a : Action ι} (ha : perform a s = some (s', c)) (hr : registers (.act a) = true)
    (hone : ∀ is p, a = .enqueueProcessModule is p → is ≠ [] →
      ∀ m ∈ s.loaded, s.moduleIds.count m = 1)
    (h : Stage initial (.act a :: w) s) : Stage initial w s' := by
  cases a with
  | pop => cases hr
  | enqueueProcessModule is p =>
    cases ha
    cases h with
    | enqueue hs hq hp hres =>
      refine .waiting ⟨hs.integrations, hs.once, hs.recorded, hs.resolved⟩ ?_ hp hres
        (hone is p rfl)
      simp [hq]
  | awaitPromise p =>
    simp only [perform] at ha
    split at ha
    · rename_i hp
      cases ha
      cases h with
      | waiting _ _ _ hres _ => exact absurd hp hres
      | stuck _ _ hres => exact absurd hp hres
      | answered hs hq => exact .append hs hq
    · cases ha
  | append is =>
    cases ha
    cases h with
    | append hs hq =>
      refine .idle ⟨?_, fun m hm i => ?_, hs.recorded, hs.resolved⟩ hq
      · simpa using hs.integrations
      · simpa using hs.once m hm i

theorem Stage.settled (h : Stage initial [] s) : Settled initial [] [] s ∧ s.queue = [] := by
  cases h with
  | idle hs hq => exact ⟨hs, hq⟩

theorem custody_step {s s' : State ι} {e : Event ι}
    (hu : ∀ t, Under (registers · = true) moduleLock (s.code t))
    (hc : Custody registers (Stage initial) s) (hd : Distinct s e) (h : (program ι).Step s e s') :
    Custody registers (Stage initial) s' := by
  refine Custody.step guarded_registers hu hc h ?_ ?_ ?_ ?_ ?_
  · intro t b rest _ hcode hb hΦ
    obtain ⟨hs, hq⟩ := hΦ.settled
    cases b with
    | moduleLoadFinished m failed info => exact idle_moduleLoadFinished hs hq
    | moduleUnloadStarted m => exact idle_moduleUnloadStarted hs hq
    | initializeProfiler id items => simp [program, hold, moduleLock] at hb
    | register id is => exact stage_register hs hq
  · intro t b rest w _ hcode hb _ hΦ
    cases b with
    | initializeProfiler id items => exact hΦ
    | _ => exact absurd rfl hb
  · intro t b rest w _ hcode hb _
    cases hb
  · intro t a rest w m c he hcode ha hr hΦ
    subst he
    exact stage_act ha hr (fun is p hp => hd is p rest (hp ▸ hcode)) hΦ
  · intro t a rest w m c _ hcode ha hr hΦ
    cases a with
    | pop => exact stage_pop hΦ ha
    | _ => cases hr

/-! ## The definitions ids -/

/-- The step from the test of the id to its acceptance. -/
def accepts : Instr Lock (Block ι) (Action ι) → Bool
  | .enter (.register _ _) => true
  | _ => false

structure Known (s : Tables ι) : Prop where
  nodup : (s.accepted.map (·.1)).Nodup
  known : ∀ a ∈ s.accepted, a.1 ∈ s.definitionsIds

/-- The id that is about to be accepted is new. -/
inductive Accepting : Code ι → Tables ι → Prop where
  | none {s : Tables ι} : Known s → Accepting [] s
  | register {s : Tables ι} {id : String} {is : List ι} : Known s → id ∉ s.definitionsIds →
      Accepting [.enter (.register id is)] s

theorem guarded_accepts : (program ι).Guarded (accepts · = true) ⟨.definitionsIds, false⟩ where
  exclusive := rfl
  start {t o c} h i hi := by
    cases t with
    | queue => cases h
    | caller k =>
      cases o <;> cases h
      all_goals simp_all [accepts]
  body {b m i} h hi := by
    cases b with
    | initializeProfiler id items => rfl
    | register id is =>
      simp only [program, body, List.mem_cons, List.not_mem_nil, or_false] at h
      rcases h with rfl | rfl | rfl
      all_goals cases hi
    | _ => cases h
  release k := by simp [accepts]
  perform h i hi := by
    rw [mem_performCode h i hi]
    simp [accepts]

omit [DecidableEq ι] in
theorem Accepting.congr (h : Accepting w s) (hd : s'.definitionsIds = s.definitionsIds)
    (ha : s'.accepted = s.accepted) : Accepting w s' := by
  have hk : Known s → Known s' := fun hk => ⟨ha ▸ hk.nodup, fun a h => hd ▸ hk.known a (ha ▸ h)⟩
  cases h with
  | none h => exact .none (hk h)
  | register h hid => exact .register (hk h) (hd ▸ hid)

omit [DecidableEq ι] in
theorem moduleLoadFinished_ids (m : ModuleID) (failed : Bool) (info : ModuleInfo) (s : Tables ι) :
    (moduleLoadFinished m failed info s).definitionsIds = s.definitionsIds ∧
      (moduleLoadFinished m failed info s).accepted = s.accepted := by
  rw [moduleLoadFinished]
  split
  · exact ⟨rfl, rfl⟩
  split
  · dsimp only
    split <;> exact ⟨rfl, rfl⟩
  · exact ⟨rfl, rfl⟩

omit [DecidableEq ι] in
theorem perform_ids {a : Action ι} (h : perform a s = some (s', c)) :
    s'.definitionsIds = s.definitionsIds ∧ s'.accepted = s.accepted := by
  cases a with
  | pop =>
    obtain ⟨item, queue, _, rfl, _⟩ := perform_pop_eq_some h
    rw [Tables.answer]
    split <;> exact ⟨rfl, rfl⟩
  | awaitPromise p =>
    simp only [perform] at h
    split at h
    · cases h
      exact ⟨rfl, rfl⟩
    · cases h
  | enqueueProcessModule is p =>
    cases h
    exact ⟨rfl, rfl⟩
  | append is =>
    cases h
    exact ⟨rfl, rfl⟩

theorem accepting_step {s s' : State ι} {e : Event ι}
    (hu : ∀ t, Under (accepts · = true) ⟨.definitionsIds, false⟩ (s.code t))
    (hc : Custody accepts Accepting s) (h : (program ι).Step s e s') :
    Custody accepts Accepting s' := by
  refine Custody.step guarded_accepts hu hc h ?_ ?_ ?_ ?_ ?_
  · intro t b rest _ hcode hb hΦ
    cases b with
    | initializeProfiler id items =>
      cases hΦ with
      | none hk =>
        cases items with
        | none => exact .none hk
        | some items =>
          simp only [program, body, effect]
          split
          · exact .none hk
          · rename_i hid
            exact .register hk hid
    | _ => cases hb
  · intro t b rest w _ hcode hb hP hΦ
    cases b with
    | moduleLoadFinished m failed info =>
      obtain ⟨hd, ha⟩ := moduleLoadFinished_ids m failed info s.mem
      exact hΦ.congr hd ha
    | moduleUnloadStarted m => exact hΦ.congr rfl rfl
    | initializeProfiler id items => exact absurd rfl hb
    | register id is => cases hP
  · intro t b rest w _ hcode hP hΦ
    cases hΦ with
    | register hk hid =>
      refine .none ⟨?_, fun a ha => ?_⟩
      · simp only [program, effect, List.map_append, List.nodup_append]
        refine ⟨hk.nodup, by simp, fun x hx y hy hxy => ?_⟩
        obtain ⟨a, ha, rfl⟩ := List.mem_map.1 hx
        simp only [List.map_cons, List.map_nil, List.mem_cons, List.not_mem_nil, or_false] at hy
        exact hid (hy ▸ hxy ▸ hk.known a ha)
      · rcases List.mem_append.1 ha with ha | ha
        · exact List.mem_cons_of_mem _ (hk.known a ha)
        · obtain rfl := List.mem_singleton.1 ha
          exact List.mem_cons_self
  · intro t a rest w m c _ hcode ha hP hΦ
    cases hP
  · intro t a rest w m c _ hcode ha hP hΦ
    obtain ⟨hd, hacc⟩ := perform_ids ha
    exact hΦ.congr hd hacc

/-! ## Runs -/

theorem idle_init (initial : List ι) : Settled initial [] [] (init initial).mem :=
  ⟨by simp [init], by simp [init], by simp [init], by simp [init]⟩

/-- In a run whose registrations find no loaded module twice in `module_ids_`, each accepted
integration has been submitted once for each loaded module, whenever no call is under way that
still has to. -/
theorem covers_of_distinct (initial : List ι) (es : List (Event ι))
    (h : EachStep (program ι).Step Distinct (init initial) es) :
    EachState (program ι).Step (Covers initial) (init initial) es := by
  refine EachState.of_invariant (C := Distinct)
    (I := fun s => (∀ t, Under (registers · = true) moduleLock (s.code t)) ∧
      (∀ t, Under (accepts · = true) ⟨.definitionsIds, false⟩ (s.code t)) ∧
      Custody registers (Stage initial) s ∧ Custody accepts Accepting s) ?_ ?_ h ?_
  · rintro s e s' ⟨hr, ha, hcr, hca⟩ hd hstep
    exact ⟨guarded_registers.local_under.step hr e.ok_true hstep,
      guarded_accepts.local_under.step ha e.ok_true hstep, custody_step hr hcr hd hstep,
      accepting_step ha hca hstep⟩
  · rintro s ⟨hr, ha, hcr, ⟨t, hacc, _⟩⟩ hfree
    have hnone : ∀ t, work registers (s.code t) = [] := fun t => work_eq_nil.2 fun i hi => by
      rw [Bool.eq_false_iff]
      exact guarded_registers.none_of_free hr hfree t i hi
    obtain ⟨hs, _⟩ := (hcr.of_none hnone).settled
    refine ⟨?_, by simpa using hs.integrations, fun m hm i => by simpa using hs.once m hm i⟩
    generalize work accepts (s.code t) = w at hacc
    cases hacc with
    | none hk => exact hk.nodup
    | register hk _ => exact hk.nodup
  · refine ⟨fun t => ?_, fun t => ?_, ⟨.queue, ?_, fun u _ => ?_⟩, ⟨.queue, ?_, fun u _ => ?_⟩⟩
    · cases t <;> simp [init, followed_cons, followed_nil, registers]
    · cases t <;> simp [init, followed_cons, followed_nil, accepts]
    · exact .idle (idle_init initial) rfl
    · cases u <;> simp [init, work_cons, registers]
    · exact .none ⟨by simp [init], by simp [init]⟩
    · cases u <;> simp [init, work_cons, accepts]

/-- A module that `ModuleLoadFinished` records. -/
def sample : ModuleInfo := { assemblyName := "Samples" }

/-- A module is loaded, unloaded, and its id given to another one. -/
def reload : List (Event ℕ) :=
  [.call (.caller 0) (.moduleLoadFinished 1 false sample), .step (.caller 0), .step (.caller 0),
    .call (.caller 0) (.moduleUnloadStarted 1), .step (.caller 0), .step (.caller 0),
    .call (.caller 0) (.moduleLoadFinished 1 false sample), .step (.caller 0), .step (.caller 0)]

/-- `InitializeProfiler`, answered by the queue thread. -/
def registration : List (Event ℕ) :=
  [.call (.caller 0) (.initializeProfiler "definitions" (some [5])), .step (.caller 0),
    .step (.caller 0), .step (.caller 0), .step .queue, .step (.caller 0), .step (.caller 0),
    .step (.caller 0), .step (.caller 0)]

omit [DecidableEq ι] in
theorem idle_threads (initial : List ι) : Idle [.queue, .caller 0] (init initial) := by
  intro u hu
  cases u with
  | queue => simp at hu
  | caller i => rfl

/-- The id stands twice in `module_ids_`, and the registration is submitted twice for the module
that has it now. -/
theorem reload_submits_twice : ∃ es s, Run (program ℕ).Step (init []) es s ∧ ¬ Covers [] s := by
  obtain ⟨s, hs⟩ : ∃ s, (program ℕ).exec [.queue, .caller 0] (init []) (reload ++ registration) =
      some s := ⟨_, rfl⟩
  obtain ⟨hrun, hidle⟩ := Program.exec_run (idle_threads []) hs
  refine ⟨_, s, hrun, fun hc => ?_⟩
  have hfree : s.Free moduleLock := hidle.free (by cases hs; decide)
  have hone := (hc hfree).once 1 (by cases hs; decide) 5
  cases hs
  exact absurd hone (by decide)

/-- The test of `Distinct`. -/
def distinct (s : State ι) : Event ι → Bool
  | .call _ _ => true
  | .step t =>
    match s.code t with
    | .act (.enqueueProcessModule is _) :: _ =>
      is = [] || s.mem.loaded.all fun m => s.mem.moduleIds.count m = 1
    | _ => true

omit [DecidableEq ι] in
theorem Distinct.of_distinct {s : State ι} {e : Event ι} (h : distinct s e = true) :
    Distinct s e := by
  cases e with
  | call t o => trivial
  | step t =>
    intro is p rest hcode hne m hm
    simp only [distinct, hcode, hne, decide_false, Bool.false_or, List.all_eq_true] at h
    simpa using h m hm

theorem covers_of_distinct_registration :
    EachState (program ℕ).Step (Covers []) (init [])
      (.call (.caller 0) (.moduleLoadFinished 1 false sample) :: .step (.caller 0) ::
        .step (.caller 0) :: registration) := by
  refine covers_of_distinct [] _ fun pre e post s he hrun => .of_distinct ?_
  exact (Program.eachStep_of_check (idle_threads []) (by decide) (by decide)
    pre e post s he hrun).2

end DdTrace.Rejit.CorProfiler
