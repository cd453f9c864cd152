import DdTrace.Rejit.Handler

/-!
# Coverage of the NGEN inliners

The NGEN modules and the methods registered for ReJIT grow on different
threads, and each side scans the other's table under other locks. The argument
has two halves. `Covered`: for a registered method and an NGEN module the
inliners are done, or some thread or the queue still has work that will come to
them (`covers`); who adds the later of the two always has such work ahead.
`Once`: under the lock of a method the enumeration for a module, the enqueueing
and the mark follow each other (`Phase`), and the mark keeps the enumeration
from being made again.
-/

namespace DdTrace.Rejit

open DdTrace.Lib DdTrace.Lib.Locks

variable {clr : Clr} {s s' : State} {e : Event} {es : List Event} {b : Block} {c d : Code}
variable {m m' : Handler} {key : Key} {i : Instr Lock Block Action}

/-- The operations of a handler that is neither shut down nor loses a module. -/
def Keeps : Op → Prop
  | .shutdown | .removeModule _ => False
  | _ => True

/-- The blocks and actions those operations are made of. -/
def keeps : Instr Lock Block Action → Bool
  | .enter (.removeModule _) | .enter (.eraseModule _) | .enter .shutdownModules
  | .enter .shutdownNgenModules | .enter .shutdownWrite => false
  | .act .pushEnd | .act .join => false
  | _ => true

theorem keeps_body (hb : keeps (.enter b) = true) : ∀ i ∈ body clr b m, keeps i = true := by
  intro i hi
  cases b
  case processModuleForRejit ms is same =>
    rw [body, mem_unlessShutdown, mem_processModuleForRejit] at hi
    rcases hi with ⟨_, ⟨t, _, rfl | rfl⟩ | ⟨_, rfl⟩⟩
    · rfl
    · rfl
    · cases same <;> rfl
  case methodInliners key =>
    obtain ⟨_, ms, inc, _, ⟨_, rfl⟩ | ⟨_, rfl⟩⟩ := mem_methodInliners.1 hi
    · rfl
    · rfl
  case notifyReJITParameters m' d =>
    simp only [body, mem_unlessShutdown, List.mem_cons, List.not_mem_nil, or_false] at hi
    rcases hi with ⟨_, rfl | rfl⟩
    · rfl
    · rfl
  case modulesInliners n =>
    simp only [body, List.mem_ite_nil_right, List.mem_map] at hi
    obtain ⟨_, _, _, rfl⟩ := hi
    rfl
  case moduleInliners m' n =>
    obtain ⟨_, _, rfl⟩ := List.mem_map.1 hi
    rfl
  case ngenInliners =>
    simp only [body, List.mem_ite_nil_right, List.mem_map] at hi
    obtain ⟨_, _, _, rfl⟩ := hi
    rfl
  all_goals simp_all [body, keeps]

theorem keeps_local : (program clr).Local Keeps (∀ i ∈ ·, keeps i = true) where
  start {t o c} ho h := by
    obtain ⟨_, rfl⟩ := start_eq_some.1 h
    cases o <;> simp_all [Op.code, keeps, Keeps]
  enter {b m rest} h _ i hi := by
    rcases List.mem_append.1 hi with hi | hi
    · exact keeps_body (h _ List.mem_cons_self) i hi
    · rcases List.mem_cons.1 hi with rfl | hi
      · rfl
      · exact h i (List.mem_cons_of_mem _ hi)
  release h i hi := h i (List.mem_cons_of_mem _ hi)
  act {a m m' c rest} h ha i hi := by
    rcases List.mem_append.1 hi with hc | hi
    · by_cases hp : a = .pop
      · obtain ⟨item, _, _, _, rfl⟩ := perform_pop_eq_some (hp ▸ ha)
        rcases mem_itemCode.1 hc with ⟨_, _, _, rfl⟩ | ⟨_, _, _, _, _, rfl⟩ | ⟨_, rfl⟩
        all_goals rfl
      · rw [perform_of_ne_pop hp ha] at hc
        cases hc
    · exact h i (List.mem_cons_of_mem _ hi)

/-! ## The tables only grow -/

/-- What the tables keep as long as nothing is removed. -/
structure Handler.Le (m m' : Handler) : Prop where
  shutdown : m.shutdown = false → m'.shutdown = false
  profilerInfo6 : m'.profilerInfo6 = m.profilerInfo6
  modules : ∀ x ∈ m.modules, x ∈ m'.modules
  methods : ∀ x, ∀ d ∈ m.methods x, d ∈ m'.methods x
  inlinersDone : ∀ x d, ∀ n ∈ m.inlinersDone x d, n ∈ m'.inlinersDone x d

theorem Handler.Le.refl (m : Handler) : m.Le m :=
  ⟨id, rfl, fun _ => id, fun _ _ => id, fun _ _ _ => id⟩

theorem mem_insertNew {x y : ℕ} {xs : List ℕ} : y ∈ insertNew x xs ↔ y = x ∨ y ∈ xs := by
  rw [insertNew]
  split
  · constructor
    · exact .inr
    · rintro (rfl | h) <;> assumption
  · simp [or_comm]

theorem effect_le (hb : keeps (.enter b) = true) (m : Handler) : m.Le (effect clr b m) := by
  cases b
  case getOrAddMethod x d r =>
    refine ⟨id, rfl, fun _ => id, fun y d' hd' => ?_, fun _ _ _ => id⟩
    simp only [effect]
    by_cases hy : y = x
    · subst hy
      simpa [mem_insertNew] using .inr hd'
    · simpa [hy] using hd'
  case addModule x =>
    exact ⟨id, rfl, fun y hy => mem_insertNew.2 (.inr hy), fun _ _ => id, fun _ _ _ => id⟩
  case methodInliners k =>
    simp only [effect]
    split
    · exact ⟨id, rfl, fun _ => id, fun _ _ => id, fun _ _ _ => id⟩
    · exact .refl m
  case enqueueForRejit ms src =>
    simp only [effect]
    split
    · exact .refl m
    · exact ⟨id, rfl, fun _ => id, fun _ _ => id, fun _ _ _ => id⟩
  case enqueueProcessModule ms is =>
    simp only [effect]
    split
    · exact .refl m
    · exact ⟨id, rfl, fun _ => id, fun _ _ => id, fun _ _ _ => id⟩
  all_goals
    first
    | exact ⟨id, rfl, fun _ => id, fun _ _ => id, fun _ _ _ => id⟩
    | simp [keeps] at hb

theorem mem_markDone {x d n : ℕ} {m' : Handler} {c : Code}
    (h : perform (.markDone key) m = some (m', c)) :
    n ∈ m'.inlinersDone x d ↔
      ⟨x, d, n⟩ = key ∨ n ∈ m.inlinersDone x d := by
  cases h
  obtain ⟨kx, kd, kn⟩ := key
  by_cases hx : x = kx
  · subst hx
    by_cases hd : d = kd
    · subst hd
      simp
    · simp [hd]
  · simp [hx]

theorem perform_le {a : Action} (h : perform a m = some (m', c)) : m.Le m' := by
  cases a with
  | pop =>
    obtain ⟨item, queue, _, rfl, _⟩ := perform_pop_eq_some h
    exact ⟨id, rfl, fun _ => id, fun _ _ => id, fun _ _ _ => id⟩
  | markDone key =>
    refine ⟨?_, ?_, ?_, ?_, fun x d n hn => (mem_markDone h).2 (.inr hn)⟩
    all_goals cases h
    · exact id
    · rfl
    · exact fun _ => id
    · exact fun _ _ => id
  | pushEnd =>
    cases h
    exact ⟨id, rfl, fun _ => id, fun _ _ => id, fun _ _ _ => id⟩
  | join =>
    simp only [perform] at h
    split at h
    · cases h
      exact .refl m
    · cases h

theorem step_le (hk : ∀ t, ∀ i ∈ s.code t, keeps i = true) (h : (program clr).Step s e s') :
    s.mem.Le s'.mem := by
  cases h with
  | call _ _ => exact .refl _
  | enter hc _ => exact effect_le (hk _ _ (hc ▸ List.mem_cons_self)) _
  | release _ => exact .refl _
  | act _ ha => exact perform_le ha

/-! ## A registered method is in the tables, and a request follows its registration -/

/-- The module whose method `ProcessModuleForRejit` registers. -/
def uses : Instr Lock Block Action → List ModuleID
  | .enter (.getOrAddMethod m _ true) => [m]
  | _ => []

/-- The module that is in the table afterwards. -/
def adds : Instr Lock Block Action → List ModuleID
  | .enter (.getOrAddModule m) | .enter (.addModule m) => [m]
  | _ => []

/-- The modules whose methods `c` registers are `known`, or added before. -/
def ready (known : List ModuleID) : Code → Prop
  | [] => True
  | i :: rest => (∀ m ∈ uses i, m ∈ known) ∧ ready (adds i ++ known) rest

theorem ready_mono {known known' : List ModuleID} (hsub : ∀ x ∈ known, x ∈ known')
    (h : ready known c) : ready known' c := by
  induction c generalizing known known' with
  | nil => trivial
  | cons i c ih =>
    refine ⟨fun m hm => hsub m (h.1 m hm), ih (fun x hx => ?_) h.2⟩
    rcases List.mem_append.1 hx with hx | hx
    · exact List.mem_append_left _ hx
    · exact List.mem_append_right _ (hsub x hx)

theorem ready_append {known : List ModuleID} (hc : ready known c) (hd : ready known d) :
    ready known (c ++ d) := by
  induction c generalizing known with
  | nil => exact hd
  | cons i c ih =>
    exact ⟨hc.1, ih hc.2 (ready_mono (fun x hx => List.mem_append_right _ hx) hd)⟩

theorem ready_of_uses_nil {known : List ModuleID} (h : ∀ i ∈ c, uses i = []) : ready known c := by
  induction c generalizing known with
  | nil => trivial
  | cons i c ih =>
    refine ⟨?_, ih fun j hj => h j (List.mem_cons_of_mem _ hj)⟩
    simp [h i List.mem_cons_self]

/-- `ProcessModuleForRejit` adds each module before the method. -/
theorem ready_processModuleForRejit {known ms : List ModuleID} {is : List IntegrationMethod}
    {same : Bool} : ready known (processModuleForRejit clr ms is same) := by
  have htargets : ∀ ts : List Method, ready known
      (ts.flatMap fun t => [.enter (.getOrAddModule t.1), .enter (.getOrAddMethod t.1 t.2 true)]) := by
    intro ts
    induction ts generalizing known with
    | nil => trivial
    | cons t ts ih =>
      refine ⟨fun m hm => ?_, fun m hm => ?_, ih⟩
      · cases hm
      · exact List.mem_append_left _ (by simpa [uses, adds] using hm)
  refine ready_append (htargets _) (ready_of_uses_nil fun i hi => ?_)
  obtain ⟨_, rfl⟩ : _ ∧ i = _ := by simpa using hi
  cases same <;> rfl

theorem uses_of_mem_body (hb : ∀ ms is same, b ≠ .processModuleForRejit ms is same) :
    ∀ i ∈ body clr b m, uses i = [] := by
  intro i hi
  cases b
  case processModuleForRejit ms is same => exact absurd rfl (hb ms is same)
  all_goals
    simp only [body, mem_unlessShutdown, mem_ifAny, List.mem_ite_nil_right, List.mem_map,
      List.mem_cons, List.not_mem_nil, or_false, mem_methodInliners] at hi
  all_goals grind [uses]

theorem ready_body {known : List ModuleID} : ready known (body clr b m) := by
  by_cases hb : ∃ ms is same, b = .processModuleForRejit ms is same
  · obtain ⟨ms, is, same, rfl⟩ := hb
    rw [body, unlessShutdown]
    split
    · trivial
    · exact ready_processModuleForRejit
  · exact ready_of_uses_nil (uses_of_mem_body fun ms is same h => hb ⟨ms, is, same, h⟩)

/-- Registers a method. -/
def registers : Instr Lock Block Action → Bool
  | .enter (.getOrAddMethod _ _ register) => register
  | _ => false

/-- Requests the ReJIT of some methods, at once or by the queue. -/
def requests : Instr Lock Block Action → Bool
  | .enter (.requestRejit ms) | .enter (.enqueueForRejit ms _) => ms ≠ []
  | _ => false

theorem registers_eq_false (h : uses i = []) : registers i = false := by
  rcases i with b | _ | _
  · cases b
    case getOrAddMethod m d r => cases r <;> simp_all [uses, registers]
    all_goals rfl
  · rfl
  · rfl

/-- `ProcessModuleForRejit` requests the ReJIT once it has registered its methods. -/
theorem requested_processModuleForRejit {ms : List ModuleID} {is : List IntegrationMethod}
    {same : Bool} : Followed (registers ·) (requests ·) (processModuleForRejit clr ms is same) := by
  rw [processModuleForRejit]
  refine Followed.append ?_ ?_
  · rw [ifAny]
    split
    · exact followed_nil
    · refine followed_cons.2 ⟨fun h => ?_, followed_nil⟩
      cases same <;> simp [registers] at h
  · rintro ⟨i, hi, _⟩
    obtain ⟨t, ht, _⟩ := List.mem_flatMap.1 hi
    have hne : clr.targets ms is ≠ [] := List.ne_nil_of_mem ht
    refine ⟨_, by rw [ifAny, if_neg hne]; exact List.mem_cons_self, ?_⟩
    cases same <;> simp [requests, hne]

theorem requested_local :
    (program clr).Local (fun _ => True) (Followed (registers ·) (requests ·)) where
  start {t o c} _ h := by
    obtain ⟨_, rfl⟩ := start_eq_some.1 h
    cases o <;> simp [Op.code, followed_cons, followed_nil, registers]
  enter {b m rest} h _ := by
    have hrest : Followed (registers ·) (requests ·) (.release (hold b) :: rest) :=
      followed_cons.2 ⟨by simp [registers], (followed_cons.1 h).2⟩
    by_cases hb : ∃ ms is same, b = .processModuleForRejit ms is same
    · obtain ⟨ms, is, same, rfl⟩ := hb
      refine Followed.append_followed ?_ hrest
      simp only [program_body, body, unlessShutdown]
      split
      · exact followed_nil
      · exact requested_processModuleForRejit
    · refine Followed.append hrest ?_
      rintro ⟨i, hi, hr⟩
      have := uses_of_mem_body (fun ms is same h => hb ⟨ms, is, same, h⟩) i hi
      simp [registers_eq_false this] at hr
  release h := (followed_cons.1 h).2
  act {a m m' c rest} h ha := by
    refine (followed_cons.1 h).2.append ?_
    rintro ⟨i, hi, hr⟩
    by_cases hp : a = .pop
    · obtain ⟨item, _, _, _, rfl⟩ := perform_pop_eq_some (hp ▸ ha)
      rcases mem_itemCode.1 hi with ⟨_, _, _, rfl⟩ | ⟨_, _, _, _, _, rfl⟩ | ⟨_, rfl⟩
      all_goals simp [registers] at hr
    · rw [perform_of_ne_pop hp ha] at hi
      cases hi

/-- The states of a handler that is not shut down and has lost no module. -/
structure Sound (s : State) : Prop where
  keeps : ∀ t, ∀ i ∈ s.code t, keeps i = true
  shutdown : s.mem.shutdown = false
  profilerInfo6 : s.mem.profilerInfo6 = true
  ready : ∀ t, ready s.mem.modules (s.code t)
  requested : ∀ t, Followed (registers ·) (requests ·) (s.code t)
  listed : ∀ t ∈ s.mem.registered, t.1 ∈ s.mem.modules ∧ t.2 ∈ s.mem.methods t.1

theorem ready_update {t : Thread} (hs : ∀ u, ready s.mem.modules (s.code u))
    (hle : s.mem.Le m) (hc : ready m.modules c) (u : Thread) :
    ready m.modules (Function.update s.code t c u) := by
  by_cases hu : u = t
  · subst hu
    rwa [Function.update_self]
  · rw [Function.update_of_ne hu]
    exact ready_mono hle.modules (hs u)

theorem uses_of_mem_opCode (o : Op) : ∀ i ∈ o.code, uses i = [] := by
  cases o <;> simp [Op.code, uses]

/-- A module that a block adds is in the table after it, or still to be added by its body. -/
theorem ready_enter (hb : keeps (.enter b) = true) (hopen : m.shutdown = false)
    (h : ready m.modules (.enter b :: d)) :
    ready (effect clr b m).modules (body clr b m ++ .release (hold b) :: d) := by
  have hle : ∀ x ∈ m.modules, x ∈ (effect clr b m).modules := (effect_le hb m).modules
  by_cases hg : ∃ x, b = .getOrAddModule x
  · obtain ⟨x, rfl⟩ := hg
    simp only [body, unlessShutdown, hopen]
    exact ⟨by simp [uses], by simp [uses], h.2⟩
  · refine ready_append ready_body ⟨by simp [uses], ready_mono (fun x hx => ?_) h.2⟩
    rcases List.mem_append.1 hx with hx | hx
    · have hbx : b = .addModule x := by
        cases b <;> simp_all [adds]
      subst hbx
      exact mem_insertNew.2 (.inl rfl)
    · exact hle x hx

theorem ready_step (hs : Sound s) (h : (program clr).Step s e s') :
    ∀ t, ready s'.mem.modules (s'.code t) := by
  have hle := step_le hs.keeps h
  cases h with
  | call _ ho =>
    obtain ⟨_, rfl⟩ := start_eq_some.1 ho
    exact ready_update hs.ready hle (ready_of_uses_nil (uses_of_mem_opCode _))
  | enter hcode hf =>
    rename_i t b rest
    have ht := hs.ready t
    rw [hcode] at ht
    have hb := hs.keeps t (.enter b) (hcode ▸ List.mem_cons_self)
    exact ready_update hs.ready hle (ready_enter hb hs.shutdown ht)
  | release hcode =>
    rename_i t k rest
    have ht := hs.ready t
    rw [hcode] at ht
    exact ready_update hs.ready hle ht.2
  | act hcode ha =>
    rename_i t a rest c m
    have ht := hs.ready t
    rw [hcode] at ht
    refine ready_update hs.ready hle (ready_append (ready_of_uses_nil fun i hi => ?_)
      (ready_mono hle.modules ht.2))
    by_cases hp : a = .pop
    · obtain ⟨item, _, _, _, rfl⟩ := perform_pop_eq_some (hp ▸ ha)
      rcases mem_itemCode.1 hi with ⟨_, _, _, rfl⟩ | ⟨_, _, _, _, _, rfl⟩ | ⟨_, rfl⟩
      all_goals rfl
    · rw [perform_of_ne_pop hp ha] at hi
      cases hi

theorem registered_effect (clr : Clr) (b : Block) (m : Handler) :
    (effect clr b m).registered = match b with
      | .getOrAddMethod x d true => (x, d) :: m.registered
      | _ => m.registered := by
  cases b
  case getOrAddMethod x d r => cases r <;> rfl
  case methodInliners k =>
    simp only [effect]
    split <;> rfl
  case enqueueForRejit ms src =>
    simp only [effect]
    split <;> rfl
  case enqueueProcessModule ms is =>
    simp only [effect]
    split <;> rfl
  all_goals rfl

theorem registered_perform {a : Action} (h : perform a m = some (m', c)) :
    m'.registered = m.registered := by
  cases a with
  | pop =>
    obtain ⟨_, _, _, rfl, _⟩ := perform_pop_eq_some h
    rfl
  | join =>
    simp only [perform] at h
    split at h
    · cases h
      rfl
    · cases h
  | markDone _ => cases h; rfl
  | pushEnd => cases h; rfl

theorem listed_step (hs : Sound s) (h : (program clr).Step s e s') :
    ∀ t ∈ s'.mem.registered, t.1 ∈ s'.mem.modules ∧ t.2 ∈ s'.mem.methods t.1 := by
  have hle := step_le hs.keeps h
  have hold : ∀ t ∈ s.mem.registered, t.1 ∈ s'.mem.modules ∧ t.2 ∈ s'.mem.methods t.1 :=
    fun t ht => ⟨hle.modules _ (hs.listed t ht).1, hle.methods _ _ (hs.listed t ht).2⟩
  cases h with
  | call _ _ => exact hold
  | release _ => exact hold
  | act _ ha => exact fun t ht => hold t (registered_perform ha ▸ ht)
  | enter hcode hf =>
    rename_i u b rest
    intro t ht
    have hu := hs.ready u
    rw [hcode] at hu
    simp only [program_effect, registered_effect] at ht
    split at ht
    · rcases List.mem_cons.1 ht with rfl | ht
      · exact ⟨hle.modules _ (hu.1 _ (by simp [uses])), by simp [effect, mem_insertNew]⟩
      · exact hold t ht
    · exact hold t ht

theorem sound_step (hs : Sound s) (he : e.Ok Keeps) (h : (program clr).Step s e s') : Sound s' where
  keeps := keeps_local.step hs.keeps he h
  shutdown := (step_le hs.keeps h).shutdown hs.shutdown
  profilerInfo6 := (step_le hs.keeps h).profilerInfo6.trans hs.profilerInfo6
  ready := ready_step hs h
  requested := requested_local.step hs.requested e.ok_true h
  listed := listed_step hs h

theorem sound_init : Sound (init true) where
  keeps t i hi := by
    cases t <;> simp_all [init, keeps]
  shutdown := rfl
  profilerInfo6 := rfl
  ready t := by
    cases t <;> simp [init, ready, uses]
  requested t := by
    cases t <;> simp [init, followed_cons, followed_nil, registers]
  listed t ht := by cases ht

/-! ## Coverage -/

/-- Work that comes to the inliners of `key`, once its method and its NGEN module are in the
tables. -/
def covers (key : Key) : Instr Lock Block Action → Prop
  | .act (.markDone k) | .enter (.methodInliners k) => k = key
  | .enter (.moduleInliners m n) => m = key.module ∧ n = key.ngen
  | .enter (.modulesInliners n) | .enter (.requestRejitForInlinersInModule n) => n = key.ngen
  | .enter .ngenInliners | .enter .requestRejitForNGenInliners => True
  | .enter (.requestRejit ms) | .enter (.enqueueForRejit ms _) => ms ≠ []
  | _ => False

def Done (key : Key) (m : Handler) : Prop := key.ngen ∈ m.inlinersDone key.module key.method

/-- Every enumeration succeeds, with complete data. -/
def Complete (clr : Clr) : Prop := ∀ k key, ∃ ms, clr.enumerate k key = some (ms, false)

/-- The goal `G` is reached, or some thread or item of the queue still has work that reaches it. -/
def Carried (C : Instr Lock Block Action → Prop) (Q : RejitItem → Prop) (G : Handler → Prop)
    (s : State) : Prop :=
  G s.mem ∨ (∃ t, ∃ i ∈ s.code t, C i) ∨ ∃ item ∈ s.mem.queue, Q item

/-- Work of the kind `C`, or an item of the kind `Q`, is never dropped before `G` holds: where
`Pre` holds a block hands it on to its body or to the queue, or reaches `G`. -/
structure Handover (clr : Clr) (Pre : Handler → Prop) (C : Instr Lock Block Action → Prop)
    (Q : RejitItem → Prop) (G : Handler → Prop) : Prop where
  enter : ∀ {b m}, Pre m → C (.enter b) → (∃ i ∈ body clr b m, C i) ∨ G (effect clr b m) ∨
    ∃ item ∈ (effect clr b m).queue, Q item
  release : ∀ k, ¬ C (.release k)
  act : ∀ {a m m' c}, C (.act a) → perform a m = some (m', c) → G m'
  pop : ∀ {item}, Q item → ∃ i ∈ item.code, C i
  effect : ∀ {b m}, keeps (.enter b) = true → G m → G (effect clr b m)
  perform : ∀ {a m m' c}, perform a m = some (m', c) → G m → G m'

theorem queue_effect (item : RejitItem) (h : item ∈ m.queue) : item ∈ (effect clr b m).queue := by
  cases b
  case methodInliners k =>
    simp only [effect]
    split <;> exact h
  case enqueueForRejit ms src =>
    simp only [effect]
    split
    · exact h
    · exact List.mem_append_left _ h
  case enqueueProcessModule ms is =>
    simp only [effect]
    split
    · exact h
    · exact List.mem_append_left _ h
  all_goals exact h

theorem queue_perform {a : Action} {item : RejitItem} (ha : a ≠ .pop)
    (h : perform a m = some (m', c)) (hi : item ∈ m.queue) : item ∈ m'.queue := by
  cases a with
  | pop => exact absurd rfl ha
  | markDone k =>
    cases h
    exact hi
  | pushEnd =>
    cases h
    exact List.mem_append_left _ hi
  | join =>
    simp only [perform] at h
    split at h
    · cases h
      exact hi
    · cases h

section
variable {C : Instr Lock Block Action → Prop} {Q : RejitItem → Prop} {G Pre : Handler → Prop}

/-- When a thread goes on to the code `c` with what was behind its head, the work is still there,
unless it was the head. -/
theorem work_left {t : Thread} {rest : Code} (hcode : s.code t = i :: rest)
    (hsub : ∀ j ∈ rest, j ∈ c) (h : ∃ u, ∃ j ∈ s.code u, C j) :
    C i ∨ ∃ u, ∃ j ∈ Function.update s.code t c u, C j := by
  obtain ⟨u, j, hj, hC⟩ := h
  by_cases hu : u = t
  · subst hu
    rw [hcode] at hj
    rcases List.mem_cons.1 hj with rfl | hj
    · exact .inl hC
    · exact .inr ⟨u, j, by simpa using hsub j hj, hC⟩
  · exact .inr ⟨u, j, by simpa [hu] using hj, hC⟩

theorem work_ahead {t : Thread} {f : Thread → Code} (h : ∃ j ∈ c, C j) :
    ∃ u, ∃ j ∈ Function.update f t c u, C j := by
  obtain ⟨j, hj, hC⟩ := h
  exact ⟨t, j, by simpa using hj, hC⟩

theorem Carried.act (hh : Handover clr Pre C Q G) {t : Thread} {a : Action} {rest : Code}
    (hc : Carried C Q G s) (hcode : s.code t = .act a :: rest)
    (ha : Rejit.perform a s.mem = some (m', c)) :
    Carried C Q G ⟨m', Function.update s.code t (c ++ rest)⟩ := by
  rcases hc with hg | hw | ⟨item, hi, hQ⟩
  · exact .inl (hh.perform ha hg)
  · rcases work_left hcode (fun j hj => List.mem_append_right c hj) hw with hC | hw
    · exact .inl (hh.act hC ha)
    · exact .inr (.inl hw)
  · by_cases hp : a = .pop
    · subst hp
      obtain ⟨item', queue, hqueue, rfl, rfl⟩ := perform_pop_eq_some ha
      rw [hqueue] at hi
      rcases List.mem_cons.1 hi with rfl | hi
      · obtain ⟨j, hj, hC⟩ := hh.pop hQ
        exact .inr (.inl (work_ahead ⟨j, List.mem_append_left _ hj, hC⟩))
      · exact .inr (.inr ⟨item, hi, hQ⟩)
    · exact .inr (.inr ⟨item, queue_perform hp ha hi, hQ⟩)

theorem Carried.step (hh : Handover clr Pre C Q G) (hs : Sound s) (hpre : Pre s.mem)
    (hc : Carried C Q G s) (h : (program clr).Step s e s') : Carried C Q G s' := by
  cases h with
  | call hcode ho =>
    rename_i t o c
    rcases hc with hg | ⟨u, i, hi, hC⟩ | hq
    · exact .inl hg
    · have hut : u ≠ t := by
        rintro rfl
        simp [hcode] at hi
      exact .inr (.inl ⟨u, i, by simpa [hut] using hi, hC⟩)
    · exact .inr (.inr hq)
  | release hcode =>
    rcases hc with hg | hw | hq
    · exact .inl hg
    · rcases work_left hcode (fun j hj => hj) hw with hC | hw
      · exact absurd hC (hh.release _)
      · exact .inr (.inl hw)
    · exact .inr (.inr hq)
  | act hcode ha => exact hc.act hh hcode ha
  | enter hcode hf =>
    rename_i t b rest
    have hb := hs.keeps t (.enter b) (hcode ▸ List.mem_cons_self)
    have hsub : ∀ j ∈ rest, j ∈ body clr b s.mem ++ .release (hold b) :: rest := fun j hj =>
      List.mem_append_right _ (List.mem_cons_of_mem _ hj)
    rcases hc with hg | hw | ⟨item, hi, hQ⟩
    · exact .inl (hh.effect hb hg)
    · rcases work_left hcode hsub hw with hC | hw
      · rcases hh.enter hpre hC with ⟨j, hj, hC⟩ | hg | hq
        · exact .inr (.inl (work_ahead ⟨j, List.mem_append_left _ hj, hC⟩))
        · exact .inl hg
        · exact .inr (.inr hq)
      · exact .inr (.inl hw)
    · exact .inr (.inr ⟨item, queue_effect _ hi, hQ⟩)

end

def IsRequest (item : RejitItem) : Prop := ∃ ms, ms ≠ [] ∧ item = .rejit ms

/-- The inliners of `key` are done, or there is work that comes to them. -/
def Covered (key : Key) : State → Prop := Carried (covers key) IsRequest (Done key)

/-- The method and the NGEN module are in the tables. -/
structure Reachable (key : Key) (m : Handler) : Prop where
  shutdown : m.shutdown = false
  profilerInfo6 : m.profilerInfo6 = true
  module : key.module ∈ m.modules
  method : key.method ∈ m.methods key.module
  ngen : key.ngen ∈ m.ngenModules

theorem covers_of_requests (h : requests i = true) : covers key i := by
  rcases i with b | _ | _
  · cases b <;> simp_all [requests, covers]
  · cases h
  · cases h

/-- A block that covers `key` hands the work on to its body, or to the queue, or finds it done. -/
theorem covers_body (hclr : Complete clr) (hm : Reachable key m) (h : covers key (.enter b)) :
    (∃ i ∈ body clr b m, covers key i) ∨ Done key (effect clr b m) ∨
      ∃ item ∈ (effect clr b m).queue, IsRequest item := by
  cases b
  case requestRejitForInlinersInModule n =>
    exact .inl ⟨.enter (.modulesInliners n), by simp [body, hm.shutdown], h⟩
  case modulesInliners n =>
    exact .inl ⟨.enter (.moduleInliners key.module n),
      by simp [body, hm.profilerInfo6, hm.module], rfl, h⟩
  case moduleInliners x n =>
    obtain ⟨rfl, rfl⟩ := h
    exact .inl ⟨.enter (.methodInliners key), by simpa [body] using ⟨_, hm.method, rfl⟩, rfl⟩
  case methodInliners k =>
    obtain rfl : k = key := h
    by_cases ha : asks k m = true
    · obtain ⟨ms, hms⟩ := hclr m.enumerated.length k
      exact .inl ⟨_, mem_methodInliners.2 ⟨ha, ms, false, hms, .inr ⟨rfl, rfl⟩⟩, rfl⟩
    · have hd : Done k m := by simpa [asks, hm.profilerInfo6, Done] using ha
      exact .inr (.inl ((effect_le rfl m).inlinersDone _ _ _ hd))
  case ngenInliners =>
    exact .inl ⟨.enter (.requestRejitForInlinersInModule key.ngen),
      by simp [body, hm.profilerInfo6, hm.ngen], rfl⟩
  case requestRejitForNGenInliners =>
    exact .inl ⟨.enter .ngenInliners, by simp [body, hm.shutdown], trivial⟩
  case requestRejit ms =>
    have hne : ms ≠ [] := h
    exact .inl ⟨.enter .requestRejitForNGenInliners, by simp [body, hm.shutdown, hne], trivial⟩
  case enqueueForRejit ms src =>
    exact .inr (.inr ⟨.rejit ms, by simp [effect, hm.shutdown], ms, h, rfl⟩)
  all_goals exact absurd h (by simp [covers])

theorem handover_covers (hclr : Complete clr) (key : Key) :
    Handover clr (Reachable key) (covers key) IsRequest (Done key) where
  enter hm h := covers_body hclr hm h
  release k h := h
  act {a m m' c} h ha := by
    cases a with
    | markDone k =>
      obtain rfl : k = key := h
      exact (mem_markDone ha).2 (.inl rfl)
    | pop => exact absurd h id
    | pushEnd => exact absurd h id
    | join => exact absurd h id
  pop := by
    rintro _ ⟨ms, hne, rfl⟩
    exact ⟨.enter (.requestRejit ms), mem_itemCode.2 (.inl ⟨ms, rfl, hne, rfl⟩), hne⟩
  effect hb h := (effect_le hb _).inlinersDone _ _ _ h
  perform ha h := (perform_le ha).inlinersDone _ _ _ h

theorem ngenModules_effect (clr : Clr) (b : Block) (m : Handler) :
    (effect clr b m).ngenModules = match b with
      | .addNGenModuleLocked n => m.ngenModules ++ [n]
      | _ => m.ngenModules := by
  cases b
  case methodInliners k =>
    simp only [effect]
    split <;> rfl
  case enqueueForRejit ms src =>
    simp only [effect]
    split <;> rfl
  case enqueueProcessModule ms is =>
    simp only [effect]
    split <;> rfl
  all_goals rfl

theorem ngenModules_perform {a : Action} (h : perform a m = some (m', c)) :
    m'.ngenModules = m.ngenModules := by
  cases a with
  | pop =>
    obtain ⟨_, _, _, rfl, _⟩ := perform_pop_eq_some h
    rfl
  | join =>
    simp only [perform] at h
    split at h
    · cases h
      rfl
    · cases h
  | markDone _ => cases h; rfl
  | pushEnd => cases h; rfl

/-- The pairs that must be covered. -/
def Listed (key : Key) (m : Handler) : Prop :=
  (key.module, key.method) ∈ m.registered ∧ key.ngen ∈ m.ngenModules

theorem Sound.reachable (hs : Sound s) (h : Listed key s.mem) : Reachable key s.mem :=
  ⟨hs.shutdown, hs.profilerInfo6, (hs.listed _ h.1).1, (hs.listed _ h.1).2, h.2⟩

/-- Whoever adds a method has a request for it ahead, and whoever adds an NGEN module a scan of
the methods; in both cases the pairs made by the addition are covered. -/
theorem covered_step (hclr : Complete clr) (hs : Sound s)
    (hc : ∀ key, Listed key s.mem → Covered key s) (h : (program clr).Step s e s') :
    ∀ key, Listed key s'.mem → Covered key s' := by
  intro key hkey
  by_cases hold : Listed key s.mem
  · exact (hc key hold).step (handover_covers hclr key) hs (hs.reachable hold) h
  cases h with
  | call _ _ => exact absurd hkey hold
  | release _ => exact absurd hkey hold
  | act _ ha =>
    rw [Listed, registered_perform ha, ngenModules_perform ha] at hkey
    exact absurd hkey hold
  | enter hcode hf =>
    rename_i t b rest
    obtain ⟨hreg, hn⟩ := hkey
    simp only [program_effect, registered_effect, ngenModules_effect] at hreg hn
    refine .inr (.inl (work_ahead ?_))
    have hreq := hs.requested t
    rw [hcode] at hreq
    split at hreg
    · -- the method is new
      obtain ⟨j, hj, hr⟩ := (followed_cons.1 hreq).1 rfl
      exact ⟨j, List.mem_append_right _ (List.mem_cons_of_mem _ hj), covers_of_requests hr⟩
    · split at hn
      · -- the NGEN module is new
        rename_i n _
        have hkn : key.ngen = n := by
          rcases List.mem_append.1 hn with hn | hn
          · exact absurd ⟨hreg, hn⟩ hold
          · simpa using hn
        exact ⟨.enter (.requestRejitForInlinersInModule n), by simp [body], hkn.symm⟩
      · exact absurd ⟨hreg, hn⟩ hold

/-! ## One enumeration -/

/-- What `methodInliners` does after the enumeration for `key`. -/
def ofKey (key : Key) : Instr Lock Block Action → Bool
  | .enter (.enqueueForRejit _ (some k)) | .act (.markDone k) => k = key
  | _ => false

/-- The entries of a log made for `key`. -/
def entries {α : Type} (key : Key) (log : List (Key × α)) : List α :=
  (log.filter (·.1 = key)).map (·.2)

/-- `EnqueueForRejit` is called when there are inliners. -/
def sent (ms : List Method) : List (List Method) := if ms = [] then [] else [ms]

/-- How far the inliners of `key` are: the work a thread still has for them, whether they are
marked as done, and what has been enumerated and enqueued. -/
inductive Phase (key : Key) :
    Code → Prop → List (Option (List Method × Bool)) → List (List Method) → Prop where
  | fresh {done : Prop} : ¬ done → Phase key [] done [] []
  | enqueue {done : Prop} {ms : List Method} : ¬ done → ms ≠ [] →
      Phase key [.enter (.enqueueForRejit ms (some key)), .act (.markDone key)] done
        [some (ms, false)] []
  | mark {done : Prop} (ms : List Method) : ¬ done →
      Phase key [.act (.markDone key)] done [some (ms, false)] (sent ms)
  | finished {done : Prop} (ms : List Method) : done →
      Phase key [] done [some (ms, false)] (sent ms)

/-- The phase of `key` in the tables, with the work `w` left for it. -/
def InPhase (key : Key) (w : Code) (m : Handler) : Prop :=
  Phase key w (Done key m) (entries key m.enumerated) (entries key m.enqueued)

/-- One thread at most has work for `key`, and it is where the tables say. -/
def Once (key : Key) : State → Prop := Custody (ofKey key) (InPhase key)

theorem ofKey_body (h : i ∈ body clr b m) (hk : ofKey key i = true) :
    b = .methodInliners key := by
  cases b
  case methodInliners k =>
    obtain ⟨_, ms, inc, _, ⟨_, rfl⟩ | ⟨_, rfl⟩⟩ := mem_methodInliners.1 h
    · simp_all [ofKey]
    · simp_all [ofKey]
  case processModuleForRejit ms is same =>
    rw [body, mem_unlessShutdown, mem_processModuleForRejit] at h
    rcases h with ⟨_, ⟨t, _, rfl | rfl⟩ | ⟨_, rfl⟩⟩
    · cases hk
    · cases hk
    · cases same <;> cases hk
  all_goals
    simp only [body, mem_unlessShutdown, mem_ifAny, List.mem_ite_nil_right, List.mem_map,
      List.mem_cons, List.not_mem_nil, or_false] at h
  all_goals grind [ofKey]

/-- The lock of a method guards the work for its inliners. -/
theorem guarded_ofKey (clr : Clr) (key : Key) : (program clr).Guarded (ofKey key · = true)
    ⟨.inliners key.module key.method, false⟩ where
  exclusive := rfl
  start {t o c} h i hi := by
    obtain ⟨_, rfl⟩ := start_eq_some.1 h
    cases o
    all_goals
      simp only [Op.code, List.mem_cons, List.not_mem_nil, or_false] at hi
    all_goals grind [ofKey]
  body h hk := by
    rw [ofKey_body h hk]
    rfl
  release k := by simp [ofKey]
  perform {a m m' c} h i hi := by
    by_cases hp : a = .pop
    · obtain ⟨item, _, _, _, rfl⟩ := perform_pop_eq_some (hp ▸ h)
      rcases mem_itemCode.1 hi with ⟨_, _, _, rfl⟩ | ⟨_, _, _, _, _, rfl⟩ | ⟨_, rfl⟩
      all_goals simp [ofKey]
    · rw [perform_of_ne_pop hp h] at hi
      cases hi

@[simp] theorem entries_append {α : Type} (log log' : List (Key × α)) :
    entries key (log ++ log') = entries key log ++ entries key log' := by
  simp [entries]

theorem entries_single {α : Type} (k : Key) (x : α) :
    entries key [(k, x)] = if k = key then [x] else [] := by
  by_cases h : k = key <;> simp [entries, h]

theorem done_effect (hb : keeps (.enter b) = true) :
    Done key (effect clr b m) = Done key m := by
  cases b
  case methodInliners k =>
    simp only [effect]
    split <;> rfl
  case enqueueForRejit ms src =>
    simp only [effect]
    split <;> rfl
  case enqueueProcessModule ms is =>
    simp only [effect]
    split <;> rfl
  all_goals
    first
    | rfl
    | simp [keeps] at hb

theorem enumerated_effect (clr : Clr) (b : Block) (m : Handler) :
    entries key (effect clr b m).enumerated = entries key m.enumerated ++
      if b = .methodInliners key ∧ asks key m then [clr.enumerate m.enumerated.length key]
      else [] := by
  cases b
  case methodInliners k =>
    simp only [effect]
    split
    · rename_i ha
      by_cases hk : k = key
      · subst hk
        simp [entries_single, ha]
      · simp [entries_single, hk]
    · rename_i ha
      by_cases hk : k = key
      · subst hk
        simp [ha]
      · simp [hk]
  case enqueueForRejit ms src =>
    simp only [effect]
    split <;> simp
  case enqueueProcessModule ms is =>
    simp only [effect]
    split <;> simp
  all_goals simp [effect]

theorem enqueued_effect (clr : Clr) (b : Block) (hopen : m.shutdown = false) :
    entries key (effect clr b m).enqueued = entries key m.enqueued ++
      (match b with
        | .enqueueForRejit ms (some k) => if k = key then [ms] else []
        | _ => []) := by
  cases b
  case methodInliners k =>
    simp only [effect]
    split <;> simp
  case enqueueForRejit ms src =>
    cases src with
    | none => simp [effect, hopen]
    | some k => simp [effect, hopen, entries_single]
  case enqueueProcessModule ms is =>
    simp only [effect]
    split <;> simp
  all_goals simp [effect]

theorem perform_frame {a : Action} (h : perform a m = some (m', c)) :
    m'.enumerated = m.enumerated ∧ m'.enqueued = m.enqueued ∧
      (Done key m' ↔ a = .markDone key ∨ Done key m) := by
  cases a with
  | pop =>
    obtain ⟨_, _, _, rfl, _⟩ := perform_pop_eq_some h
    simp [Done]
  | markDone k =>
    refine ⟨?_, ?_, ?_⟩
    · cases h
      rfl
    · cases h
      rfl
    · obtain ⟨x, d, n⟩ := key
      simp [Done, mem_markDone h, eq_comm]
  | pushEnd =>
    cases h
    simp [Done]
  | join =>
    simp only [perform] at h
    split at h
    · cases h
      simp
    · cases h

theorem InPhase.congr {w : Code} (h : InPhase key w m) (hd : Done key m' = Done key m)
    (hn : entries key m'.enumerated = entries key m.enumerated)
    (hq : entries key m'.enqueued = entries key m.enqueued) : InPhase key w m' := by
  rwa [InPhase, hd, hn, hq]

/-- The enumeration is made. -/
theorem inPhase_ask (hclr : Complete clr) (hopen : m.shutdown = false) (h : InPhase key [] m)
    (ha : asks key m = true) :
    InPhase key (work (ofKey key) (body clr (.methodInliners key) m))
      (effect clr (.methodInliners key) m) := by
  have hnd : ¬ Done key m := by
    simp only [asks, decide_eq_true_eq] at ha
    exact ha.1
  obtain ⟨hn, hq⟩ : entries key m.enumerated = [] ∧ entries key m.enqueued = [] := by
    rw [InPhase] at h
    generalize Done key m = done at h hnd
    generalize entries key m.enumerated = log at h ⊢
    generalize entries key m.enqueued = sentLog at h ⊢
    cases h with
    | fresh _ => exact ⟨rfl, rfl⟩
    | finished _ hd => exact absurd hd hnd
  obtain ⟨ms, hms⟩ := hclr m.enumerated.length key
  have hdone : Done key (effect clr (.methodInliners key) m) = Done key m := done_effect rfl
  rw [InPhase, hdone, enumerated_effect, hn, enqueued_effect clr _ hopen, hq]
  by_cases hne : ms = []
  · subst hne
    have : Phase key _ _ _ _ := .mark [] hnd
    simpa [body, methodInliners, ha, hms, ifAny, work_cons, ofKey, sent] using this
  · have : Phase key _ _ _ _ := .enqueue hnd hne
    simpa [body, methodInliners, ha, hms, ifAny, hne, work_cons, ofKey] using this

/-- The inliners are enqueued. -/
theorem inPhase_enqueue (clr : Clr) {ms : List Method} {w : Code} (hopen : m.shutdown = false)
    (h : InPhase key (.enter (.enqueueForRejit ms (some key)) :: w) m) :
    InPhase key w (effect clr (.enqueueForRejit ms (some key)) m) := by
  have hdone : Done key (effect clr (.enqueueForRejit ms (some key)) m) = Done key m :=
    done_effect rfl
  rw [InPhase] at h ⊢
  rw [hdone, enumerated_effect, enqueued_effect clr _ hopen]
  generalize Done key m = done at h ⊢
  generalize entries key m.enumerated = log at h ⊢
  generalize entries key m.enqueued = sentLog at h ⊢
  cases h with
  | enqueue hnd hne =>
    have : Phase key _ _ _ _ := .mark ms hnd
    simpa [sent, hne] using this

/-- The NGEN module is marked. -/
theorem inPhase_mark {w : Code} (ha : perform (.markDone key) m = some (m', c))
    (h : InPhase key (.act (.markDone key) :: w) m) : InPhase key w m' := by
  obtain ⟨hn, hq, hd⟩ : _ ∧ _ ∧ (Done key m' ↔ _) := perform_frame ha
  have hdone : Done key m' := hd.2 (.inl rfl)
  rw [InPhase] at h ⊢
  rw [hn, hq]
  generalize Done key m = done at h
  generalize entries key m.enumerated = log at h ⊢
  generalize entries key m.enqueued = sentLog at h ⊢
  cases h with
  | mark ms _ => exact .finished ms hdone

theorem work_body (h : ¬ (b = .methodInliners key ∧ asks key m = true)) :
    work (ofKey key) (body clr b m) = [] := by
  rw [work_eq_nil]
  intro i hi
  rw [Bool.eq_false_iff]
  intro hk
  have hb := ofKey_body hi hk
  subst hb
  exact h ⟨rfl, (mem_methodInliners.1 hi).1⟩

theorem inPhase_skip {w : Code} (hopen : m.shutdown = false) (hb : keeps (.enter b) = true)
    (hask : ¬ (b = .methodInliners key ∧ asks key m = true))
    (hk : ofKey key (.enter b) = false) (h : InPhase key w m) :
    InPhase key w (effect clr b m) := by
  refine h.congr (done_effect hb) ?_ ?_
  · rw [enumerated_effect, if_neg hask, List.append_nil]
  · rw [enqueued_effect clr b hopen]
    cases b
    case enqueueForRejit ms src =>
      cases src with
      | none => simp
      | some k => simp_all [ofKey]
    all_goals simp

theorem once_step (hclr : Complete clr) (hs : Sound s)
    (hu : ∀ u, Under (ofKey key · = true) ⟨.inliners key.module key.method, false⟩ (s.code u))
    (ho : Once key s) (h : (program clr).Step s e s') : Once key s' := by
  have hkeeps : ∀ {t b rest}, s.code t = .enter b :: rest → keeps (.enter b) = true :=
    fun hcode => hs.keeps _ _ (hcode ▸ List.mem_cons_self)
  refine Custody.step (guarded_ofKey clr key) hu ho h ?_ ?_ ?_ ?_ ?_
  · intro t b rest _ hcode hb hΦ
    by_cases hask : b = .methodInliners key ∧ asks key s.mem = true
    · obtain ⟨rfl, ha⟩ := hask
      exact inPhase_ask hclr hs.shutdown hΦ ha
    · have hk : ofKey key (.enter b) = false := by
        cases b <;> simp_all [hold, ofKey, readLock]
      simp only [program_body, work_body hask]
      exact inPhase_skip hs.shutdown (hkeeps hcode) hask hk hΦ
  · intro t b rest w _ hcode hb hk hΦ
    refine inPhase_skip hs.shutdown (hkeeps hcode) ?_ hk hΦ
    rintro ⟨rfl, _⟩
    exact hb rfl
  · intro t b rest w _ hcode hk hΦ
    obtain ⟨ms, rfl⟩ : ∃ ms, b = .enqueueForRejit ms (some key) := by
      cases b
      case enqueueForRejit ms src =>
        cases src with
        | none => cases hk
        | some k =>
          obtain rfl : k = key := by simpa [ofKey] using hk
          exact ⟨ms, rfl⟩
      all_goals cases hk
    exact inPhase_enqueue clr hs.shutdown hΦ
  · intro t a rest w m c _ hcode ha hk hΦ
    obtain rfl : a = .markDone key := by
      cases a <;> simp_all [ofKey]
    exact inPhase_mark ha hΦ
  · intro t a rest w m c _ hcode ha hk hΦ
    obtain ⟨hn, hq, hd⟩ : _ ∧ _ ∧ (Done key m ↔ _) := perform_frame ha
    have hne : a ≠ .markDone key := by
      rintro rfl
      simp [ofKey] at hk
    exact hΦ.congr (propext (hd.trans (by simp [hne]))) (by rw [hn]) (by rw [hq])

theorem once_init : Once key (init true) := by
  refine ⟨.queue, .fresh (by simp [Done, init]), fun u _ => ?_⟩
  cases u <;> simp [init, work_cons, ofKey]

/-! ## Quiescence -/

/-- All calls have returned, and the queue thread waits for an item. -/
structure Quiescent (s : State) : Prop where
  returned : ∀ i, s.code (.caller i) = []
  waiting : s.code .queue = [.act .pop]
  empty : s.mem.queue = []

/-- Work that is not waiting for an item has then reached its goal. -/
theorem Quiescent.goal {C : Instr Lock Block Action → Prop} {Q : RejitItem → Prop}
    {G : Handler → Prop} (hq : Quiescent s) (hpop : ¬ C (.act .pop)) (h : Carried C Q G s) :
    G s.mem := by
  rcases h with hg | ⟨t, i, hi, hC⟩ | ⟨item, hm, _⟩
  · exact hg
  · cases t with
    | queue =>
      rw [hq.waiting, List.mem_singleton] at hi
      exact absurd (hi ▸ hC) hpop
    | caller k => simp [hq.returned k] at hi
  · simp [hq.empty] at hm

theorem Quiescent.work_eq_nil (hq : Quiescent s) (t : Thread) :
    work (ofKey key) (s.code t) = [] := by
  cases t with
  | queue => simp [hq.waiting, work_cons, ofKey]
  | caller k => simp [hq.returned k]

/-- The invariant of the runs without `Shutdown` and `RemoveModule`. -/
structure Inv (s : State) : Prop where
  sound : Sound s
  covered : ∀ key, Listed key s.mem → Covered key s
  under : ∀ key u,
    Under (ofKey key · = true) ⟨.inliners key.module key.method, false⟩ (s.code u)
  once : ∀ key, Once key s

theorem inv_step (hclr : Complete clr) (hi : Inv s) (he : e.Ok Keeps)
    (h : (program clr).Step s e s') : Inv s' where
  sound := sound_step hi.sound he h
  covered := covered_step hclr hi.sound hi.covered h
  under key := (guarded_ofKey clr key).local_under.step (hi.under key) e.ok_true h
  once key := once_step hclr hi.sound (hi.under key) (hi.once key) h

theorem inv_init : Inv (init true) where
  sound := sound_init
  covered key h := by simp [Listed, init] at h
  under key u := by
    cases u <;> simp [init, followed_cons, followed_nil, ofKey]
  once key := once_init

theorem inv_of_runs (hclr : Complete clr) (hes : ∀ e ∈ es, e.Ok Keeps)
    (h : Runs clr true es s) : Inv s := by
  refine h.invariant (C := fun _ e => e.Ok Keeps) (fun s e t hi he => inv_step hclr hi he) ?_ inv_init
  intro pre e post t hpre _
  exact hes e (by simp [hpre])

/-! ## The tables at the end -/

/-- The work of `AddNGenModule(n)` before the module is in the table. -/
def addsNGen (n : ModuleID) : Instr Lock Block Action → Prop
  | .enter (.addNGenModule x) | .enter (.addNGenModuleLocked x) => x = n
  | _ => False

theorem handover_addsNGen (clr : Clr) (n : ModuleID) :
    Handover clr (·.shutdown = false) (addsNGen n) (fun _ => False) (n ∈ ·.ngenModules) where
  enter {b m} hm h := by
    cases b
    case addNGenModule x => exact .inl ⟨.enter (.addNGenModuleLocked x), by simp [body, hm], h⟩
    case addNGenModuleLocked x =>
      obtain rfl : x = n := h
      exact .inr (.inl (by simp [effect]))
    all_goals exact absurd h id
  release k h := h
  act h _ := absurd h id
  pop h := absurd h id
  effect {b m} _ h := by
    rw [ngenModules_effect]
    split
    · exact List.mem_append_left _ h
    · exact h
  perform ha h := by rwa [ngenModules_perform ha]

/-- The integrations match the method in these modules. -/
def Targets (clr : Clr) (t : Method) (modules : List ModuleID)
    (integrations : List IntegrationMethod) : Prop :=
  modules ≠ [] ∧ integrations ≠ [] ∧ t ∈ clr.targets modules integrations

/-- The work of `ProcessModuleForRejit` before the method is registered. -/
def processes (clr : Clr) (t : Method) : Instr Lock Block Action → Prop
  | .enter (.processModuleForRejit ms is _) => t ∈ clr.targets ms is
  | .enter (.enqueueProcessModule ms is) => Targets clr t ms is
  | .enter (.getOrAddMethod x d true) => (x, d) = t
  | _ => False

theorem handover_processes (clr : Clr) (t : Method) :
    Handover clr (·.shutdown = false) (processes clr t)
      (fun item => ∃ ms is, item = .processModule ms is ∧ Targets clr t ms is)
      (t ∈ ·.registered) where
  enter {b m} hm h := by
    cases b
    case processModuleForRejit ms is same =>
      refine .inl ⟨.enter (.getOrAddMethod t.1 t.2 true), ?_, rfl⟩
      rw [body, mem_unlessShutdown, mem_processModuleForRejit]
      exact ⟨hm, .inl ⟨t, h, .inr rfl⟩⟩
    case enqueueProcessModule ms is =>
      exact .inr (.inr ⟨.processModule ms is, by simp [effect, hm], ms, is, rfl, h⟩)
    case getOrAddMethod x d r =>
      cases r with
      | false => exact absurd h id
      | true =>
        obtain rfl : (x, d) = t := h
        exact .inr (.inl (by simp [effect]))
    all_goals exact absurd h id
  release k h := h
  act h _ := absurd h id
  pop := by
    rintro _ ⟨ms, is, rfl, hms, his, ht⟩
    exact ⟨.enter (.processModuleForRejit ms is true),
      mem_itemCode.2 (.inr (.inl ⟨ms, is, rfl, hms, his, rfl⟩)), ht⟩
  effect {b m} _ h := by
    rw [registered_effect]
    split
    · exact List.mem_cons_of_mem _ h
    · exact h
  perform ha h := by rwa [registered_perform ha]

/-- What an operation called during the run sets out to do is done once all is quiet. -/
theorem goal_of_call {C : Instr Lock Block Action → Prop} {Q : RejitItem → Prop}
    {G : Handler → Prop} (hclr : Complete clr) (hh : Handover clr (·.shutdown = false) C Q G)
    (hes : ∀ e ∈ es, e.Ok Keeps) (h : Runs clr true es s) (hq : Quiescent s)
    (hpop : ¬ C (.act .pop)) {t : Thread} {o : Op} (ho : .call t o ∈ es)
    (hC : ∃ i ∈ o.code, C i) : G s.mem := by
  obtain ⟨pre, post, rfl⟩ := List.append_of_mem ho
  obtain ⟨u, hpre, hcall⟩ := run_append_iff.1 h
  obtain ⟨v, hstep, hpost⟩ := run_cons_iff.1 hcall
  have hu : Inv u := inv_of_runs hclr (fun e he => hes e (List.mem_append_left _ he)) hpre
  have hkeep : ∀ e ∈ post, e.Ok Keeps := fun e he =>
    hes e (List.mem_append_right _ (List.mem_cons_of_mem _ he))
  have hv : Inv v := inv_step hclr hu (hes _ (by simp)) hstep
  have hcv : Carried C Q G v := by
    cases hstep with
    | call _ hs =>
      obtain ⟨_, rfl⟩ := start_eq_some.1 hs
      exact .inr (.inl (work_ahead hC))
  have hend : Inv s ∧ Carried C Q G s := by
    refine hpost.invariant (I := fun w => Inv w ∧ Carried C Q G w)
      (C := fun _ (e : Event) => e.Ok Keeps) (fun s e t hi he hst => ?_) ?_ ⟨hv, hcv⟩
    · exact ⟨inv_step hclr hi.1 he hst, hi.2.step hh hi.1.sound hi.1.sound.shutdown hst⟩
    · intro p e q w hw _
      exact hkeep e (by simp [hw])
  exact hq.goal hpop hend.2

/-- In a quiescent state the inliners of each registered method in each NGEN module have been
enumerated and enqueued once. -/
theorem Inv.once_of_quiescent (hi : Inv s) (hq : Quiescent s) (hkey : Listed key s.mem) :
    ∃ ms, entries key s.mem.enumerated = [some (ms, false)] ∧
      entries key s.mem.enqueued = sent ms := by
  have hd : Done key s.mem := hq.goal id (hi.covered key hkey)
  have hp : InPhase key [] s.mem := (hi.once key).of_none hq.work_eq_nil
  rw [InPhase] at hp
  generalize Done key s.mem = done at hp hd
  generalize entries key s.mem.enumerated = log at hp ⊢
  generalize entries key s.mem.enqueued = sentLog at hp ⊢
  cases hp with
  | fresh hnd => exact absurd hd hnd
  | finished ms _ => exact ⟨ms, rfl, rfl⟩

/-- Once all calls have returned and the queue is empty, the NGEN modules added and the methods
of the modules processed are in the tables, and for each pair the inliners have been enumerated
once and enqueued once, if there are any. -/
theorem ngen_inliners_once (clr : Clr) (hclr : Complete clr) (es : List Event) (s : State)
    (hes : ∀ e ∈ es, e.Ok Keeps) (hrun : Runs clr true es s) (hq : Quiescent s) :
    (∀ t n, .call t (.addNGenModule n) ∈ es → n ∈ s.mem.ngenModules) ∧
    (∀ t ms is same, .call t (.processModuleForRejit ms is same) ∈ es →
      ∀ x ∈ clr.targets ms is, x ∈ s.mem.registered) ∧
    (∀ t ms is, .call t (.enqueueProcessModule ms is) ∈ es → ms ≠ [] → is ≠ [] →
      ∀ x ∈ clr.targets ms is, x ∈ s.mem.registered) ∧
    ∀ m d n, (m, d) ∈ s.mem.registered → n ∈ s.mem.ngenModules →
      ∃ inliners, entries ⟨m, d, n⟩ s.mem.enumerated = [some (inliners, false)] ∧
        entries ⟨m, d, n⟩ s.mem.enqueued = sent inliners := by
  refine ⟨fun t n hn => ?_, fun t ms is same ho x hx => ?_, fun t ms is ho hms his x hx => ?_,
    fun m d n hr hn => ?_⟩
  · exact goal_of_call hclr (handover_addsNGen clr n) hes hrun hq id hn
      ⟨_, List.mem_cons_self, rfl⟩
  · exact goal_of_call hclr (handover_processes clr x) hes hrun hq id ho
      ⟨_, List.mem_cons_self, hx⟩
  · exact goal_of_call hclr (handover_processes clr x) hes hrun hq id ho
      ⟨_, List.mem_cons_self, hms, his, hx⟩
  · exact (inv_of_runs hclr hes hrun).once_of_quiescent hq ⟨hr, hn⟩

/-- A runtime in which each module processed has the method `2` to register, and each
enumeration finds one inliner. -/
def inlining : Clr :=
  { silent with
    targets := fun ms _ => ms.map (·, 2)
    enumerate := fun _ _ => some ([(3, 4)], false) }

/-- `AddNGenModule` of `7`, then `ProcessModuleForRejit` of `1`, then the item of the queue. -/
def addThenProcess : List Event :=
  .call (.caller 0) (.addNGenModule 7) :: List.replicate 8 (.step (.caller 0)) ++
    .call (.caller 0) (.processModuleForRejit [1] [6] true) ::
      List.replicate 25 (.step (.caller 0)) ++ List.replicate 15 (.step .queue)

theorem ngen_inliners_once_addThenProcess :
    ∃ s, Runs inlining true addThenProcess s ∧ Quiescent s ∧
      ∃ inliners, entries ⟨1, 2, 7⟩ s.mem.enumerated = [some (inliners, false)] ∧
        entries ⟨1, 2, 7⟩ s.mem.enqueued = sent inliners := by
  have hidle : Idle [.queue, .caller 0] (init true) := by
    intro u hu
    cases u with
    | queue => simp at hu
    | caller i => rfl
  obtain ⟨s, hs⟩ : ∃ s,
      (program inlining).exec [.queue, .caller 0] (init true) addThenProcess = some s := ⟨_, rfl⟩
  obtain ⟨hrun, hend⟩ := Program.exec_run hidle hs
  have hq : Quiescent s := by
    refine ⟨fun i => ?_, ?_, ?_⟩
    · by_cases hi : i = 0
      · subst hi
        cases hs
        rfl
      · exact hend _ (by simp [hi])
    · cases hs
      rfl
    · cases hs
      rfl
  obtain ⟨hadd, hproc, _, honce⟩ := ngen_inliners_once inlining (fun _ _ => ⟨_, rfl⟩)
    addThenProcess s (by simp [addThenProcess, Event.Ok, Keeps]) hrun hq
  exact ⟨s, hrun, hq, honce 1 2 7 (hproc (.caller 0) [1] [6] true (by decide) _ (by decide))
    (hadd (.caller 0) 7 (by decide))⟩

end DdTrace.Rejit
