import DdTrace.Rejit.Handler

/-!
# The lock order of RejitHandler

Every operation but `Shutdown` takes `m_shutdown_lock` shared and then
`m_ngenModules_lock`, `m_modules_lock`, `m_methods_lock` and the lock of a
method in this order (`rank`). `Shutdown` takes `m_modules_lock`, then
`m_ngenModules_lock`, then `m_shutdown_lock`: while it stands between the first
and the last of them (`between`), a thread that holds `m_shutdown_lock` shared
and still has one of the two tables ahead (`exposed`) will wait for it for
ever. A run that never brings the two together has no waiting cycle.
-/

namespace DdTrace.Rejit

open DdTrace.Lib DdTrace.Lib.Locks

def rank : Lock → ℕ
  | .shutdown => 0
  | .ngenModules => 1
  | .modules => 2
  | .methods _ => 3
  | .inliners _ _ => 4

/-- The least rank among the locks a block takes, `m_shutdown_lock` apart. -/
def need : Block → ℕ
  | .addNGenModule _ | .addNGenModuleLocked _ | .requestRejit _ | .requestRejitForNGenInliners
  | .ngenInliners | .processModuleForRejit _ _ _ => 1
  | .requestRejitForInlinersInModule _ | .modulesInliners _ | .getOrAddModule _ | .addModule _
  | .hasModuleAndMethod _ _ | .findModule _ _ | .removeModule _ | .eraseModule _
  | .notifyReJITParameters _ _ => 2
  | .moduleInliners _ _ | .getOrAddMethod _ _ _ | .containsMethod _ _ => 3
  | .methodInliners _ => 4
  | _ => 5

def ofShutdown : Block → Bool
  | .shutdownModules | .shutdownNgenModules | .shutdownWrite => true
  | _ => false

/-- The block takes `m_ngenModules_lock` or `m_modules_lock`, itself or in its body. -/
def takesTable (clr : Clr) : Block → Bool
  | .requestRejit ms => ms ≠ []
  | .processModuleForRejit ms is _ => clr.targets ms is ≠ []
  | b => need b ≤ 2

/-- `m_shutdown_lock` is held shared with a table's lock still to be taken under it. -/
def exposed (clr : Clr) : Code → Bool
  | [] => false
  | .enter b :: rest => takesTable clr b && rest.contains (.release readLock) || exposed clr rest
  | _ :: rest => exposed clr rest

/-- `Shutdown` has `m_modules_lock` and not yet `m_shutdown_lock`. -/
def between (c : Code) : Bool :=
  c.contains (.enter .shutdownNgenModules) || c.contains (.enter .shutdownWrite)

/-- What keeps a step from bringing the two together: `Shutdown` takes `m_modules_lock` only while
no thread is exposed, and no thread takes `m_shutdown_lock` shared on its way to a table while a
`Shutdown` is between its locks. -/
def Orderly (clr : Clr) (s : State) : Event → Prop
  | .call _ _ => True
  | .step t => ∀ b rest, s.code t = .enter b :: rest →
      (b = .shutdownModules → ∀ u, exposed clr (s.code u) = false) ∧
      (hold b = readLock → takesTable clr b = true → s.mem.shutdown = false →
        ∀ u, between (s.code u) = false)

/-- No thread is exposed while another stands between the locks of `Shutdown`. -/
def Safe (clr : Clr) (s : State) : Prop :=
  ∀ t u, exposed clr (s.code t) = true → between (s.code u) = false

/-! ## The shapes of codes -/

variable {clr : Clr} {s s' : State} {e : Event} {es : List Event} {b c : Block} {c' d : Code}

/-- What holds of an instruction of an operation other than `Shutdown`, given the code behind it:
the locks held there come before those it takes, and it takes a table's lock only under
`m_shutdown_lock`. -/
def InOrder : Instr Lock Block Action → Code → Prop
  | .enter b, rest => ofShutdown b = false ∧ (∀ k, .release k ∈ rest → rank k.lock < need b) ∧
      ((hold b).lock = .ngenModules ∨ (hold b).lock = .modules → .release readLock ∈ rest)
  | .release k, _ => k ≠ writeLock
  | .act a, rest => a = .pop → rest = []

def Regular : Code → Prop
  | [] => True
  | i :: rest => InOrder i rest ∧ Regular rest

/-- The code of a `Shutdown`, from its first instruction to its last. -/
inductive ShutdownCode : Code → Prop where
  | pushEnd : ShutdownCode [.act .pushEnd, .act .join, .enter .shutdownModules]
  | join : ShutdownCode [.act .join, .enter .shutdownModules]
  | modules : ShutdownCode [.enter .shutdownModules]
  | ngenModules :
      ShutdownCode [.enter .shutdownNgenModules, .release ⟨.modules, false⟩]
  | write : ShutdownCode
      [.enter .shutdownWrite, .release ⟨.ngenModules, false⟩, .release ⟨.modules, false⟩]
  | written : ShutdownCode
      [.release writeLock, .release ⟨.ngenModules, false⟩, .release ⟨.modules, false⟩]
  | ngenModulesHeld :
      ShutdownCode [.release ⟨.ngenModules, false⟩, .release ⟨.modules, false⟩]
  | modulesHeld : ShutdownCode [.release ⟨.modules, false⟩]

def Shape (c : Code) : Prop := Regular c ∨ ShutdownCode c

attribute [local simp] exposed InOrder Regular

theorem InOrder.weaken {i : Instr Lock Block Action} (h : InOrder i d) (hp : Plain c')
    (hi : i ≠ .act .pop) : InOrder i (c' ++ d) := by
  have hrel : ∀ k, .release k ∈ c' ++ d → .release k ∈ d := fun k hk =>
    (List.mem_append.1 hk).resolve_left (hp k)
  cases i with
  | enter b =>
    exact ⟨h.1, fun k hk => h.2.1 k (hrel k hk), fun hl => List.mem_append_right _ (h.2.2 hl)⟩
  | release k => exact h
  | act a => exact fun ha => absurd (congrArg _ ha) hi

theorem Regular.append (hd : Regular d) (hp : Plain c')
    (hc : ∀ i ∈ c', InOrder i d ∧ i ≠ .act .pop) : Regular (c' ++ d) := by
  induction c' with
  | nil => exact hd
  | cons i c' ih =>
    have hp' : Plain c' := fun k hk => hp k (List.mem_cons_of_mem _ hk)
    obtain ⟨hi, hne⟩ := hc i List.mem_cons_self
    exact ⟨hi.weaken hp' hne, ih hp' fun j hj => hc j (List.mem_cons_of_mem _ hj)⟩

/-- What the body of a block does comes later in the order than the block. -/
theorem enter_mem_body {m : Handler} (h : .enter c ∈ body clr b m) (hb : ofShutdown b = false) :
    ofShutdown c = false ∧ need b ≤ need c ∧ rank (hold b).lock < need c ∧
      ((hold c).lock = .ngenModules ∨ (hold c).lock = .modules → hold b = readLock) ∧
      (takesTable clr c = true → takesTable clr b = true) := by
  cases b
  case processModuleForRejit ms is same =>
    rw [body, mem_unlessShutdown, mem_processModuleForRejit] at h
    rcases h with ⟨_, ⟨t, ht, h | h⟩ | ⟨hne, h⟩⟩
    · cases h
      simp [ofShutdown, need, hold, rank, readLock, takesTable, List.ne_nil_of_mem ht]
    · cases h
      simp [ofShutdown, need, hold, rank, readLock, takesTable]
    · cases same <;> cases h <;> simp [ofShutdown, need, hold, rank, readLock, takesTable, hne]
  case methodInliners key =>
    obtain ⟨_, ms, inc, _, ⟨_, h⟩ | ⟨_, h⟩⟩ := mem_methodInliners.1 h
    · cases h
      simp [ofShutdown, need, hold, rank, readLock, takesTable]
    · cases h
  case modulesInliners n =>
    obtain ⟨_, m, _, rfl⟩ : m.profilerInfo6 = true ∧ ∃ m' ∈ m.modules, .moduleInliners m' n = c := by
      simpa [body] using h
    simp [ofShutdown, need, hold, rank, readLock, takesTable]
  case moduleInliners m' n =>
    obtain ⟨d, _, rfl⟩ : ∃ d ∈ m.methods m', .methodInliners ⟨m', d, n⟩ = c := by
      simpa [body] using h
    simp [ofShutdown, need, hold, rank, readLock, takesTable]
  case ngenInliners =>
    obtain ⟨_, n, _, rfl⟩ :
        m.profilerInfo6 = true ∧ ∃ n ∈ m.ngenModules, .requestRejitForInlinersInModule n = c := by
      simpa [body] using h
    simp [ofShutdown, need, hold, rank, readLock, takesTable]
  case notifyReJITParameters m' d =>
    obtain ⟨_, rfl | rfl⟩ :
        m.shutdown = false ∧ (c = .getOrAddModule m' ∨ c = .getOrAddMethod m' d false) := by
      simpa [body] using h
    all_goals simp [ofShutdown, need, hold, rank, readLock, takesTable]
  all_goals
    simp only [body, mem_unlessShutdown, mem_ifAny, List.mem_ite_nil_right, List.mem_cons,
      List.not_mem_nil, or_false, Instr.enter.injEq] at h
  all_goals
    simp_all [ofShutdown, need, hold, rank, readLock, takesTable]

theorem mem_body_ne_pop {m : Handler} {i : Instr Lock Block Action} (h : i ∈ body clr b m) :
    i ≠ .act .pop := by
  rintro rfl
  cases b <;> simp [body, mem_methodInliners, mem_processModuleForRejit] at h

theorem act_inOrder {a : Action} (ha : a ≠ .pop) : InOrder (.act a) d := fun h => absurd h ha

theorem hold_ne_writeLock (hb : ofShutdown b = false) : hold b ≠ writeLock := by
  cases b <;> simp_all [hold, ofShutdown, writeLock, readLock]

theorem Regular.enter {m : Handler} (h : Regular (.enter b :: d)) :
    Regular (body clr b m ++ .release (hold b) :: d) := by
  obtain ⟨⟨hb, hlt, htab⟩, hd⟩ := h
  have hr : Regular (.release (hold b) :: d) := ⟨hold_ne_writeLock hb, hd⟩
  refine hr.append ((program_scoped clr).body b m) fun i hi => ⟨?_, mem_body_ne_pop hi⟩
  cases i with
  | enter c =>
    obtain ⟨hc, hneed, hrank, hread, _⟩ := enter_mem_body hi hb
    refine ⟨hc, fun k hk => ?_, fun hl => hread hl ▸ List.mem_cons_self⟩
    rcases List.mem_cons.1 hk with e | hk
    · cases e
      exact hrank
    · exact Nat.lt_of_lt_of_le (hlt k hk) hneed
  | release k => exact absurd hi ((program_scoped clr).body b m k)
  | act a => exact act_inOrder fun ha => mem_body_ne_pop hi (congrArg _ ha)

theorem opCode_regular {o : Op} (ho : o ≠ .shutdown) : Regular o.code := by
  cases o
  case shutdown => exact absurd rfl ho
  all_goals simp [Op.code, ofShutdown, hold, readLock]

theorem itemCode_regular (item : RejitItem) : Regular item.code := by
  cases item with
  | endRejitThread => trivial
  | rejit ms =>
    rw [RejitItem.code, ifAny]
    split <;> simp [ofShutdown, hold, readLock]
  | processModule ms is =>
    rw [RejitItem.code]
    split <;> simp [ofShutdown, hold, readLock]

theorem regular_local : (program clr).Local (· ≠ .shutdown) Regular where
  start {t o c} ho h := by
    obtain ⟨_, rfl⟩ := start_eq_some.1 h
    exact opCode_regular ho
  enter h _ := h.enter
  release h := h.2
  act {a m m' c rest} h ha := by
    by_cases hp : a = .pop
    · obtain ⟨item, _, _, _, rfl⟩ := perform_pop_eq_some (hp ▸ ha)
      rw [h.1 hp, List.append_nil]
      exact itemCode_regular item
    · rw [perform_of_ne_pop hp ha]
      exact h.2

/-- Every thread is in an operation that follows the order, or in a `Shutdown`. -/
theorem shape_local : (program clr).Local (fun _ => True) Shape where
  start {t o c} _ h := by
    by_cases ho : o = .shutdown
    · obtain ⟨_, rfl⟩ := start_eq_some.1 h
      subst ho
      exact .inr .pushEnd
    · have hstart : o ≠ .shutdown → (program clr).start t o = some c → Regular c :=
        regular_local.start
      exact .inl (hstart ho h)
  enter {b m rest} h hk := by
    rcases h with h | h
    · exact .inl (regular_local.enter h hk)
    · cases h with
      | modules => exact .inr .ngenModules
      | ngenModules => exact .inr .write
      | write => exact .inr .written
  release {k rest} h := by
    rcases h with h | h
    · exact .inl h.2
    · cases h with
      | written => exact .inr .ngenModulesHeld
      | ngenModulesHeld => exact .inr .modulesHeld
      | modulesHeld => exact .inl trivial
  act {a m m' c rest} h ha := by
    rcases h with h | h
    · exact .inl (regular_local.act h ha)
    · cases h with
      | pushEnd =>
        rw [perform_of_ne_pop (a := .pushEnd) (by simp) ha]
        exact .inr .join
      | join =>
        rw [perform_of_ne_pop (a := .join) (by simp) ha]
        exact .inr .modules

/-! ## Exposed threads and `Shutdown` between its locks -/

theorem exposed_append (hp : Plain c') :
    exposed clr (c' ++ d) = true ↔ exposed clr d = true ∨
      (∃ b, .enter b ∈ c' ∧ takesTable clr b = true) ∧ .release readLock ∈ d := by
  induction c' with
  | nil => simp
  | cons i c' ih =>
    have hp' : Plain c' := fun k hk => hp k (List.mem_cons_of_mem _ hk)
    have hr := hp' readLock
    cases i with
    | enter b =>
      by_cases hb : takesTable clr b = true
      · simp only [List.cons_append, exposed, hb, Bool.true_and, Bool.or_eq_true,
          List.contains_iff_mem, List.mem_append, hr, false_or, ih hp']
        constructor
        · rintro (h | h | h)
          · exact .inr ⟨⟨b, List.mem_cons_self, hb⟩, h⟩
          · exact .inl h
          · exact .inr ⟨⟨b, List.mem_cons_self, hb⟩, h.2⟩
        · rintro (h | h)
          · exact .inr (.inl h)
          · exact .inl h.2
      · simp [hb, ih hp']
    | release k => exact absurd List.mem_cons_self (hp k)
    | act a => simp [ih hp']

theorem exposed_enter_of_release (hb : takesTable clr b = true) (h : .release readLock ∈ d) :
    exposed clr (.enter b :: d) = true := by
  simp [hb, h]

/-- Only taking `m_shutdown_lock` on the way to a table exposes a thread. -/
theorem exposed_of_enter {m : Handler} (hr : Regular (.enter b :: d))
    (h : exposed clr (body clr b m ++ .release (hold b) :: d) = true) :
    exposed clr (.enter b :: d) = true ∨
      hold b = readLock ∧ takesTable clr b = true ∧ m.shutdown = false := by
  rcases (exposed_append ((program_scoped clr).body b m)).1 h with h | ⟨⟨c, hc, hct⟩, hrel⟩
  · left
    simp only [exposed, Bool.or_eq_true] at h ⊢
    exact .inr h
  · obtain ⟨_, _, _, _, htab⟩ := enter_mem_body hc hr.1.1
    rcases List.mem_cons.1 hrel with e | hrel
    · right
      have hh : hold b = readLock := by
        injection e with e
        exact e.symm
      refine ⟨hh, htab hct, ?_⟩
      cases b <;> simp_all [hold, readLock, body, writeLock]
    · exact .inl (exposed_enter_of_release (htab hct) hrel)

theorem ShutdownCode.not_exposed (h : ShutdownCode d) : exposed clr d = false := by
  cases h <;> simp [readLock]

theorem opCode_not_exposed (o : Op) : exposed clr o.code = false := by
  cases o <;> simp [Op.code]

theorem itemCode_not_exposed (item : RejitItem) : exposed clr item.code = false := by
  cases item with
  | endRejitThread => rfl
  | rejit ms =>
    rw [RejitItem.code, ifAny]
    split <;> simp
  | processModule ms is =>
    rw [RejitItem.code]
    split <;> simp

theorem Regular.not_between (h : Regular d) : between d = false := by
  induction d with
  | nil => rfl
  | cons i d ih =>
    have := ih h.2
    cases i with
    | enter b =>
      have hb := h.1.1
      cases b <;> simp_all [between, ofShutdown]
    | release k => simpa [between] using this
    | act a => simpa [between] using this

theorem opCode_not_between (o : Op) : between o.code = false := by
  cases o <;> simp [Op.code, between]

theorem Shape.not_both (h : Shape d) (he : exposed clr d = true) : between d = false := by
  rcases h with h | h
  · exact h.not_between
  · exact absurd he (by simp [h.not_exposed])

/-- What the code of a thread may become: exposed only if it was or nobody is between, between
only if it was or nobody is exposed. -/
theorem Safe.update (hs : Safe clr s) {t : Thread} {m : Handler} (hd : Shape d)
    (he : exposed clr d = true →
      exposed clr (s.code t) = true ∨ ∀ u, between (s.code u) = false)
    (hb : between d = true →
      between (s.code t) = true ∨ ∀ u, exposed clr (s.code u) = false) :
    Safe clr ⟨m, Function.update s.code t d⟩ := by
  intro u v hu
  by_cases hut : u = t
  · subst hut
    simp only [Function.update_self] at hu
    by_cases hv : v = u
    · subst hv
      simpa using hd.not_both hu
    · simp only [Function.update_of_ne hv]
      exact (he hu).elim (hs u v) (fun h => h v)
  · simp only [Function.update_of_ne hut] at hu
    by_cases hv : v = t
    · subst hv
      simp only [Function.update_self]
      rw [Bool.eq_false_iff]
      intro hbv
      rcases hb hbv with h | h
      · simp [hs u v hu] at h
      · simp [h u] at hu
    · simp only [Function.update_of_ne hv]
      exact hs u v hu

theorem safe_step (hs : Safe clr s) (hshape : ∀ t, Shape (s.code t)) (hc : Orderly clr s e)
    (h : (program clr).Step s e s') : Safe clr s' := by
  have hshape' := shape_local.step hshape e.ok_true h
  cases h with
  | call hcode ho =>
    rename_i t o c
    obtain ⟨_, rfl⟩ := start_eq_some.1 ho
    have hd := hshape' t
    simp only [Function.update_self] at hd
    refine hs.update hd (fun he => ?_) (fun hb => ?_)
    · simp [opCode_not_exposed] at he
    · simp [opCode_not_between] at hb
  | enter hcode hf =>
    rename_i t b rest
    have hd := hshape' t
    simp only [Function.update_self] at hd
    have hcond := hc b rest hcode
    have ht := hshape t
    rw [hcode] at ht
    refine hs.update hd (fun he => ?_) (fun hb => ?_)
    · rcases ht with hr | hr
      · rcases exposed_of_enter hr he with h | ⟨h1, h2, h3⟩
        · exact .inl (hcode ▸ h)
        · exact .inr (hcond.2 h1 h2 h3)
      · cases hr <;> simp [exposed, body, hold, readLock, writeLock, takesTable] at he
    · rcases ht with hr | hr
      · have hnew : Regular (body clr b s.mem ++ .release (hold b) :: rest) := hr.enter
        exact absurd hb (by simpa using hnew.not_between)
      · cases hr with
        | modules => exact .inr (hcond.1 rfl)
        | ngenModules => exact .inl (by rw [hcode]; rfl)
        | write => exact .inl (by rw [hcode]; rfl)
  | release hcode =>
    rename_i t k rest
    have hd := hshape' t
    simp only [Function.update_self] at hd
    refine hs.update hd (fun he => .inl ?_) (fun hb => .inl ?_)
    · rw [hcode]
      exact he
    · rw [hcode]
      simpa [between] using hb
  | act hcode ha =>
    rename_i t a rest c m
    have hd := hshape' t
    simp only [Function.update_self] at hd
    by_cases hp : a = .pop
    · subst hp
      obtain ⟨item, _, _, _, rfl⟩ := perform_pop_eq_some ha
      -- the queue thread holds nothing between two items
      have hrest : rest = [] := by
        have ht := hshape t
        rw [hcode] at ht
        rcases ht with h | h
        · exact h.1 rfl
        · cases h
      subst hrest
      rw [List.append_nil] at hd ⊢
      refine hs.update hd (fun he => ?_) (fun hb => ?_)
      · simp [itemCode_not_exposed] at he
      · simp [(itemCode_regular item).not_between] at hb
    · obtain rfl := perform_of_ne_pop hp ha
      refine hs.update hd (fun he => .inl ?_) (fun hb => .inl ?_)
      · rw [hcode]
        exact he
      · rw [hcode]
        simpa [between] using hb

/-! ## Waiting cycles -/

/-- The measure of the lock a thread waits for. `m_shutdown_lock` taken shared comes last: whom
such a thread waits for is the writer, and that one waits no more. -/
def waitRank : Code → ℕ
  | .enter b :: _ => if hold b = readLock then 5 else rank (hold b).lock
  | _ => 0

theorem rank_lt (l : Lock) : rank l < 5 := by
  cases l <;> simp [rank]

theorem need_eq_rank (hb : ofShutdown b = false) (h : hold b ≠ readLock) :
    need b = rank (hold b).lock := by
  cases b <;> simp_all [ofShutdown, hold, need, rank]

theorem takesTable_of_hold (hb : ofShutdown b = false)
    (h : (hold b).lock = .ngenModules ∨ (hold b).lock = .modules) : takesTable clr b = true := by
  cases b <;> simp_all [ofShutdown, hold, readLock, takesTable, need]

theorem conflicts_readLock {k : Hold Lock} (h : readLock.Conflicts k) : k = writeLock := by
  obtain ⟨hl, hs⟩ := h
  cases k with
  | mk l sh => simp_all [readLock, writeLock]

theorem Regular.release_ne_writeLock (h : Regular d) {k : Hold Lock} (hk : .release k ∈ d) :
    k ≠ writeLock := by
  induction d with
  | nil => cases hk
  | cons i d ih =>
    rcases List.mem_cons.1 hk with rfl | hk
    · exact h.1
    · exact ih h.2 hk

/-- A `Shutdown` that waits with a lock in its hands is between its locks, with
`m_modules_lock` taken. -/
theorem ShutdownCode.waiting (h : ShutdownCode (.enter b :: d)) {k : Hold Lock}
    (hk : .release k ∈ d) : between (.enter b :: d) = true ∧ .release ⟨.modules, false⟩ ∈ d ∧
      (k.lock = .ngenModules ∨ k.lock = .modules) ∧ ¬ (hold b).Conflicts k := by
  cases h with
  | modules => cases hk
  | ngenModules =>
    simp only [List.mem_cons, Instr.release.injEq, List.not_mem_nil, or_false] at hk
    subst hk
    simp [between, hold, Hold.Conflicts]
  | write =>
    simp only [List.mem_cons, Instr.release.injEq, List.not_mem_nil, or_false] at hk
    rcases hk with rfl | rfl
    all_goals simp [between, hold, Hold.Conflicts, writeLock]

/-- Whoever waits for a waiting `Shutdown` is exposed, unless nobody waits for it. -/
theorem not_waits_shutdown (hshape : ∀ t, Shape (s.code t)) (hx : Exclusion s) (hs : Safe clr s)
    {t u v : Thread} (htu : (program clr).Waits s t u) (huv : (program clr).Waits s u v) {c d}
    (hv : s.code v = .enter c :: d) : ¬ ShutdownCode (s.code v) := by
  intro hsc
  obtain ⟨b, rest, k, hu, hk, hconf⟩ := huv
  rw [hv] at hk hsc
  have hkd : .release k ∈ d := by simpa using hk
  obtain ⟨hbet, hmod, hlock, hself⟩ := hsc.waiting hkd
  have hshu := hshape u
  rw [hu] at hshu
  rcases hshu with hr | hr
  · -- `u` is on its way to a table, and holds `m_shutdown_lock` for it
    have htab : (hold b).lock = .ngenModules ∨ (hold b).lock = .modules := hconf.1 ▸ hlock
    have he : exposed clr (s.code u) = true :=
      hu ▸ exposed_enter_of_release (takesTable_of_hold hr.1.1 htab) (hr.1.2.2 htab)
    have := hs u v he
    rw [hv] at this
    simp [hbet] at this
  · -- two `Shutdown`s would both hold `m_modules_lock`
    obtain ⟨b', rest', k', ht, hk', hconf'⟩ := htu
    rw [hu] at hk'
    obtain ⟨_, hmod', _, _⟩ := hr.waiting (k := k') (by simpa using hk')
    by_cases huv' : u = v
    · subst huv'
      rw [hu] at hv
      cases hv
      exact hself hconf
    · refine hx u v huv' ⟨.modules, false⟩ ⟨.modules, false⟩ ?_ ?_ ⟨rfl, by simp⟩
      · simpa [hu] using hmod'
      · simpa [hv] using hmod

theorem not_deadlock (hshape : ∀ t, Shape (s.code t)) (hx : Exclusion s) (hs : Safe clr s) :
    ¬ (program clr).Deadlock s := by
  rintro ⟨t, ht⟩
  refine not_transGen_self (fun t => waitRank (s.code t)) ?_ t ht
  intro t u v w htu huv hvw
  obtain ⟨c, d, _, hv, _, _⟩ := id hvw
  have hnot := not_waits_shutdown hshape hx hs htu huv hv
  obtain ⟨b, rest, k, hu, hk, hconf⟩ := huv
  have hr : Regular (.enter c :: d) := hv ▸ (hshape v).resolve_right hnot
  have hb : hold b ≠ readLock := by
    intro hb
    simp only [program_hold, hb] at hconf
    exact hr.release_ne_writeLock (hv ▸ hk) (conflicts_readLock hconf)
  have hkd : .release k ∈ d := by simpa [hv] using hk
  have hlt := hr.1.2.1 k hkd
  have hrank : rank (hold b).lock = rank k.lock := congrArg rank hconf.1
  simp only [hu, hv, waitRank, if_neg hb, hrank]
  split
  · exact rank_lt _
  · rename_i hc
    rw [← need_eq_rank hr.1.1 hc]
    exact hlt

theorem shape_init (info6 : Bool) : ∀ t, Shape ((init info6).code t)
  | .queue => .inl ⟨fun _ => rfl, trivial⟩
  | .caller _ => .inl trivial

theorem exclusion_init (info6 : Bool) : Exclusion (init info6) := by
  intro t u _ h k hh _
  cases t <;> simp [init] at hh

theorem safe_init (info6 : Bool) : Safe clr (init info6) := by
  intro t u ht
  cases t <;> simp [init, exposed] at ht

/-- In a run that keeps `Shutdown` between its locks apart from the threads on their way to a
table, no state has a waiting cycle. -/
theorem no_deadlock_of_orderly (clr : Clr) (info6 : Bool) (es : List Event)
    (h : EachStep (program clr).Step (Orderly clr) (init info6) es) :
    EachState (program clr).Step (fun s => ¬ (program clr).Deadlock s) (init info6) es := by
  refine EachState.of_invariant
    (I := fun s => (∀ t, Shape (s.code t)) ∧ Exclusion s ∧ Safe clr s) ?_ ?_ h
    ⟨shape_init _, exclusion_init _, safe_init _⟩
  · rintro s e s' ⟨hshape, hx, hs⟩ ho hstep
    exact ⟨shape_local.step hshape e.ok_true hstep, (program_scoped clr).exclusion_step hx hstep,
      safe_step hs hshape ho hstep⟩
  · rintro s ⟨hshape, hx, hs⟩
    exact not_deadlock hshape hx hs

/-- Without a `Shutdown` every step is orderly. -/
theorem orderly_of_no_shutdown (clr : Clr) (info6 : Bool)
    (hes : ∀ e ∈ es, e.Ok (· ≠ .shutdown)) :
    EachStep (program clr).Step (Orderly clr) (init info6) es := by
  intro pre e post s hpre hrun
  have hreg : ∀ t, Regular (s.code t) :=
    regular_local.run hrun (fun e he => hes e (by simp [hpre, he])) fun t => by
      cases t with
      | queue => exact ⟨fun _ => rfl, trivial⟩
      | caller i => trivial
  cases e with
  | call t o => trivial
  | step t =>
    intro b rest hb
    refine ⟨fun hsm => ?_, fun _ _ _ u => (hreg u).not_between⟩
    have hr := hreg t
    rw [hb] at hr
    simp [Regular, InOrder, hsm, ofShutdown] at hr

/-- The threads that run in `inTurn` and `crossing`. -/
def threads : List Thread := [.queue, .caller 0, .caller 1]

theorem idle_threads : Idle threads (init true) := by
  intro u hu
  cases u with
  | queue => simp [threads] at hu
  | caller i => rfl

/-- The test of `Orderly`, when the threads outside `us` are in no operation. -/
def orderly (clr : Clr) (us : List Thread) (s : State) : Event → Bool
  | .call _ _ => true
  | .step t =>
    match s.code t with
    | .enter b :: _ =>
      (b ≠ .shutdownModules || us.all fun u => !exposed clr (s.code u)) &&
        (hold b ≠ readLock || !takesTable clr b || s.mem.shutdown ||
          us.all fun u => !between (s.code u))
    | _ => true

theorem Orderly.of_orderly {us : List Thread} (hs : Idle us s) (h : orderly clr us s e = true) :
    Orderly clr s e := by
  cases e with
  | call t o => trivial
  | step t =>
    intro b rest hcode
    simp only [orderly, hcode, Bool.and_eq_true, Bool.or_eq_true, decide_eq_true_eq,
      List.all_eq_true, Bool.not_eq_true', or_assoc] at h
    have hall {f : Code → Bool} (hnil : f [] = false) (hf : ∀ u ∈ us, f (s.code u) = false)
        (u : Thread) : f (s.code u) = false := by
      by_cases hu : u ∈ us
      · exact hf u hu
      · rw [hs u hu, hnil]
    constructor
    · intro hb
      exact hall rfl (h.1.resolve_left (· hb))
    · intro hb htab hup
      simp only [hb, htab, hup, ne_eq, not_true_eq_false, Bool.true_eq_false, Bool.false_eq_true,
        false_or] at h
      exact hall rfl h.2

/-- `AddNGenModule` and `Shutdown` are both called; `Shutdown` waits for its first two locks until
`AddNGenModule` has given them back. -/
def inTurn : List Event :=
  [.call (.caller 0) (.addNGenModule 7), .call (.caller 1) .shutdown, .step (.caller 1),
    .step (.caller 0), .step (.caller 0), .step .queue, .step (.caller 0), .step (.caller 1),
    .step (.caller 0), .step (.caller 0), .step (.caller 1), .step (.caller 0),
    .step (.caller 0), .step (.caller 1), .step (.caller 0), .step (.caller 1),
    .step (.caller 1), .step (.caller 1), .step (.caller 1)]

theorem no_deadlock_of_orderly_addNGenModule :
    EachState (program silent).Step (fun s => ¬ (program silent).Deadlock s) (init true)
      inTurn := by
  refine no_deadlock_of_orderly silent true _ fun pre e post s he hrun => ?_
  have hcheck : (program silent).check threads (orderly silent threads) (init true) inTurn = true :=
    by decide
  obtain ⟨hidle, h⟩ :=
    Program.eachStep_of_check idle_threads (by decide) hcheck pre e post s he hrun
  exact .of_orderly hidle h

/-! ## A deadlock -/

/-- Steps that lead `AddNGenModule` and `Shutdown` to each other's locks: both are called, the
queue thread ends, and the two take their locks in turn. -/
def crossing : List Event :=
  [.call (.caller 0) (.addNGenModule 7), .call (.caller 1) .shutdown, .step (.caller 1),
    .step .queue, .step (.caller 1), .step (.caller 0), .step (.caller 0), .step (.caller 0),
    .step (.caller 1)]

/-- `AddNGenModule` has `m_ngenModules_lock` and waits for `m_modules_lock`, which `Shutdown`
has taken; `Shutdown` waits for `m_ngenModules_lock`. -/
theorem addNGenModule_shutdown_deadlock :
    ∃ es s, Runs silent true es s ∧ (program silent).Deadlock s := by
  obtain ⟨s, hs⟩ : ∃ s, (program silent).exec threads (init true) crossing = some s := ⟨_, rfl⟩
  refine ⟨crossing, s, (Program.exec_run idle_threads hs).1, .caller 0, ?_⟩
  cases hs
  refine .tail (b := .caller 1) (.single ?_) ?_
  · exact ⟨_, _, ⟨.modules, false⟩, rfl, by decide, by decide⟩
  · exact ⟨_, _, ⟨.ngenModules, false⟩, rfl, by decide, by decide⟩

end DdTrace.Rejit
