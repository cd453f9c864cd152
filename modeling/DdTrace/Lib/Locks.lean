import DdTrace.Lib.Run
import Mathlib.Logic.Function.Basic
import Mathlib.Logic.Relation

/-!
# Threads that take locks by scope

A thread's `code` is the stack of instructions it still has to run. `enter b`
waits for the lock `hold b` and then runs the body of the block `b`, with the
release of that lock placed behind it: a scope guard. So a thread holds a lock
exactly while the release of it stands in its code, and the locks held when an
instruction is reached are the releases behind it.

`Program.Local` is an invariant of single threads; `exclusion` says that two
holds that conflict never stand in the codes of a reachable state, and
`Guarded` that the instructions which only the bodies under one lock produce
are in the code of one thread at most. `Deadlock` is a cycle of threads each
waiting for a lock the next one holds.
-/

namespace DdTrace.Lib.Locks

open Relation

/-- A lock, taken shared or exclusive. -/
structure Hold (L : Type*) where
  lock : L
  shared : Bool
deriving DecidableEq

def Hold.Conflicts {L : Type*} (h k : Hold L) : Prop :=
  h.lock = k.lock ∧ ¬ (h.shared = true ∧ k.shared = true)

theorem Hold.Conflicts.symm {L : Type*} {h k : Hold L} (hc : h.Conflicts k) : k.Conflicts h :=
  ⟨hc.1.symm, fun hs => hc.2 hs.symm⟩

inductive Instr (L B A : Type*) where
  | enter (b : B)
  | release (h : Hold L)
  | act (a : A)
deriving DecidableEq

/-- The code of a block's body and its effect are those of the state in which the lock is
taken; `perform` is `none` when the action has to wait. -/
structure Program (T L B A M Op : Type*) where
  hold : B → Hold L
  body : B → M → List (Instr L B A)
  effect : B → M → M
  perform : A → M → Option (M × List (Instr L B A))
  start : T → Op → Option (List (Instr L B A))

structure State (T L B A M : Type*) where
  mem : M
  code : T → List (Instr L B A)

inductive Event (T Op : Type*) where
  | call (t : T) (o : Op)
  | step (t : T)
deriving DecidableEq

variable {T L B A M Op : Type*} [DecidableEq T] {p : Program T L B A M Op}
variable {s s' : State T L B A M} {e : Event T Op} {es : List (Event T Op)}

instance [DecidableEq L] (h k : Hold L) : Decidable (h.Conflicts k) :=
  inferInstanceAs (Decidable (_ ∧ _))

/-- No thread holds a lock that conflicts with `h`. -/
def State.Free (s : State T L B A M) (h : Hold L) : Prop :=
  ∀ u k, .release k ∈ s.code u → ¬ h.Conflicts k

inductive Program.Step (p : Program T L B A M Op) :
    State T L B A M → Event T Op → State T L B A M → Prop where
  | call {s : State T L B A M} {t : T} {o : Op} {c : List (Instr L B A)} :
      s.code t = [] → p.start t o = some c →
      Program.Step p s (.call t o) ⟨s.mem, Function.update s.code t c⟩
  | enter {s : State T L B A M} {t : T} {b : B} {rest : List (Instr L B A)} :
      s.code t = .enter b :: rest → s.Free (p.hold b) →
      Program.Step p s (.step t) ⟨p.effect b s.mem,
        Function.update s.code t (p.body b s.mem ++ .release (p.hold b) :: rest)⟩
  | release {s : State T L B A M} {t : T} {h : Hold L} {rest : List (Instr L B A)} :
      s.code t = .release h :: rest →
      Program.Step p s (.step t) ⟨s.mem, Function.update s.code t rest⟩
  | act {s : State T L B A M} {t : T} {a : A} {rest c : List (Instr L B A)} {m : M} :
      s.code t = .act a :: rest → p.perform a s.mem = some (m, c) →
      Program.Step p s (.step t) ⟨m, Function.update s.code t (c ++ rest)⟩

/-- No instruction of `c` gives a lock back: scopes do that. -/
def Plain (c : List (Instr L B A)) : Prop := ∀ h, .release h ∉ c

structure Program.Scoped (p : Program T L B A M Op) : Prop where
  start : ∀ {t o c}, p.start t o = some c → Plain c
  body : ∀ b m, Plain (p.body b m)
  perform : ∀ {a m m' c}, p.perform a m = some (m', c) → Plain c

/-! ## Invariants of single threads -/

/-- The code of each thread keeps `I`, whatever the other threads do, when the operations called
are `ok`. -/
structure Program.Local (p : Program T L B A M Op) (ok : Op → Prop)
    (I : List (Instr L B A) → Prop) : Prop where
  start : ∀ {t o c}, ok o → p.start t o = some c → I c
  enter : ∀ {b m rest}, I (.enter b :: rest) → (∀ k, .release k ∈ rest → ¬ (p.hold b).Conflicts k) →
    I (p.body b m ++ .release (p.hold b) :: rest)
  release : ∀ {h rest}, I (.release h :: rest) → I rest
  act : ∀ {a m m' c rest}, I (.act a :: rest) → p.perform a m = some (m', c) → I (c ++ rest)

def Event.Ok (ok : Op → Prop) : Event T Op → Prop
  | .call _ o => ok o
  | .step _ => True

omit [DecidableEq T] in
@[simp] theorem Event.ok_true (e : Event T Op) : e.Ok fun _ => True := by
  cases e <;> trivial

variable {I : List (Instr L B A) → Prop} {ok : Op → Prop}

theorem Program.Local.step (hI : p.Local ok I) (hs : ∀ t, I (s.code t)) (he : e.Ok ok)
    (h : p.Step s e s') : ∀ t, I (s'.code t) := by
  have hupd : ∀ (m : M) (t : T) (c : List (Instr L B A)), I c →
      ∀ u, I ((⟨m, Function.update s.code t c⟩ : State T L B A M).code u) := by
    intro m t c hc u
    by_cases hu : u = t
    · subst hu
      simpa using hc
    · simpa [hu] using hs u
  cases h with
  | call hc ho => exact hupd _ _ _ (hI.start he ho)
  | enter hc hf =>
    refine hupd _ _ _ (hI.enter (hc ▸ hs _) fun k hk => ?_)
    refine hf _ k (hc ▸ List.mem_cons_of_mem _ hk)
  | release hc => exact hupd _ _ _ (hI.release (hc ▸ hs _))
  | act hc ha => exact hupd _ _ _ (hI.act (hc ▸ hs _) ha)

theorem Program.Local.run (hI : p.Local ok I) (h : Run p.Step s es s')
    (he : ∀ e ∈ es, e.Ok ok) (hs : ∀ t, I (s.code t)) : ∀ t, I (s'.code t) := by
  induction h with
  | nil => exact hs
  | cons h _ ih =>
    exact ih (fun e hm => he e (List.mem_cons_of_mem _ hm))
      (hI.step hs (he _ List.mem_cons_self) h)

/-! ## Mutual exclusion -/

/-- The locks held by a thread with this code. -/
def holds (c : List (Instr L B A)) : List (Hold L) :=
  c.filterMap fun
    | .release h => some h
    | _ => none

@[simp] theorem mem_holds {c : List (Instr L B A)} {h : Hold L} : h ∈ holds c ↔ .release h ∈ c := by
  induction c with
  | nil => simp [holds]
  | cons i c ih => cases i <;> simp_all [holds]

/-- Conflicting locks are not held by two threads. -/
def Exclusion (s : State T L B A M) : Prop :=
  ∀ t u, t ≠ u → ∀ h k, .release h ∈ s.code t → .release k ∈ s.code u → ¬ h.Conflicts k

/-- Exclusion is kept when thread `t` gets a code whose holds are old, or free. -/
theorem Exclusion.update (hs : Exclusion s) {t : T} {c : List (Instr L B A)} {m : M}
    (hc : ∀ h, .release h ∈ c → .release h ∈ s.code t ∨ s.Free h) :
    Exclusion ⟨m, Function.update s.code t c⟩ := by
  -- the only pairs to look at are those of `t` with another thread
  have key : ∀ u, u ≠ t → ∀ h k, .release h ∈ c → .release k ∈ s.code u → ¬ h.Conflicts k := by
    intro u hu h k hh hk
    rcases hc h hh with hold | free
    · exact hs t u (Ne.symm hu) h k hold hk
    · exact free u k hk
  intro u v huv h k hh hk
  by_cases hu : u = t
  · subst hu
    simp only [Function.update_self] at hh
    simp only [Function.update_of_ne (Ne.symm huv)] at hk
    exact key v (Ne.symm huv) h k hh hk
  · simp only [Function.update_of_ne hu] at hh
    by_cases hv : v = t
    · subst hv
      simp only [Function.update_self] at hk
      exact fun hcon => key u hu k h hk hh hcon.symm
    · simp only [Function.update_of_ne hv] at hk
      exact hs u v huv h k hh hk

theorem Program.Scoped.exclusion_step (hp : p.Scoped) (hs : Exclusion s) (h : p.Step s e s') :
    Exclusion s' := by
  cases h with
  | call _ ho => exact hs.update fun h hh => absurd hh (hp.start ho h)
  | enter hc hf =>
    refine hs.update fun h hh => ?_
    rcases List.mem_append.1 hh with hb | hr
    · exact absurd hb (hp.body _ _ h)
    · rcases List.mem_cons.1 hr with e | hr
      · cases e
        exact .inr hf
      · exact .inl (hc ▸ List.mem_cons_of_mem _ hr)
  | release hc => exact hs.update fun h hh => .inl (hc ▸ List.mem_cons_of_mem _ hh)
  | act hc ha =>
    refine hs.update fun h hh => ?_
    rcases List.mem_append.1 hh with hb | hr
    · exact absurd hb (hp.perform ha h)
    · exact .inl (hc ▸ List.mem_cons_of_mem _ hr)

/-! ## Instructions under one lock -/

/-- Each instruction of `c` that meets `P` has one that meets `Q` behind it. -/
def Followed (P Q : Instr L B A → Prop) (c : List (Instr L B A)) : Prop :=
  ∀ pre i rest, c = pre ++ i :: rest → P i → ∃ j ∈ rest, Q j

variable {P Q : Instr L B A → Prop} {h : Hold L}

theorem followed_nil : Followed P Q ([] : List (Instr L B A)) := by
  intro pre i rest e
  simp at e

theorem followed_cons {i : Instr L B A} {c : List (Instr L B A)} :
    Followed P Q (i :: c) ↔ (P i → ∃ j ∈ c, Q j) ∧ Followed P Q c := by
  constructor
  · intro hu
    exact ⟨hu [] i c rfl, fun pre j rest e => hu (i :: pre) j rest (by rw [e]; rfl)⟩
  · rintro ⟨hi, hu⟩ pre j rest e hj
    cases pre with
    | nil =>
      obtain ⟨rfl, rfl⟩ := List.cons_eq_cons.1 e
      exact hi hj
    | cons k pre => exact hu pre j rest (List.cons_eq_cons.1 e).2 hj

/-- What stands before `d` may rely on `d`. -/
theorem Followed.append {c d : List (Instr L B A)} (hd : Followed P Q d)
    (hc : (∃ i ∈ c, P i) → ∃ j ∈ d, Q j) : Followed P Q (c ++ d) := by
  induction c with
  | nil => exact hd
  | cons i c ih =>
    refine followed_cons.2 ⟨fun hi => ?_, ih ?_⟩
    · obtain ⟨j, hj, hQ⟩ := hc ⟨i, List.mem_cons_self, hi⟩
      exact ⟨j, List.mem_append_right _ hj, hQ⟩
    · rintro ⟨j, hj, hP⟩
      exact hc ⟨j, List.mem_cons_of_mem _ hj, hP⟩

theorem Followed.append_followed {c d : List (Instr L B A)} (hc : Followed P Q c)
    (hd : Followed P Q d) : Followed P Q (c ++ d) := by
  induction c with
  | nil => exact hd
  | cons i c ih =>
    obtain ⟨hi, hc⟩ := followed_cons.1 hc
    refine followed_cons.2 ⟨fun hP => ?_, ih hc⟩
    obtain ⟨j, hj, hQ⟩ := hi hP
    exact ⟨j, List.mem_append_left _ hj, hQ⟩

theorem Followed.mem {c : List (Instr L B A)} (hu : Followed P Q c) {i : Instr L B A}
    (hi : i ∈ c) (hP : P i) : ∃ j ∈ c, Q j := by
  obtain ⟨pre, rest, rfl⟩ := List.append_of_mem hi
  obtain ⟨j, hj, hQ⟩ := hu pre i rest rfl hP
  exact ⟨j, List.mem_append_right _ (List.mem_cons_of_mem _ hj), hQ⟩

/-- The instructions that meet `P` have the release of `h` behind them. -/
abbrev Under (P : Instr L B A → Prop) (h : Hold L) : List (Instr L B A) → Prop :=
  Followed P (· = .release h)

theorem Under.release_mem {c : List (Instr L B A)} (hu : Under P h c) {i : Instr L B A}
    (hi : i ∈ c) (hP : P i) : .release h ∈ c := by
  obtain ⟨_, hj, rfl⟩ := hu.mem hi hP
  exact hj

/-- Only the bodies of blocks that hold the exclusive lock `h` produce an instruction that
meets `P`. -/
structure Program.Guarded (p : Program T L B A M Op) (P : Instr L B A → Prop) (h : Hold L) :
    Prop where
  exclusive : h.shared = false
  start : ∀ {t o c}, p.start t o = some c → ∀ i ∈ c, ¬ P i
  body : ∀ {b m i}, i ∈ p.body b m → P i → p.hold b = h
  release : ∀ k, ¬ P (.release k)
  perform : ∀ {a m m' c}, p.perform a m = some (m', c) → ∀ i ∈ c, ¬ P i

omit [DecidableEq T] in
theorem Program.Guarded.local_under (hg : p.Guarded P h) :
    p.Local (fun _ => True) (Under P h) where
  start _ ho pre i rest e hi := absurd hi (hg.start ho i (by simp [e]))
  enter hu _ := by
    refine Followed.append
      (followed_cons.2 ⟨fun hP => absurd hP (hg.release _), (followed_cons.1 hu).2⟩) ?_
    rintro ⟨i, hi, hP⟩
    rw [hg.body hi hP]
    exact ⟨_, List.mem_cons_self, rfl⟩
  release hu := (followed_cons.1 hu).2
  act hu ha := by
    refine (followed_cons.1 hu).2.append ?_
    rintro ⟨i, hi, hP⟩
    exact absurd hP (hg.perform ha i hi)

omit [DecidableEq T] in
/-- While the lock is free no thread has an instruction it guards. -/
theorem Program.Guarded.none_of_free (hg : p.Guarded P h) (hu : ∀ t, Under P h (s.code t))
    (hf : s.Free h) (t : T) : ∀ i ∈ s.code t, ¬ P i := by
  intro i hi hP
  refine hf t h (Under.release_mem (hu t) hi hP) ⟨rfl, ?_⟩
  simp [hg.exclusive]

/-! ## Work under one lock -/

/-- The instructions of `c` that meet `P`. -/
def work (P : Instr L B A → Bool) (c : List (Instr L B A)) : List (Instr L B A) := c.filter P

section
variable {P : Instr L B A → Bool} {c d : List (Instr L B A)} {i : Instr L B A}

@[simp] theorem work_nil : work P ([] : List (Instr L B A)) = [] := rfl

@[simp] theorem work_append : work P (c ++ d) = work P c ++ work P d := by
  simp [work]

theorem work_cons : work P (i :: c) = if P i then i :: work P c else work P c := by
  simp [work, List.filter_cons]

theorem work_eq_nil : work P c = [] ↔ ∀ i ∈ c, P i = false := by
  simp [work]

/-- The work under one lock is in the hands of one thread, and `Φ` relates it to the memory. -/
def Custody (P : Instr L B A → Bool) (Φ : List (Instr L B A) → M → Prop)
    (s : State T L B A M) : Prop :=
  ∃ t, Φ (work P (s.code t)) s.mem ∧ ∀ u, u ≠ t → work P (s.code u) = []

variable {Φ : List (Instr L B A) → M → Prop} {h : Hold L}

omit [DecidableEq T] in
theorem Custody.of_none (hc : Custody P Φ s) (hnone : ∀ t, work P (s.code t) = []) : Φ [] s.mem := by
  obtain ⟨t, ht, _⟩ := hc
  rwa [hnone t] at ht

omit [DecidableEq T] in
theorem Custody.holder (hc : Custody P Φ s) {t : T} (ht : work P (s.code t) ≠ []) :
    Φ (work P (s.code t)) s.mem ∧ ∀ u, u ≠ t → work P (s.code u) = [] := by
  obtain ⟨u, hu, hnone⟩ := hc
  by_cases h : t = u
  · subst h
    exact ⟨hu, hnone⟩
  · exact absurd (hnone t h) ht

/-- A thread goes on without touching the work. -/
theorem Custody.same (hc : Custody P Φ s) {t : T} {m : M} (hw : work P c = work P (s.code t))
    (hΦ : ∀ w, Φ w s.mem → Φ w m) : Custody P Φ ⟨m, Function.update s.code t c⟩ := by
  have heq : ∀ u, work P (Function.update s.code t c u) = work P (s.code u) := by
    intro u
    by_cases hu : u = t
    · subst hu
      simpa using hw
    · simp [hu]
  obtain ⟨u, hu, hnone⟩ := hc
  exact ⟨u, by simpa only [heq] using hΦ _ hu, fun v hv => (heq v).trans (hnone v hv)⟩

/-- All work is in the hands of the thread that goes on. -/
theorem Custody.take {t : T} {m : M} (hnone : ∀ u, u ≠ t → work P (s.code u) = [])
    (hΦ : Φ (work P c) m) : Custody P Φ ⟨m, Function.update s.code t c⟩ :=
  ⟨t, by simpa using hΦ, fun u hu => by simpa [hu] using hnone u hu⟩

/-- What a step does to the work under the lock `h`: taking `h` finds no work and makes some, a
block or an action that is work is taken off its head, and what else the steps do to the memory
does not matter to `Φ`. -/
theorem Custody.step (hg : p.Guarded (P · = true) h) (hu : ∀ t, Under (P · = true) h (s.code t))
    (hc : Custody P Φ s) (hstep : p.Step s e s')
    (lock : ∀ {t b rest}, e = .step t → s.code t = .enter b :: rest → p.hold b = h → Φ [] s.mem →
      Φ (work P (p.body b s.mem)) (p.effect b s.mem))
    (skip : ∀ {t b rest w}, e = .step t → s.code t = .enter b :: rest → p.hold b ≠ h →
      P (.enter b) = false → Φ w s.mem → Φ w (p.effect b s.mem))
    (enter : ∀ {t b rest w}, e = .step t → s.code t = .enter b :: rest → P (.enter b) = true →
      Φ (.enter b :: w) s.mem → Φ w (p.effect b s.mem))
    (act : ∀ {t a rest w m c}, e = .step t → s.code t = .act a :: rest →
      p.perform a s.mem = some (m, c) → P (.act a) = true → Φ (.act a :: w) s.mem → Φ w m)
    (idle : ∀ {t a rest w m c}, e = .step t → s.code t = .act a :: rest →
      p.perform a s.mem = some (m, c) → P (.act a) = false → Φ w s.mem → Φ w m) : Custody P Φ s' := by
  have hrel : ∀ k, P (.release k) = false := fun k => by simpa using hg.release k
  cases hstep with
  | call hcode ho =>
    refine hc.same ?_ fun w hw => hw
    rw [hcode]
    exact work_eq_nil.2 fun i hi => by simpa using hg.start ho i hi
  | release hcode =>
    refine hc.same ?_ fun w hw => hw
    simp [hcode, work_cons, hrel]
  | enter hcode hf =>
    rename_i t b rest
    have hbody : p.hold b ≠ h → work P (p.body b s.mem) = [] := fun hb =>
      work_eq_nil.2 fun i hi => by
        rw [Bool.eq_false_iff]
        exact fun hP => hb (hg.body hi hP)
    by_cases hb : p.hold b = h
    · have hnone : ∀ v, work P (s.code v) = [] := fun v => work_eq_nil.2 fun i hi => by
        rw [Bool.eq_false_iff]
        exact hg.none_of_free hu (hb ▸ hf) v i hi
      have hrest : work P rest = [] := by
        have := hnone t
        rw [hcode, work_cons] at this
        split at this
        · cases this
        · exact this
      refine Custody.take (fun v _ => hnone v) ?_
      simpa [work_cons, hrel, hrest] using lock rfl hcode hb (hc.of_none hnone)
    · by_cases hP : P (.enter b) = true
      · have hw : work P (s.code t) = .enter b :: work P rest := by
          simp [hcode, work_cons, hP]
        have hne : work P (s.code t) ≠ [] := by simp [hw]
        obtain ⟨hΦ, hnone⟩ := hc.holder hne
        refine Custody.take hnone ?_
        simpa [work_cons, hrel, hbody hb] using enter rfl hcode hP (hw ▸ hΦ)
      · rw [Bool.not_eq_true] at hP
        refine hc.same ?_ fun w => skip rfl hcode hb hP
        simp [hcode, work_cons, hrel, hbody hb, hP]
  | act hcode ha =>
    rename_i t a rest c m
    have hcw : work P c = [] := work_eq_nil.2 fun i hi => by simpa using hg.perform ha i hi
    by_cases hP : P (.act a) = true
    · have hw : work P (s.code t) = .act a :: work P rest := by
        simp [hcode, work_cons, hP]
      have hne : work P (s.code t) ≠ [] := by simp [hw]
      obtain ⟨hΦ, hnone⟩ := hc.holder hne
      refine Custody.take hnone ?_
      simpa [hcw] using act rfl hcode ha hP (hw ▸ hΦ)
    · rw [Bool.not_eq_true] at hP
      refine hc.same ?_ fun w => idle rfl hcode ha hP
      simp [hcode, work_cons, hcw, hP]

end

/-! ## Running -/

section
variable [DecidableEq L]

/-- The step in a state in which only the threads of `us` are in an operation. -/
def Program.next (p : Program T L B A M Op) (us : List T) (s : State T L B A M) :
    Event T Op → Option (State T L B A M)
  | .call t o =>
    if t ∈ us ∧ (s.code t).isEmpty then
      (p.start t o).map fun c => ⟨s.mem, Function.update s.code t c⟩
    else none
  | .step t =>
    match s.code t with
    | [] => none
    | .enter b :: rest =>
      if ∀ u ∈ us, ∀ k ∈ holds (s.code u), ¬ (p.hold b).Conflicts k then
        some ⟨p.effect b s.mem,
          Function.update s.code t (p.body b s.mem ++ .release (p.hold b) :: rest)⟩
      else none
    | .release _ :: rest => some ⟨s.mem, Function.update s.code t rest⟩
    | .act a :: rest =>
      (p.perform a s.mem).map fun r => ⟨r.1, Function.update s.code t (r.2 ++ rest)⟩

def Program.exec (p : Program T L B A M Op) (us : List T) :
    State T L B A M → List (Event T Op) → Option (State T L B A M)
  | s, [] => some s
  | s, e :: es => (p.next us s e).bind fun s => p.exec us s es

/-- The threads outside `us` are in no operation. -/
def Idle (us : List T) (s : State T L B A M) : Prop := ∀ u, u ∉ us → s.code u = []

omit [DecidableEq L] in
theorem Idle.update {us : List T} (hs : Idle us s) {t : T} (ht : t ∈ us) {m : M}
    {c : List (Instr L B A)} : Idle us ⟨m, Function.update s.code t c⟩ := by
  intro u hu
  have hne : u ≠ t := fun h => hu (h ▸ ht)
  simpa [hne] using hs u hu

omit [DecidableEq T] [DecidableEq L] in
theorem Idle.free {us : List T} {h : Hold L} (hs : Idle us s)
    (hf : ∀ u ∈ us, ∀ k ∈ holds (s.code u), ¬ h.Conflicts k) : s.Free h := by
  intro u k hk
  have hu : u ∈ us := by
    by_contra hn
    simp [hs u hn] at hk
  exact hf u hu k (mem_holds.2 hk)

theorem Program.next_step {us : List T} (hs : Idle us s) (h : p.next us s e = some s') :
    p.Step s e s' ∧ Idle us s' := by
  cases e with
  | call t o =>
    simp only [Program.next] at h
    split at h
    · rename_i hc
      obtain ⟨c, ho, rfl⟩ := Option.map_eq_some_iff.1 h
      exact ⟨.call (List.isEmpty_iff.1 hc.2) ho, hs.update hc.1⟩
    · cases h
  | step t =>
    have ht : s.code t ≠ [] → t ∈ us := fun hne => by
      by_contra hn
      exact hne (hs t hn)
    simp only [Program.next] at h
    split at h
    · cases h
    · rename_i b rest hc
      split at h
      · rename_i hf
        cases h
        exact ⟨.enter hc (hs.free hf), hs.update (ht (by simp [hc]))⟩
      · cases h
    · rename_i k rest hc
      cases h
      exact ⟨.release hc, hs.update (ht (by simp [hc]))⟩
    · rename_i a rest hc
      obtain ⟨r, hr, rfl⟩ := Option.map_eq_some_iff.1 h
      exact ⟨.act hc hr, hs.update (ht (by simp [hc]))⟩

omit [DecidableEq L] in
/-- The threads' choices apart, a step has one result. -/
theorem Program.Step.unique {a b : State T L B A M} (ha : p.Step s e a) (hb : p.Step s e b) :
    a = b := by
  cases ha with
  | call hc ho =>
    cases hb with
    | call hc' ho' =>
      rw [Option.some.inj (ho.symm.trans ho')]
  | enter hc hf =>
    cases hb with
    | enter hc' hf' =>
      cases hc.symm.trans hc'
      rfl
    | release hc' => cases hc.symm.trans hc'
    | act hc' ha' => cases hc.symm.trans hc'
  | release hc =>
    cases hb with
    | enter hc' hf' => cases hc.symm.trans hc'
    | release hc' =>
      cases hc.symm.trans hc'
      rfl
    | act hc' ha' => cases hc.symm.trans hc'
  | act hc ha =>
    cases hb with
    | enter hc' hf' => cases hc.symm.trans hc'
    | release hc' => cases hc.symm.trans hc'
    | act hc' ha' =>
      cases hc.symm.trans hc'
      cases ha.symm.trans ha'
      rfl

/-- `C` holds of each step of the run. -/
def Program.check (p : Program T L B A M Op) (us : List T)
    (C : State T L B A M → Event T Op → Bool) : State T L B A M → List (Event T Op) → Bool
  | _, [] => true
  | s, e :: es => C s e && (p.next us s e).all fun s => p.check us C s es

theorem Program.eachStep_of_check {us : List T} {C : State T L B A M → Event T Op → Bool}
    (hs : Idle us s) (hrun : (p.exec us s es).isSome) (h : p.check us C s es = true) :
    EachStep p.Step (fun s e => Idle us s ∧ C s e = true) s es := by
  induction es generalizing s with
  | nil => exact eachStep_nil
  | cons e es ih =>
    obtain ⟨u, hu⟩ := Option.isSome_iff_exists.1 hrun
    obtain ⟨t, ht, hu⟩ := Option.bind_eq_some_iff.1 hu
    simp only [Program.check, ht, Option.all_some, Bool.and_eq_true] at h
    obtain ⟨hstep, hidle⟩ := Program.next_step hs ht
    refine eachStep_cons.2 ⟨⟨hs, h.1⟩, fun t' ht' => ?_⟩
    rw [ht'.unique hstep]
    exact ih hidle (by simp [hu]) h.2

theorem Program.exec_run {us : List T} (hs : Idle us s) (h : p.exec us s es = some s') :
    Run p.Step s es s' ∧ Idle us s' := by
  induction es generalizing s with
  | nil =>
    cases h
    exact ⟨.nil _, hs⟩
  | cons e es ih =>
    obtain ⟨t, ht, h⟩ := Option.bind_eq_some_iff.1 h
    obtain ⟨hstep, hidle⟩ := Program.next_step hs ht
    obtain ⟨hrun, hend⟩ := ih hidle h
    exact ⟨.cons hstep hrun, hend⟩

end

/-! ## Waiting -/

/-- `t` waits for a lock that `u` holds. -/
def Program.Waits (p : Program T L B A M Op) (s : State T L B A M) (t u : T) : Prop :=
  ∃ b rest k, s.code t = .enter b :: rest ∧ .release k ∈ s.code u ∧ (p.hold b).Conflicts k

/-- A cycle of threads, each waiting for a lock held by the next. -/
def Program.Deadlock (p : Program T L B A M Op) (s : State T L B A M) : Prop :=
  ∃ t, TransGen (p.Waits s) t t

/-- A relation has no cycle when a measure increases along each of its edges that has one
more edge before it and one after. -/
theorem not_transGen_self {α : Type*} {R : α → α → Prop} (f : α → ℕ)
    (hf : ∀ a b c d, R a b → R b c → R c d → f b < f c) (a : α) : ¬ TransGen R a a := by
  -- from `a` on, every edge has one before it, and an edge after it leads to `a` again
  have key : ∀ x b, R x a → TransGen R a b → TransGen R b a → f a < f b ∧ ∃ y, R y b := by
    intro x b hx hab
    induction hab with
    | single h =>
      intro hba
      obtain ⟨d, hd, _⟩ := TransGen.head'_iff.1 hba
      exact ⟨hf x a _ d hx h hd, a, h⟩
    | tail hab h ih =>
      intro hba
      obtain ⟨hlt, y, hy⟩ := ih (.head h hba)
      obtain ⟨d, hd, _⟩ := TransGen.head'_iff.1 hba
      exact ⟨Nat.lt_trans hlt (hf y _ _ d hy h hd), _, h⟩
  intro h
  obtain ⟨x, _, hx⟩ := TransGen.tail'_iff.1 h
  exact absurd (key x a hx h h).1 (Nat.lt_irrefl _)

end DdTrace.Lib.Locks
