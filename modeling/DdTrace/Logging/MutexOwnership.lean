import DdTrace.Logging.LogGroupMutex
import Mathlib.Data.List.Basic

/-!
# Who owns what of a `LogGroupMutex`

The permit of the semaphore and the ownership of the mutex go together from a call to a handle,
and through `Handle.Dispose` back (`Phase`). While no mutex is found abandoned, every handle is
disposed by its acquirer and nobody is about to take the semaphore when it is disposed, each
step of a thread is a step of the phases, or leaves the phase as it is.
-/

namespace DdTrace.Logging

open DdTrace.Lib

variable {τ : Type}

/-- The permit is held from the end of `Wait` to `Release`, except by a handle. -/
def Pc.holdsPermit : Pc → Bool
  | .retesting _ | .looping _ _ | .sleeping _ | .incrementing _ | .lastTry _ | .releasing _
  | .releaseProtector | .disposeRetesting | .disposeReleasing _ => true
  | _ => false

def Pc.waits : Pc → Bool
  | .waiting _ | .disposeWaiting => true
  | _ => false

/-- The call would find its mutex abandoned. -/
def LogGroupMutex.Abandoned (s : LogGroupMutex τ) : Prop := ∃ m ∈ s.mutex, s.owner m = .abandoned

/-! ### The phases -/

/-- Where the permit is, and the ownership of a mutex with it. -/
inductive Phase (τ : Type) where
  | free
  /-- A call of the thread holds the permit. -/
  | call (t : τ)
  /-- The `i`-th handle holds the permit, and its acquirer owns the mutex. -/
  | held (i : ℕ) (t : τ) (m : Int32)
  /-- Its acquirer is about to release the mutex. -/
  | releasing (i : ℕ) (t : τ) (m : Int32)
  /-- The handle still holds the permit. -/
  | released (i : ℕ) (t : τ)

namespace Phase

/-- One turn: the permit, a mutex with it, the mutex back, the permit back. -/
inductive Next : Phase τ → Phase τ → Prop where
  | stay (φ : Phase τ) : Next φ φ
  | take (t : τ) : Next free (call t)
  | give (t : τ) : Next (call t) free
  | acquire (i : ℕ) (t : τ) (m : Int32) : Next (call t) (held i t m)
  | exchange (i : ℕ) (t : τ) (m : Int32) : Next (held i t m) (releasing i t m)
  | release (i : ℕ) (t : τ) (m : Int32) : Next (releasing i t m) (released i t)
  | finish (i : ℕ) (t : τ) : Next (released i t) (call t)

def count : Phase τ → ℕ
  | free => 1
  | _ => 0

def caller : Phase τ → Option τ
  | call t => some t
  | _ => none

/-- The handle that holds the permit. -/
def handle : Phase τ → Option (ℕ × Handle τ)
  | held i t m => some (i, ⟨some m, true, t⟩)
  | releasing i t _ | released i t => some (i, ⟨none, true, t⟩)
  | _ => none

/-- The mutex that a thread of the process owns. -/
def owned : Phase τ → Option (Int32 × τ)
  | held _ t m | releasing _ t m => some (m, t)
  | _ => none

/-- The thread whose call has the next step of the phase. -/
def actor : Phase τ → Option τ
  | call t | releasing _ t _ | released _ t => some t
  | _ => none

end Phase

/-- What the phase says of a thread. -/
structure ThreadAt (handles : List (Handle τ)) (φ : Phase τ) (disposed : Bool) (u : τ)
    (pc : Option Pc) : Prop where
  permit : (∃ p, pc = some p ∧ p.holdsPermit) ↔ φ.caller = some u
  releasing : ∀ i m, pc = some (.releaseMutex i m) ↔ φ = .releasing i u m
  released : ∀ i, φ = .released i u → pc = some (.exchangeProtector i)
  exchangeMutex : ∀ i, pc = some (.exchangeMutex i) →
    ∃ h, handles[i]? = some h ∧ h.acquirer = u
  exchangeProtector : ∀ i, pc = some (.exchangeProtector i) →
    ∃ h, handles[i]? = some h ∧ h.acquirer = u ∧ h.acquiredMutex = none
  waits : disposed = true → ∀ p, pc = some p → p.waits = false

/-- The state is in the phase. A disposed handle holds nothing. -/
structure AtPhase (s : LogGroupMutex τ) (φ : Phase τ) : Prop where
  threads : ∀ u, ThreadAt s.handles φ s.protectorDisposed u (s.pc u)
  count : s.mutexProtector = φ.count
  handles : ∀ i h, s.handles[i]? = some h →
    h = ⟨none, false, h.acquirer⟩ ∨ φ.handle = some (i, h)
  handle : ∀ i h, φ.handle = some (i, h) → s.handles[i]? = some h
  owner : ∀ m t depth, s.owner m = .thread t depth → depth = 1 ∧ φ.owned = some (m, t)
  owned : ∀ m t, φ.owned = some (m, t) → s.mutex = some m ∧ s.owner m = .thread t 1
  closed : s.protectorDisposed = true → φ = .free

/-! ### Threads -/

/-- Handles stay with their acquirers, and get no mutex again. -/
def Grows (handles handles' : List (Handle τ)) : Prop :=
  ∀ (i : ℕ) (h : Handle τ), handles[i]? = some h → ∃ h' : Handle τ, handles'[i]? = some h' ∧
    h'.acquirer = h.acquirer ∧ (h.acquiredMutex = none → h'.acquiredMutex = none)

theorem Grows.refl (handles : List (Handle τ)) : Grows handles handles :=
  fun _ h hh => ⟨h, hh, rfl, id⟩

theorem Grows.append (handles new : List (Handle τ)) : Grows handles (handles ++ new) := by
  intro i h hh
  refine ⟨h, ?_, rfl, id⟩
  rw [List.getElem?_append_left (List.getElem?_eq_some_iff.1 hh).1]
  exact hh

theorem Grows.set {handles : List (Handle τ)} {i : ℕ} {h h' : Handle τ}
    (hh : handles[i]? = some h) (hacquirer : h'.acquirer = h.acquirer)
    (hnone : h'.acquiredMutex = none) : Grows handles (handles.set i h') := by
  intro j k hk
  by_cases hij : i = j
  · obtain rfl := hij
    obtain rfl : h = k := Option.some.inj (hh.symm.trans hk)
    refine ⟨h', ?_, hacquirer, fun _ => hnone⟩
    rw [List.getElem?_set_self (List.getElem?_eq_some_iff.1 hh).1]
  · refine ⟨k, ?_, rfl, id⟩
    rw [List.getElem?_set_ne hij]
    exact hk

/-- A phase in which others have the next step says nothing of a thread that holds nothing. -/
theorem ThreadAt.of_ne {handles handles' : List (Handle τ)} {φ φ' : Phase τ} {disposed : Bool}
    {u : τ} {pc : Option Pc} (h : ThreadAt handles φ disposed u pc) (hφ : φ.actor ≠ some u)
    (hφ' : φ'.actor ≠ some u) (hgrows : Grows handles handles') :
    ThreadAt handles' φ' disposed u pc where
  permit := by
    rw [h.permit]
    constructor
    · intro hcaller
      cases φ with
      | call t => exact absurd hcaller hφ
      | _ => cases hcaller
    · intro hcaller
      cases φ' with
      | call t => exact absurd hcaller hφ'
      | _ => cases hcaller
  releasing i m := by
    rw [h.releasing]
    constructor
    · rintro rfl
      exact absurd rfl hφ
    · rintro rfl
      exact absurd rfl hφ'
  released := by
    rintro i rfl
    exact absurd rfl hφ'
  exchangeMutex i hi := by
    obtain ⟨a, ha, hacquirer⟩ := h.exchangeMutex i hi
    obtain ⟨a', ha', hsame, -⟩ := hgrows i a ha
    exact ⟨a', ha', hsame.trans hacquirer⟩
  exchangeProtector i hi := by
    obtain ⟨a, ha, hacquirer, hnone⟩ := h.exchangeProtector i hi
    obtain ⟨a', ha', hsame, hstays⟩ := hgrows i a ha
    exact ⟨a', ha', hsame.trans hacquirer, hstays hnone⟩
  waits := h.waits

/-- A place that is neither in `Handle.Dispose` nor under the permit. -/
def Pc.plain : Pc → Bool
  | .testing _ | .entering _ | .waiting _ | .iterating _ | .disposeTesting | .disposeEntering
  | .disposeWaiting | .disposeProtector => true
  | _ => false

theorem Pc.holdsPermit_of_plain {p : Pc} (h : p.plain) : p.holdsPermit = false := by
  cases p <;> first | rfl | exact nomatch h

/-- A thread that has not the next step of the phase. -/
theorem ThreadAt.of_actor_ne {handles : List (Handle τ)} {φ : Phase τ} {disposed : Bool} {u : τ}
    {pc : Option Pc} (hφ : φ.actor ≠ some u)
    (hpc : ∀ p, pc = some p → p.holdsPermit = false ∧ ∀ i m, p ≠ .releaseMutex i m)
    (hmutex : ∀ i, pc = some (.exchangeMutex i) → ∃ h, handles[i]? = some h ∧ h.acquirer = u)
    (hprotector : ∀ i, pc = some (.exchangeProtector i) →
      ∃ h, handles[i]? = some h ∧ h.acquirer = u ∧ h.acquiredMutex = none)
    (hwaits : disposed = true → ∀ p, pc = some p → p.waits = false) :
    ThreadAt handles φ disposed u pc where
  permit := by
    constructor
    · rintro ⟨p, rfl, hp⟩
      rw [(hpc p rfl).1] at hp
      cases hp
    · intro hcaller
      cases φ with
      | call t => exact absurd hcaller hφ
      | _ => cases hcaller
  releasing i m := by
    constructor
    · rintro rfl
      exact absurd rfl ((hpc _ rfl).2 i m)
    · rintro rfl
      exact absurd rfl hφ
  released := by
    rintro i rfl
    exact absurd rfl hφ
  exchangeMutex := hmutex
  exchangeProtector := hprotector
  waits := hwaits

theorem ThreadAt.plain {handles : List (Handle τ)} {φ : Phase τ} {disposed : Bool} {u : τ}
    {pc : Option Pc} (hφ : φ.actor ≠ some u) (hpc : ∀ p, pc = some p → p.plain)
    (hwaits : disposed = true → ∀ p, pc = some p → p.waits = false) :
    ThreadAt handles φ disposed u pc :=
  .of_actor_ne hφ
    (fun p hp => ⟨Pc.holdsPermit_of_plain (hpc p hp), by
      rintro i m rfl
      cases hpc _ hp⟩)
    (fun i hi => nomatch hpc _ hi) (fun i hi => nomatch hpc _ hi) hwaits

/-- A call that holds the permit. -/
theorem ThreadAt.call {handles : List (Handle τ)} {disposed : Bool} {u : τ} {p : Pc}
    (hp : p.holdsPermit) : ThreadAt handles (.call u) disposed u (some p) where
  permit := iff_of_true ⟨p, rfl, hp⟩ rfl
  releasing i m := by
    refine iff_of_false ?_ nofun
    rintro ⟨⟩
    cases hp
  released := nofun
  exchangeMutex := by
    rintro i ⟨⟩
    cases hp
  exchangeProtector := by
    rintro i ⟨⟩
    cases hp
  waits _ q hq := by
    cases hq
    cases p <;> first | rfl | exact nomatch hp

/-- Holding the permit, or releasing what a handle holds. -/
def Pc.acts : Pc → Bool
  | .releaseMutex _ _ | .exchangeProtector _ => true
  | p => p.holdsPermit

theorem Pc.holdsPermit_of_acts {p : Pc} (h : p.acts = false) : p.holdsPermit = false := by
  cases p <;> first | rfl | exact nomatch h

theorem ThreadAt.actor_ne {handles : List (Handle τ)} {φ : Phase τ} {disposed : Bool} {u : τ}
    {pc : Option Pc} (h : ThreadAt handles φ disposed u pc)
    (hpc : ∀ p, pc = some p → p.acts = false) : φ.actor ≠ some u := by
  intro hactor
  cases φ with
  | free => cases hactor
  | held i t m => cases hactor
  | call t =>
    cases hactor
    obtain ⟨p, hp, hpermit⟩ := h.permit.2 rfl
    have hacts := hpc p hp
    rw [Pc.holdsPermit_of_acts hacts] at hpermit
    cases hpermit
  | releasing i t m =>
    cases hactor
    cases hpc _ ((h.releasing i m).2 rfl)
  | released i t =>
    cases hactor
    cases hpc _ (h.released i rfl)

theorem Phase.eq_call {φ : Phase τ} {t : τ} (h : φ.caller = some t) : φ = .call t := by
  cases φ with
  | call u => cases h; rfl
  | _ => cases h

theorem Phase.eq_free {φ : Phase τ} (h : φ.count ≠ 0) : φ = .free := by
  cases φ with
  | free => rfl
  | _ => exact absurd rfl h

/-! ### Steps -/

namespace AtPhase

variable {s : LogGroupMutex τ} {φ φ' : Phase τ} {t : τ} {p : Pc} {pc : Option Pc}

theorem eq_call (h : AtPhase s φ) (hpc : s.pc t = some p) (hp : p.holdsPermit) : φ = .call t :=
  Phase.eq_call ((h.threads t).permit.1 ⟨p, hpc, hp⟩)

theorem actor_ne (h : AtPhase s φ) (hpc : ∀ p, s.pc t = some p → p.acts = false) :
    φ.actor ≠ some t :=
  (h.threads t).actor_ne hpc

/-- The thread that holds the permit may change the mutex and the iteration. -/
theorem setMutex (h : AtPhase s (.call t)) (mutex : Option Int32) (iteration : Int32) :
    AtPhase { s with mutex, iteration } (.call t) where
  threads := h.threads
  count := h.count
  handles := h.handles
  handle := h.handle
  owner := h.owner
  owned := nofun
  closed := h.closed

/-- Other processes do as they like with what no thread of this process owns. -/
theorem setOwner (h : AtPhase s φ) {m : Int32} {owner : Owner τ}
    (hold : ∀ t depth, s.owner m ≠ .thread t depth) (hnew : ∀ t depth, owner ≠ .thread t depth) :
    AtPhase (s.setOwner m owner) φ where
  threads := h.threads
  count := h.count
  handles := h.handles
  handle := h.handle
  owner m' t depth hm' := by
    have hm' : Function.update s.owner m owner m' = .thread t depth := hm'
    by_cases hm : m' = m
    · rw [hm, Function.update_self] at hm'
      exact absurd hm' (hnew t depth)
    · rw [Function.update_of_ne hm] at hm'
      exact h.owner m' t depth hm'
  owned m' t hm' := by
    obtain ⟨hmutex, howner⟩ := h.owned m' t hm'
    refine ⟨hmutex, ?_⟩
    show Function.update s.owner m owner m' = .thread t 1
    rw [Function.update_of_ne]
    · exact howner
    · rintro rfl
      exact hold t 1 howner
  closed := h.closed

variable [DecidableEq τ]

/-- The threads after a step of `t`, when nobody else had or has the next step of the phase. -/
theorem threads_update (h : AtPhase s φ) {handles : List (Handle τ)}
    (hφ : ∀ u, φ.actor = some u → u = t) (hφ' : ∀ u, φ'.actor = some u → u = t)
    (hgrows : Grows s.handles handles)
    (ht : ThreadAt handles φ' s.protectorDisposed t pc) (u : τ) :
    ThreadAt handles φ' s.protectorDisposed u (Function.update s.pc t pc u) := by
  by_cases hu : u = t
  · obtain rfl := hu
    rwa [Function.update_self]
  · rw [Function.update_of_ne hu]
    exact (h.threads u).of_ne (fun hactor => hu (hφ u hactor)) (fun hactor => hu (hφ' u hactor))
      hgrows

/-- A thread goes on, and the phase stays. -/
theorem goto (h : AtPhase s φ) (ht : ThreadAt s.handles φ s.protectorDisposed t pc) :
    AtPhase (s.goto t pc) φ where
  threads u := by
    show ThreadAt s.handles φ s.protectorDisposed u (Function.update s.pc t pc u)
    by_cases hu : u = t
    · obtain rfl := hu
      rwa [Function.update_self]
    · rw [Function.update_of_ne hu]
      exact h.threads u
  count := h.count
  handles := h.handles
  handle := h.handle
  owner := h.owner
  owned := h.owned
  closed := h.closed

/-- Between places that hold nothing. -/
theorem goto_plain (h : AtPhase s φ) (hold : ∀ p, s.pc t = some p → p.acts = false)
    (hnew : ∀ p, pc = some p → p.plain)
    (hwaits : s.protectorDisposed = true → ∀ p, pc = some p → p.waits = false) :
    AtPhase (s.goto t pc) φ :=
  h.goto (.plain (h.actor_ne hold) hnew hwaits)

/-- A call that holds the permit goes on. -/
theorem goto_call (h : AtPhase s (.call t)) (hp : p.holdsPermit) :
    AtPhase (s.goto t (some p)) (.call t) :=
  h.goto (.call hp)

/-- `Wait` comes back. -/
theorem take (h : AtPhase s φ) (hcount : s.mutexProtector ≠ 0)
    (hpc : s.pc t = some p) (hwaits : p.waits) {q : Pc} (hq : q.holdsPermit) :
    φ = .free ∧
      AtPhase ({ s with mutexProtector := s.mutexProtector - 1 }.goto t (some q)) (.call t) := by
  obtain rfl : φ = .free := Phase.eq_free (h.count ▸ hcount)
  have hone : s.mutexProtector = 1 := h.count
  refine ⟨rfl, ?_⟩
  exact
    { threads := h.threads_update nofun (fun u hu => (Option.some.inj hu).symm) (.refl _) (.call hq)
      count := by
        show s.mutexProtector - 1 = 0
        omega
      handles := h.handles
      handle := h.handle
      owner := h.owner
      owned := nofun
      closed := fun hclosed =>
        absurd ((h.threads t).waits hclosed p hpc) (by rw [hwaits]; exact Bool.noConfusion) }

omit [DecidableEq τ] in
theorem protectorDisposed_eq (h : AtPhase s (.call t)) : s.protectorDisposed = false := by
  rw [← Bool.not_eq_true]
  exact fun hclosed => nomatch h.closed hclosed

/-- `Release`; the semaphore cannot be disposed. -/
theorem give (h : AtPhase s (.call t)) (hpc : ∀ p, pc = some p → p.plain)
    (hwaits : ∀ p, pc = some p → p.waits = false) : AtPhase (s.release.goto t pc) .free := by
  have hzero : s.mutexProtector = 0 := h.count
  rw [LogGroupMutex.release, if_neg (by rw [h.protectorDisposed_eq]; exact Bool.noConfusion)]
  exact
    { threads := h.threads_update (fun u hu => (Option.some.inj hu).symm) nofun (.refl _)
        (.plain nofun hpc fun _ => hwaits)
      count := congrArg (· + 1) hzero
      handles := h.handles
      handle := h.handle
      owner := h.owner
      owned := nofun
      closed := fun _ => rfl }

/-- `WaitOne` comes back with a mutex that nobody had. -/
theorem acquire (h : AtPhase s (.call t)) {m : Int32} (hmutex : s.mutex = some m) :
    AtPhase ({ s.setOwner m (.thread t 1) with
      handles := s.handles ++ [(⟨some m, true, t⟩ : Handle τ)] }.goto t none)
      (.held s.handles.length t m) where
  threads := h.threads_update (fun u hu => (Option.some.inj hu).symm) nofun (.append _ _)
    (.plain nofun nofun fun _ => nofun)
  count := h.count
  handles i a ha := by
    have ha : (s.handles ++ [(⟨some m, true, t⟩ : Handle τ)])[i]? = some a := ha
    by_cases hi : i < s.handles.length
    · rw [List.getElem?_append_left hi] at ha
      exact (h.handles i a ha).imp_right nofun
    · obtain rfl : i = s.handles.length := by
        have := (List.getElem?_eq_some_iff.1 ha).1
        rw [List.length_append, List.length_singleton] at this
        omega
      rw [List.getElem?_concat_length] at ha
      cases ha
      exact .inr rfl
  handle := by
    rintro i a ⟨⟩
    exact List.getElem?_concat_length
  owner m' u depth hm' := by
    have hm' : Function.update s.owner m (.thread t 1) m' = .thread u depth := hm'
    by_cases hm : m' = m
    · obtain rfl := hm
      rw [Function.update_self] at hm'
      cases hm'
      exact ⟨rfl, rfl⟩
    · rw [Function.update_of_ne hm] at hm'
      exact nomatch (h.owner m' u depth hm').2
  owned := by
    rintro m' u ⟨⟩
    refine ⟨hmutex, ?_⟩
    show Function.update s.owner m (.thread t 1) m = .thread t 1
    exact Function.update_self ..
  closed hclosed := nomatch h.closed hclosed

/-- `TryAcquireCore`, when the mutex is not an abandoned one. -/
theorem tryAcquireCore (h : AtPhase s (.call t)) {failed : Pc} (hfailed : failed.holdsPermit)
    (hproper : ¬ s.Abandoned) :
    ∃ φ', (Phase.call t).Next φ' ∧ AtPhase (s.tryAcquireCore t failed) φ' := by
  have hstay : ∃ φ', (Phase.call t).Next φ' ∧ AtPhase (s.goto t (some failed)) φ' :=
    ⟨_, .stay _, h.goto_call hfailed⟩
  rw [LogGroupMutex.tryAcquireCore]
  cases hmutex : s.mutex with
  | none => exact hstay
  | some m =>
    dsimp only
    cases howner : s.owner m with
    | free => exact ⟨_, .acquire _ _ _, h.acquire hmutex⟩
    | abandoned => exact absurd ⟨m, hmutex, howner⟩ hproper
    | otherProcess => exact hstay
    | thread u depth => exact nomatch (h.owner m u depth howner).2

/-- `Handle.Dispose` takes the mutex out of the handle. -/
theorem exchange (h : AtPhase s φ) {i : ℕ} {a : Handle τ} {m : Int32}
    (hpc : s.pc t = some (.exchangeMutex i)) (ha : s.handles[i]? = some a)
    (hm : a.acquiredMutex = some m) :
    φ = .held i t m ∧
      AtPhase ({ s with handles := s.handles.set i { a with acquiredMutex := none } }.goto t
        (some (.releaseMutex i m))) (.releasing i t m) := by
  have hheld : φ = .held i t m := by
    obtain ⟨a', ha', rfl⟩ := (h.threads t).exchangeMutex i hpc
    obtain rfl : a = a' := Option.some.inj (ha.symm.trans ha')
    rcases h.handles i a ha with hdead | hhandle
    · rw [hdead] at hm
      cases hm
    · cases φ with
      | held j u m' =>
        cases hhandle
        cases hm
        rfl
      | releasing j u m' =>
        cases hhandle
        cases hm
      | released j u =>
        cases hhandle
        cases hm
      | free => cases hhandle
      | call u => cases hhandle
  refine ⟨hheld, ?_⟩
  obtain rfl := hheld
  obtain rfl : a = ⟨some m, true, t⟩ := Option.some.inj (ha.symm.trans (h.handle i _ rfl))
  have hlt := (List.getElem?_eq_some_iff.1 ha).1
  exact
    { threads := by
        refine h.threads_update nofun (fun u hu => (Option.some.inj hu).symm) (.set ha rfl rfl) ?_
        exact
          { permit := iff_of_false (fun ⟨p, hp, hpermit⟩ => by cases hp; cases hpermit) nofun
            releasing := fun j m' => ⟨fun hj => by cases hj; rfl, fun hj => by cases hj; rfl⟩
            released := nofun
            exchangeMutex := nofun
            exchangeProtector := nofun
            waits := fun _ p hp => by cases hp; rfl }
      count := h.count
      handles := by
        intro j b hb
        have hb : (s.handles.set i ⟨none, true, t⟩)[j]? = some b := hb
        by_cases hij : i = j
        · obtain rfl := hij
          rw [List.getElem?_set_self hlt] at hb
          cases hb
          exact .inr rfl
        · rw [List.getElem?_set_ne hij] at hb
          refine (h.handles j b hb).imp_right fun hhandle => ?_
          cases hhandle
          exact absurd rfl hij
      handle := by
        rintro j b ⟨⟩
        exact List.getElem?_set_self hlt
      owner := h.owner
      owned := h.owned
      closed := fun hclosed => nomatch h.closed hclosed }

/-- `ReleaseMutex` of the owner. -/
theorem releaseMutex (h : AtPhase s φ) {i : ℕ} {m : Int32}
    (hpc : s.pc t = some (.releaseMutex i m)) :
    φ = .releasing i t m ∧
      AtPhase ((s.releaseMutex t m).goto t (some (.exchangeProtector i))) (.released i t) := by
  obtain rfl : φ = .releasing i t m := ((h.threads t).releasing i m).1 hpc
  obtain ⟨hmutex, howner⟩ := h.owned m t rfl
  have hrelease : s.releaseMutex t m = s.setOwner m .free := by
    rw [LogGroupMutex.releaseMutex, if_pos hmutex, howner]
    dsimp only
    rw [if_pos rfl, if_pos (Nat.le_refl 1)]
  rw [hrelease]
  refine ⟨rfl, ?_⟩
  exact
    { threads := by
        refine h.threads_update (fun u hu => (Option.some.inj hu).symm)
          (fun u hu => (Option.some.inj hu).symm) (.refl _) ?_
        exact
          { permit := iff_of_false (fun ⟨p, hp, hpermit⟩ => by cases hp; cases hpermit) nofun
            releasing := fun j m' => ⟨nofun, nofun⟩
            released := fun j hj => by cases hj; rfl
            exchangeMutex := nofun
            exchangeProtector := fun j hj => by
              cases hj
              exact ⟨_, h.handle i _ rfl, rfl, rfl⟩
            waits := fun _ p hp => by cases hp; rfl }
      count := h.count
      handles := h.handles
      handle := h.handle
      owner := by
        intro m' u depth hm'
        have hm' : Function.update s.owner m .free m' = .thread u depth := hm'
        by_cases hm : m' = m
        · rw [hm, Function.update_self] at hm'
          cases hm'
        · rw [Function.update_of_ne hm] at hm'
          have howned := (h.owner m' u depth hm').2
          cases howned
          exact absurd rfl hm
      owned := nofun
      closed := fun hclosed => nomatch h.closed hclosed }

/-- `Handle.Dispose` takes the semaphore out of the handle, if it is still there. -/
theorem finish (h : AtPhase s φ) {i : ℕ} {a : Handle τ}
    (hpc : s.pc t = some (.exchangeProtector i)) (ha : s.handles[i]? = some a) :
    ∃ φ', φ.Next φ' ∧
      AtPhase ({ s with handles := s.handles.set i ⟨none, false, a.acquirer⟩ }.goto t
        (if a.mutexProtector then some .releaseProtector else none)) φ' := by
  have hlt := (List.getElem?_eq_some_iff.1 ha).1
  have hreleased : ∀ j, φ = .released j t → j = i := by
    intro j hj
    have hj := (h.threads t).released j hj
    rw [hpc] at hj
    cases hj
    rfl
  rcases h.handles i a ha with hdead | hhandle
  · have hprotector : a.mutexProtector = false := by rw [hdead]
    have hset : s.handles.set i ⟨none, false, a.acquirer⟩ = s.handles := by
      rw [← hdead, ← (List.getElem?_eq_some_iff.1 ha).2]
      exact List.set_getElem_self _
    have hactor : φ.actor ≠ some t := by
      intro hactor
      cases φ with
      | free => cases hactor
      | held j u m => cases hactor
      | call u =>
        cases hactor
        obtain ⟨p, hp, hpermit⟩ := (h.threads t).permit.2 rfl
        rw [hpc] at hp
        cases hp
        cases hpermit
      | releasing j u m =>
        cases hactor
        have hj := ((h.threads t).releasing j m).2 rfl
        rw [hpc] at hj
        cases hj
      | released j u =>
        cases hactor
        obtain rfl := hreleased j rfl
        have hj := ha.symm.trans (h.handle j _ rfl)
        rw [hdead] at hj
        cases hj
    rw [hprotector, hset]
    exact ⟨φ, .stay φ, h.goto (.plain hactor nofun fun _ => nofun)⟩
  · have hφ : φ = .released i t ∧ a = ⟨none, true, t⟩ := by
      obtain ⟨a', ha', rfl, hnone⟩ := (h.threads t).exchangeProtector i hpc
      obtain rfl : a = a' := Option.some.inj (ha.symm.trans ha')
      cases φ with
      | held j u m =>
        cases hhandle
        cases hnone
      | releasing j u m =>
        cases hhandle
        have hi := ((h.threads _).releasing i m).2 rfl
        rw [hpc] at hi
        cases hi
      | released j u =>
        cases hhandle
        exact ⟨rfl, rfl⟩
      | free => cases hhandle
      | call u => cases hhandle
    obtain ⟨rfl, rfl⟩ := hφ
    refine ⟨_, .finish i t, ?_⟩
    exact
      { threads := h.threads_update (fun u hu => (Option.some.inj hu).symm)
          (fun u hu => (Option.some.inj hu).symm) (.set ha rfl rfl) (.call rfl)
        count := h.count
        handles := by
          intro j b hb
          have hb : (s.handles.set i ⟨none, false, t⟩)[j]? = some b := hb
          by_cases hij : i = j
          · obtain rfl := hij
            rw [List.getElem?_set_self hlt] at hb
            cases hb
            exact .inl rfl
          · rw [List.getElem?_set_ne hij] at hb
            refine .inl ((h.handles j b hb).resolve_right fun hhandle => ?_)
            cases hhandle
            exact hij rfl
        handle := nofun
        owner := h.owner
        owned := nofun
        closed := fun hclosed => nomatch h.closed hclosed }

/-- `_mutexProtector.Dispose`, when nobody has the semaphore or waits for it. -/
theorem disposeProtector (h : AtPhase s φ) (hpc : s.pc t = some .disposeProtector)
    (hcount : s.mutexProtector ≠ 0) (hwaits : ∀ u p, s.pc u = some p → p.waits = false) :
    AtPhase ({ s with protectorDisposed := true }.goto t none) φ := by
  obtain rfl : φ = .free := Phase.eq_free (h.count ▸ hcount)
  have hidle : AtPhase (s.goto t none) .free :=
    h.goto_plain (fun p hp => by rw [hpc] at hp; cases hp; rfl) nofun fun _ => nofun
  exact
    { threads := fun u =>
        { permit := (hidle.threads u).permit
          releasing := (hidle.threads u).releasing
          released := (hidle.threads u).released
          exchangeMutex := (hidle.threads u).exchangeMutex
          exchangeProtector := (hidle.threads u).exchangeProtector
          waits := by
            intro _ p hp
            have hp : Function.update s.pc t none u = some p := hp
            by_cases hu : u = t
            · rw [hu, Function.update_self] at hp
              cases hp
            · rw [Function.update_of_ne hu] at hp
              exact hwaits u p hp }
      count := h.count
      handles := h.handles
      handle := h.handle
      owner := h.owner
      owned := h.owned
      closed := fun _ => rfl }

end AtPhase

/-! ### Runs -/

/-- The call does not find its mutex abandoned, and disposes the semaphore when no call has it or
waits for it. -/
def LogGroupMutex.MayGo (s : LogGroupMutex τ) : Pc → Prop
  | .looping _ passedMillis => passedMillis < IterationTimeoutMillis → ¬ s.Abandoned
  | .lastTry _ => ¬ s.Abandoned
  | .disposeProtector => s.mutexProtector ≠ 0 ∧ ∀ u, ∀ p ∈ s.pc u, p.waits = false
  | _ => True

/-- Nor is a handle disposed by another thread than the one that acquired it. -/
def Proper (s : LogGroupMutex τ) : MutexEvent τ → Prop
  | .disposeHandle t i => ∀ h ∈ s.handles[i]?, h.acquirer = t
  | .go t _ _ => ∀ p ∈ s.pc t, s.MayGo p
  | _ => True

variable [DecidableEq τ]

theorem AtPhase.go {s s' : LogGroupMutex τ} {φ : Phase τ} {t : τ} {passedMillis : ℕ}
    {throws : Bool} {p : Pc} (h : AtPhase s φ) (hpc : s.pc t = some p)
    (hproper : Proper s (.go t passedMillis throws))
    (hstep : s.go t passedMillis throws p = some s') : ∃ φ', φ.Next φ' ∧ AtPhase s' φ' := by
  have hplain : ∀ {pc : Option Pc}, p.acts = false → (∀ q, pc = some q → q.plain) →
      (s.protectorDisposed = true → ∀ q, pc = some q → q.waits = false) →
      ∃ φ', φ.Next φ' ∧ AtPhase (s.goto t pc) φ' := by
    intro pc hp hnew hwaits
    refine ⟨φ, .stay φ, h.goto_plain (fun q hq => ?_) hnew hwaits⟩
    rw [hpc] at hq
    cases hq
    exact hp
  have hwait : ∀ {q : Pc}, p.waits → q.holdsPermit → s.wait t q = some s' →
      ∃ φ', φ.Next φ' ∧ AtPhase s' φ' := by
    intro q hp hq hstep
    rw [LogGroupMutex.wait] at hstep
    split at hstep
    · cases hstep
    · next hcount =>
      cases hstep
      obtain ⟨rfl, hnew⟩ := h.take hcount hpc hp hq
      exact ⟨_, .take t, hnew⟩
  have hproper : s.MayGo p := hproper p hpc
  cases p with
  | testing k =>
    cases hstep
    refine hplain rfl (fun q hq => ?_) fun _ q hq => ?_
    · split at hq <;> cases hq <;> rfl
    · split at hq <;> cases hq <;> rfl
  | entering k =>
    cases hstep
    refine hplain rfl (fun q hq => ?_) fun hclosed q hq => ?_
    · split at hq <;> cases hq <;> rfl
    · rw [if_pos hclosed] at hq
      cases hq
      rfl
  | waiting k => exact hwait rfl rfl hstep
  | retesting k =>
    cases hstep
    obtain rfl := h.eq_call hpc rfl
    refine ⟨_, .stay _, ?_⟩
    split
    · exact h.goto_call rfl
    · exact h.goto_call rfl
  | looping k passed =>
    obtain rfl := h.eq_call hpc rfl
    rw [LogGroupMutex.go] at hstep
    split at hstep
    · next hpassed =>
      cases hstep
      exact h.tryAcquireCore rfl (hproper hpassed)
    · cases hstep
      exact ⟨_, .stay _, h.goto_call rfl⟩
  | sleeping k =>
    cases hstep
    obtain rfl := h.eq_call hpc rfl
    exact ⟨_, .stay _, h.goto_call rfl⟩
  | incrementing k =>
    cases hstep
    obtain rfl := h.eq_call hpc rfl
    refine ⟨_, .stay _, ?_⟩
    rw [LogGroupMutex.incMutexIteration]
    cases throws with
    | true => exact (h.setMutex none (s.iteration + 1)).goto_call rfl
    | false => exact (h.setMutex (some (s.iteration + 1)) (s.iteration + 1)).goto_call rfl
  | lastTry k =>
    cases hstep
    obtain rfl := h.eq_call hpc rfl
    exact h.tryAcquireCore rfl hproper
  | releasing k =>
    cases hstep
    obtain rfl := h.eq_call hpc rfl
    exact ⟨_, .give t, h.give (fun q hq => by cases hq; rfl) fun q hq => by cases hq; rfl⟩
  | iterating k =>
    cases hstep
    refine hplain rfl (fun q hq => ?_) fun _ q hq => ?_
    · split at hq
      · cases hq
      · split at hq <;> cases hq
        rfl
    · split at hq
      · cases hq
      · split at hq <;> cases hq
        rfl
  | exchangeMutex i =>
    obtain ⟨a, ha, hacquirer⟩ := (h.threads t).exchangeMutex i hpc
    rw [LogGroupMutex.go, ha] at hstep
    dsimp only at hstep
    cases hm : a.acquiredMutex with
    | none =>
      rw [hm] at hstep
      cases hstep
      have hactor : φ.actor ≠ some t := h.actor_ne fun q hq => by
        rw [hpc] at hq
        cases hq
        rfl
      refine ⟨φ, .stay φ, h.goto (.of_actor_ne hactor (fun q hq => ?_) nofun (fun j hj => ?_)
        fun _ q hq => ?_)⟩
      · cases hq
        exact ⟨rfl, nofun⟩
      · cases hj
        exact ⟨a, ha, hacquirer, hm⟩
      · cases hq
        rfl
    | some m =>
      rw [hm] at hstep
      cases hstep
      obtain ⟨rfl, hnew⟩ := h.exchange hpc ha hm
      exact ⟨_, .exchange i t m, hnew⟩
  | releaseMutex i m =>
    cases hstep
    obtain ⟨rfl, hnew⟩ := h.releaseMutex hpc
    exact ⟨_, .release i t m, hnew⟩
  | exchangeProtector i =>
    obtain ⟨a, ha, -⟩ := (h.threads t).exchangeProtector i hpc
    rw [LogGroupMutex.go, ha] at hstep
    cases hstep
    exact h.finish hpc ha
  | releaseProtector =>
    cases hstep
    obtain rfl := h.eq_call hpc rfl
    exact ⟨_, .give t, h.give nofun nofun⟩
  | disposeTesting =>
    cases hstep
    refine hplain rfl (fun q hq => ?_) fun _ q hq => ?_
    · split at hq <;> cases hq
      rfl
    · split at hq <;> cases hq
      rfl
  | disposeEntering =>
    cases hstep
    refine hplain rfl (fun q hq => ?_) fun hclosed q hq => ?_
    · split at hq <;> cases hq
      rfl
    · rw [if_pos hclosed] at hq
      cases hq
  | disposeWaiting => exact hwait rfl rfl hstep
  | disposeRetesting =>
    obtain rfl := h.eq_call hpc rfl
    refine ⟨_, .stay _, ?_⟩
    rw [LogGroupMutex.go] at hstep
    split at hstep
    · cases hstep
      exact h.goto_call rfl
    · cases hstep
      exact (h.setMutex none (-1)).goto_call rfl
  | disposeReleasing andDispose =>
    cases hstep
    obtain rfl := h.eq_call hpc rfl
    refine ⟨_, .give t, h.give (fun q hq => ?_) fun q hq => ?_⟩
    · split at hq <;> cases hq
      rfl
    · split at hq <;> cases hq
      rfl
  | disposeProtector =>
    cases hstep
    exact ⟨φ, .stay φ, h.disposeProtector hpc hproper.1 hproper.2⟩

/-- A proper step of the code is a step of the phases. -/
theorem AtPhase.step {s s' : LogGroupMutex τ} {φ : Phase τ} {e : MutexEvent τ} (h : AtPhase s φ)
    (hproper : Proper s e) (hstep : s.step e = some s') : ∃ φ', φ.Next φ' ∧ AtPhase s' φ' := by
  have hidle : ∀ {t : τ}, s.pc t = none → ∀ p, s.pc t = some p → p.acts = false :=
    fun hpc p hp => nomatch hpc.symm.trans hp
  cases e with
  | tryAcquire t =>
    obtain ⟨hpc, hstep⟩ := Option.ite_none_right_eq_some.1 hstep
    cases hstep
    exact ⟨φ, .stay φ, h.goto_plain (hidle hpc) (fun p hp => by cases hp; rfl)
      fun _ p hp => by cases hp; rfl⟩
  | disposeHandle t i =>
    obtain ⟨⟨hpc, hlt⟩, hstep⟩ := Option.ite_none_right_eq_some.1 hstep
    cases hstep
    have hhandle : s.handles[i]? = some s.handles[i] := List.getElem?_eq_getElem hlt
    refine ⟨φ, .stay φ, h.goto (.of_actor_ne (h.actor_ne (hidle hpc)) (fun p hp => ?_)
      (fun j hj => ?_) nofun fun _ p hp => ?_)⟩
    · cases hp
      exact ⟨rfl, nofun⟩
    · cases hj
      exact ⟨_, hhandle, hproper _ hhandle⟩
    · cases hp
      rfl
  | dispose t =>
    obtain ⟨hpc, hstep⟩ := Option.ite_none_right_eq_some.1 hstep
    cases hstep
    exact ⟨φ, .stay φ, h.goto_plain (hidle hpc) (fun p hp => by cases hp; rfl)
      fun _ p hp => by cases hp; rfl⟩
  | go t passedMillis throws =>
    obtain ⟨p, hpc, hstep⟩ := Option.bind_eq_some_iff.1 hstep
    exact h.go hpc hproper hstep
  | otherAcquires m =>
    obtain ⟨howner, hstep⟩ := Option.ite_none_right_eq_some.1 hstep
    cases hstep
    refine ⟨φ, .stay φ, h.setOwner (fun t depth hm => ?_) nofun⟩
    rw [hm] at howner
    rcases howner with howner | howner <;> cases howner
  | otherReleases m =>
    obtain ⟨howner, hstep⟩ := Option.ite_none_right_eq_some.1 hstep
    cases hstep
    refine ⟨φ, .stay φ, h.setOwner (fun t depth hm => ?_) nofun⟩
    rw [hm] at howner
    cases howner
  | otherAbandons m =>
    obtain ⟨howner, hstep⟩ := Option.ite_none_right_eq_some.1 hstep
    cases hstep
    refine ⟨φ, .stay φ, h.setOwner (fun t depth hm => ?_) nofun⟩
    rw [hm] at howner
    cases howner

omit [DecidableEq τ] in
theorem atPhase_new {owner : Int32 → Owner τ} (howner : ∀ m t depth, owner m ≠ .thread t depth) :
    AtPhase (.new owner) .free where
  threads _ := .plain nofun nofun fun _ => nofun
  count := rfl
  handles := nofun
  handle := nofun
  owner m t depth hm := absurd hm (howner m t depth)
  owned := nofun
  closed := nofun

/-- At most one handle is valid; without one and without a call, no thread owns a mutex and the
permit is back. -/
structure LogGroupMutex.Disciplined (s : LogGroupMutex τ) : Prop where
  one : ∀ (i j : ℕ) (a b : Handle τ), s.handles[i]? = some a → s.handles[j]? = some b →
    a.isValid → b.isValid → i = j
  idle : (∀ (i : ℕ) (a : Handle τ), s.handles[i]? = some a → ¬ a.isValid) →
    (∀ t, s.pc t = none) → (∀ m t depth, s.owner m ≠ .thread t depth) ∧ s.mutexProtector = 1

omit [DecidableEq τ] in
theorem AtPhase.disciplined {s : LogGroupMutex τ} {φ : Phase τ} (h : AtPhase s φ) :
    s.Disciplined where
  one := by
    have hvalid : ∀ i a, s.handles[i]? = some a → a.isValid → φ.handle = some (i, a) := by
      intro i a ha hvalid
      refine (h.handles i a ha).resolve_left fun hdead => ?_
      rw [hdead] at hvalid
      cases hvalid
    intro i j a b ha hb hvalid₁ hvalid₂
    have hsame := (hvalid i a ha hvalid₁).symm.trans (hvalid j b hb hvalid₂)
    cases hsame
    rfl
  idle := by
    intro hvalid hpc
    obtain rfl : φ = .free := by
      cases φ with
      | free => rfl
      | call t =>
        obtain ⟨p, hp, -⟩ := (h.threads t).permit.2 rfl
        exact nomatch (hpc t).symm.trans hp
      | held i t m => exact absurd rfl (hvalid i _ (h.handle i _ rfl))
      | releasing i t m => exact nomatch (hpc t).symm.trans (((h.threads t).releasing i m).2 rfl)
      | released i t => exact nomatch (hpc t).symm.trans ((h.threads t).released i rfl)
    exact ⟨fun m t depth howner => (nomatch (h.owner m t depth howner).2), h.count⟩

/-- The discipline is kept as long as all the steps are proper. -/
theorem mutex_disciplined {owner : Int32 → Owner τ}
    (howner : ∀ m t depth, owner m ≠ .thread t depth) {es : List (MutexEvent τ)}
    (hproper : EachStep (stepOf LogGroupMutex.step) Proper (.new owner) es) :
    EachState (stepOf LogGroupMutex.step) LogGroupMutex.Disciplined (.new owner) es := by
  refine EachState.of_invariant (I := fun s => ∃ φ, AtPhase s φ) ?_ ?_ hproper
    ⟨_, atPhase_new howner⟩
  · rintro s e s' ⟨φ, h⟩ hproper hstep
    obtain ⟨φ', -, h'⟩ := h.step hproper hstep
    exact ⟨φ', h'⟩
  · rintro s ⟨φ, h⟩
    exact h.disciplined

/-! ### Runs of two threads -/

instance (s : LogGroupMutex Bool) : ∀ p, Decidable (s.MayGo p)
  | .looping _ passedMillis =>
    inferInstanceAs (Decidable (passedMillis < IterationTimeoutMillis →
      ¬ ∃ m ∈ s.mutex, s.owner m = .abandoned))
  | .lastTry _ => inferInstanceAs (Decidable (¬ ∃ m ∈ s.mutex, s.owner m = .abandoned))
  | .disposeProtector =>
    inferInstanceAs (Decidable (s.mutexProtector ≠ 0 ∧ ∀ u, ∀ p ∈ s.pc u, p.waits = false))
  | .testing _ | .entering _ | .waiting _ | .retesting _ | .sleeping _ | .incrementing _
  | .releasing _ | .iterating _ | .exchangeMutex _ | .releaseMutex _ _ | .exchangeProtector _
  | .releaseProtector | .disposeTesting | .disposeEntering | .disposeWaiting | .disposeRetesting
  | .disposeReleasing _ => isTrue trivial

instance (s : LogGroupMutex Bool) : ∀ e, Decidable (Proper s e)
  | .disposeHandle t i => inferInstanceAs (Decidable (∀ h ∈ s.handles[i]?, h.acquirer = t))
  | .go t _ _ => inferInstanceAs (Decidable (∀ p ∈ s.pc t, s.MayGo p))
  | .tryAcquire _ | .dispose _ | .otherAcquires _ | .otherReleases _ | .otherAbandons _ =>
    isTrue trivial

/-- The first mutex has the owner, the others have none. -/
def firstOwner (owner : Owner Bool) (m : Int32) : Owner Bool := if m = 0 then owner else .free

/-- So many steps of a thread. -/
def goes (t : Bool) (n : ℕ) : List (MutexEvent Bool) := List.replicate n (.go t 0 false)

/-- A thread acquires the mutex and disposes the handle. -/
def acquireAndDispose : List (MutexEvent Bool) :=
  .tryAcquire true :: goes true 5 ++ .disposeHandle true 0 :: goes true 4

theorem mutex_disciplined_acquireAndDispose :
    EachState (stepOf LogGroupMutex.step) LogGroupMutex.Disciplined (.new (firstOwner .free))
      acquireAndDispose := by
  refine mutex_disciplined (fun m t depth => ?_) ?_
  · rw [firstOwner]
    split <;> exact nofun
  · have hcheck : checkSteps LogGroupMutex.step (fun s e => decide (Proper s e))
        (.new (firstOwner .free)) acquireAndDispose = true := by decide
    intro pre e post s hes hrun
    exact of_decide_eq_true (eachStep_of_check hcheck pre e post s hes hrun)

/-- A run that ends without a valid handle and without a call, but with a mutex that a thread
owns, or without the permit. -/
theorem not_disciplined {owner : Int32 → Owner Bool} {es : List (MutexEvent Bool)}
    (h : ∃ s, es.foldlM LogGroupMutex.step (.new owner) = some s ∧
      (∀ h ∈ s.handles, ¬ h.isValid) ∧ (∀ t, s.pc t = none) ∧
      ((∃ m t depth, s.owner m = .thread t depth) ∨ s.mutexProtector = 0)) :
    ¬ EachState (stepOf LogGroupMutex.step) LogGroupMutex.Disciplined (.new owner) es := by
  obtain ⟨s, hrun, hvalid, hpc, hbad⟩ := h
  intro hall
  have hs := hall es [] s (List.append_nil _).symm (run_of_foldlM hrun)
  obtain ⟨howner, hcount⟩ := hs.idle (fun i a ha => hvalid a (List.mem_of_getElem? ha)) hpc
  rcases hbad with ⟨m, t, depth, hm⟩ | hzero
  · exact howner m t depth hm
  · exact absurd hcount (by rw [hzero]; decide)

/-- The first `WaitOne` finds the mutex abandoned, the second acquires it again. -/
def abandonedRun : List (MutexEvent Bool) :=
  .tryAcquire true :: goes true 7 ++ .disposeHandle true 0 :: goes true 4

/-- The handle is disposed by the other thread. -/
def strangerRun : List (MutexEvent Bool) :=
  .tryAcquire true :: goes true 5 ++ .disposeHandle false 0 :: goes false 4

/-- A call that waits takes the semaphore before it is disposed, and cannot release it. -/
def disposedRun : List (MutexEvent Bool) :=
  .tryAcquire true :: goes true 2 ++ .dispose false :: goes false 5 ++ goes true 1 ++
    goes false 1 ++ goes true 5

/-- The steps that are not proper break the discipline: a thread owns the mutex after its handle
is disposed, or the permit is lost. -/
theorem mutex_not_disciplined :
    ¬ EachState (stepOf LogGroupMutex.step) LogGroupMutex.Disciplined
      (.new (firstOwner .abandoned)) abandonedRun ∧
    ¬ EachState (stepOf LogGroupMutex.step) LogGroupMutex.Disciplined (.new (firstOwner .free))
      strangerRun ∧
    ¬ EachState (stepOf LogGroupMutex.step) LogGroupMutex.Disciplined (.new (firstOwner .free))
      disposedRun := by
  refine ⟨not_disciplined ?_, not_disciplined ?_, not_disciplined ?_⟩
  · refine ⟨_, rfl, by decide, by decide, .inl ⟨0, true, 1, by decide⟩⟩
  · refine ⟨_, rfl, by decide, by decide, .inl ⟨0, true, 1, by decide⟩⟩
  · refine ⟨_, rfl, by decide, by decide, .inr (by decide)⟩

end DdTrace.Logging
