import DdTrace.CallTarget.Scopes
import DdTrace.Lib.Run

/-!
# Scopes closed in any order

Sequences of `Activate` and `Scope.Close` in one execution context. `Close` restores the
parent captured at activation, also one that has been closed in the meantime: the active
scope stays an open one exactly as long as no scope is closed while it is active and its
parent is closed already.
-/

namespace DdTrace.CallTarget

open Lib

inductive ScopeOp where
  | activate
  | close (scope : Scope)

/-- One execution context. `opened` are the scopes that `Activate` has returned, `closed` those
whose `Close` has been called. -/
structure Context where
  manager : State
  opened : List Scope
  closed : List Scope

namespace Context

def start : Context := ⟨.start none, [], []⟩

/-- Every `Activate` makes a new scope; only a scope it has returned can be closed. -/
def step (c : Context) : ScopeOp → Option Context
  | .activate =>
    let manager := c.manager.activate c.opened.length
    some { c with manager, opened := c.opened ++ manager.active.toList }
  | .close scope =>
    if scope ∈ c.opened then
      some { c with manager := c.manager.close scope, closed := c.closed ++ [scope] }
    else none

/-- The active scope is null or has not been closed. -/
def ActiveOpen (c : Context) : Prop :=
  ∀ scope, c.manager.active = some scope → scope ∉ c.closed

/-- The call does not close the active scope after its parent. -/
def BeforeParent (c : Context) : ScopeOp → Prop
  | .activate => True
  | .close scope => c.manager.active = some scope →
    ∀ parent, scope.parent = some parent → parent ∉ c.closed

end Context

def Scope.id : Scope → ℕ
  | .root id => id
  | .child id _ => id

/-- The scopes that were active when this one was activated, the innermost first. -/
def Scope.ancestors : Scope → List Scope
  | .root _ => []
  | .child _ parent => parent :: parent.ancestors

/-- The call does not close an ancestor of the active scope. -/
def Context.NotAncestor (c : Context) : ScopeOp → Prop
  | .activate => True
  | .close scope => ∀ active, c.manager.active = some active → scope ∉ active.ancestors

namespace Scope

variable {scope parent : Scope} {id : ℕ} {active : Option Scope}

theorem ancestors_of_parent (h : scope.parent = some parent) :
    scope.ancestors = parent :: parent.ancestors := by
  cases scope with
  | root => cases h
  | child =>
    obtain rfl := Option.some.inj h
    rfl

theorem ancestors_new : (Scope.new id active).ancestors =
    active.elim [] fun parent => parent :: parent.ancestors := by
  cases active <;> rfl

theorem id_new : (Scope.new id active).id = id := by
  cases active <;> rfl

theorem parent_new : (Scope.new id active).parent = active := by
  cases active <;> rfl

theorem sizeOf_lt_of_mem_ancestors (h : parent ∈ scope.ancestors) :
    sizeOf parent < sizeOf scope := by
  induction scope with
  | root => cases h
  | child id scope ih =>
    rcases List.mem_cons.1 h with rfl | h
    · simp only [Scope.child.sizeOf_spec]
      omega
    · have := ih h
      simp only [Scope.child.sizeOf_spec]
      omega

theorem parent_ne (h : scope.parent = some parent) : parent ≠ scope := by
  rintro rfl
  have hmem : parent ∈ parent.ancestors := by
    rw [ancestors_of_parent h]
    exact List.mem_cons_self
  exact absurd (sizeOf_lt_of_mem_ancestors hmem) (lt_irrefl _)

end Scope

namespace Context

variable {c c' : Context} {op : ScopeOp} {scope : Scope}

/-- The scopes in use are those that were activated, and their numbers are used up. -/
structure Fresh (c : Context) : Prop where
  active : ∀ scope, c.manager.active = some scope → scope ∈ c.opened
  parent : ∀ scope ∈ c.opened, ∀ parent, scope.parent = some parent → parent ∈ c.opened
  closed : ∀ scope ∈ c.closed, scope ∈ c.opened
  id_lt : ∀ scope ∈ c.opened, scope.id < c.opened.length

theorem fresh_start : start.Fresh := ⟨nofun, nofun, nofun, nofun⟩

theorem step_activate (h : c.step .activate = some c') :
    c'.manager.active = some (.new c.opened.length c.manager.active) ∧
      c'.opened = c.opened ++ [.new c.opened.length c.manager.active] ∧ c'.closed = c.closed := by
  obtain rfl := Option.some.inj h
  exact ⟨rfl, rfl, rfl⟩

theorem step_close (h : c.step (.close scope) = some c') : scope ∈ c.opened ∧
    c'.manager.active =
      (if c.manager.active = some scope then scope.parent else c.manager.active) ∧
    c'.opened = c.opened ∧ c'.closed = c.closed ++ [scope] := by
  simp only [step] at h
  split at h
  · obtain rfl := Option.some.inj h
    refine ⟨‹_›, ?_, rfl, rfl⟩
    unfold State.close
    split <;> rfl
  · cases h

theorem Fresh.activate (hc : c.Fresh) (h : c.step .activate = some c') : c'.Fresh := by
  obtain ⟨hactive, hopened, hclosed⟩ := step_activate h
  have hold : ∀ scope ∈ c.opened, scope ∈ c'.opened := fun scope hs =>
    hopened ▸ List.mem_append_left _ hs
  constructor
  · intro scope hs
    obtain rfl := Option.some.inj (hactive.symm.trans hs)
    exact hopened ▸ List.mem_append_right _ List.mem_cons_self
  · intro scope hs parent hparent
    rw [hopened] at hs
    apply hold
    rcases List.mem_append.1 hs with hs | hs
    · exact hc.parent scope hs parent hparent
    · rw [List.mem_singleton.1 hs, Scope.parent_new] at hparent
      exact hc.active parent hparent
  · intro scope hs
    exact hold scope (hc.closed scope (hclosed ▸ hs))
  · intro scope hs
    rw [hopened, List.length_append, List.length_singleton]
    rw [hopened] at hs
    rcases List.mem_append.1 hs with hs | hs
    · exact Nat.lt_succ_of_lt (hc.id_lt scope hs)
    · rw [List.mem_singleton.1 hs, Scope.id_new]
      exact Nat.lt_succ_self _

theorem Fresh.close (hc : c.Fresh) (h : c.step (.close scope) = some c') : c'.Fresh := by
  obtain ⟨hs, hactive, hopened, hclosed⟩ := step_close h
  constructor
  · intro active ha
    rw [hopened]
    rw [hactive] at ha
    split at ha
    · exact hc.parent scope hs active ha
    · exact hc.active active ha
  · rw [hopened]
    exact hc.parent
  · intro s hmem
    rw [hopened]
    rw [hclosed] at hmem
    rcases List.mem_append.1 hmem with hmem | hmem
    · exact hc.closed s hmem
    · rwa [List.mem_singleton.1 hmem]
  · rw [hopened]
    exact hc.id_lt

theorem Fresh.step (hc : c.Fresh) (h : c.step op = some c') : c'.Fresh := by
  cases op with
  | activate => exact hc.activate h
  | close scope => exact hc.close h

/-- A new scope has not been closed. -/
theorem Fresh.new_notMem (hc : c.Fresh) : .new c.opened.length c.manager.active ∉ c.closed := by
  intro hmem
  have := hc.id_lt _ (hc.closed _ hmem)
  rw [Scope.id_new] at this
  exact absurd this (lt_irrefl _)

theorem ActiveOpen.step (hc : c.Fresh) (ha : c.ActiveOpen) (hop : c.BeforeParent op)
    (h : c.step op = some c') : c'.ActiveOpen := by
  intro active hactive
  cases op with
  | activate =>
    obtain ⟨hnew, -, hclosed⟩ := step_activate h
    obtain rfl := Option.some.inj (hnew.symm.trans hactive)
    rw [hclosed]
    exact hc.new_notMem
  | close scope =>
    obtain ⟨-, hnew, -, hclosed⟩ := step_close h
    rw [hnew] at hactive
    rw [hclosed, List.mem_append, List.mem_singleton, not_or]
    split at hactive
    · exact ⟨hop ‹_› active hactive, Scope.parent_ne hactive⟩
    · refine ⟨ha active hactive, ?_⟩
      rintro rfl
      contradiction

/-- Closing the active scope after its parent makes the closed parent active. -/
theorem activeOpen_lost (hc : c.Fresh) (hop : ¬ c.BeforeParent op) :
    ∃ c', c.step op = some c' ∧ ¬ c'.ActiveOpen := by
  cases op with
  | activate => exact absurd trivial hop
  | close scope =>
    obtain ⟨hactive, parent, hparent, hclosed⟩ : c.manager.active = some scope ∧
        ∃ parent, scope.parent = some parent ∧ parent ∈ c.closed := by
      simpa [BeforeParent] using hop
    have hstep : ∃ c', c.step (.close scope) = some c' := by
      unfold Context.step
      exact ⟨_, if_pos (hc.active scope hactive)⟩
    obtain ⟨c', h⟩ := hstep
    refine ⟨c', h, fun ha => ?_⟩
    obtain ⟨-, hnew, -, hnow⟩ := step_close h
    rw [if_pos hactive, hparent] at hnew
    exact ha parent hnew (hnow ▸ List.mem_append_left _ hclosed)

/-- The active scope is open, and so are its ancestors. -/
def ChainOpen (c : Context) : Prop :=
  ∀ active, c.manager.active = some active →
    active ∉ c.closed ∧ ∀ scope ∈ active.ancestors, scope ∉ c.closed

theorem ChainOpen.step (hf : c.Fresh) (hc : c.ChainOpen) (hop : c.NotAncestor op)
    (h : c.step op = some c') : c'.ChainOpen := by
  intro active hactive
  cases op with
  | activate =>
    obtain ⟨hnew, -, hclosed⟩ := step_activate h
    obtain rfl := Option.some.inj (hnew.symm.trans hactive)
    rw [hclosed, Scope.ancestors_new]
    refine ⟨hf.new_notMem, fun scope hmem => ?_⟩
    cases hold : c.manager.active with
    | none => rw [hold] at hmem; cases hmem
    | some old =>
      rw [hold] at hmem
      rcases List.mem_cons.1 hmem with rfl | hmem
      · exact (hc _ hold).1
      · exact (hc _ hold).2 scope hmem
  | close closed =>
    obtain ⟨-, hnew, -, hclosed⟩ := step_close h
    rw [hnew] at hactive
    rw [hclosed]
    simp only [List.mem_append, List.mem_singleton, not_or]
    split at hactive
    · rename_i hold
      have hanc := Scope.ancestors_of_parent hactive
      have hlt : ∀ scope ∈ active :: active.ancestors, scope ∉ c.closed ∧ scope ≠ closed := by
        intro scope hmem
        rw [← hanc] at hmem
        refine ⟨(hc closed hold).2 scope hmem, ?_⟩
        rintro rfl
        exact absurd (Scope.sizeOf_lt_of_mem_ancestors hmem) (lt_irrefl _)
      exact ⟨hlt active List.mem_cons_self, fun scope hmem => hlt scope (.tail _ hmem)⟩
    · refine ⟨⟨(hc active hactive).1, ?_⟩, fun scope hmem => ⟨(hc active hactive).2 scope hmem, ?_⟩⟩
      · rintro rfl
        contradiction
      · rintro rfl
        exact hop active hactive hmem

/-- For every sequence of calls; the second half is about those that close no ancestor of the
active scope. -/
theorem active_open_iff (ops : List ScopeOp) :
    (EachState (stepOf step) ActiveOpen start ops ↔
      EachStep (stepOf step) BeforeParent start ops) ∧
    (EachStep (stepOf step) NotAncestor start ops →
      EachState (stepOf step) ActiveOpen start ops) := by
  constructor
  · refine eachState_iff_eachStep (I := fun _ c => c.Fresh) ?_ ?_ fresh_start nofun
    · intro _ op _ c c' _ hf ha hop h
      exact ⟨hf.step h, ha.step hf hop h⟩
    · intro _ op _ c _ hf _ hop
      exact activeOpen_lost hf hop
  · intro hops
    have hstep : ∀ (c : Context) (op : ScopeOp) (c' : Context), c.Fresh ∧ c.ChainOpen →
        c.NotAncestor op → stepOf step c op c' → c'.Fresh ∧ c'.ChainOpen :=
      fun c op c' hc hop h => ⟨hc.1.step h, hc.2.step hc.1 hop h⟩
    have hopen : ∀ c : Context, c.Fresh ∧ c.ChainOpen → c.ActiveOpen :=
      fun c hc active hactive => (hc.2 active hactive).1
    exact EachState.of_invariant hstep hopen hops ⟨fresh_start, nofun⟩

/-- The parent is closed first, then the child, which makes the parent active again. -/
theorem active_closed : ¬ ∀ ops, EachState (stepOf step) ActiveOpen start ops := by
  intro h
  have hrun : ∃ c, Run (stepOf step) start
      [.activate, .activate, .close (.root 0), .close (.child 1 (.root 0))] c ∧
      c.manager.active = some (.root 0) ∧ .root 0 ∈ c.closed :=
    ⟨_, .cons rfl (.cons rfl (.cons rfl (.cons rfl (.nil _)))), rfl, by decide⟩
  obtain ⟨c, hrun, hactive, hclosed⟩ := hrun
  exact h _ _ [] c (List.append_nil _).symm hrun _ hactive hclosed

end Context

end DdTrace.CallTarget
