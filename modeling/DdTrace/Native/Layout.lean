import DdTrace.Native.Emission
import Mathlib.Tactic.IntervalCases

/-!
# The layout of a rewritten body

Where `CallTarget_RewriterCallback` puts what it emits. New instructions have consecutive
addresses: those before the body from `first` on, those after it from `catchStart` on;
`store p` is the store in front of the return at `p`.
-/

namespace DdTrace.Native

namespace ILRewriter

open ILInstr

variable {r r' : ILRewriter} {m : FunctionInfo} {t : CallTargetTokens} {li la : List ILInstr}

/-! ## The emitted code is straight -/

/-- Control goes through the instructions one after the other. -/
def Straight (is : List ILInstr) : Prop := ∀ i ∈ is, fallsThrough i.opcode = true

theorem straight_append {is js : List ILInstr} :
    Straight (is ++ js) ↔ Straight is ∧ Straight js :=
  List.forall_mem_append

@[simp] theorem straight_cons {i : ILInstr} {is : List ILInstr} :
    Straight (i :: is) ↔ fallsThrough i.opcode = true ∧ Straight is :=
  List.forall_mem_cons

@[simp] theorem straight_nil : Straight [] := nofun

@[simp] theorem fallsThrough_loadInt32 (k : ℕ) : fallsThrough (loadInt32 k).opcode = true := by
  unfold loadInt32
  split
  · interval_cases k <;> rfl
  · split <;> rfl

@[simp] theorem fallsThrough_loadArgument (k : ℕ) :
    fallsThrough (loadArgument k).opcode = true := by
  unfold loadArgument
  split
  · interval_cases k <;> rfl
  · split <;> rfl

@[simp] theorem fallsThrough_stLocal (k : ℕ) : fallsThrough (stLocal k).opcode = true := by
  unfold stLocal
  split
  · interval_cases k <;> rfl
  · split <;> rfl

@[simp] theorem fallsThrough_loadLocal (k : ℕ) : fallsThrough (loadLocal k).opcode = true := by
  unfold loadLocal
  split
  · interval_cases k <;> rfl
  · split <;> rfl

@[simp] theorem fallsThrough_loadLocalAddress (k : ℕ) :
    fallsThrough (loadLocalAddress k).opcode = true := by
  unfold loadLocalAddress
  split <;> rfl

@[simp] theorem fallsThrough_callMember (k : Token) :
    fallsThrough (callMember k).opcode = true := rfl

@[simp] theorem fallsThrough_loadNull : fallsThrough loadNull.opcode = true := rfl

theorem straight_loadInstance (h : m.loadInstance = some li) : Straight li := by
  have hobj : ∀ k, fallsThrough (loadObj k).opcode = true := fun _ => rfl
  unfold FunctionInfo.loadInstance at h
  split at h <;> split at h
  · cases h
  · cases h; simp
  · split at h
    · cases h; simp [hobj]
    · split at h <;> cases h
      simp [hobj]
  · cases h; simp

theorem straight_loadElement {i : ℕ} {arg : FunctionMethodArgument} {is : List ILInstr}
    (h : m.loadElement i arg = some is) : Straight is := by
  have hbox : ∀ k, fallsThrough (box k).opcode = true := fun _ => rfl
  have hdup : fallsThrough dup.opcode = true := rfl
  have hst : fallsThrough stElemRef.opcode = true := rfl
  unfold FunctionInfo.loadElement at h
  split at h
  · cases h
  · split at h
    · obtain ⟨tok, _, rfl⟩ := Option.map_eq_some_iff.1 h
      simp [FunctionInfo.loadArgumentAt, hbox, hdup, hst]
    · cases h
      simp [FunctionInfo.loadArgumentAt, hdup, hst]

theorem straight_loadElements {i : ℕ} {args : List FunctionMethodArgument} {is : List ILInstr}
    (h : m.loadElements i args = some is) : Straight is := by
  induction args generalizing i is with
  | nil => cases h; exact straight_nil
  | cons arg args ih =>
    simp only [FunctionInfo.loadElements, Option.bind_eq_bind, Option.bind_eq_some_iff,
      Option.pure_def, Option.some.injEq] at h
    obtain ⟨element, h1, elements, h2, rfl⟩ := h
    exact straight_append.2 ⟨straight_loadElement h1, ih h2⟩

theorem straight_loadArguments (h : m.loadArguments t = some la) : Straight la := by
  have harr : ∀ k, fallsThrough (newArr k).opcode = true := fun _ => rfl
  unfold FunctionInfo.loadArguments at h
  split at h
  · split at h <;> cases h
    simp [Straight, FunctionInfo.loadArgumentAt]
  · simp only [Option.bind_eq_bind, Option.bind_eq_some_iff, Option.pure_def,
      Option.some.injEq] at h
    obtain ⟨elements, he, rfl⟩ := h
    simp [harr, straight_loadElements he]

theorem straight_initLocals : Straight (m.initLocals t) := by
  unfold FunctionInfo.initLocals
  split <;> simp

theorem straight_beginCode (hli : Straight li) (hla : Straight la) :
    Straight (m.beginCode t li la) := by
  simp [FunctionInfo.beginCode, straight_append, straight_initLocals, hli, hla]

theorem straight_endCode (hli : Straight li) : Straight (m.endCode t li) := by
  unfold FunctionInfo.endCode
  split <;> simp [straight_append, hli]

/-! ## The whole body -/

/-- The addresses of what is emitted. The code before the body starts at `first`, that
after it at `catchStart`; `exit` is where the returns leave to. -/
structure Places where
  first : ℕ
  stateLeave : ℕ
  beginCatch : ℕ
  beginLeave : ℕ
  methodReturn : ℕ
  catchStart : ℕ
  rethrow : ℕ
  tryStart : ℕ
  tryLeave : ℕ
  endCatch : ℕ
  endLeave : ℕ
  endFinally : ℕ
  exit : ℕ

/-- For `kb` instructions up to the leave before the body, and `ke` in the finally. -/
@[simps]
def Places.of (r : ILRewriter) (kb ke : ℕ) (isVoid : Bool) : Places where
  first := r.nInstrs + 1
  stateLeave := r.nInstrs + kb + 1
  beginCatch := r.nInstrs + kb + 2
  beginLeave := r.nInstrs + kb + 3
  methodReturn := r.nInstrs + kb + 4
  catchStart := r.nInstrs + kb + 5
  rethrow := r.nInstrs + kb + 6
  tryStart := r.nInstrs + kb + 7
  tryLeave := r.nInstrs + kb + ke + 7
  endCatch := r.nInstrs + kb + ke + 8
  endLeave := r.nInstrs + kb + ke + 9
  endFinally := r.nInstrs + kb + ke + 10
  exit := if isVoid then r.nInstrs + kb + 4 else r.nInstrs + kb + ke + 11

/-! The four new clauses. -/

def Places.beginMethodExClause (k : Places) (t : CallTargetTokens) : EHClause :=
  ⟨COR_ILEXCEPTION_CLAUSE_NONE, k.first, k.beginCatch, k.beginCatch, k.beginLeave,
    .arg t.exTypeRef⟩

def Places.endMethodExClause (k : Places) (t : CallTargetTokens) : EHClause :=
  ⟨COR_ILEXCEPTION_CLAUSE_NONE, k.tryStart, k.endCatch, k.endCatch, k.endLeave, .arg t.exTypeRef⟩

def Places.exClause (k : Places) (t : CallTargetTokens) : EHClause :=
  ⟨COR_ILEXCEPTION_CLAUSE_NONE, k.first, k.catchStart, k.catchStart, k.rethrow, .arg t.exTypeRef⟩

def Places.finallyClause (k : Places) : EHClause :=
  ⟨COR_ILEXCEPTION_CLAUSE_FINALLY, k.first, k.tryStart, k.tryStart, k.endFinally, .arg 0⟩

def stores (r : ILRewriter) (m : FunctionInfo) (store : ℕ → ℕ) (p : InstrPtr) : List InstrPtr :=
  if (r.instr p).opcode = CEE_RET ∧ m.isVoid = false then [store p] else []

structure Layout (r : ILRewriter) (m : FunctionInfo) (t : CallTargetTokens) (r' : ILRewriter)
    (li la : List ILInstr) (k : Places) (store : ℕ → ℕ) : Prop where
  loadInstance : m.loadInstance = some li
  places : k = .of r (m.beginCode t li la).length (m.endCode t li).length m.isVoid
  il : r'.il = List.range' k.first ((m.beginCode t li la).length + 3) ++
    Lib.expand (r.stores m store) r.il ++
    List.range' k.catchStart ((m.endCode t li).length + if m.isVoid then 6 else 7) ++
    [k.methodReturn]
  wf : r'.WellFormed
  eh : r'.eh = r.eh ++
    [k.beginMethodExClause t, k.endMethodExClause t, k.exClause t, k.finallyClause]
  instr : ∀ p : ℕ, p ≤ r.nInstrs → r'.instr p =
    if p ∈ r.il ∧ (r.instr p).opcode = CEE_RET then ⟨CEE_LEAVE_S, .target k.exit⟩ else r.instr p
  store : ∀ p ∈ r.il, (r.instr p).opcode = CEE_RET → m.isVoid = false →
    r.nInstrs < store p ∧ r'.instr (store p) = stLocal m.returnValueIndex
  beginCode : r'.CodeAt k.first (m.beginCode t li la ++ leaves t (r.next m_IL))
  afterBody : r'.CodeAt k.catchStart (afterBody m t li k.endFinally)
  methodReturn : r'.instr k.methodReturn = ret

/-- No instruction of `is` is a `RET`. -/
def NoRet (is : List ILInstr) : Prop := ∀ i ∈ is, i.opcode ≠ CEE_RET

theorem ne_ret_of_fallsThrough {i : ILInstr} (h : fallsThrough i.opcode = true) :
    i.opcode ≠ CEE_RET :=
  fun hret => absurd h (by rw [hret]; decide)

theorem Straight.noRet {is : List ILInstr} (h : Straight is) : NoRet is :=
  fun i hi => ne_ret_of_fallsThrough (h i hi)

theorem noRet_append {is js : List ILInstr} : NoRet (is ++ js) ↔ NoRet is ∧ NoRet js :=
  List.forall_mem_append

theorem CodeAt.congr {a : ℕ} {is : List ILInstr} (h : r.CodeAt a is)
    (hr : ∀ p : ℕ, a ≤ p → p < a + is.length → r'.instr p = r.instr p) : r'.CodeAt a is := by
  intro j i hi
  have hj := (List.getElem?_eq_some_iff.1 hi).1
  rw [hr _ (by omega) (by omega)]
  exact h j i hi

theorem CodeAt.ne_ret {a p : ℕ} {is : List ILInstr} (h : r.CodeAt a is) (hn : NoRet is)
    (h1 : a ≤ p) (h2 : p < a + is.length) : (r.instr p).opcode ≠ CEE_RET := by
  obtain ⟨j, rfl⟩ := Nat.exists_eq_add_of_le h1
  have hj : j < is.length := by omega
  rw [h j _ (List.getElem?_eq_getElem hj)]
  exact hn _ (List.getElem_mem hj)

theorem noRet_leaves {q : InstrPtr} : NoRet (leaves t q) := by
  simp [NoRet, leaves, callMember]
  decide

theorem noRet_afterBody {q : InstrPtr} (hli : Straight li) : NoRet (afterBody m t li q) := by
  have hst : NoRet [stLocal m.exceptionIndex, ILInstr.rethrow] := by
    intro i hi
    rcases List.mem_cons.1 hi with rfl | hi
    · exact ne_ret_of_fallsThrough (fallsThrough_stLocal _)
    · rw [List.mem_singleton.1 hi]; decide
  have hend : NoRet [ILInstr.endFinally] := by simp [NoRet]; decide
  have hld : NoRet (if m.isVoid then [] else [loadLocal m.returnValueIndex]) := by
    apply Straight.noRet
    split <;> simp
  simp only [afterBody, noRet_append]
  exact ⟨⟨hst, (straight_endCode hli).noRet⟩, noRet_leaves, hend, hld⟩

theorem length_afterBody {q : InstrPtr} : (afterBody m t li q).length =
    (m.endCode t li).length + if m.isVoid then 6 else 7 := by
  unfold afterBody
  split <;> simp [leaves]

theorem length_beginCode_leaves {q : InstrPtr} :
    (m.beginCode t li la ++ leaves t q).length = (m.beginCode t li la).length + 3 := by
  simp [leaves]

section Parts

variable {b : BeginMethod} {e : EndMethod} {p : ℕ} (hb : b.Emitted r m t li la)
  (he : e.Emitted b.rewriter m t li)
include hb he

theorem parts_instr (hp : p ≤ r.nInstrs) : e.rewriter.instr p = r.instr p := by
  rw [he.instr_le p (by rw [hb.nInstrs]; omega), hb.instr_le p hp]

theorem parts_beginCode :
    e.rewriter.CodeAt (r.nInstrs + 1) (m.beginCode t li la ++ leaves t (r.next m_IL)) :=
  hb.code.congr fun p _ hp => he.instr_le p (by
    rw [length_beginCode_leaves] at hp
    rw [hb.nInstrs]
    omega)

/-- The returns of the list are those of the body. -/
theorem parts_isReturn_iff (hr : r.WellFormed) (hli : Straight li) (hla : Straight la)
    (hp : p ∈ e.rewriter.il) :
    e.rewriter.IsReturn e.methodReturn p ↔ p ∈ r.il ∧ (r.instr p).opcode = CEE_RET := by
  have hnew : ∀ p : ℕ, r.nInstrs < p → p ∉ r.il := fun p hp hpr => by
    have := hr.le p hpr
    omega
  rw [he.il, hb.il, hb.nInstrs] at hp
  simp only [List.mem_append, List.mem_range'_1, List.mem_singleton] at hp
  rw [IsReturn, he.methodReturn, hb.nInstrs]
  rcases hp with ((hp | hp) | hp) | rfl
  · have := (parts_beginCode hb he).ne_ret
      (noRet_append.2 ⟨(straight_beginCode hli hla).noRet, noRet_leaves⟩) hp.1
      (by rw [length_beginCode_leaves]; exact hp.2)
    exact iff_of_false (fun h => this h.1) fun h => hnew p hp.1 h.1
  · have hle := hr.le p hp
    rw [parts_instr hb he hle]
    exact ⟨fun h => ⟨hp, h.1⟩, fun h => ⟨h.2, Nat.ne_of_lt (by omega)⟩⟩
  · have := he.code.ne_ret (p := p) (noRet_afterBody hli) (by rw [hb.nInstrs]; exact hp.1)
      (by rw [hb.nInstrs, length_afterBody]; exact hp.2)
    exact iff_of_false (fun h => this h.1) fun h => hnew p (by omega) h.1
  · exact iff_of_false (fun h => h.2 rfl) fun h => hnew _ (by omega) h.1

end Parts

theorem callTargetRewriterCallback_layout (hr : r.WellFormed) (hne : r.il ≠ [])
    (h : r.callTargetRewriterCallback m t = some r') :
    ∃ li la k store, Layout r m t r' li la k store := by
  simp only [callTargetRewriterCallback, Option.bind_eq_bind, Option.bind_eq_some_iff,
    Option.some.injEq, Option.pure_def] at h
  obtain ⟨b, hb, e, he, rfl⟩ := h
  obtain ⟨li, la, hli, hla, hb⟩ := beginMethod_emitted hr hne hb
  have hbwf := hb.wf hr
  obtain ⟨li', hli', he⟩ := endMethod_emitted hbwf (by simp [hb.il, hne]) he
  obtain rfl : li = li' := by simpa [hli] using hli'
  have hewf := he.wf hbwf
  have hret : ∀ p ∈ e.rewriter.il, _ := fun p hp =>
    parts_isReturn_iff hb he hr (straight_loadInstance hli) (straight_loadArguments hla) hp
  have hnew : ∀ p : ℕ, r.nInstrs < p → p ∉ r.il := fun p hp hpr => by
    have := hr.le p hpr
    omega
  have hexit : e.rewriter.next e.endFinally =
      (Places.of r (m.beginCode t li la).length (m.endCode t li).length m.isVoid).exit := by
    rw [he.next_endFinally hbwf, hb.nInstrs, Places.of_exit]
    split <;> (show (_ : ℕ) = _; omega)
  obtain ⟨store, hs⟩ := @foldl_replaceReturn e.rewriter m e.methodReturn
    (e.rewriter.next e.endFinally) [] e.rewriter.il hewf rfl
  have hil : (e.rewriter.replaceReturns m e.methodReturn (e.rewriter.next e.endFinally)).il =
      List.range' (r.nInstrs + 1) ((m.beginCode t li la).length + 3) ++
        Lib.expand (r.stores m store) r.il ++
        List.range' (r.nInstrs + (m.beginCode t li la).length + 5)
          ((m.endCode t li).length + if m.isVoid then 6 else 7) ++
        [r.nInstrs + (m.beginCode t li la).length + 4] := by
    have hbody : Lib.expand (fun p => if e.rewriter.IsReturn e.methodReturn p ∧ m.isVoid = false
        then [store p] else []) r.il = Lib.expand (r.stores m store) r.il := by
      refine Lib.expand_congr fun p hp => ?_
      simp only [hret p (by simp [he.il, hb.il, hp]), stores, hp, true_and]
    have hrest : ∀ l : List InstrPtr, (∀ p ∈ l, p ∈ e.rewriter.il) →
        (∀ p : ℕ, p ∈ l → r.nInstrs < p) →
        Lib.expand (fun p => if e.rewriter.IsReturn e.methodReturn p ∧ m.isVoid = false
          then [store p] else []) l = l := by
      refine fun l hl hlr => Lib.expand_eq_self fun p hp => if_neg fun h => ?_
      exact hnew p (hlr p hp) ((hret p (hl p hp)).1 h.1).1
    rw [replaceReturns, hs.il, List.nil_append, List.append_nil]
    conv_lhs => rw [he.il, hb.il]
    rw [Lib.expand_append, Lib.expand_append, Lib.expand_append, hbody,
      hrest (List.range' (r.nInstrs + 1) _), hrest (List.range' (b.rewriter.nInstrs + 2) _),
      hrest [_], hb.nInstrs]
    · intro p hp; simp [he.il, List.mem_singleton.1 hp]
    · intro p hp; rw [List.mem_singleton.1 hp, hb.nInstrs]; omega
    · intro p hp; simp [he.il, List.mem_range'_1.1 hp]
    · intro p hp; rw [hb.nInstrs, List.mem_range'_1] at hp; omega
    · intro p hp; simp [he.il, hb.il, List.mem_range'_1.1 hp]
    · intro p hp; exact (List.mem_range'_1.1 hp).1
  have hinstr : ∀ p : ℕ, p ≤ e.rewriter.nInstrs → (e.rewriter.replaceReturns m e.methodReturn
      (e.rewriter.next e.endFinally)).instr p = if p ∈ r.il ∧ (r.instr p).opcode = CEE_RET then
        ⟨CEE_LEAVE_S, .target (e.rewriter.next e.endFinally)⟩ else e.rewriter.instr p := by
    intro p hp
    by_cases hpe : p ∈ e.rewriter.il
    · rw [replaceReturns, hs.instr p hp]
      simp only [hpe, hret p hpe, true_and]
    · have hpr : p ∉ r.il := fun h => hpe (by simp [he.il, hb.il, h])
      rw [replaceReturns, hs.instr p hp, if_neg (fun h => hpe h.1), if_neg (fun h => hpr h.1)]
  refine ⟨li, la, .of r (m.beginCode t li la).length (m.endCode t li).length m.isVoid, store, ?_⟩
  constructor
  · exact hli
  · rfl
  · exact hil
  · exact ⟨hs.wf.nodup, hs.wf.pos, hs.wf.le⟩
  · have hnext : (e.rewriter.replaceReturns m e.methodReturn
        (e.rewriter.next e.endFinally)).next e.rethrow =
        r.nInstrs + (m.beginCode t li la).length + 7 := by
      rw [he.rethrow, hb.nInstrs]
      rw [List.append_assoc] at hil
      refine next_of_range' (j := 1) ⟨hs.wf.nodup, hs.wf.pos, hs.wf.le⟩ hil ?_
      split <;> omega
    show (e.rewriter.replaceReturns _ _ _).eh ++ _ = _
    rw [hnext, replaceReturns, hs.eh, he.eh, hb.eh, hb.clause, hb.firstInstruction, he.clause,
      he.startExceptionCatch, he.rethrow, he.endFinally, hb.nInstrs]
    simp [Places.of, Places.beginMethodExClause, Places.endMethodExClause, Places.exClause,
      Places.finallyClause, Nat.add_right_comm]
  · intro p hp
    show (e.rewriter.replaceReturns _ _ _).instr p = _
    rw [hinstr p (by rw [he.nInstrs, hb.nInstrs]; omega), parts_instr hb he hp, hexit]
  · intro p hp hpr hv
    have hpe : p ∈ e.rewriter.il := by simp [he.il, hb.il, hp]
    obtain ⟨hlt, _, hst⟩ := hs.store p hpe ((hret p hpe).2 ⟨hp, hpr⟩) hv
    exact ⟨by rw [he.nInstrs, hb.nInstrs] at hlt; omega, hst⟩
  · refine (parts_beginCode hb he).congr fun p h1 h2 => ?_
    rw [length_beginCode_leaves] at h2
    show (e.rewriter.replaceReturns _ _ _).instr p = _
    rw [hinstr p (by rw [he.nInstrs, hb.nInstrs]; omega), if_neg fun h => hnew p h1 h.1]
  · have hcode := he.code
    rw [hb.nInstrs] at hcode
    have hef : e.endFinally = (Places.of r (m.beginCode t li la).length (m.endCode t li).length
        m.isVoid).endFinally := by
      rw [he.endFinally, hb.nInstrs, Places.of_endFinally]
      show (_ : ℕ) = _
      omega
    rw [← hef]
    refine hcode.congr fun p h1 h2 => ?_
    rw [length_afterBody] at h2
    show (e.rewriter.replaceReturns _ _ _).instr p = _
    rw [hinstr p (by rw [he.nInstrs, hb.nInstrs]; omega), if_neg fun h => hnew p (by omega) h.1]
  · have hmr := he.instr_methodReturn
    rw [hb.nInstrs] at hmr
    refine (hinstr _ ?_).trans ?_
    · rw [he.nInstrs, hb.nInstrs, Places.of_methodReturn]
      omega
    · rw [if_neg fun h => hnew _ (by rw [Places.of_methodReturn]; omega) h.1]
      exact hmr

end ILRewriter

end DdTrace.Native
