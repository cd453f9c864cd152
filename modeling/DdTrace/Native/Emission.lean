import DdTrace.Native.CallTarget
import Mathlib.Data.List.Nodup

/-!
# The emitted code

What the parts of `CallTarget_RewriterCallback` add to the list: the code before the body,
the code after it, and the stores in front of the returns. What one part emits has
consecutive addresses.
-/

namespace DdTrace.Native

namespace ILRewriter

open ILInstr

variable {r r' : ILRewriter} {m : FunctionInfo} {t : CallTargetTokens} {li la : List ILInstr}

/-- A leave to `q`, the call of `LogException` that catches, and its leave to `q`. -/
def leaves (t : CallTargetTokens) (q : InstrPtr) : List ILInstr :=
  [⟨CEE_LEAVE_S, .target q⟩, callMember t.logException, ⟨CEE_LEAVE_S, .target q⟩]

/-- All that stands after the body but the return. -/
def afterBody (m : FunctionInfo) (t : CallTargetTokens) (li : List ILInstr) (q : InstrPtr) :
    List ILInstr :=
  [stLocal m.exceptionIndex, ILInstr.rethrow] ++ m.endCode t li ++ (leaves t q ++
    ([ILInstr.endFinally] ++ if m.isVoid then [] else [loadLocal m.returnValueIndex]))

/-! ## The code before the body -/

/-- `b` is `r` with `beginCode`, the leave and the catch from address `r.newPtr` on. -/
structure BeginMethod.Emitted (b : BeginMethod) (r : ILRewriter) (m : FunctionInfo)
    (t : CallTargetTokens) (li la : List ILInstr) : Prop where
  il : b.rewriter.il =
    List.range' (r.nInstrs + 1) ((m.beginCode t li la).length + 3) ++ r.il
  nInstrs : b.rewriter.nInstrs = r.nInstrs + (m.beginCode t li la).length + 3
  eh : b.rewriter.eh = r.eh
  instr_le : ∀ p : ℕ, p ≤ r.nInstrs → b.rewriter.instr p = r.instr p
  code : b.rewriter.CodeAt (r.nInstrs + 1) (m.beginCode t li la ++ leaves t (r.next m_IL))
  firstInstruction : b.firstInstruction = r.nInstrs + 1
  clause : b.clause = ⟨COR_ILEXCEPTION_CLAUSE_NONE, r.nInstrs + 1,
    r.nInstrs + (m.beginCode t li la).length + 2, r.nInstrs + (m.beginCode t li la).length + 2,
    r.nInstrs + (m.beginCode t li la).length + 3, .arg t.exTypeRef⟩

theorem CodeAt.setTarget_at {a k : ℕ} {is js : List ILInstr} {i : ILInstr} {p : ℕ}
    (h : r.CodeAt a (is ++ i :: js)) (hk : k = a + is.length) :
    (r.setTarget k p).CodeAt a (is ++ ⟨i.opcode, .target p⟩ :: js) := by
  subst hk
  intro j i' hj
  rcases Nat.lt_trichotomy j is.length with hlt | heq | hgt
  · rw [setTarget_instr_of_ne (by omega)]
    rw [List.getElem?_append_left hlt] at hj
    exact h.append_left j i' hj
  · subst heq
    rw [setTarget_instr_self, h.append_right.head]
    simpa using hj
  · rw [setTarget_instr_of_ne (by omega)]
    obtain ⟨d, rfl⟩ := Nat.exists_eq_add_of_lt hgt
    refine h _ i' ?_
    rw [Nat.add_assoc, List.getElem?_append_right (by omega), Nat.add_sub_cancel_left] at hj ⊢
    exact hj

/-- A leave, the call of `LogException` and its leave, with their targets set. -/
theorem codeAt_leaves {pos q a k k' : ℕ} {is js : List ILInstr}
    (ha : a = r.nInstrs + 1) (hk : k = a + is.length) (hk' : k' = k + 2) :
    (((r.emitAll pos (is ++ ([leaveS, callMember t.logException, leaveS] ++ js))).setTarget
      k q).setTarget k' q).CodeAt a (is ++ (leaves t q ++ js)) := by
  have h : (r.emitAll pos (is ++ ([leaveS, callMember t.logException, leaveS] ++ js))).CodeAt a
      (is ++ leaveS :: ([callMember t.logException, leaveS] ++ js)) := ha ▸ emitAll_codeAt
  have h1 : ((r.emitAll pos (is ++ ([leaveS, callMember t.logException, leaveS] ++ js))).setTarget
      k q).CodeAt a ((is ++ [⟨CEE_LEAVE_S, .target q⟩, callMember t.logException]) ++
        leaveS :: js) := by
    simpa [leaveS] using h.setTarget_at (p := q) hk
  simpa [leaveS, leaves] using h1.setTarget_at (p := q) (by simp; omega)

theorem setTarget_emitAll {p q pos : ℕ} {is : List ILInstr} (hp : p ≤ r.nInstrs) :
    (r.setTarget p q).emitAll pos is = (r.emitAll pos is).setTarget p q := by
  induction is generalizing r with
  | nil => rfl
  | cons i is ih =>
    have hne : r.nInstrs + 1 ≠ p := by omega
    have hemit : (r.setTarget p q).emit pos i = (r.emit pos i).setTarget p q := by
      simp [emit, newILInstr, insertBefore, adjustState, setTarget, newPtr,
        Function.update_of_ne hne, Function.update_of_ne hne.symm, Function.update_comm hne.symm]
    rw [emitAll, hemit, ih (by simp; omega), emitAll]

theorem beginMethod_emitted {b : BeginMethod} (hr : r.WellFormed) (hne : r.il ≠ [])
    (h : r.beginMethod m t = some b) :
    ∃ li la, m.loadInstance = some li ∧ m.loadArguments t = some la ∧
      b.Emitted r m t li la := by
  simp only [beginMethod, Option.bind_eq_bind, Option.bind_eq_some_iff, Option.some.injEq,
    Option.pure_def] at h
  obtain ⟨li, hli, la, hla, rfl⟩ := h
  refine ⟨li, la, hli, hla, ?_⟩
  -- everything is emitted in front of the first instruction
  obtain ⟨pos, post, hil⟩ := List.exists_cons_of_ne_nil hne
  have hpos : r.next m_IL = pos := by simp [next, hil]
  have hle : pos ≤ r.nInstrs := hr.le pos (by simp [hil])
  simp only [emit_eq, ← emitAll_append, newPtr, emitAll_nInstrs, setTkLocalVarSig_nInstrs, hpos,
    List.length_append, List.length_singleton]
  constructor
  · have hil' : (r.setTkLocalVarSig t.localVarSig).il = [] ++ pos :: post := hil
    have hle' : pos ≤ (r.setTkLocalVarSig t.localVarSig).nInstrs := hle
    rw [setTarget_il, setTarget_il, emitAll_il (by simp) hle' hil', hil]
    simp
  · simp [Nat.add_assoc]
  · simp
  · intro p hp
    dsimp only
    rw [setTarget_instr_of_ne (by omega), setTarget_instr_of_ne (by omega),
      emitAll_instr_le (by simpa using hp), setTkLocalVarSig_instr]
  · rw [hpos]
    have hk : r.nInstrs + (m.beginCode t li la).length + 1 =
      r.nInstrs + 1 + (m.beginCode t li la).length := by omega
    have hk' : r.nInstrs + ((m.beginCode t li la).length + 1 + 1) + 1 =
      r.nInstrs + (m.beginCode t li la).length + 1 + 2 := by omega
    have hcode := @codeAt_leaves (r.setTkLocalVarSig t.localVarSig) t pos pos _ _ _
      (m.beginCode t li la) [] rfl hk hk'
    simpa using hcode
  · rfl
  · simp [Nat.add_assoc]

/-! ## The code after the body -/

/-- `e` is `r` with the return at `r.newPtr` as the last instruction, and before it the
catch, the finally and the load of the return value from the next address on. -/
structure EndMethod.Emitted (e : EndMethod) (r : ILRewriter) (m : FunctionInfo)
    (t : CallTargetTokens) (li : List ILInstr) : Prop where
  il : e.rewriter.il = r.il ++ List.range' (r.nInstrs + 2)
    ((m.endCode t li).length + if m.isVoid then 6 else 7) ++ [r.nInstrs + 1]
  nInstrs : e.rewriter.nInstrs =
    r.nInstrs + 1 + ((m.endCode t li).length + if m.isVoid then 6 else 7)
  eh : e.rewriter.eh = r.eh
  instr_le : ∀ p : ℕ, p ≤ r.nInstrs → e.rewriter.instr p = r.instr p
  instr_methodReturn : e.rewriter.instr (r.nInstrs + 1) = ret
  code : e.rewriter.CodeAt (r.nInstrs + 2) (afterBody m t li e.endFinally)
  methodReturn : e.methodReturn = r.nInstrs + 1
  startExceptionCatch : e.startExceptionCatch = r.nInstrs + 2
  rethrow : e.rethrow = r.nInstrs + 3
  endFinally : e.endFinally = r.nInstrs + (m.endCode t li).length + 7
  clause : e.clause = ⟨COR_ILEXCEPTION_CLAUSE_NONE, r.nInstrs + 4,
    r.nInstrs + (m.endCode t li).length + 5, r.nInstrs + (m.endCode t li).length + 5,
    r.nInstrs + (m.endCode t li).length + 6, .arg t.exTypeRef⟩

theorem insertAfter_last (hr : r.WellFormed) (hne : r.il ≠ []) {p : InstrPtr} :
    (r.insertAfter (r.prev m_IL) p).il = r.il ++ [p] := by
  obtain ⟨pre, last, hil⟩ := (List.eq_nil_or_concat r.il).resolve_left hne
  rw [List.concat_eq_append] at hil
  have hm : m_IL ∉ r.il := fun h => absurd (hr.pos _ h) (by decide)
  have hprev : r.prev m_IL = last := by
    rw [prev, List.idxOf_of_notMem hm, hil]
    simp
  have hpre : last ∉ pre := by
    have := hr.nodup
    rw [hil, List.nodup_append] at this
    exact fun h => this.2.2 _ h _ (by simp) rfl
  simp [insertAfter, adjustState, hprev, hil, Lib.insertAfter_append hpre List.not_mem_nil]

theorem endMethod_emitted {e : EndMethod} (hr : r.WellFormed) (hne : r.il ≠ [])
    (h : r.endMethod m t = some e) :
    ∃ li, m.loadInstance = some li ∧ e.Emitted r m t li := by
  simp only [endMethod, Option.bind_eq_bind, Option.bind_eq_some_iff, Option.some.injEq,
    Option.pure_def] at h
  obtain ⟨li, hli, rfl⟩ := h
  refine ⟨li, hli, ?_⟩
  -- the list with the return at its end
  have hil : ((r.newILInstr ret).insertAfter (r.prev m_IL) r.newPtr).il = r.il ++ [r.newPtr] :=
    insertAfter_last hr hne
  have hn : ((r.newILInstr ret).insertAfter (r.prev m_IL) r.newPtr).nInstrs = r.nInstrs + 1 := rfl
  have heh : ((r.newILInstr ret).insertAfter (r.prev m_IL) r.newPtr).eh = r.eh := rfl
  have hinstr : ((r.newILInstr ret).insertAfter (r.prev m_IL) r.newPtr).instr =
    Function.update r.instr r.newPtr ret := rfl
  generalize (r.newILInstr ret).insertAfter (r.prev m_IL) r.newPtr = s at hil hn heh hinstr ⊢
  have hload : ∀ s : ILRewriter, ∀ p i, (if m.isVoid then s else s.emitAll p [i]) =
      s.emitAll p (if m.isVoid then [] else [i]) := by
    intro s p i
    split <;> rfl
  simp only [emit_eq, ← emitAll_append, newPtr, emitAll_nInstrs, hn, hload, List.length_append,
    List.length_singleton]
  rw [setTarget_emitAll (by simp [hn]; omega), setTarget_emitAll (by simp [hn]; omega),
    ← emitAll_append]
  have hlt : ∀ p : ℕ, p ∈ r.il → p ≠ r.nInstrs + 1 := fun p hp => by have := hr.le p hp; omega
  constructor
  · rw [setTarget_il, setTarget_il, emitAll_il (fun h => hlt _ h rfl) hn.ge hil, hn]
    split <;> simp [Nat.add_assoc]
  · split <;> simp [*]
  · simp [heh]
  · intro p hp
    dsimp only
    rw [setTarget_instr_of_ne (by omega), setTarget_instr_of_ne (by omega),
      emitAll_instr_le (by omega), hinstr]
    exact Function.update_of_ne (show p ≠ r.nInstrs + 1 by omega) ..
  · dsimp only
    rw [setTarget_instr_of_ne (by omega), setTarget_instr_of_ne (by omega),
      emitAll_instr_le (by omega), hinstr]
    exact Function.update_self ..
  · have hk : r.nInstrs + 1 + (1 + 1 + (m.endCode t li).length) + 1 = r.nInstrs + 2 +
      ([stLocal m.exceptionIndex, ILInstr.rethrow] ++ m.endCode t li).length := by simp; omega
    have hcode := @codeAt_leaves s t (r.nInstrs + 1)
      (r.nInstrs + 1 + (1 + 1 + (m.endCode t li).length + 1 + 1 + 1) + 1) _ _ _
      ([stLocal m.exceptionIndex, ILInstr.rethrow] ++ m.endCode t li)
      ([ILInstr.endFinally] ++ if m.isVoid then [] else [loadLocal m.returnValueIndex])
      (by rw [hn]) hk rfl
    simpa [afterBody, Nat.add_assoc] using hcode
  · rfl
  · rfl
  · rfl
  · simp; omega
  · simp; omega

/-! ## The returns -/

/-- A `RET` that the loop replaces. -/
def IsReturn (r : ILRewriter) (methodReturn p : InstrPtr) : Prop :=
  (r.instr p).opcode = CEE_RET ∧ p ≠ methodReturn

instance (methodReturn p : InstrPtr) : Decidable (r.IsReturn methodReturn p) :=
  inferInstanceAs (Decidable (_ ∧ _))

/-- `r'` is `r` with the returns among `todo` replaced, a stretch of the list. -/
structure Replaced (r r' : ILRewriter) (m : FunctionInfo) (methodReturn target : InstrPtr)
    (done todo rest : List InstrPtr) (store : ℕ → ℕ) : Prop where
  il : r'.il = done ++ Lib.expand
    (fun p => if r.IsReturn methodReturn p ∧ m.isVoid = false then [store p] else []) todo ++ rest
  wf : r'.WellFormed
  eh : r'.eh = r.eh
  nInstrs : r.nInstrs ≤ r'.nInstrs
  instr : ∀ p : ℕ, p ≤ r.nInstrs → r'.instr p =
    if p ∈ todo ∧ r.IsReturn methodReturn p then ⟨CEE_LEAVE_S, .target target⟩ else r.instr p
  store : ∀ p ∈ todo, r.IsReturn methodReturn p → m.isVoid = false →
    r.nInstrs < store p ∧ store p ≤ r'.nInstrs ∧
      r'.instr (store p) = stLocal m.returnValueIndex

theorem WellFormed.emit (hr : r.WellFormed) {pos : ℕ} {i : ILInstr} :
    (r.emit pos i).WellFormed where
  nodup := Lib.nodup_insertBefore hr.nodup fun h => Nat.not_succ_le_self _ (hr.le _ h)
  pos p hp := by
    rcases Lib.mem_insertBefore.1 hp with rfl | hp
    · exact Nat.succ_pos _
    · exact hr.pos p hp
  le p hp := by
    rcases Lib.mem_insertBefore.1 hp with rfl | hp
    · rfl
    · exact (hr.le p hp).trans (Nat.le_succ _)

theorem notMem_of_append {done todo : List InstrPtr} {p : ℕ} (hr : r.WellFormed)
    (hil : r.il = done ++ p :: todo) : p ∉ done ∧ p ∉ todo := by
  have h := hr.nodup
  rw [hil, List.nodup_middle, List.nodup_cons, List.mem_append] at h
  exact not_or.1 h.1

/-- One turn of the loop. -/
theorem replaceReturn_step {methodReturn target : InstrPtr} {done todo : List InstrPtr} {p : ℕ}
    (hr : r.WellFormed) (hil : r.il = done ++ p :: todo) :
    Replaced r (replaceReturn m methodReturn target r p) m methodReturn target done [p] todo
      (fun _ => r.nInstrs + 1) := by
  have hp : p ≤ r.nInstrs := hr.le p (by simp [hil])
  by_cases hret : r.IsReturn methodReturn p
  · have hstep : replaceReturn m methodReturn target r p =
        let r := if m.isVoid then r else r.emit p (stLocal m.returnValueIndex)
        { r with instr := Function.update r.instr p ⟨CEE_LEAVE_S, .target target⟩ } := if_pos hret
    rw [hstep]
    have hmem : ∀ q : ℕ, (q ∈ [p] ∧ r.IsReturn methodReturn q) = (q = p) := fun q => by
      rw [List.mem_singleton, and_iff_left_of_imp fun h => h ▸ hret]
    cases hv : m.isVoid with
    | true =>
      refine ⟨by simp [Lib.expand, hil, hv], ⟨hr.nodup, hr.pos, hr.le⟩, rfl, le_rfl, ?_, by simp [hv]⟩
      intro q _
      simp only [hmem]
      exact Function.update_apply ..
    | false =>
      have hw : (r.emit p (stLocal m.returnValueIndex)).WellFormed := hr.emit
      refine ⟨?_, ⟨hw.nodup, hw.pos, hw.le⟩, rfl, Nat.le_succ _, ?_, ?_⟩
      · rw [if_neg (by simp)]
        simp [Lib.expand, hil, hv, hret, Lib.insertBefore_append (notMem_of_append hr hil).1]
      · intro q hq
        simp only [hmem, if_neg Bool.false_ne_true, emit_instr, Function.update_apply]
        rw [if_neg (show q ≠ r.nInstrs + 1 by omega)]
      · intro q _ _ _
        refine ⟨Nat.lt_succ_self _, le_rfl, ?_⟩
        simp only [if_neg Bool.false_ne_true, emit_instr, Function.update_apply]
        rw [if_neg (show r.nInstrs + 1 ≠ p by omega), if_pos trivial]
  · have hstep : replaceReturn m methodReturn target r p = r := if_neg hret
    rw [hstep]
    exact ⟨by simp [Lib.expand, hret, hil], hr, rfl, le_rfl, by simp +contextual [hret],
      by simp [hret]⟩

theorem foldl_replaceReturn {methodReturn target : InstrPtr} {done todo : List InstrPtr}
    (hr : r.WellFormed) (hil : r.il = done ++ todo) :
    ∃ store, Replaced r (todo.foldl (replaceReturn m methodReturn target) r) m methodReturn target
      done todo [] store := by
  induction todo generalizing r done with
  | nil =>
    exact ⟨fun p => p, by simpa [Lib.expand] using hil, hr, rfl, le_rfl, by simp, by simp⟩
  | cons p todo ih =>
    have hs := @replaceReturn_step r m methodReturn target done todo p hr hil
    obtain ⟨store, h⟩ := ih hs.wf hs.il
    have hp := (notMem_of_append hr hil).2
    -- what is left of the list is as it was
    have hsame : ∀ q : ℕ, q ∈ todo → (replaceReturn m methodReturn target r p).instr q = r.instr q := by
      intro q hq
      rw [hs.instr q (hr.le q (by simp [hil, hq])), if_neg]
      exact fun h => hp (List.mem_singleton.1 h.1 ▸ hq)
    have hisReturn : ∀ q : ℕ, q ∈ todo →
        ((replaceReturn m methodReturn target r p).IsReturn methodReturn q ↔
          r.IsReturn methodReturn q) := by
      intro q hq
      rw [IsReturn, IsReturn, hsame q hq]
    refine ⟨Function.update store p (r.nInstrs + 1), ?_, h.wf, h.eh.trans hs.eh,
      hs.nInstrs.trans h.nInstrs, ?_, ?_⟩
    · have hstore : Lib.expand (fun q => if (replaceReturn m methodReturn target r p).IsReturn
          methodReturn q ∧ m.isVoid = false then [store q] else []) todo = Lib.expand
          (fun q => if r.IsReturn methodReturn q ∧ m.isVoid = false then
            [Function.update store p (r.nInstrs + 1) q] else []) todo := by
        refine Lib.expand_congr fun q hq => ?_
        have hqp : q ≠ p := fun h => hp (h ▸ hq)
        simp only [hisReturn q hq, Function.update_of_ne hqp]
      rw [List.foldl_cons, h.il, hstore]
      simp
    · intro q hq
      rw [List.foldl_cons, h.instr q (hq.trans hs.nInstrs)]
      by_cases hqt : q ∈ todo
      · have hqp : q ≠ p := fun h => hp (h ▸ hqt)
        simp [hqt, hisReturn q hqt, hsame q hqt]
      · rw [if_neg (fun h => hqt h.1), hs.instr q hq]
        simp [hqt]
    · intro q hq hret hv
      rcases List.mem_cons.1 hq with rfl | hq
      · obtain ⟨h1, h2, h3⟩ := hs.store q (by simp) hret hv
        rw [Function.update_self, List.foldl_cons]
        refine ⟨h1, h2.trans h.nInstrs, ?_⟩
        rw [h.instr _ h2, if_neg, h3]
        exact fun h => absurd (hr.le _ (by simp [hil, h.1])) (Nat.not_succ_le_self _)
      · have hqp : q ≠ p := fun h => hp (h ▸ hq)
        obtain ⟨h1, h2, h3⟩ := h.store q hq ((hisReturn q hq).2 hret) hv
        rw [Function.update_of_ne hqp, List.foldl_cons]
        exact ⟨hs.nInstrs.trans_lt h1, h2, h3⟩

/-! ## Neighbours -/

theorem next_of_append {pre post : List InstrPtr} {p q : ℕ} (hr : r.WellFormed)
    (hil : r.il = pre ++ p :: q :: post) : r.next p = q := by
  have hp : p ≠ m_IL := Nat.ne_of_gt (hr.pos p (by simp [hil]))
  have hpre := (notMem_of_append hr hil).1
  rw [next, if_neg hp, hil, List.idxOf_append_of_notMem hpre]
  simp

/-- Instructions emitted one after the other follow each other. -/
theorem next_of_range' {pre post : List InstrPtr} {a k j : ℕ} (hr : r.WellFormed)
    (hil : r.il = pre ++ (List.range' a k ++ post)) (hj : j + 1 < k) :
    r.next (a + j) = a + j + 1 := by
  obtain ⟨d, rfl⟩ : ∃ d, k = j + (d + 2) := ⟨k - j - 2, by omega⟩
  rw [← List.range'_append_1, List.range'_succ, List.range'_succ] at hil
  have hil' : r.il = (pre ++ List.range' a j) ++ (a + j) :: (a + j + 1) ::
      (List.range' (a + j + 1 + 1) d ++ post) := by simpa using hil
  exact next_of_append hr hil'

/-- The last of them is followed by what comes next. -/
theorem next_of_range'_last {pre post : List InstrPtr} {a k q : ℕ} (hr : r.WellFormed)
    (hil : r.il = pre ++ (List.range' a (k + 1) ++ q :: post)) : r.next (a + k) = q := by
  rw [List.range'_1_concat] at hil
  have hil' : r.il = (pre ++ List.range' a k) ++ (a + k) :: q :: post := by simpa using hil
  exact next_of_append hr hil'

theorem BeginMethod.Emitted.wf {b : BeginMethod} (hr : r.WellFormed) (h : b.Emitted r m t li la) :
    b.rewriter.WellFormed where
  nodup := by
    rw [h.il, List.nodup_append]
    refine ⟨List.nodup_range', hr.nodup, fun p hp q hq => ?_⟩
    have := hr.le q hq
    rw [List.mem_range'_1] at hp
    exact Nat.ne_of_gt (Nat.lt_of_le_of_lt this hp.1)
  pos p hp := by
    rw [h.il, List.mem_append, List.mem_range'_1] at hp
    rcases hp with hp | hp
    · omega
    · exact hr.pos p hp
  le p hp := by
    rw [h.il, List.mem_append, List.mem_range'_1] at hp
    rw [h.nInstrs]
    rcases hp with hp | hp
    · omega
    · have := hr.le p hp
      omega

theorem EndMethod.Emitted.wf {e : EndMethod} (hr : r.WellFormed) (h : e.Emitted r m t li) :
    e.rewriter.WellFormed where
  nodup := by
    rw [h.il, List.append_assoc, List.nodup_append]
    refine ⟨hr.nodup, ?_, fun p hp q hq => ?_⟩
    · rw [List.nodup_append]
      refine ⟨List.nodup_range', List.nodup_singleton _, fun p hp q hq => ?_⟩
      rw [List.mem_range'_1] at hp
      rw [List.mem_singleton.1 hq]
      exact Nat.ne_of_gt hp.1
    · have := hr.le p hp
      rw [List.mem_append, List.mem_range'_1, List.mem_singleton] at hq
      rcases hq with hq | rfl
      · exact Nat.ne_of_lt (by omega)
      · exact Nat.ne_of_lt (Nat.lt_succ_of_le this)
  pos p hp := by
    rw [h.il, List.mem_append, List.mem_append, List.mem_range'_1, List.mem_singleton] at hp
    rcases hp with (hp | hp) | hp
    · exact hr.pos p hp
    · omega
    · omega
  le p hp := by
    rw [h.il, List.mem_append, List.mem_append, List.mem_range'_1, List.mem_singleton] at hp
    rw [h.nInstrs]
    rcases hp with (hp | hp) | hp
    · have := hr.le p hp
      omega
    · omega
    · omega

/-- The returns leave to the load of the return value, or else to the return. -/
theorem EndMethod.Emitted.next_endFinally {e : EndMethod} (hr : r.WellFormed)
    (h : e.Emitted r m t li) : e.rewriter.next e.endFinally =
      if m.isVoid then r.nInstrs + 1 else r.nInstrs + (m.endCode t li).length + 8 := by
  have hil := h.il
  have hlast : r.nInstrs + 2 + ((m.endCode t li).length + 5) =
    r.nInstrs + (m.endCode t li).length + 7 := by omega
  rw [h.endFinally, ← hlast]
  split at hil <;> rename_i hv
  · rw [if_pos hv]
    rw [List.append_assoc] at hil
    exact next_of_range'_last (h.wf hr) hil
  · rw [List.append_assoc] at hil
    rw [if_neg hv, next_of_range' (h.wf hr) hil (by omega)]
    show (_ : ℕ) = _
    omega

end ILRewriter

end DdTrace.Native
