import DdTrace.Native.Layout
import DdTrace.Native.ReplacementCalls

/-!
# Prefixes

A prefix is an instruction of its own, and belongs to the instruction behind it; the call behind
`tail.` belongs to the `RET` behind that. Both rewriters leave a prefix where it is, so it stays
attached unless what it belongs to is edited.
-/

namespace DdTrace.Native

/-- `tail.`, `constrained.`, `volatile.`, `unaligned.` and `readonly.` -/
def isPrefixOp (op : OPCODE) : Bool :=
  op == CEE_TAILCALL || op == CEE_CONSTRAINED || op == CEE_VOLATILE || op == CEE_UNALIGNED ||
    op == CEE_READONLY

namespace ILRewriter

open ILInstr

/-! ## The purpose -/

/-- `p` is a prefix, of `q` or of another prefix that is one of `q`. -/
inductive Prefixes (r : ILRewriter) : InstrPtr → InstrPtr → Prop where
  | next {p q : InstrPtr} (h : [p, q] <:+: r.il) (hp : isPrefixOp (r.instr p).opcode = true) :
    Prefixes r p q
  | skip {p p' q : InstrPtr} (h : [p, p'] <:+: r.il) (hp : isPrefixOp (r.instr p).opcode = true)
    (hq : Prefixes r p' q) : Prefixes r p q

/-- The prefix at `p` is no longer in the list, or no longer what it was. -/
def Gone (r r' : ILRewriter) (p : InstrPtr) : Prop := p ∉ r'.il ∨ r'.instr p ≠ r.instr p

structure PrefixesKept (r r' : ILRewriter) : Prop where
  attached : ∀ p q, [p, q] <:+: r.il → isPrefixOp (r.instr p).opcode = true → Gone r r' p ∨
    [p, q] <:+: r'.il ∧ r'.instr q = r.instr q
  tail : ∀ p q, Prefixes r p q → (r.instr p).opcode = CEE_TAILCALL →
    isPrefixOp (r.instr q).opcode = false → Gone r r' p ∨
    ∃ s, [q, s] <:+: r'.il ∧ (r'.instr s).opcode = CEE_RET

/-- What is used of the rules for method bodies: control does not run out of the body behind a
call, a prefix has something other than a return behind it, and a tail call is a call with a
return behind it. -/
structure ValidPrefixes (r : ILRewriter) : Prop where
  nonempty : r.il ≠ []
  last : ∀ p, r.il.getLast? = some p → isCall (r.instr p).opcode = false
  follows : ∀ p ∈ r.il, isPrefixOp (r.instr p).opcode = true →
    ∃ q, [p, q] <:+: r.il ∧ (r.instr q).opcode ≠ CEE_RET
  tail : ∀ p q, Prefixes r p q → (r.instr p).opcode = CEE_TAILCALL →
    isPrefixOp (r.instr q).opcode = false →
    ∃ s, [q, s] <:+: r.il ∧ (r.instr s).opcode = CEE_RET

/-- Some call is replaced that stands directly behind a prefix. -/
def ReplacesPrefixed (caller : CallerModule) (methodReplacements : List MethodReplacement)
    (r : ILRewriter) : Prop :=
  ∃ p q, [p, q] <:+: r.il ∧ isPrefixOp (r.instr p).opcode = true ∧
    ∃ mr ∈ methodReplacements, caller.isActive mr = true ∧
      caller.replacementFor mr (r.instr p) (r.instr q) ≠ none

/-! ## Calls -/

variable {r r' s : ILRewriter} {caller : CallerModule} {mr : MethodReplacement} {c : Replacement}
  {p q mvid fuel : ℕ} {done todo : List InstrPtr}

theorem not_isCall_of_isPrefixOp {op : OPCODE} (h : isPrefixOp op = true) : isCall op = false := by
  simp only [isPrefixOp, Bool.or_eq_true, beq_iff_eq] at h
  rcases h with (((rfl | rfl) | rfl) | rfl) | rfl <;> rfl

theorem ne_ret_of_isPrefixOp {op : OPCODE} (h : isPrefixOp op = true) : op ≠ CEE_RET := by
  rintro rfl
  cases h

theorem replacementFor_of_not_isCall {before i : ILInstr} (h : isCall i.opcode = false) :
    caller.replacementFor mr before i = none := by
  rw [CallerModule.replacementFor, if_neg]
  rw [h]
  exact fun h => Bool.noConfusion h.1

theorem isCall_of_replacementFor {before i : ILInstr}
    (h : caller.replacementFor mr before i ≠ none) : isCall i.opcode = true := by
  by_contra hcall
  exact h (replacementFor_of_not_isCall (Bool.eq_false_iff.2 hcall))

/-! ## Pointers -/

theorem next_last (hr : r.WellFormed) (hil : r.il = done ++ [p]) : r.next p = m_IL := by
  have hp : p ≠ m_IL := Nat.ne_of_gt (hr.pos p (by simp [hil]))
  have hdone := (@notMem_of_append r done [] p hr hil).1
  rw [next, if_neg hp, hil, List.idxOf_append_of_notMem hdone]
  simp

theorem prev_of_append {post : List InstrPtr} (hr : r.WellFormed)
    (hil : r.il = done ++ p :: q :: post) : r.prev q = p := by
  have hil' : r.il = (done ++ [p]) ++ q :: post := by rw [hil, List.append_assoc]; rfl
  have hq := (notMem_of_append hr hil').1
  rw [prev, hil', List.idxOf_append_of_notMem hq, List.idxOf_cons_self]
  simp

theorem next_of_neighbours (hr : r.WellFormed) (h : [p, q] <:+: r.il) : r.next p = q := by
  obtain ⟨pre, post, hpre⟩ := h
  exact @next_of_append r pre post p q hr (by rw [← hpre]; simp)

theorem prev_of_neighbours (hr : r.WellFormed) (h : [p, q] <:+: r.il) : r.prev q = p := by
  obtain ⟨pre, post, hpre⟩ := h
  exact @prev_of_append r p q pre post hr (by rw [← hpre]; simp)

/-- The pointer behind `p`, where `todo` is what is left of the list. -/
theorem next_eq_headD (hr : r.WellFormed) (hil : r.il = done ++ p :: todo) :
    r.next p = todo.headD m_IL := by
  cases todo with
  | nil => exact next_last hr hil
  | cons q todo => exact next_of_append hr hil

/-! ## One call -/

/-- What replacing the call at `p` does to the list and to the instructions. -/
structure ReplacedCall (r r' : ILRewriter) (p : InstrPtr) (done todo : List InstrPtr) : Prop where
  wf : r'.WellFormed
  il : ∃ new, r'.il = done ++ p :: (new ++ todo)
  nInstrs : r.nInstrs ≤ r'.nInstrs
  instr : ∀ x : ℕ, x ≤ r.nInstrs → r'.instr x = if x = p then (r.instr p).nopped else r.instr x

theorem WellFormed.emitAll (hr : r.WellFormed) {pos : ℕ} (is : List ILInstr) :
    (r.emitAll pos is).WellFormed := by
  induction is generalizing r with
  | nil => exact hr
  | cons i is ih => exact ih hr.emit

theorem WellFormed.insertAfter (hr : r.WellFormed) {pos : ℕ} {i : ILInstr} {post : List InstrPtr}
    (hil : r.il = done ++ pos :: post) :
    ((r.newILInstr i).insertAfter pos r.newPtr).WellFormed ∧
      ((r.newILInstr i).insertAfter pos r.newPtr).il = done ++ pos :: r.newPtr :: post := by
  have hnot := notMem_of_append hr hil
  have hnew : ((r.newILInstr i).insertAfter pos r.newPtr).il = done ++ pos :: r.newPtr :: post := by
    show Lib.insertAfter pos r.newPtr r.il = _
    rw [hil, Lib.insertAfter_append hnot.1 hnot.2]
  have hmem : ∀ x : ℕ, x ∈ done ++ pos :: r.newPtr :: post → x = r.newPtr ∨ x ∈ r.il := by
    intro x hx
    rw [hil]
    simp only [List.mem_append, List.mem_cons] at hx ⊢
    tauto
  have hfresh : r.newPtr ∉ r.il := fun h => Nat.not_succ_le_self _ (hr.le _ h)
  refine ⟨⟨?_, fun x hx => ?_, fun x hx => ?_⟩, hnew⟩
  · have hperm : (done ++ pos :: r.newPtr :: post).Perm (r.newPtr :: r.il) := by
      rw [hil, List.append_cons]
      exact (List.perm_middle).trans (.of_eq (by simp))
    rw [hnew, hperm.nodup_iff]
    exact List.nodup_cons.2 ⟨hfresh, hr.nodup⟩
  · rw [hnew] at hx
    rcases hmem x hx with rfl | hx
    · exact Nat.succ_pos _
    · exact hr.pos x hx
  · rw [hnew] at hx
    show x ≤ r.nInstrs + 1
    rcases hmem x hx with rfl | hx
    · exact Nat.le_refl _
    · exact (hr.le x hx).trans (Nat.le_succ _)

theorem replaceCall_replaced (hr : r.WellFormed) (hil : r.il = done ++ p :: todo)
    (hne : todo ≠ []) : ReplacedCall r (r.replaceCall c mvid p) p done todo := by
  obtain ⟨pos, post, rfl⟩ := List.exists_cons_of_ne_nil hne
  have hpos : r.next p = pos := next_of_append hr hil
  -- the call as a `NOP`
  set r₀ : ILRewriter := { r with instr := Function.update r.instr p (r.instr p).nopped } with hr₀
  have hwf₀ : r₀.WellFormed := ⟨hr.nodup, hr.pos, hr.le⟩
  have hil₀ : r₀.il = (done ++ [p]) ++ pos :: post := by simp [hr₀, hil]
  have hle₀ : pos ≤ r₀.nInstrs := hr.le pos (by simp [hil])
  -- the call of the wrapper, with what is boxed in front of it
  set r₁ := r₀.emitAll pos (c.boxes.map box ++ [callMember c.wrapperMethodRef]) with hr₁
  have hwf₁ : r₁.WellFormed := hwf₀.emitAll _
  have hil₁ : r₁.il = (done ++ [p] ++ List.range' (r.nInstrs + 1) c.boxes.length) ++
      (r.nInstrs + 1 + c.boxes.length) :: pos :: post := by
    rw [hr₁, emitAll_il (notMem_of_append hwf₀ hil₀).1 hle₀ hil₀, List.length_append,
      List.length_map, List.length_singleton, List.range'_1_concat]
    simp [hr₀]
  have hcall : r₁.prev pos = r.nInstrs + 1 + c.boxes.length := prev_of_append hwf₁ hil₁
  have hle₁ : r.nInstrs ≤ r₁.nInstrs := by simp [hr₁, hr₀]
  -- the three arguments
  set r₂ := r₁.emitAll (r₁.prev pos) [loadInt32 (r.instr p).opcode, loadInt32 c.methodDefToken,
    loadInt64 mvid] with hr₂
  have hwf₂ : r₂.WellFormed := hwf₁.emitAll _
  have hil₂ : r₂.il = (done ++ [p] ++ List.range' (r.nInstrs + 1) c.boxes.length ++
      List.range' (r₁.nInstrs + 1) 3) ++ (r.nInstrs + 1 + c.boxes.length) :: pos :: post := by
    rw [hr₂, hcall, emitAll_il (notMem_of_append hwf₁ hil₁).1 (hwf₁.le _ (by simp [hil₁])) hil₁]
    rfl
  have hle₂ : r.nInstrs ≤ r₂.nInstrs := by simp [hr₂]; omega
  have hinstr₂ : ∀ x : ℕ, x ≤ r.nInstrs →
      r₂.instr x = if x = p then (r.instr p).nopped else r.instr x := by
    intro x hx
    have hx₀ : x ≤ r₀.nInstrs := hx
    rw [hr₂, emitAll_instr_le (hx.trans hle₁), hr₁, emitAll_instr_le hx₀]
    exact Function.update_apply ..
  have hrun : r.replaceCall c mvid p = c.unbox.elim r₂ fun typeToken =>
      (r₂.newILInstr (unboxAny typeToken)).insertAfter (r₁.prev pos) r₂.newPtr := by
    unfold replaceCall
    rw [hpos]
    cases c.unbox with
    | none => rfl
    | some typeToken => rfl
  rw [hrun]
  cases c.unbox with
  | none =>
    rw [Option.elim_none]
    refine ⟨hwf₂, ⟨List.range' (r.nInstrs + 1) c.boxes.length ++ List.range' (r₁.nInstrs + 1) 3 ++
      [r.nInstrs + 1 + c.boxes.length], ?_⟩, hle₂, hinstr₂⟩
    rw [hil₂]
    simp
  | some typeToken =>
    rw [Option.elim_some, hcall]
    obtain ⟨hwf, hnew⟩ := hwf₂.insertAfter (i := unboxAny typeToken) hil₂
    refine ⟨hwf, ⟨List.range' (r.nInstrs + 1) c.boxes.length ++ List.range' (r₁.nInstrs + 1) 3 ++
      [r.nInstrs + 1 + c.boxes.length, r₂.newPtr], ?_⟩, hle₂.trans (Nat.le_succ _), fun x hx => ?_⟩
    · rw [hnew]
      simp
    rw [← hinstr₂ x hx]
    exact Function.update_of_ne (Nat.ne_of_lt (Nat.lt_succ_of_le (hx.trans hle₂))) ..

/-! ## Several calls -/

/-- `r'` is `r` with calls that have become `NOP`s, and with new instructions directly behind
them. -/
structure Edited (r r' : ILRewriter) : Prop where
  wf : r'.WellFormed
  nInstrs : r.nInstrs ≤ r'.nInstrs
  mem : ∀ x ∈ r.il, x ∈ r'.il
  instr : ∀ x : ℕ, x ≤ r.nInstrs → r'.instr x = r.instr x ∨
    isCall (r.instr x).opcode = true ∧ r'.instr x = (r.instr x).nopped
  neighbours : ∀ x y, [x, y] <:+: r.il → r'.instr x = r.instr x → [x, y] <:+: r'.il
  last : r'.il.getLast? = r.il.getLast?

theorem isCall_nopped (i : ILInstr) : isCall i.nopped.opcode = false := rfl

theorem nopped_ne {i : ILInstr} (h : isCall i.opcode = true) : i.nopped ≠ i := by
  intro heq
  rw [← heq, isCall_nopped] at h
  cases h

theorem Edited.refl (hr : r.WellFormed) : Edited r r :=
  ⟨hr, Nat.le_refl _, fun _ h => h, fun _ _ => .inl rfl, fun _ _ h _ => h, rfl⟩

/-- What is no call is left as it is. -/
theorem Edited.instr_eq (h : Edited r r') {x : ℕ} (hx : x ≤ r.nInstrs)
    (hcall : isCall (r.instr x).opcode = false) : r'.instr x = r.instr x := by
  rcases h.instr x hx with hsame | ⟨htrue, -⟩
  · exact hsame
  · exact Bool.noConfusion (htrue.symm.trans hcall)

theorem mem_of_neighbours {l : List InstrPtr} {x y : InstrPtr} (h : [x, y] <:+: l) :
    x ∈ l ∧ y ∈ l :=
  ⟨h.subset (by simp), h.subset (by simp)⟩

theorem Edited.trans (hr : r.WellFormed) (h1 : Edited r s) (h2 : Edited s r') : Edited r r' where
  wf := h2.wf
  nInstrs := h1.nInstrs.trans h2.nInstrs
  mem x hx := h2.mem x (h1.mem x hx)
  instr x hx := by
    rcases h1.instr x hx with hsame | ⟨hcall, hnop⟩
    · rw [← hsame]
      exact h2.instr x (hx.trans h1.nInstrs)
    · refine .inr ⟨hcall, ?_⟩
      rw [← hnop]
      exact h2.instr_eq (hx.trans h1.nInstrs) (by rw [hnop, isCall_nopped])
  neighbours x y hxy hsame := by
    have hx : x ≤ r.nInstrs := hr.le x (mem_of_neighbours hxy).1
    have hs : s.instr x = r.instr x := by
      rcases h1.instr x hx with hs | ⟨hcall, hnop⟩
      · exact hs
      · have hstay := h2.instr_eq (hx.trans h1.nInstrs) (by rw [hnop, isCall_nopped])
        exact absurd (hnop.symm.trans (hstay.symm.trans hsame)) (nopped_ne hcall)
    exact h2.neighbours x y (h1.neighbours x y hxy hs) (hsame.trans hs.symm)
  last := h2.last.trans h1.last

theorem ReplacedCall.edited (hr : r.WellFormed) (hil : r.il = done ++ p :: todo)
    (hne : todo ≠ []) (hcall : isCall (r.instr p).opcode = true)
    (h : ReplacedCall r r' p done todo) : Edited r r' := by
  obtain ⟨new, hnew⟩ := h.il
  refine ⟨h.wf, h.nInstrs, fun x hx => ?_, fun x hx => ?_, fun x y hxy hsame => ?_, ?_⟩
  · rw [hil] at hx
    rw [hnew]
    simp only [List.mem_append, List.mem_cons] at hx ⊢
    tauto
  · rw [h.instr x hx]
    split
    · rename_i hxp
      rw [hxp]
      exact .inr ⟨hcall, rfl⟩
    · exact .inl rfl
  · rw [hil] at hxy
    rw [hnew]
    refine Lib.neighbours_insert hxy ?_
    rintro rfl
    rw [h.instr x (hr.le x (by simp [hil])), if_pos rfl] at hsame
    exact nopped_ne hcall hsame
  · obtain ⟨pos, post, rfl⟩ := List.exists_cons_of_ne_nil hne
    rw [hnew, hil]
    simp [List.getLast?_append, List.getLast?_cons]

/-- The body does not end in a call. -/
def EndsInNoCall (r : ILRewriter) : Prop :=
  ∀ p, r.il.getLast? = some p → isCall (r.instr p).opcode = false

theorem Edited.endsInNoCall (hr : r.WellFormed) (h : Edited r r') (hlast : r.EndsInNoCall) :
    r'.EndsInNoCall := by
  intro p hp
  rw [h.last] at hp
  have hmem : p ∈ r.il := List.mem_of_getLast? hp
  rw [h.instr_eq (hr.le p hmem) (hlast p hp)]
  exact hlast p hp

theorem replaceCallsFrom_of_none (hp : p ≠ m_IL)
    (hc : caller.replacementFor mr (r.instr (r.prev p)) (r.instr p) = none) :
    replaceCallsFrom caller mr (fuel + 1) r p = replaceCallsFrom caller mr fuel r (r.next p) := by
  rw [replaceCallsFrom, if_neg hp, hc]

theorem replaceCallsFrom_of_some (hp : p ≠ m_IL)
    (hc : caller.replacementFor mr (r.instr (r.prev p)) (r.instr p) = some c) :
    replaceCallsFrom caller mr (fuel + 1) r p =
      replaceCallsFrom caller mr fuel (r.replaceCall c caller.moduleVersionIdPtr p)
        ((r.replaceCall c caller.moduleVersionIdPtr p).next (r.next p)) := by
  rw [replaceCallsFrom, if_neg hp, hc]

/-- The loop over what is left of the list: `q` behind something that is no call is replaced if
its target matches. -/
theorem replaceCallsFrom_spec (hr : r.WellFormed) (hil : r.il = done ++ todo)
    (hlast : r.EndsInNoCall) (hfuel : todo.length < fuel) :
    ∃ r', replaceCallsFrom caller mr fuel r (todo.headD m_IL) = some r' ∧ Edited r r' ∧
      (∀ x : ℕ, x ≤ r.nInstrs → x ∉ todo → r'.instr x = r.instr x) ∧
      ∀ p q, [p, q] <:+: r.il → isCall (r.instr p).opcode = false → q ∈ todo →
        r'.instr q = if caller.replacementFor mr (r.instr p) (r.instr q) = none then r.instr q
          else (r.instr q).nopped := by
  induction fuel generalizing r done todo with
  | zero => cases hfuel
  | succ fuel ih =>
    cases todo with
    | nil =>
      exact ⟨r, if_pos rfl, .refl hr, fun _ _ _ => rfl, fun _ _ _ _ h => absurd h List.not_mem_nil⟩
    | cons x todo =>
      have hx : x ≠ m_IL := Nat.ne_of_gt (hr.pos x (by simp [hil]))
      have hnot := notMem_of_append hr hil
      have hlex : x ≤ r.nInstrs := hr.le x (by simp [hil])
      rw [List.headD_cons]
      cases hc : caller.replacementFor mr (r.instr (r.prev x)) (r.instr x) with
      | none =>
        rw [replaceCallsFrom_of_none hx hc, next_eq_headD hr hil]
        have hil' : r.il = (done ++ [x]) ++ todo := by rw [hil, List.append_assoc]; rfl
        obtain ⟨r', hrun, hedited, hkept, hspec⟩ := ih hr hil' hlast (Nat.lt_of_succ_lt_succ hfuel)
        refine ⟨r', hrun, hedited, fun y hy hnoty => ?_, fun p q hpq hcall hq => ?_⟩
        · exact hkept y hy fun h => hnoty (List.mem_cons_of_mem x h)
        · rcases List.mem_cons.1 hq with rfl | hq
          · rw [← prev_of_neighbours hr hpq, hc, if_pos rfl]
            exact hkept q hlex hnot.2
          · exact hspec p q hpq hcall hq
      | some c =>
        have hcallx : isCall (r.instr x).opcode = true :=
          isCall_of_replacementFor (by rw [hc]; exact Option.some_ne_none c)
        -- the body goes on behind the call
        have hne : todo ≠ [] := by
          rintro rfl
          have hend := hlast x (by rw [hil]; simp)
          exact Bool.noConfusion (hcallx.symm.trans hend)
        have hone := @replaceCall_replaced r c x caller.moduleVersionIdPtr done todo hr hil hne
        obtain ⟨n, rest, rfl⟩ := List.exists_cons_of_ne_nil hne
        rw [replaceCallsFrom_of_some hx hc, next_of_append hr hil]
        set r₁ := r.replaceCall c caller.moduleVersionIdPtr x
        have hedited₁ := hone.edited hr hil hne hcallx
        obtain ⟨new, hnew⟩ := hone.il
        have hil₁ : r₁.il = (done ++ x :: new) ++ n :: rest := by rw [hnew]; simp
        have hil₁' : r₁.il = (done ++ x :: new ++ [n]) ++ rest := by rw [hnew]; simp
        have hfuel' : rest.length < fuel := by
          simp only [List.length_cons] at hfuel
          omega
        rw [next_eq_headD hone.wf hil₁]
        obtain ⟨r', hrun, hedited, hkept, hspec⟩ :=
          ih hone.wf hil₁' (hedited₁.endsInNoCall hr hlast) hfuel'
        refine ⟨r', hrun, hedited₁.trans hr hedited, fun y hy hnoty => ?_,
          fun p q hpq hcall hq => ?_⟩
        · rw [List.mem_cons, not_or] at hnoty
          rw [hkept y (hy.trans hone.nInstrs) fun h => hnoty.2 (List.mem_cons_of_mem n h),
            hone.instr y hy, if_neg hnoty.1]
        · have hpx : p ≠ x := by
            rintro rfl
            exact Bool.noConfusion (hcallx.symm.trans hcall)
          rcases List.mem_cons.1 hq with rfl | hqn
          · rw [← prev_of_neighbours hr hpq, hc, if_neg (Option.some_ne_none c),
              hkept q (hlex.trans hone.nInstrs) fun h => hnot.2 (List.mem_cons_of_mem n h),
              hone.instr q hlex, if_pos rfl]
          rcases List.mem_cons.1 hqn with rfl | hqrest
          · have hxq : [x, q] <:+: r.il := Lib.neighbours_of_append hil
            exact absurd ((prev_of_neighbours hr hpq).symm.trans (prev_of_neighbours hr hxq)) hpx
          · have hle := hr.le p (mem_of_neighbours hpq).1
            have hle' := hr.le q (mem_of_neighbours hpq).2
            have hp₁ : r₁.instr p = r.instr p := by rw [hone.instr p hle, if_neg hpx]
            have hq₁ : r₁.instr q = r.instr q := by
              rw [hone.instr q hle', if_neg]
              rintro rfl
              exact hnot.2 (List.mem_cons_of_mem n hqrest)
            have hpq₁ := hedited₁.neighbours p q hpq hp₁
            rw [hspec p q hpq₁ (by rw [hp₁, hcall]) hqrest, hp₁, hq₁]

/-! ## The whole method -/

theorem replaceCalls_spec (hr : r.WellFormed) (hlast : r.EndsInNoCall) :
    ∃ r', replaceCalls caller r mr = some r' ∧ Edited r r' ∧
      ∀ p q, [p, q] <:+: r.il → isCall (r.instr p).opcode = false →
        r'.instr q = if caller.isActive mr = true ∧
          caller.replacementFor mr (r.instr p) (r.instr q) ≠ none then (r.instr q).nopped
          else r.instr q := by
  unfold replaceCalls
  cases hactive : caller.isActive mr with
  | false => exact ⟨r, rfl, .refl hr, fun p q _ _ => (if_neg fun h => by cases h.1).symm⟩
  | true =>
    have hnext : r.next m_IL = r.il.headD m_IL := if_pos rfl
    obtain ⟨r', hrun, hedited, -, hspec⟩ := @replaceCallsFrom_spec r caller mr (r.il.length + 1) []
      r.il hr rfl hlast (Nat.lt_succ_self _)
    refine ⟨r', by rw [if_pos rfl, hnext, hrun], hedited, fun p q hpq hcall => ?_⟩
    rw [hspec p q hpq hcall (mem_of_neighbours hpq).2]
    by_cases hnone : caller.replacementFor mr (r.instr p) (r.instr q) = none
    · rw [if_pos hnone, if_neg fun h => h.2 hnone]
    · rw [if_neg hnone, if_pos ⟨rfl, hnone⟩]

/-- Behind something that is no call, `q` is replaced by the first replacement that matches it. -/
theorem processReplacementCalls_spec {methodReplacements : List MethodReplacement}
    (hr : r.WellFormed) (hlast : r.EndsInNoCall) :
    ∃ r', processReplacementCalls caller methodReplacements r = some r' ∧ Edited r r' ∧
      ∀ p q, [p, q] <:+: r.il → isCall (r.instr p).opcode = false →
        (r'.instr q = r.instr q ↔ ∀ mr ∈ methodReplacements, caller.isActive mr = true →
          caller.replacementFor mr (r.instr p) (r.instr q) = none) := by
  induction methodReplacements generalizing r with
  | nil => exact ⟨r, rfl, .refl hr, fun _ _ _ _ => iff_of_true rfl fun _ h => nomatch h⟩
  | cons mr methodReplacements ih =>
    obtain ⟨r₁, hone, hedited₁, hspec₁⟩ := @replaceCalls_spec r caller mr hr hlast
    obtain ⟨r', hrun, hedited, hspec⟩ := ih hedited₁.wf (hedited₁.endsInNoCall hr hlast)
    refine ⟨r', ?_, hedited₁.trans hr hedited, fun p q hpq hcall => ?_⟩
    · rw [processReplacementCalls, List.foldlM_cons, hone]
      exact hrun
    · have hlep := hr.le p (mem_of_neighbours hpq).1
      have hleq := hr.le q (mem_of_neighbours hpq).2
      have hp₁ := hedited₁.instr_eq hlep hcall
      have hpq₁ := hedited₁.neighbours p q hpq hp₁
      have hrest := hspec p q hpq₁ (by rw [hp₁, hcall])
      have hq₁ := hspec₁ p q hpq hcall
      rw [List.forall_mem_cons]
      by_cases hmatch : caller.isActive mr = true ∧
          caller.replacementFor mr (r.instr p) (r.instr q) ≠ none
      · rw [if_pos hmatch] at hq₁
        have hcallq := isCall_of_replacementFor hmatch.2
        have hstay := hedited.instr_eq (hleq.trans hedited₁.nInstrs) (by rw [hq₁, isCall_nopped])
        rw [hstay, hq₁]
        exact iff_of_false (nopped_ne hcallq) fun h => hmatch.2 (h.1 hmatch.1)
      · rw [if_neg hmatch] at hq₁
        rw [hp₁, hq₁] at hrest
        rw [hrest]
        refine (and_iff_right ?_).symm
        exact fun hactive => not_not.1 fun hnone => hmatch ⟨hactive, hnone⟩

/-! ## The prefixes of a body with replaced calls -/

theorem Prefixes.isPrefixOp_left (h : Prefixes r p q) :
    p ∈ r.il ∧ isPrefixOp (r.instr p).opcode = true := by
  cases h with
  | next h hp => exact ⟨(mem_of_neighbours h).1, hp⟩
  | skip h hp _ => exact ⟨(mem_of_neighbours h).1, hp⟩

/-- The prefix directly in front of the instruction. -/
theorem Prefixes.last (h : Prefixes r p q) :
    ∃ p', [p', q] <:+: r.il ∧ isPrefixOp (r.instr p').opcode = true := by
  induction h with
  | next h hp => exact ⟨_, h, hp⟩
  | skip _ _ _ ih => exact ih

/-- Every prefix has an instruction that is none. -/
theorem ValidPrefixes.exists_prefixes (hr : r.WellFormed) (hv : r.ValidPrefixes) (hp : p ∈ r.il)
    (hop : isPrefixOp (r.instr p).opcode = true) :
    ∃ q, Prefixes r p q ∧ isPrefixOp (r.instr q).opcode = false := by
  obtain ⟨pre, post, hil⟩ := List.append_of_mem hp
  clear hp
  -- over what is behind the prefix
  induction post generalizing p pre with
  | nil =>
    obtain ⟨q, hpq, -⟩ := hv.follows p (by simp [hil]) hop
    have hmem := (mem_of_neighbours hpq).2
    have hnext := next_of_neighbours hr hpq
    have hzero := hr.pos q hmem
    rw [← hnext, next_last hr hil] at hzero
    cases hzero
  | cons y post ih =>
    have hpy : [p, y] <:+: r.il := Lib.neighbours_of_append hil
    cases hy : isPrefixOp (r.instr y).opcode with
    | false => exact ⟨y, .next hpy hop, hy⟩
    | true =>
      obtain ⟨q, hyq, hq⟩ := ih hy (pre ++ [p]) (by rw [hil, List.append_assoc]; rfl)
      exact ⟨q, .skip hpy hop hyq, hq⟩

theorem Edited.prefixesKept (hr : r.WellFormed) (hv : r.ValidPrefixes) (h : Edited r r') :
    PrefixesKept r r' ↔ ∀ p q, [p, q] <:+: r.il → isPrefixOp (r.instr p).opcode = true →
      r'.instr q = r.instr q := by
  have hstay : ∀ p ∈ r.il, isPrefixOp (r.instr p).opcode = true → r'.instr p = r.instr p :=
    fun p hp hop => h.instr_eq (hr.le p hp) (not_isCall_of_isPrefixOp hop)
  have hgone : ∀ p ∈ r.il, isPrefixOp (r.instr p).opcode = true → ¬ Gone r r' p := by
    rintro p hp hop (hmem | hinstr)
    · exact hmem (h.mem p hp)
    · exact hinstr (hstay p hp hop)
  constructor
  · intro hkept p q hpq hop
    exact ((hkept.attached p q hpq hop).resolve_left (hgone p (mem_of_neighbours hpq).1 hop)).2
  · intro hsame
    refine ⟨fun p q hpq hop => .inr ⟨?_, hsame p q hpq hop⟩, fun p q hpq htail hq => .inr ?_⟩
    · exact h.neighbours p q hpq (hstay p (mem_of_neighbours hpq).1 hop)
    · obtain ⟨p', hp', hop'⟩ := hpq.last
      obtain ⟨s, hqs, hret⟩ := hv.tail p q hpq htail hq
      refine ⟨s, h.neighbours q s hqs (hsame p' q hp' hop'), ?_⟩
      rw [h.instr_eq (hr.le s (mem_of_neighbours hqs).2) (by rw [hret]; rfl), hret]

theorem processReplacementCalls_prefixesKept_iff {methodReplacements : List MethodReplacement}
    (hr : r.WellFormed) (hv : r.ValidPrefixes) :
    ∃ r', processReplacementCalls caller methodReplacements r = some r' ∧
      (PrefixesKept r r' ↔ ¬ ReplacesPrefixed caller methodReplacements r) := by
  obtain ⟨r', hrun, hedited, hspec⟩ :=
    @processReplacementCalls_spec r caller methodReplacements hr hv.last
  refine ⟨r', hrun, (hedited.prefixesKept hr hv).trans ?_⟩
  constructor
  · rintro hsame ⟨p, q, hpq, hop, mr, hmr, hactive, hmatch⟩
    have hspec' := (hspec p q hpq (not_isCall_of_isPrefixOp hop)).1 (hsame p q hpq hop)
    exact hmatch (hspec' mr hmr hactive)
  · intro hnone p q hpq hop
    refine (hspec p q hpq (not_isCall_of_isPrefixOp hop)).2 fun mr hmr hactive => ?_
    by_contra hmatch
    exact hnone ⟨p, q, hpq, hop, mr, hmr, hactive, hmatch⟩

/-! ## The prefixes of an instrumented body -/

section CallTarget

variable {m : FunctionInfo} {t : CallTargetTokens} {li la : List ILInstr} {k : Places}
  {store : ℕ → ℕ}

/-- What is put in front of `b` comes between no neighbours that end in another. -/
theorem neighbours_expand {f : InstrPtr → List InstrPtr} {l : List InstrPtr} {x y z : InstrPtr}
    (zs : List InstrPtr) (h : [x, y] <:+: l) (hf : f y ++ [y] = z :: zs) :
    [x, z] <:+: Lib.expand f l := by
  obtain ⟨pre, post, rfl⟩ := h
  refine ⟨Lib.expand f pre ++ f x, zs ++ Lib.expand f post, ?_⟩
  have hz : z :: (zs ++ Lib.expand f post) = f y ++ y :: Lib.expand f post := by
    rw [← List.cons_append, ← hf, List.append_assoc]
    rfl
  simp [hz]

theorem Layout.neighbours (h : Layout r m t r' li la k store) {x z : InstrPtr}
    (hz : [x, z] <:+: Lib.expand (r.stores m store) r.il) : [x, z] <:+: r'.il := by
  rw [h.il, List.append_assoc, List.append_assoc]
  exact List.infix_append_of_infix_right (List.infix_append_of_infix_left hz)

/-- Between neighbours of which the second is no return, nothing is put. -/
theorem Layout.neighbours_of_ne_ret (h : Layout r m t r' li la k store) {x y : InstrPtr}
    (hxy : [x, y] <:+: r.il) (hy : (r.instr y).opcode ≠ CEE_RET) : [x, y] <:+: r'.il := by
  refine h.neighbours (neighbours_expand [] hxy ?_)
  rw [stores, if_neg fun hret => hy hret.1]
  rfl

/-- In front of a return comes a store or a leave. -/
theorem Layout.not_ret_behind (hr : r.WellFormed) (h : Layout r m t r' li la k store)
    {x y z : InstrPtr} (hxy : [x, y] <:+: r.il) (hy : (r.instr y).opcode = CEE_RET)
    (hz : [x, z] <:+: r'.il) : (r'.instr z).opcode ≠ CEE_RET := by
  have hmem := (mem_of_neighbours hxy).2
  have hleave := h.instr y (hr.le y hmem)
  rw [if_pos ⟨hmem, hy⟩] at hleave
  cases hvoid : m.isVoid with
  | true =>
    have hyz : [x, y] <:+: r'.il := by
      refine h.neighbours (neighbours_expand [] hxy ?_)
      rw [stores, hvoid, if_neg fun hret => Bool.noConfusion hret.2]
      rfl
    rw [Lib.neighbours_unique h.wf.nodup hz hyz, hleave]
    exact show CEE_LEAVE_S ≠ CEE_RET by decide
  | false =>
    have hyz : [x, store y] <:+: r'.il := by
      refine h.neighbours (neighbours_expand [y] hxy ?_)
      rw [stores, if_pos ⟨hy, hvoid⟩]
      rfl
    rw [Lib.neighbours_unique h.wf.nodup hz hyz, (h.store y hmem hy hvoid).2]
    exact ne_ret_of_fallsThrough (fallsThrough_stLocal _)

theorem callTargetRewriterCallback_prefixesKept_iff (hr : r.WellFormed) (hv : r.ValidPrefixes)
    (h : r.callTargetRewriterCallback m t = some r') :
    PrefixesKept r r' ↔ ∀ p ∈ r.il, (r.instr p).opcode ≠ CEE_TAILCALL := by
  obtain ⟨li, la, k, store, hlayout⟩ := callTargetRewriterCallback_layout hr hv.nonempty h
  have hinstr : ∀ p ∈ r.il, (r.instr p).opcode ≠ CEE_RET → r'.instr p = r.instr p := by
    intro p hp hret
    rw [hlayout.instr p (hr.le p hp), if_neg fun h => hret h.2]
  constructor
  · intro hkept p hp htail
    have hop : isPrefixOp (r.instr p).opcode = true := by rw [htail]; rfl
    obtain ⟨q, hpq, hq⟩ := hv.exists_prefixes hr hp hop
    obtain ⟨s, hqs, hret⟩ := hv.tail p q hpq htail hq
    rcases hkept.tail p q hpq htail hq with (hmem | hchanged) | ⟨z, hqz, hret'⟩
    · refine hmem ?_
      rw [hlayout.il]
      simp [Lib.sublist_expand.subset hp]
    · exact hchanged (hinstr p hp (ne_ret_of_isPrefixOp hop))
    · exact hlayout.not_ret_behind hr hqs hret hqz hret'
  · intro hnone
    refine ⟨fun p q hpq hop => .inr ?_, fun p q hpq htail _ => absurd htail ?_⟩
    · obtain ⟨q', hpq', hret⟩ := hv.follows p (mem_of_neighbours hpq).1 hop
      obtain rfl := Lib.neighbours_unique hr.nodup hpq hpq'
      exact ⟨hlayout.neighbours_of_ne_ret hpq hret, hinstr q (mem_of_neighbours hpq).2 hret⟩
    · exact hnone p hpq.isPrefixOp_left.1

end CallTarget

/-! ## The law -/

/-- In both rewritten bodies. -/
theorem prefixesKept_iff (caller : CallerModule) (methodReplacements : List MethodReplacement)
    (r : ILRewriter) (hr : r.WellFormed) (hv : r.ValidPrefixes) :
    (∃ r', processReplacementCalls caller methodReplacements r = some r' ∧
      (PrefixesKept r r' ↔ ¬ ReplacesPrefixed caller methodReplacements r)) ∧
    ∀ m t r', r.callTargetRewriterCallback m t = some r' →
      (PrefixesKept r r' ↔ ∀ p ∈ r.il, (r.instr p).opcode ≠ CEE_TAILCALL) :=
  ⟨processReplacementCalls_prefixesKept_iff hr hv,
    fun _ _ _ h => callTargetRewriterCallback_prefixesKept_iff hr hv h⟩

/-- `tail. call C::M`, and the `ret`. -/
def tailBody : ILRewriter where
  tkLocalVarSig := 0
  maxStack := 8
  flags := 0
  generateTinyHeader := true
  il := [1, 2, 3]
  instr
    | 1 => ⟨CEE_TAILCALL, .arg 0⟩
    | 2 => ⟨CEE_CALL, .arg 0x0A000001⟩
    | _ => ret
  eh := []
  nInstrs := 3

/-- `void C::M()` -/
def tailTarget : TargetFunction :=
  ⟨0x0A000001, "M", "C", false, [0x00, 0x00, 0x01], [], 0⟩

def tailReplacement : MethodReplacement :=
  ⟨"C", "M", ["System.Void"], "ReplaceTargetMethod", "[W]W.M", [0x00, 0x03, 0x01, 0x08, 0x08, 0x0A]⟩

def tailModule : CallerModule where
  getFunctionInfo _ := tailTarget
  isFailedWrapperMemberKey _ := false
  getWrapperMethodRef _ := some 0x0A000002
  defineMethodSpec ref _ := ref
  tryParseSignatureTypes _ := some ["System.Void"]
  profilerAssemblyIsLoaded := true
  isDesktop := false
  corlibModuleLoaded := true
  inCorlibAppDomain := false
  instrumentDomainNeutralAssemblies := false
  moduleVersionIdPtr := 0x1000
  boxTokens _ := []
  returnTypeIsValueTypeOrGeneric _ := none

theorem tailBody_wellFormed : tailBody.WellFormed where
  nodup := by decide
  pos := by decide
  le := by decide

theorem tailBody_validPrefixes : tailBody.ValidPrefixes := by
  have h12 : [1, 2] <:+: tailBody.il := ⟨[], [3], rfl⟩
  have h23 : [2, 3] <:+: tailBody.il := ⟨[1], [], rfl⟩
  have hop : ∀ p ∈ tailBody.il, isPrefixOp (tailBody.instr p).opcode = true → p = 1 := by decide
  refine ⟨by decide, fun p hp => ?_, fun p hp hprefix => ?_, fun p q hpq htail hq => ?_⟩
  · cases hp
    rfl
  · obtain rfl := hop p hp hprefix
    exact ⟨2, h12, by decide⟩
  · obtain ⟨p', hp', hprefix⟩ := hpq.last
    obtain rfl := hop p' (mem_of_neighbours hp').1 hprefix
    obtain rfl := Lib.neighbours_unique tailBody_wellFormed.nodup h12 hp'
    exact ⟨3, h23, rfl⟩

theorem prefixesKept_iff_tailBody :
    ∃ r', processReplacementCalls tailModule [tailReplacement] tailBody = some r' ∧
      (PrefixesKept tailBody r' ↔ ¬ ReplacesPrefixed tailModule [tailReplacement] tailBody) :=
  (prefixesKept_iff tailModule [tailReplacement] tailBody tailBody_wellFormed
    tailBody_validPrefixes).1

def tailMethod : FunctionInfo := ⟨true, true, false, false, 0x02000002, none, [], 0⟩

def tailTokens : CallTargetTokens :=
  ⟨0x11000001, 0x01000001, 0x01000002, 0x2B000001, 0x0A000003, 0x2B000002, 0x2B000003,
    0x2B000004, 0x0A000004⟩

/-- The prefix is followed by a `nop`, or its call by a `leave.s`. -/
theorem not_prefixesKept :
    tailBody.ValidPrefixes ∧
    ((processReplacementCalls tailModule [tailReplacement] tailBody).map fun r =>
      r.il.map fun p => (r.instr p).opcode) = some [CEE_TAILCALL, CEE_NOP, CEE_LDC_I4_S,
        CEE_LDC_I4, CEE_LDC_I8, CEE_CALL, CEE_RET] ∧
    (∃ r', processReplacementCalls tailModule [tailReplacement] tailBody = some r' ∧
      ¬ PrefixesKept tailBody r') ∧
    ∃ r', tailBody.callTargetRewriterCallback tailMethod tailTokens = some r' ∧
      ¬ PrefixesKept tailBody r' := by
  refine ⟨tailBody_validPrefixes, by decide, ?_, ?_⟩
  · obtain ⟨r', hrun, hiff⟩ := @processReplacementCalls_prefixesKept_iff tailBody tailModule
      [tailReplacement] tailBody_wellFormed tailBody_validPrefixes
    refine ⟨r', hrun, fun hkept => hiff.1 hkept ?_⟩
    exact ⟨1, 2, ⟨[], [3], rfl⟩, rfl, tailReplacement, List.mem_singleton_self _, by decide,
      by decide⟩
  · obtain ⟨r', hrun⟩ := Option.isSome_iff_exists.1
      (show (tailBody.callTargetRewriterCallback tailMethod tailTokens).isSome = true by
        decide)
    refine ⟨r', hrun, fun hkept => ?_⟩
    exact (callTargetRewriterCallback_prefixesKept_iff tailBody_wellFormed tailBody_validPrefixes
      hrun).1 hkept 1 (by decide) rfl

end ILRewriter

end DdTrace.Native
