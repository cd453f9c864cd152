import DdTrace.DuckTyping.MethodIlHelper

/-!
# What the IL of a proxy method pushes

`Writes m P` says what code an emitter appends, and `Emits ok pre post m` that this code is a
block: from these one lemma for each emitter of `MethodIlHelper`, and from them what stands on
the stack when the target is called. The proxies are forward ones (`CreateMethods`): the methods
of a reverse proxy, `CreateReverseProxyMethods`, are left out.
-/

namespace DdTrace.DuckTyping

open DdTrace.Lib DdTrace.Lib.Throwing

namespace Emitter

variable {Typ : Type} {α β : Type} {ok ok' : Prop}
  {pre mid post : StackValue → List StackValue} {m : Emitter Typ α} {f : α → Emitter Typ β}

/-! ### What an emitter appends -/

/-- Where `m` returns, it has appended `code` at the end, from so many locals to so many. -/
def Writes (m : Emitter Typ α) (P : ℕ → α → ℕ → List (Instr (OpCode Typ)) → Prop) : Prop :=
  ∀ il a il', il.offset = il.instructions.length → runWith m il = (.ok a, il') →
    il'.offset = il'.instructions.length ∧ ∃ code, il'.instructions = il.instructions ++ code ∧
      P il.locals.length a il'.locals.length code

theorem Writes.mono {P Q : ℕ → α → ℕ → List (Instr (OpCode Typ)) → Prop} (h : Writes m P)
    (hPQ : ∀ n a n' code, P n a n' code → Q n a n' code) : Writes m Q := by
  intro il a il' hend hrun
  obtain ⟨hend', code, hcode, hP⟩ := h il a il' hend hrun
  exact ⟨hend', code, hcode, hPQ _ _ _ _ hP⟩

theorem Writes.bind {P : ℕ → α → ℕ → List (Instr (OpCode Typ)) → Prop}
    {R : α → ℕ → β → ℕ → List (Instr (OpCode Typ)) → Prop} (h : Writes m P)
    (hf : ∀ a, Writes (f a) (R a)) :
    Writes (m >>= f) fun n b n'' code => ∃ a n' code₁ code₂, P n a n' code₁ ∧
      R a n' b n'' code₂ ∧ code = code₁ ++ code₂ := by
  intro il b il'' hend hrun
  obtain ⟨a, il', hm, hrest⟩ := runWith_bind_eq_ok.1 hrun
  obtain ⟨hend', code₁, hcode₁, hP⟩ := h il a il' hend hm
  obtain ⟨hend'', code₂, hcode₂, hR⟩ := hf a il' b il'' hend' hrest
  exact ⟨hend'', code₁ ++ code₂, by rw [hcode₂, hcode₁, List.append_assoc],
    a, _, code₁, code₂, hP, hR, rfl⟩

theorem writes_pure (a : α) :
    Writes (pure a : Emitter Typ α) fun n b n' code => b = a ∧ n' = n ∧ code = [] := by
  intro il b il' hend hrun
  rw [runWith_pure] at hrun
  cases hrun
  exact ⟨hend, [], (List.append_nil _).symm, rfl, rfl, rfl⟩

theorem writes_throw {P : ℕ → α → ℕ → List (Instr (OpCode Typ)) → Prop} (e : EmitException Typ) :
    Writes (throw e) P := by
  intro il a il' _ hrun
  rw [runWith_throw] at hrun
  cases hrun

theorem writes_emit (i : Instr (OpCode Typ)) :
    Writes (emit i) fun n _ n' code => n' = n ∧ code = [i] := by
  intro il a il' hend hrun
  rw [emit, runWith_modify] at hrun
  cases hrun
  have hinsert : il.instructions.insertIdx il.offset i = il.instructions ++ [i] := by
    rw [hend, List.insertIdx_length_self]
  refine ⟨?_, [i], hinsert, rfl, rfl⟩
  rw [hinsert, List.length_append, hend, List.length_singleton]

theorem writes_defineLabel :
    Writes (defineLabel : Emitter Typ ℕ) fun n _ n' code => n' = n ∧ code = [] := by
  intro il a il' hend hrun
  simp only [defineLabel, runWith_bind, runWith_get, runWith_modify, runWith_pure] at hrun
  cases hrun
  exact ⟨hend, [], (List.append_nil _).symm, rfl, rfl⟩

theorem writes_declareLocal (localType : Option Typ) :
    Writes (declareLocal localType) fun n a n' code => a = n ∧ n' = n + 1 ∧ code = [] := by
  cases localType with
  | none => exact writes_throw _
  | some t =>
    intro il a il' hend hrun
    simp only [declareLocal, runWith_bind, runWith_get, runWith_modify, runWith_pure] at hrun
    cases hrun
    exact ⟨hend, [], (List.append_nil _).symm, rfl, by rw [List.length_append]; rfl, rfl⟩

/-! ### Blocks -/

/-- Where `m` returns, it has appended a block and declared no local. The blocks of a conversion
are such for every value on the stack. -/
def Emits (ok : Prop) (pre post : StackValue → List StackValue) (m : Emitter Typ α) : Prop :=
  Writes m fun n _ n' code => n' = n ∧ ∀ v, Block effect ok code (pre v) (post v)

theorem Emits.bind (h : Emits ok pre mid m) (hf : ∀ a, Emits ok' mid post (f a)) :
    Emits (ok ∧ ok') pre post (m >>= f) := by
  refine (Writes.bind h hf).mono ?_
  rintro n b n'' _ ⟨a, n', code₁, code₂, ⟨rfl, h₁⟩, ⟨rfl, h₂⟩, rfl⟩
  exact ⟨rfl, fun v => (h₁ v).append (h₂ v)⟩

theorem Emits.congr (h : Emits ok pre post m) (hok : ok ↔ ok') : Emits ok' pre post m :=
  Writes.mono h fun _ _ _ _ h => ⟨h.1, fun v => (h.2 v).congr hok⟩

theorem Emits.at {t : List StackValue} (h : Emits ok (fun v => [v]) (fun _ => t) m)
    (v : StackValue) : Emits ok (fun _ => [v]) (fun _ => t) m :=
  Writes.mono h fun _ _ _ _ h => ⟨h.1, fun _ => h.2 v⟩

theorem Emits.at_self (h : Emits ok (fun v => [v]) (fun v => [v]) m) (v : StackValue) :
    Emits ok (fun _ => [v]) (fun _ => [v]) m :=
  Writes.mono h fun _ _ _ _ h => ⟨h.1, fun _ => h.2 v⟩

theorem emits_pure (a : α) : Emits True pre pre (pure a : Emitter Typ α) := by
  refine (writes_pure a).mono ?_
  rintro n b n' _ ⟨-, rfl, rfl⟩
  exact ⟨rfl, fun v => .nil⟩

theorem emits_throw (e : EmitException Typ) : Emits ok pre post (throw e : Emitter Typ α) :=
  writes_throw e

theorem emits_op {o : OpCode Typ} (h : ∀ v, Block effect ok [.op o] (pre v) (post v)) :
    Emits ok pre post (emitOp o) := by
  refine (writes_emit (.op o)).mono ?_
  rintro n _ n' _ ⟨rfl, rfl⟩
  exact ⟨rfl, h⟩

/-- An operation, and the code that follows it. -/
theorem Emits.opThen (mid : StackValue → List StackValue) {o : OpCode Typ}
    {f : Unit → Emitter Typ β} (h : ∀ v, Block effect ok [.op o] (pre v) (mid v))
    (hf : ∀ u, Emits ok' mid post (f u)) : Emits (ok ∧ ok') pre post (emitOp o >>= f) :=
  (emits_op h).bind hf

/-- An operation that leaves the top of the stack, or makes a value of the same origin of it. -/
theorem emits_onTop {o : OpCode Typ} (h : ∀ v s, effect o (v :: s) = some (v :: s)) :
    Emits True (fun v => [v]) (fun v => [v]) (emitOp o) :=
  emits_op fun v => .op (h v)

/-- Two labels in a row are different. -/
theorem writes_defineLabels {P : ℕ → α → ℕ → List (Instr (OpCode Typ)) → Prop}
    {f : ℕ → ℕ → Emitter Typ α} (h : ∀ l, Writes (f l (l + 1)) P) :
    Writes (defineLabel >>= fun a => defineLabel >>= fun b => f a b) P := by
  intro il a il' hend hrun
  simp only [defineLabel, runWith_bind, runWith_get, runWith_modify, runWith_pure] at hrun
  exact h il.labels { il with labels := il.labels + 1 + 1 } a il' hend hrun

/-! ### The helpers -/

/-- The code of `writeUnbox`: the path on which the type is not the expected one throws. -/
theorem block_unbox (t : Typ) (l : ℕ) (v : StackValue) :
    Block effect True [.op .dup, .op (.isinst t), .brtrue l, .op .pop, .throw, .mark l,
      .op (.unboxAny t)] [v] [v] := by
  intro Q rest s
  simp only [List.cons_append, List.nil_append, true_and]
  rw [EveryPath.op_iff rfl, EveryPath.op_iff rfl, EveryPath.brtrue_iff (by simp; rfl),
    EveryPath.op_iff rfl, EveryPath.op_iff rfl]
  exact and_iff_left .throw

/-- Emitters in a row append their code in a row. -/
theorem Writes.seq {code code' : List (Instr (OpCode Typ))}
    (h : Writes m fun n _ n' c => n' = n ∧ c = code)
    (hf : ∀ a, Writes (f a) fun n _ n' c => n' = n ∧ c = code') :
    Writes (m >>= f) fun n _ n' c => n' = n ∧ c = code ++ code' := by
  refine (Writes.bind h hf).mono ?_
  rintro n b n'' _ ⟨a, n', _, _, ⟨rfl, rfl⟩, ⟨rfl, rfl⟩, rfl⟩
  exact ⟨rfl, rfl⟩

theorem Writes.emits {code : List (Instr (OpCode Typ))}
    (h : Writes m fun n _ n' c => n' = n ∧ c = code)
    (hb : ∀ v, Block effect ok code (pre v) (post v)) : Emits ok pre post m := by
  refine h.mono ?_
  rintro n _ n' _ ⟨rfl, rfl⟩
  exact ⟨rfl, hb⟩

theorem emits_writeUnbox (t : Typ) :
    Emits True (fun v => [v]) (fun v => [v]) (writeUnbox t) := by
  have hlabel : Emits True (fun v => [v]) (fun v => [v]) (defineLabel : Emitter Typ ℕ) :=
    Writes.emits writes_defineLabel fun v => .nil
  refine (Emits.bind hlabel fun l => ?_).congr and_self_iff
  exact Writes.emits (.seq (writes_emit _) fun _ => .seq (writes_emit _) fun _ =>
    .seq (writes_emit _) fun _ => .seq (writes_emit _) fun _ => .seq (writes_emit _) fun _ =>
    .seq (writes_emit _) fun _ => writes_emit _) fun v => block_unbox t l v

/-- A loaded argument stands on the stack, where its number fits the operand. -/
theorem emits_writeLoadArgument (index : ℕ) (isStatic : Bool) :
    Emits ((if isStatic then index else index + 1) < 256) (fun _ => [])
      (fun _ => [.argument (if isStatic then index else index + 1)])
      (writeLoadArgument index isStatic : Emitter Typ Unit) := by
  unfold writeLoadArgument
  dsimp only
  generalize (if isStatic then index else index + 1) = i
  refine emits_op fun _ => ?_
  by_cases h : i ≤ 3
  · rw [if_pos h]
    exact (Block.op fun _ => rfl).congr (by simp; omega)
  · rw [if_neg h]
    exact .op_if fun _ => rfl

theorem emits_writeStoreLocal (index : ℕ) :
    Emits (index < 256) (fun v => [v]) (fun _ => [])
      (writeStoreLocal index : Emitter Typ Unit) := by
  unfold writeStoreLocal
  refine emits_op fun _ => ?_
  by_cases h : index ≤ 3
  · rw [if_pos h]
    exact (Block.op fun _ => rfl).congr (by simp; omega)
  · rw [if_neg h]
    exact .op_if fun _ => rfl

theorem emits_ldlocaS (index : ℕ) :
    Emits (index < 256) (fun _ => []) (fun _ => [.address index])
      (emitOp (.ldlocaS index) : Emitter Typ Unit) :=
  emits_op fun _ => .op_if fun _ => rfl

/-! ### Casts of a proxy's argument -/

/-- The emitter appends operations that make a value of the same origin of the top. -/
def CastsTop (m : Emitter Typ Unit) : Prop :=
  ∃ ops : List (OpCode Typ), (∀ o ∈ ops, ∀ v s, effect o (v :: s) = some (v :: s)) ∧
    Writes m fun n _ n' code => n' = n ∧ code = ops.map .op

theorem block_onTop {ops : List (OpCode Typ)}
    (h : ∀ o ∈ ops, ∀ v s, effect o (v :: s) = some (v :: s)) (v : StackValue) :
    Block effect True (ops.map .op) [v] [v] := by
  induction ops with
  | nil => exact .nil
  | cons o ops ih =>
    have ho : Block effect True [.op o] [v] [v] := .op fun s => h o List.mem_cons_self v s
    exact (ho.append (ih fun o' ho' => h o' (List.mem_cons_of_mem o ho'))).congr and_self_iff

theorem castsTop_addIlToExtractDuckType (r : Reflection Typ) (t : Typ) :
    CastsTop (addIlToExtractDuckType r t) := by
  refine ⟨[.castclass r.iDuckType, .getInstance], ?_, .seq (writes_emit _) fun _ => writes_emit _⟩
  intro o ho v s
  obtain rfl | rfl := List.mem_pair.1 ho
  · rfl
  · rfl

theorem CastsTop.emits {m : Emitter Typ Unit} (h : CastsTop m) :
    Emits True (fun v => [v]) (fun v => [v]) m := by
  obtain ⟨ops, hops, hm⟩ := h
  exact hm.emits fun v => block_onTop hops v

/-- The code of `duckCastUnlessNull`. -/
def castCode (l : ℕ) (ops : List (OpCode Typ)) : List (Instr (OpCode Typ)) :=
  [.op .dup, .brtrue l, .op .pop, .op .ldnull, .br (l + 1), .mark l] ++
    (ops.map .op ++ [.mark (l + 1)])

theorem fromMark_ops (l : ℕ) (ops : List (OpCode Typ)) (code : List (Instr (OpCode Typ))) :
    fromMark l (ops.map .op ++ code) = fromMark l code := by
  induction ops with
  | nil => rfl
  | cons o ops ih => exact ih

/-- Null or cast, what comes after the two paths takes either. -/
theorem block_castCode {ops : List (OpCode Typ)} {code : List (Instr (OpCode Typ))}
    {post : List StackValue} (h : ∀ o ∈ ops, ∀ v s, effect o (v :: s) = some (v :: s)) (l : ℕ)
    (hcode : ∀ v, Block effect ok code [v] post) (v : StackValue) :
    Block effect ok (castCode l ops ++ code) [v] post := by
  intro Q rest s
  have hcast : EveryPath effect Q (ops.map .op ++ (.mark (l + 1) :: (code ++ rest))) (v :: s) ↔
      EveryPath effect Q (code ++ rest) (v :: s) := by
    have := block_onTop h v Q (.mark (l + 1) :: (code ++ rest)) s
    rwa [true_and, List.singleton_append, EveryPath.mark_iff] at this
  have hnull : fromMark (l + 1) (.mark l :: (ops.map .op ++ (.mark (l + 1) :: (code ++ rest)))) =
      some (code ++ rest) := by
    rw [fromMark_mark_of_ne (by omega), fromMark_ops, fromMark_mark]
  simp only [castCode, List.cons_append, List.nil_append, List.append_assoc]
  rw [EveryPath.op_iff rfl, EveryPath.brtrue_iff (by simp; rfl), EveryPath.op_iff rfl,
    EveryPath.op_iff rfl, EveryPath.br_iff hnull, hcast]
  have hv := hcode v Q rest s
  have h0 := hcode .null Q rest s
  simp only [List.singleton_append] at hv h0
  rw [hv, h0, and_self]

theorem writes_duckCastUnlessNull {m : Emitter Typ Unit} (h : CastsTop m) :
    ∃ ops : List (OpCode Typ), (∀ o ∈ ops, ∀ v s, effect o (v :: s) = some (v :: s)) ∧
      Writes (duckCastUnlessNull m) fun n _ n' code => n' = n ∧ ∃ l, code = castCode l ops := by
  obtain ⟨ops, hops, hm⟩ := h
  refine ⟨ops, hops, writes_defineLabels fun l => ?_⟩
  refine Writes.mono (.seq (writes_emit _) fun _ => .seq (writes_emit _) fun _ =>
    .seq (writes_emit _) fun _ => .seq (writes_emit _) fun _ => .seq (writes_emit _) fun _ =>
    .seq (writes_emit _) fun _ => .seq hm fun _ => writes_emit _) ?_
  rintro n _ n' _ ⟨rfl, rfl⟩
  exact ⟨rfl, l, rfl⟩

theorem emits_duckCastUnlessNull_bind {m : Emitter Typ Unit} (h : CastsTop m)
    {f : Unit → Emitter Typ β} {post : List StackValue}
    (hf : ∀ u, Emits ok (fun v => [v]) (fun _ => post) (f u)) :
    Emits ok (fun v => [v]) (fun _ => post) (duckCastUnlessNull m >>= f) := by
  obtain ⟨ops, hops, hm⟩ := writes_duckCastUnlessNull h
  refine (Writes.bind hm hf).mono ?_
  rintro n b n'' _ ⟨u, n', _, code, ⟨rfl, l, rfl⟩, ⟨rfl, hcode⟩, rfl⟩
  exact ⟨rfl, block_castCode hops l hcode⟩

/-! ### One argument -/

/-- Where `m` returns, it has appended a block that pushes the value `value n`, from `n` locals,
and has declared `declared` locals. -/
def Pushes (ok : ℕ → Prop) (value : ℕ → StackValue) (declared : ℕ) (P : ℕ → α → Prop)
    (m : Emitter Typ α) : Prop :=
  Writes m fun n a n' code => n' = n + declared ∧ Block effect (ok n) code [] [value n] ∧ P n a

variable {r : Reflection Typ}

theorem pushes_loadOutput (idx : ℕ) (outerParamType innerParamType : Typ) :
    Pushes (· < 256) .address 1
      (fun n data => data.localIndex = n ∧ data.proxyArgumentIndex = idx)
      (loadOutput r idx outerParamType innerParamType) := by
  refine (Writes.bind (writes_declareLocal _) fun l => Writes.bind (emits_ldlocaS l) fun _ =>
    writes_pure _).mono ?_
  rintro n a n' _ ⟨l, n₁, _, _, ⟨rfl, rfl, rfl⟩,
    ⟨u, n₂, code, _, ⟨rfl, hcode⟩, ⟨rfl, rfl, rfl⟩, rfl⟩, rfl⟩
  refine ⟨rfl, ?_, rfl, rfl⟩
  rw [List.nil_append, List.append_nil]
  exact hcode .null

variable [DecidableEq Typ] {duckCastParameterFunc : Typ → Emitter Typ Unit}
  {needsDuckChainingFunc : Typ → Typ → Bool}

theorem emits_writeTypeConversion (actualType expectedType : Typ) :
    Emits True (fun v => [v]) (fun v => [v]) (writeTypeConversion r actualType expectedType) := by
  unfold writeTypeConversion
  dsimp only
  split_ifs
  · exact emits_pure _
  · exact emits_throw _
  · exact emits_onTop fun _ _ => rfl
  · exact (Emits.bind (emits_onTop fun _ _ => rfl) fun _ => emits_onTop fun _ _ => rfl).congr
      and_self_iff
  · exact emits_throw _
  · exact emits_writeUnbox expectedType
  · exact emits_throw _
  · exact emits_pure _
  · exact emits_onTop fun _ _ => rfl

theorem emits_writeSafeTypeConversion (actualType expectedType : Typ) :
    Emits True (fun v => [v]) (fun v => [v])
      (writeSafeTypeConversion r actualType expectedType) := by
  unfold writeSafeTypeConversion
  split_ifs
  · exact emits_pure _
  · exact emits_writeTypeConversion actualType expectedType

theorem emits_loadConverted (hcast : ∀ t, CastsTop (duckCastParameterFunc t))
    (idx localTargetArg : ℕ) (outerElement innerElement : Typ) :
    Emits (idx + 1 < 256 ∧ localTargetArg < 256) (fun _ => []) (fun _ => [.address localTargetArg])
      (loadConverted r duckCastParameterFunc needsDuckChainingFunc idx localTargetArg outerElement
        innerElement) := by
  -- from the value behind the reference on, whichever way it was cast
  have htail : Emits (localTargetArg < 256) (fun v => [v]) (fun _ => [.address localTargetArg])
      (do
        writeSafeTypeConversion r outerElement innerElement
        writeStoreLocal localTargetArg
        emitOp (.ldlocaS localTargetArg)) := by
    refine (Emits.bind (emits_writeSafeTypeConversion outerElement innerElement) fun _ =>
      Emits.bind (emits_writeStoreLocal localTargetArg) fun _ =>
        emits_ldlocaS localTargetArg).congr ?_
    rw [true_and, and_self]
  unfold loadConverted
  refine (Emits.bind (emits_writeLoadArgument idx false) fun _ =>
    Emits.opThen (fun _ => [.argument (idx + 1)]) (fun _ => .op fun _ => rfl)
      fun _ => (?_ : Emits (localTargetArg < 256) _ _ _)).congr (by simp)
  refine Emits.at ?_ _
  split
  · exact emits_duckCastUnlessNull_bind (hcast innerElement) fun _ => htail
  · exact htail

theorem pushes_loadRef (hcast : ∀ t, CastsTop (duckCastParameterFunc t)) (idx : ℕ)
    (outerParamType innerParamType : Typ) :
    Pushes (fun n => idx + 1 < 256 ∧ n < 256) .address 1
      (fun n data => data.localIndex = n ∧ data.proxyArgumentIndex = idx)
      (loadRef r duckCastParameterFunc needsDuckChainingFunc idx outerParamType
        innerParamType) := by
  unfold loadRef
  split
  · refine (Writes.bind (writes_declareLocal _) fun l =>
      Writes.bind (emits_loadConverted hcast idx l _ _) fun _ => writes_pure _).mono ?_
    rintro n a n' _ ⟨l, n₁, _, _, ⟨rfl, rfl, rfl⟩,
      ⟨u, n₂, code, _, ⟨rfl, hcode⟩, ⟨rfl, rfl, rfl⟩, rfl⟩, rfl⟩
    refine ⟨rfl, ?_, rfl, rfl⟩
    rw [List.nil_append, List.append_nil]
    exact hcode .null
  · exact writes_throw _

theorem emits_loadValue (hcast : ∀ t, CastsTop (duckCastParameterFunc t)) (idx : ℕ)
    (outerParamType innerParamType : Typ) :
    Emits (idx + 1 < 256) (fun _ => []) (fun _ => [.argument (idx + 1)])
      (loadValue r duckCastParameterFunc needsDuckChainingFunc idx outerParamType
        innerParamType) := by
  have htail : ∀ t : Typ, Emits True (fun v => [v]) (fun v => [v])
      (do
        writeSafeTypeConversion r outerParamType t
        pure t) := fun t =>
    (Emits.bind (emits_writeSafeTypeConversion outerParamType t) fun _ => emits_pure t).congr
      and_self_iff
  have hload := @emits_writeLoadArgument Typ idx false
  unfold loadValue
  refine (Emits.bind hload fun _ =>
    (?_ : Emits True (fun _ => [.argument (idx + 1)]) _ _)).congr (by simp)
  dsimp only
  by_cases hduck : needsDuckChainingFunc innerParamType outerParamType = true
  · rw [if_pos hduck]
    exact Emits.at_self ((Emits.bind (hcast innerParamType).emits fun _ => htail _).congr
      and_self_iff) _
  · rw [if_neg hduck]
    exact Emits.at_self (htail _) _

/-! ### The loop over the parameters -/

/-- How a parameter is passed: as the proxy's own argument, or as the address of a local that the
target writes to, with a value to start from or without. -/
inductive Passing
  | argument
  | output
  | ref
  deriving DecidableEq, Repr

variable (r) in
def passing (outerParamInfo innerParamInfo : ParameterInfo Typ) : Passing :=
  if outerParamInfo.isOut then
    if outerParamInfo.parameterType != innerParamInfo.parameterType then .output else .argument
  else if r.isByRef outerParamInfo.parameterType then
    if outerParamInfo.parameterType != innerParamInfo.parameterType then .ref else .argument
  else .argument

def Passing.locals : Passing → ℕ
  | .argument => 0
  | .output | .ref => 1

/-- The value passed as parameter `idx`, when `n` locals are declared. -/
def Passing.value (idx n : ℕ) : Passing → StackValue
  | .argument => .argument (idx + 1)
  | .output | .ref => .address n

/-- The operands fit the short forms that are emitted for parameter `idx`. -/
def Passing.Fits (idx n : ℕ) : Passing → Prop
  | .argument => idx + 1 < 256
  | .output => n < 256
  | .ref => idx + 1 < 256 ∧ n < 256

/-- What is recorded, to be written back, for parameter `idx`. -/
def Passing.Records (idx n : ℕ) (data : Option (OutputAndRefParameterData Typ)) : Passing → Prop
  | .argument => data = none
  | .output | .ref => ∃ d, data = some d ∧ d.localIndex = n ∧ d.proxyArgumentIndex = idx

omit [DecidableEq Typ] in
theorem pushes_argument {idx : ℕ} {m : Emitter Typ α} (type : α → Typ)
    (h : Emits (idx + 1 < 256) (fun _ => []) (fun _ => [.argument (idx + 1)]) m) :
    Pushes (fun n => Passing.argument.Fits idx n) (fun n => Passing.argument.value idx n)
      Passing.argument.locals (fun n a => Passing.argument.Records idx n a.1)
      (m >>= fun c => pure ((none : Option (OutputAndRefParameterData Typ)), type c)) := by
  refine (Writes.bind h fun c => writes_pure _).mono ?_
  rintro n a n' _ ⟨c, n₁, code, _, ⟨rfl, hcode⟩, ⟨rfl, rfl, rfl⟩, rfl⟩
  refine ⟨rfl, ?_, rfl⟩
  rw [List.append_nil]
  exact hcode .null

omit [DecidableEq Typ] in
theorem pushes_local {ok : ℕ → Prop} {idx : ℕ} {t : Typ}
    {m : Emitter Typ (OutputAndRefParameterData Typ)}
    (h : Pushes ok .address 1
      (fun n data => data.localIndex = n ∧ data.proxyArgumentIndex = idx) m) :
    Pushes ok .address 1
      (fun n a => ∃ d, a.1 = some d ∧ d.localIndex = n ∧ d.proxyArgumentIndex = idx)
      (m >>= fun data => pure (some data, t)) := by
  refine (Writes.bind h fun data => writes_pure _).mono ?_
  rintro n a n' _ ⟨data, n₁, code, _, ⟨rfl, hcode, hdata⟩, ⟨rfl, rfl, rfl⟩, rfl⟩
  refine ⟨rfl, ?_, data, rfl, hdata⟩
  rw [List.append_nil]
  exact hcode

variable (outerMethod innerMethod : MethodInfo Typ) (outerMethodGenericArguments : List Typ)

theorem pushes_loadArgument (hcast : ∀ t, CastsTop (duckCastParameterFunc t)) (idx : ℕ)
    (outerParamInfo innerParamInfo : ParameterInfo Typ) :
    Pushes (fun n => (passing r outerParamInfo innerParamInfo).Fits idx n)
      (fun n => (passing r outerParamInfo innerParamInfo).value idx n)
      (passing r outerParamInfo innerParamInfo).locals
      (fun n a => (passing r outerParamInfo innerParamInfo).Records idx n a.1)
      (loadArgument r duckCastParameterFunc needsDuckChainingFunc outerMethod innerMethod
        outerMethodGenericArguments idx outerParamInfo innerParamInfo) := by
  have hvalue : Pushes (Passing.argument.Fits idx) (Passing.argument.value idx) 0
      (fun n a => Passing.argument.Records idx n a.1)
      (do
        writeLoadArgument idx false
        pure ((none : Option (OutputAndRefParameterData Typ)), innerParamInfo.parameterType)) :=
    pushes_argument (fun _ => innerParamInfo.parameterType) (emits_writeLoadArgument idx false)
  unfold loadArgument passing
  dsimp only
  by_cases hdir : (outerParamInfo.isOut != innerParamInfo.isOut ||
      outerParamInfo.isIn != innerParamInfo.isIn) = true
  · rw [if_pos hdir]
    exact writes_throw _
  by_cases hbyRef : (r.isByRef outerParamInfo.parameterType !=
      r.isByRef innerParamInfo.parameterType) = true
  · rw [if_neg hdir, if_pos hbyRef]
    exact writes_throw _
  by_cases hgen : (r.isGenericParameter outerParamInfo.parameterType !=
      r.isGenericParameter innerParamInfo.parameterType &&
        decide (0 < outerMethodGenericArguments.length)) = true
  · rw [if_neg hdir, if_neg hbyRef, if_pos hgen]
    exact writes_throw _
  rw [if_neg hdir, if_neg hbyRef, if_neg hgen]
  by_cases hout : outerParamInfo.isOut = true
  · rw [if_pos hout, if_pos hout]
    by_cases hne : (outerParamInfo.parameterType != innerParamInfo.parameterType) = true
    · rw [if_pos hne, if_pos hne]
      exact pushes_local (pushes_loadOutput idx _ _)
    · rw [if_neg hne, if_neg hne]
      exact hvalue
  rw [if_neg hout, if_neg hout]
  by_cases href : r.isByRef outerParamInfo.parameterType = true
  · rw [if_pos href, if_pos href]
    by_cases hne : (outerParamInfo.parameterType != innerParamInfo.parameterType) = true
    · rw [if_pos hne, if_pos hne]
      exact pushes_local (pushes_loadRef hcast idx _ _)
    · rw [if_neg hne, if_neg hne]
      exact hvalue
  · rw [if_neg href, if_neg href]
    exact pushes_argument (fun type => type) (emits_loadValue hcast idx _ _)

variable (r) in
/-- The values pushed from parameter `idx` on, when `n` locals are declared: one for each
parameter that both sides have. -/
def pushedValues : ℕ → ℕ → List (ParameterInfo Typ) → List (ParameterInfo Typ) → List StackValue
  | idx, n, outerParamInfo :: outer, innerParamInfo :: inner =>
    (passing r outerParamInfo innerParamInfo).value idx n ::
      pushedValues (idx + 1) (n + (passing r outerParamInfo innerParamInfo).locals) outer inner
  | _, _, _, _ => []

variable (r) in
/-- No argument and no local that is loaded or stored has a number over 255. -/
def OperandsFit : ℕ → ℕ → List (ParameterInfo Typ) → List (ParameterInfo Typ) → Prop
  | idx, n, outerParamInfo :: outer, innerParamInfo :: inner =>
    (passing r outerParamInfo innerParamInfo).Fits idx n ∧
      OperandsFit (idx + 1) (n + (passing r outerParamInfo innerParamInfo).locals) outer inner
  | _, _, _, _ => True

/-- The value stands for parameter `idx`: it comes from the proxy's argument, or it is the address
of the local recorded for the parameter. -/
def StandsFor (data : List (OutputAndRefParameterData Typ)) (idx : ℕ) (v : StackValue) : Prop :=
  v = .argument (idx + 1) ∨ ∃ d ∈ data, d.proxyArgumentIndex = idx ∧ v = .address d.localIndex

omit [DecidableEq Typ] in
theorem StandsFor.mono {data data' : List (OutputAndRefParameterData Typ)} {idx : ℕ}
    {v : StackValue} (h : StandsFor data idx v) (hsub : data ⊆ data') : StandsFor data' idx v := by
  obtain h | ⟨d, hd, h⟩ := h
  · exact .inl h
  · exact .inr ⟨d, hsub hd, h⟩

omit [DecidableEq Typ] in
theorem Passing.Records.standsFor {p : Passing} {idx n : ℕ}
    {datum : Option (OutputAndRefParameterData Typ)} (h : p.Records idx n datum) :
    StandsFor datum.toList idx (p.value idx n) := by
  cases p with
  | argument => exact .inl rfl
  | output | ref =>
    obtain ⟨d, rfl, rfl, rfl⟩ := h
    exact .inr ⟨d, List.mem_cons_self, rfl, rfl⟩

@[simp] theorem pushedValues_nil (idx n : ℕ) (inner : List (ParameterInfo Typ)) :
    pushedValues r idx n [] inner = [] := by
  cases inner <;> rfl

theorem length_pushedValues (idx n : ℕ) (outer inner : List (ParameterInfo Typ)) :
    (pushedValues r idx n outer inner).length = min outer.length inner.length := by
  induction outer generalizing idx n inner with
  | nil => simp
  | cons o outer ih =>
    cases inner with
    | nil => rfl
    | cons i inner =>
      rw [pushedValues, List.length_cons, ih, List.length_cons, List.length_cons]
      omega

/-- What the loop does where it returns: the target has all the proxy's parameters, and the values
of these, and of no others, are pushed in order. -/
structure Loaded (r : Reflection Typ) (idx n : ℕ) (outer inner : List (ParameterInfo Typ))
    (a : List (OutputAndRefParameterData Typ) × List Typ)
    (code : List (Instr (OpCode Typ))) : Prop where
  outer_le : outer.length ≤ inner.length
  types : a.2.length = inner.length
  block : Block effect (OperandsFit r idx n outer inner) code []
    (pushedValues r idx n outer inner).reverse
  standsFor : ∀ j v, (pushedValues r idx n outer inner)[j]? = some v → StandsFor a.1 (idx + j) v

theorem loaded_loadArguments (hcast : ∀ t, CastsTop (duckCastParameterFunc t)) (idx : ℕ)
    (outer inner : List (ParameterInfo Typ)) :
    Writes (loadArguments r duckCastParameterFunc needsDuckChainingFunc outerMethod innerMethod
        outerMethodGenericArguments idx outer inner) fun n a _ code =>
      Loaded r idx n outer inner a code := by
  induction inner generalizing idx outer with
  | nil =>
    cases outer with
    | nil =>
      rw [loadArguments]
      refine (writes_pure _).mono ?_
      rintro n a n' _ ⟨rfl, rfl, rfl⟩
      exact ⟨Nat.le_refl _, rfl, .nil, fun j v h => by cases h⟩
    | cons o outer =>
      rw [loadArguments]
      exact writes_throw _
  | cons i inner ih =>
    cases outer with
    | nil =>
      rw [loadArguments]
      split
      · exact writes_throw _
      · -- a parameter that the proxy lacks: nothing is emitted for it
        refine (Writes.bind (ih (idx + 1) []) fun a => writes_pure _).mono ?_
        rintro n b n'' _ ⟨a, n', code, _, h, ⟨rfl, rfl, rfl⟩, rfl⟩
        refine ⟨Nat.zero_le _, congrArg (· + 1) h.types, ?_, fun j v hj => by simp at hj⟩
        rw [List.append_nil]
        have hblock := h.block
        rw [pushedValues_nil] at hblock ⊢
        refine hblock.congr ?_
        cases inner <;> exact Iff.rfl
    | cons o outer =>
      rw [loadArguments]
      refine (Writes.bind (pushes_loadArgument outerMethod innerMethod outerMethodGenericArguments
        hcast idx o i) fun c => Writes.bind (ih (idx + 1) outer) fun a => writes_pure _).mono ?_
      rintro n b n₃ _ ⟨c, n₁, code₁, _, ⟨rfl, hblock, hrec⟩,
        ⟨a, n₂, code₂, _, h, ⟨rfl, rfl, rfl⟩, rfl⟩, rfl⟩
      refine ⟨Nat.succ_le_succ h.outer_le, congrArg (· + 1) h.types, ?_, ?_⟩
      · rw [List.append_nil, pushedValues, List.reverse_cons]
        exact hblock.append (h.block.frame _)
      · intro j v hj
        rw [pushedValues] at hj
        cases j with
        | zero =>
          cases Option.some.inj hj
          exact hrec.standsFor.mono (List.subset_append_left _ _)
        | succ j =>
          rw [List.getElem?_cons_succ] at hj
          have := (h.standsFor j v hj).mono (List.subset_append_right c.1.toList a.1)
          rwa [Nat.add_right_comm, Nat.add_assoc] at this

/-! ### The target and its instance -/

/-- The values below the arguments. -/
def instanceValues (targetMethod : MethodInfo Typ) : List StackValue :=
  if targetMethod.isStatic then [] else [.currentInstance]

omit [DecidableEq Typ] in
theorem emits_initialiseProxyMethod (targetMethod : MethodInfo Typ) (instanceFieldType : Typ) :
    Emits True (fun _ => []) (fun _ => instanceValues targetMethod)
      (initialiseProxyMethod r targetMethod instanceFieldType) := by
  unfold initialiseProxyMethod instanceValues
  split
  · exact emits_pure _
  · refine (Emits.opThen (fun _ => [.argument 0]) (fun _ => .op fun _ => rfl) fun _ =>
      emits_op fun _ => ?_).congr and_self_iff
    split
    · exact .op fun _ => rfl
    · exact .op fun _ => rfl

omit [DecidableEq Typ] in
theorem writes_makeGenericMethod (targetMethod : MethodInfo Typ) (args : List Typ) :
    Writes (makeGenericMethod r targetMethod args) fun n m n' code =>
      r.makeGenericMethod targetMethod args = some m ∧ n' = n ∧ code = [] := by
  unfold makeGenericMethod
  split
  · rename_i m hm
    refine (writes_pure m).mono ?_
    rintro n a n' _ ⟨rfl, rfl, rfl⟩
    exact ⟨hm, rfl, rfl⟩
  · exact writes_throw _

theorem writes_targetOf (targetType : Typ) (proxyMethodDefinition : MethodInfo Typ)
    (allTargetMethods : List (MethodInfo Typ)) :
    Writes (targetOf r targetType proxyMethodDefinition allTargetMethods) fun n _ n' code =>
      n' = n ∧ code = [] := by
  unfold targetOf
  repeat' split
  all_goals first
    | exact writes_throw _
    | exact (writes_pure _).mono fun _ _ _ _ h => h.2
    | exact (writes_makeGenericMethod _ _).mono fun _ _ _ _ h => h.2

theorem writes_loadMethod (targetType instanceFieldType : Typ)
    (proxyMethodDefinition : MethodInfo Typ) (allTargetMethods : List (MethodInfo Typ)) :
    Writes (loadMethod r targetType instanceFieldType proxyMethodDefinition allTargetMethods)
      fun n a _ code => ∃ code₁ code₂, code = code₁ ++ code₂ ∧
        Block effect True code₁ [] (instanceValues a.1) ∧
        Loaded r 0 n proxyMethodDefinition.parameters a.1.parameters a.2 code₂ := by
  refine (Writes.bind (writes_targetOf _ _ _) fun targetMethod =>
    Writes.bind (emits_initialiseProxyMethod targetMethod instanceFieldType) fun _ =>
      Writes.bind (loaded_loadArguments proxyMethodDefinition targetMethod
        proxyMethodDefinition.genericArguments (castsTop_addIlToExtractDuckType r) 0
        proxyMethodDefinition.parameters targetMethod.parameters) fun _ => writes_pure _).mono ?_
  rintro n a n₄ _ ⟨targetMethod, n₁, _, _, ⟨rfl, rfl⟩, ⟨_, n₂, code₁, _, ⟨rfl, h₁⟩,
    ⟨loaded, n₃, code₂, _, h₂, ⟨rfl, rfl, rfl⟩, rfl⟩, rfl⟩, rfl⟩
  refine ⟨code₁, code₂, ?_, h₁ .null, h₂⟩
  rw [List.nil_append, List.append_nil]

/-! ### The call -/

/-- The code of a call that takes the `arguments` values of the target method. -/
def callCode (kind : CallKind) (arguments : ℕ) (returns : Bool) : List (Instr (OpCode Typ)) :=
  match kind with
  | .direct => [.op (.call arguments returns)]
  | .calli => [.op .ldcI8, .op .convI, .op (.call (arguments + 1) returns)]
  | .dynamicMethod => [.op (.call (1 + arguments) returns)]

/-- The values above the arguments. -/
def valuesAbove : CallKind → List StackValue
  | .calli => [.functionPointer]
  | .direct | .dynamicMethod => []

/-- The values below the instance. -/
def valuesBelow : CallKind → List StackValue
  | .dynamicMethod => [.delegate]
  | .direct | .calli => []

/-- All that a call takes was pushed, and nothing else. -/
def Consumed (s : List StackValue) : Prop := s = [] ∨ s = [.result]

section Call

omit [DecidableEq Typ]

variable {before : List (Instr (OpCode Typ))} {values inst : List StackValue} {kind : CallKind}
  {arguments : ℕ} {returns : Bool}

theorem everyPath_dropLast_callCode {Q : List StackValue → Prop} {s : List StackValue}
    (h : Block effect ok before [] s) :
    EveryPath effect Q (before ++ callCode kind arguments returns).dropLast [] ↔
      ok ∧ Q (valuesAbove kind ++ s) := by
  have hlast : (before ++ @callCode Typ kind arguments returns).dropLast =
      before ++ (callCode kind arguments returns).dropLast := by
    cases kind <;> exact List.dropLast_append_of_ne_nil (by simp [callCode])
  have habove : Block effect True (@callCode Typ kind arguments returns).dropLast []
      (valuesAbove kind) := by
    cases kind with
    | direct => exact .nil
    | dynamicMethod => exact .nil
    | calli =>
      have hload : Block (@effect Typ) True [.op .ldcI8] [] [.functionPointer] :=
        .op fun _ => rfl
      exact (hload.append (.op fun _ => rfl)).congr and_self_iff
  rw [hlast, (h.append (habove.frame s)).everyPath_iff, and_true]

/-- A call that finds exactly its values leaves its result alone. -/
theorem everyPath_callCode {s : List StackValue} (h : Block effect ok before [] s) (hok : ok)
    (hlen : s.length = arguments + (valuesBelow kind).length) :
    EveryPath effect Consumed (before ++ callCode kind arguments returns) [] := by
  have hcall : ∀ (n : ℕ) (t : List StackValue), t.length = n →
      EveryPath (@effect Typ) Consumed [.op (.call n returns)] t := by
    intro n t ht
    have heffect : @effect Typ (.call n returns) t =
        some (if returns then [.result] else []) := by
      simp only [effect]
      rw [if_pos (by omega), List.drop_eq_nil_of_le (by omega), List.append_nil]
    refine .op heffect (.nil ?_)
    cases returns
    · exact .inl rfl
    · exact .inr rfl
  have hrun := h Consumed (callCode kind arguments returns) []
  simp only [List.append_nil] at hrun
  refine hrun.2 ⟨hok, ?_⟩
  cases kind with
  | direct => exact hcall _ _ hlen
  | dynamicMethod => exact hcall _ _ (by rw [hlen]; exact Nat.add_comm _ _)
  | calli => exact .op rfl (.op rfl (hcall _ _ (by rw [List.length_cons, hlen]; rfl)))

end Call

/-- What stands on the stack before the call: the instance, if there is one, and one value for
each parameter of the target, in order. -/
def Pushed (call : ProxyCall Typ) (s : List StackValue) : Prop :=
  ∃ args : List StackValue, args.length = call.targetMethod.parameters.length ∧
    (∀ j v, args[j]? = some v → StandsFor call.outputAndRefParameters j v) ∧
    s = valuesAbove call.kind ++ (args.reverse ++ instanceValues call.targetMethod ++
      valuesBelow call.kind)

/-- The same for the target's call in a dynamic method, whose arguments are the instance, if there
is one, and the target's. -/
def DynamicPushed (targetMethod : MethodInfo Typ) (s : List StackValue) : Prop :=
  ∃ above inst : List StackValue,
    above = (if targetMethod.containsGenericParameters then [.functionPointer] else []) ∧
    (if targetMethod.isStatic then inst = [] else inst = [.argument 0] ∨ inst = [.address 0]) ∧
    s = above ++ ((List.range' (if targetMethod.isStatic then 0 else 1)
      targetMethod.parameters.length).map .argument).reverse ++ inst

/-- The call of the target takes exactly what the code before it pushed, in the proxy and in the
dynamic method, if there is one. -/
structure StackBalanced (call : ProxyCall Typ) (il : LazyILGenerator Typ) : Prop where
  pushed : EveryPath effect (Pushed call) il.instructions.dropLast []
  consumed : EveryPath effect Consumed il.instructions []
  dynamicPushed : ∀ dynMethod ∈ call.dynMethod,
    EveryPath effect (DynamicPushed call.targetMethod) dynMethod.throughCall.dropLast []
  dynamicConsumed : ∀ dynMethod ∈ call.dynMethod, EveryPath effect Consumed dynMethod.throughCall []

omit [DecidableEq Typ] in
theorem pushed_iff {call : ProxyCall Typ} {values : List StackValue}
    (h : ∀ j v, values[j]? = some v → StandsFor call.outputAndRefParameters j v) :
    Pushed call (valuesAbove call.kind ++ (values.reverse ++ instanceValues call.targetMethod ++
        valuesBelow call.kind)) ↔ values.length = call.targetMethod.parameters.length := by
  constructor
  · rintro ⟨args, hlen, -, heq⟩
    rw [List.append_cancel_left_eq, List.append_cancel_right_eq, List.append_cancel_right_eq,
      List.reverse_inj] at heq
    rw [heq, hlen]
  · intro hlen
    exact ⟨values, hlen, h, rfl⟩

omit [DecidableEq Typ] in
/-- Balance of the proxy's own code, from the block before the call. -/
theorem proxy_balanced_iff (call : ProxyCall Typ) (returns : Bool)
    {before : List (Instr (OpCode Typ))} {values : List StackValue}
    (hbefore : Block effect ok before [] (values.reverse ++ instanceValues call.targetMethod ++
      valuesBelow call.kind))
    (h : ∀ j v, values[j]? = some v → StandsFor call.outputAndRefParameters j v) :
    (EveryPath effect (Pushed call)
        (before ++ callCode call.kind (callArguments call.targetMethod) returns).dropLast [] ∧
      EveryPath effect Consumed
        (before ++ callCode call.kind (callArguments call.targetMethod) returns) []) ↔
      ok ∧ values.length = call.targetMethod.parameters.length := by
  rw [everyPath_dropLast_callCode hbefore, pushed_iff h]
  constructor
  · exact fun h => h.1
  · rintro ⟨hok, hlen⟩
    refine ⟨⟨hok, hlen⟩, everyPath_callCode hbefore hok ?_⟩
    simp only [List.length_append, List.length_reverse, hlen, callArguments, instanceValues]
    split
    · simp
    · simp [Nat.add_comm]

/-! ### A direct call -/

theorem writes_emitCall (targetMethod : MethodInfo Typ) :
    Writes (emitCall r targetMethod) fun n _ n' code => n' = n ∧
      code = callCode .direct (callArguments targetMethod) (targetMethod.returnType != r.void) :=
  writes_emit _

theorem writes_writeMethodCalli (targetMethod : MethodInfo Typ) :
    Writes (writeMethodCalli r targetMethod) fun n _ n' code => n' = n ∧
      code = callCode .calli (callArguments targetMethod) (targetMethod.returnType != r.void) :=
  .seq (writes_emit _) fun _ => .seq (writes_emit _) fun _ => writes_emit _

/-- The method called takes the values of the one whose arguments were loaded, of which it may be
an instance. -/
theorem writes_addIlForDirectMethodCall (targetMethod : MethodInfo Typ) (args : List Typ) :
    Writes (addIlForDirectMethodCall r targetMethod args) fun n a n' code => n' = n ∧
      a.2 ≠ .dynamicMethod ∧
      ∃ returns, code = callCode a.2 (callArguments targetMethod) returns := by
  have htarget : Writes (if 0 < args.length then makeGenericMethod r targetMethod args
      else pure targetMethod) fun n m n' code =>
        callArguments m = callArguments targetMethod ∧ n' = n ∧ code = [] := by
    split
    · refine (writes_makeGenericMethod targetMethod args).mono ?_
      rintro n m n' _ ⟨hm, rfl, rfl⟩
      obtain ⟨hlen, hstatic⟩ := r.makeGenericMethod_shape targetMethod args m hm
      exact ⟨by rw [callArguments, callArguments, hlen, hstatic], rfl, rfl⟩
    · refine (writes_pure targetMethod).mono ?_
      rintro n m n' _ ⟨rfl, rfl, rfl⟩
      exact ⟨rfl, rfl, rfl⟩
  have hcall : ∀ m, Writes (if (m.isPublic || m.isGenericMethod) = true then do
        emitCall r m
        pure (m, CallKind.direct)
      else do
        writeMethodCalli r m
        pure (m, CallKind.calli)) fun n a n' code => n' = n ∧ a.2 ≠ .dynamicMethod ∧
          ∃ returns, code = callCode a.2 (callArguments m) returns := by
    intro m
    split
    · refine (Writes.bind (writes_emitCall m) fun _ => writes_pure _).mono ?_
      rintro n a n' _ ⟨_, n₁, _, _, ⟨rfl, rfl⟩, ⟨rfl, rfl, rfl⟩, rfl⟩
      exact ⟨rfl, by simp, _, List.append_nil _⟩
    · refine (Writes.bind (writes_writeMethodCalli m) fun _ => writes_pure _).mono ?_
      rintro n a n' _ ⟨_, n₁, _, _, ⟨rfl, rfl⟩, ⟨rfl, rfl, rfl⟩, rfl⟩
      exact ⟨rfl, by simp, _, List.append_nil _⟩
  unfold addIlForDirectMethodCall
  refine (Writes.bind htarget hcall).mono ?_
  rintro n a n' _ ⟨m, n₁, _, _, ⟨harg, rfl, rfl⟩, ⟨rfl, hkind, returns, rfl⟩, rfl⟩
  exact ⟨rfl, hkind, returns, by rw [harg]; rfl⟩

/-! ### A call through a dynamic method -/

/-- The instance, which is cast to the declaring type, or unboxed into a local. -/
theorem writes_loadInstanceArgument (actualType expectedType : Typ) :
    Writes (loadInstanceArgument r actualType expectedType) fun _ _ _ code =>
      ∃ v, (v = .argument 0 ∨ v = .address 0) ∧ Block effect True code [] [v] := by
  have hload : Emits True (fun _ => []) (fun _ => [.argument 0])
      (emitOp (.ldarg 0) : Emitter Typ Unit) := emits_op fun _ => .op fun _ => rfl
  have hunbox : Emits True (fun v => [v]) (fun _ => [.address 0])
      (do
        emitOp (.unboxAny expectedType)
        emitOp (.stloc 0)
        emitOp (.ldlocaS 0) : Emitter Typ Unit) := by
    refine (Emits.opThen (fun v => [v]) (fun _ => .op fun _ => rfl) fun _ =>
      Emits.opThen (fun _ => []) (fun _ => .op fun _ => rfl) fun _ =>
        emits_op fun _ => .op fun _ => rfl).congr ?_
    rw [and_self, and_self]
  unfold loadInstanceArgument
  split_ifs with heq hvalue
  · refine (Emits.bind hload fun _ => emits_pure ()).mono ?_
    rintro n _ n' code ⟨rfl, hcode⟩
    exact ⟨_, .inl rfl, (hcode .null).congr and_self_iff⟩
  · refine (Writes.bind hload fun _ => Writes.bind (writes_declareLocal _) fun _ => hunbox).mono ?_
    rintro n _ n' _ ⟨_, n₁, code, _, ⟨rfl, hcode⟩,
      ⟨_, n₂, _, code', ⟨-, rfl, rfl⟩, ⟨rfl, hcode'⟩, rfl⟩, rfl⟩
    refine ⟨_, .inr rfl, ?_⟩
    exact ((hcode .null).append (hcode' _)).congr and_self_iff
  · refine (Emits.bind hload fun _ => (emits_onTop fun _ _ => rfl).at_self _).mono ?_
    rintro n _ n' code ⟨rfl, hcode⟩
    exact ⟨_, .inl rfl, (hcode .null).congr and_self_iff⟩

theorem emits_loadDynamicArguments (idx : ℕ) (dynParameters targetParameters : List Typ)
    (hlen : dynParameters.length = targetParameters.length) :
    Emits (∀ j < targetParameters.length, idx + j < 256) (fun _ => [])
      (fun _ => ((List.range' idx targetParameters.length).map .argument).reverse)
      (loadDynamicArguments r idx dynParameters targetParameters) := by
  induction targetParameters generalizing idx dynParameters with
  | nil =>
    cases dynParameters with
    | nil =>
      rw [loadDynamicArguments]
      · exact (emits_pure _).congr (by simp)
      · simp
    | cons d dynParameters => cases hlen
  | cons t targetParameters ih =>
    cases dynParameters with
    | nil => cases hlen
    | cons d dynParameters =>
      have hload := @emits_writeLoadArgument Typ idx true
      have hconv := (emits_writeSafeTypeConversion (r := r) d t).at_self (.argument idx)
      have hrest := ih (idx + 1) dynParameters (Nat.succ.inj hlen)
      rw [loadDynamicArguments]
      refine Writes.mono (Writes.bind hload fun _ => Writes.bind hconv fun _ => hrest) ?_
      rintro n _ n' _ ⟨_, n₁, code₁, _, ⟨rfl, h₁⟩,
        ⟨_, n₂, code₂, code₃, ⟨rfl, h₂⟩, ⟨rfl, h₃⟩, rfl⟩, rfl⟩
      refine ⟨rfl, fun v => ?_⟩
      rw [List.length_cons, List.range'_succ, List.map_cons, List.reverse_cons]
      refine ((h₁ v).append ((h₂ v).append ((h₃ v).frame [.argument idx]))).congr ?_
      constructor
      · rintro ⟨h0, -, hj⟩ j hjlt
        cases j with
        | zero => exact h0
        | succ j => exact Nat.add_right_comm idx 1 j ▸ hj j (Nat.lt_of_succ_lt_succ hjlt)
      · intro hj
        refine ⟨hj 0 (Nat.succ_pos _), trivial, fun j hjlt => ?_⟩
        have := hj (j + 1) (Nat.succ_lt_succ hjlt)
        omega

/-- How a dynamic method calls the target. -/
def dynamicKind (targetMethod : MethodInfo Typ) : CallKind :=
  if targetMethod.containsGenericParameters then .calli else .direct

/-- The index of the first argument of the target in a dynamic method. -/
def firstArgument (targetMethod : MethodInfo Typ) : ℕ := if targetMethod.isStatic then 0 else 1

/-- The code of a dynamic method up to the call, when it is the block `before` and the call. -/
structure DynamicCode (targetMethod : MethodInfo Typ) (code before : List (Instr (OpCode Typ)))
    (inst : List StackValue) (returns : Bool) : Prop where
  eq : code = before ++ callCode (dynamicKind targetMethod) (callArguments targetMethod) returns
  inst_eq : if targetMethod.isStatic then inst = [] else inst = [.argument 0] ∨ inst = [.address 0]
  block : Block effect (∀ j < targetMethod.parameters.length, firstArgument targetMethod + j < 256)
    before [] (((List.range' (firstArgument targetMethod) targetMethod.parameters.length).map
      .argument).reverse ++ inst)

theorem writes_dynamicMethodCall (targetMethod : MethodInfo Typ) (types : List Typ)
    (hlen : types.length = targetMethod.parameters.length) :
    Writes (dynamicMethodCall r targetMethod types) fun _ _ _ code =>
      ∃ before inst returns, DynamicCode targetMethod code before inst returns := by
  have hinst : Writes (if (!targetMethod.isStatic) = true then
        loadInstanceArgument r r.object targetMethod.declaringType else pure ())
      fun _ _ _ code => ∃ inst, (if targetMethod.isStatic then inst = []
        else inst = [.argument 0] ∨ inst = [.address 0]) ∧ Block effect True code [] inst := by
    by_cases h : targetMethod.isStatic = true
    · rw [if_neg (by simp [h])]
      refine (writes_pure ()).mono ?_
      rintro n _ n' _ ⟨-, -, rfl⟩
      exact ⟨[], by rw [if_pos h], .nil⟩
    · rw [if_pos (by simp [h])]
      refine (writes_loadInstanceArgument _ _).mono ?_
      rintro n _ n' code ⟨v, hv, hcode⟩
      refine ⟨[v], ?_, hcode⟩
      rw [if_neg h]
      exact hv.imp (fun h => by rw [h]) fun h => by rw [h]
  have hcall : Writes (if (!targetMethod.containsGenericParameters) = true then
        emitCall r targetMethod else writeMethodCalli r targetMethod)
      fun _ _ _ code => ∃ returns,
        code = callCode (dynamicKind targetMethod) (callArguments targetMethod) returns := by
    unfold dynamicKind
    by_cases h : targetMethod.containsGenericParameters = true
    · rw [if_neg (by simp [h]), if_pos h]
      exact (writes_writeMethodCalli targetMethod).mono fun _ _ _ _ h => ⟨_, h.2⟩
    · rw [if_pos (by simp [h]), if_neg h]
      exact (writes_emitCall targetMethod).mono fun _ _ _ _ h => ⟨_, h.2⟩
  have hargs := emits_loadDynamicArguments (r := r) (firstArgument targetMethod) types
    (targetMethod.parameters.map (·.parameterType)) (by rw [hlen, List.length_map])
  rw [List.length_map] at hargs
  unfold dynamicMethodCall
  refine (Writes.bind hinst fun _ => Writes.bind hargs fun _ => hcall).mono ?_
  rintro n _ n' _ ⟨_, n₁, code₁, _, ⟨inst, hinst, h₁⟩,
    ⟨_, n₂, code₂, _, ⟨-, h₂⟩, ⟨returns, rfl⟩, rfl⟩, rfl⟩
  refine ⟨code₁ ++ code₂, inst, returns, by rw [List.append_assoc], hinst, ?_⟩
  exact (h₁.append ((h₂ .null).frame inst)).congr (by rw [true_and])

/-- The dynamic method takes the instance, if there is one, and the target's arguments. -/
theorem runWith_addIlForDynamicMethodCall {targetMethod : MethodInfo Typ} {types : List Typ}
    {il il' : LazyILGenerator Typ} {dynMethod : DynamicMethod Typ}
    (hlen : types.length = targetMethod.parameters.length)
    (hrun : runWith (addIlForDynamicMethodCall r targetMethod types) il = (.ok dynMethod, il')) :
    (∃ before inst returns, DynamicCode targetMethod dynMethod.throughCall before inst returns) ∧
      ∃ returns, il'.instructions = .op .getDelegate :: (il.instructions ++
        callCode .dynamicMethod (callArguments targetMethod) returns) := by
  unfold addIlForDynamicMethodCall at hrun
  dsimp only at hrun
  generalize hret : (if (r.useDirectAccessTo targetMethod.returnType &&
    !r.isGenericParameter targetMethod.returnType) = true then targetMethod.returnType
    else r.object) = returnType at hrun
  generalize hbody : runWith (dynamicMethodBody r targetMethod types returnType) (.new Typ) = body
    at hrun
  obtain ⟨e | throughCall, dynIL⟩ := body
  · rw [runWith_throw] at hrun
    cases hrun
  · obtain ⟨_, il₁, hcall, hend⟩ := runWith_bind_eq_ok.1 hrun
    rw [runWith_pure] at hend
    cases hend
    constructor
    · obtain ⟨_, il₂, hcode, hrest⟩ := runWith_bind_eq_ok.1 hbody
      obtain ⟨_, code, heq, hP⟩ := writes_dynamicMethodCall targetMethod types hlen _ _ _ rfl hcode
      obtain ⟨_, il₃, hget, hconv⟩ := runWith_bind_eq_ok.1 hrest
      rw [runWith_get] at hget
      cases hget
      obtain ⟨_, il₄, -, hpure⟩ := runWith_bind_eq_ok.1 hconv
      rw [runWith_pure] at hpure
      cases hpure
      rw [heq]
      exact hP
    · simp only [writeDynamicMethodCall, setOffset, resetOffset, emitOp, emit, runWith_bind,
        runWith_modify] at hcall
      cases hcall
      refine ⟨returnType != r.void, ?_⟩
      have hparams : (if targetMethod.isStatic = true then types else r.object :: types).length =
          callArguments targetMethod := by
        unfold callArguments
        split
        · rw [hlen, Nat.zero_add]
        · rw [List.length_cons, hlen, Nat.add_comm]
      rw [List.insertIdx_length_self, if_neg (by omega), List.insertIdx_zero]
      simp only [callCode, hparams, List.cons_append]

omit [DecidableEq Typ] in
/-- Balance of a dynamic method: its own loop is over the parameters of the target. -/
theorem dynamic_balanced_iff {targetMethod : MethodInfo Typ}
    {code before : List (Instr (OpCode Typ))} {inst : List StackValue} {returns : Bool}
    (h : DynamicCode targetMethod code before inst returns) :
    (EveryPath effect (DynamicPushed targetMethod) code.dropLast [] ∧
        EveryPath effect Consumed code []) ↔
      ∀ j < targetMethod.parameters.length, firstArgument targetMethod + j < 256 := by
  rw [h.eq, everyPath_dropLast_callCode h.block]
  have hlen : inst.length = if targetMethod.isStatic then 0 else 1 := by
    have hinst := h.inst_eq
    by_cases hstatic : targetMethod.isStatic = true
    · rw [if_pos hstatic] at hinst ⊢
      rw [hinst, List.length_nil]
    · rw [if_neg hstatic] at hinst ⊢
      obtain hinst | hinst := hinst <;> rw [hinst, List.length_singleton]
  constructor
  · exact fun h => h.1.1
  · intro hfit
    refine ⟨⟨hfit, valuesAbove (dynamicKind targetMethod), inst, ?_, h.inst_eq, ?_⟩,
      everyPath_callCode h.block hfit ?_⟩
    · unfold dynamicKind
      split <;> rfl
    · rw [List.append_assoc]
      rfl
    · have hbelow : valuesBelow (dynamicKind targetMethod) = [] := by
        unfold dynamicKind
        split <;> rfl
      rw [hbelow, List.length_append, List.length_reverse, List.length_map, List.length_range',
        hlen]
      exact Nat.add_comm _ _

/-- The stack is balanced exactly when the proxy has as many parameters as the target it calls,
and no number of an argument or a local exceeds the operand of a short form. -/
theorem createMethod_balanced_iff (r : Reflection Typ) (targetType instanceFieldType : Typ)
    (proxyMethodDefinition : MethodInfo Typ) (allTargetMethods : List (MethodInfo Typ))
    (call : ProxyCall Typ) (il : LazyILGenerator Typ)
    (hrun : runWith (createMethod r targetType instanceFieldType proxyMethodDefinition
      allTargetMethods) (.new Typ) = (.ok call, il)) :
    StackBalanced call il ↔
      proxyMethodDefinition.parameters.length = call.targetMethod.parameters.length ∧
      OperandsFit r 0 0 proxyMethodDefinition.parameters call.targetMethod.parameters ∧
      (r.useDirectAccessTo targetType = false →
        ∀ j < call.targetMethod.parameters.length, firstArgument call.targetMethod + j < 256) := by
  obtain ⟨⟨targetMethod, data, types⟩, il₁, hload, hrest⟩ := runWith_bind_eq_ok.1 hrun
  obtain ⟨hend, _, hil₁, code₁, code₂, rfl, hinst, hloaded⟩ :=
    writes_loadMethod _ _ _ _ _ _ _ rfl hload
  -- the block of the instance and of the arguments
  have hbefore : Block effect (OperandsFit r 0 0 proxyMethodDefinition.parameters
      targetMethod.parameters) (code₁ ++ code₂) [] ((pushedValues r 0 0
        proxyMethodDefinition.parameters targetMethod.parameters).reverse ++
          instanceValues targetMethod) :=
    (hinst.append (hloaded.block.frame (instanceValues targetMethod))).congr (by
      rw [true_and]
      rfl)
  have hlength : (pushedValues r 0 0 proxyMethodDefinition.parameters
      targetMethod.parameters).length = proxyMethodDefinition.parameters.length := by
    rw [length_pushedValues]
    exact Nat.min_eq_left hloaded.outer_le
  have hstands : ∀ j v, (pushedValues r 0 0 proxyMethodDefinition.parameters
      targetMethod.parameters)[j]? = some v → StandsFor data j v := by
    intro j v hj
    have := hloaded.standsFor j v hj
    rwa [Nat.zero_add] at this
  dsimp only at hrest
  by_cases hdirect : r.useDirectAccessTo targetType = true
  · rw [if_pos hdirect] at hrest
    obtain ⟨⟨m, kind⟩, il₂, hcall, hpure⟩ := runWith_bind_eq_ok.1 hrest
    obtain ⟨-, _, hil₂, -, hkind, returns, rfl⟩ :=
      writes_addIlForDirectMethodCall _ _ _ _ _ hend hcall
    rw [runWith_pure] at hpure
    cases hpure
    have hbelow : valuesBelow kind = [] := by
      cases kind with
      | dynamicMethod => exact absurd rfl hkind
      | direct | calli => rfl
    have hcode : il.instructions =
        (code₁ ++ code₂) ++ callCode kind (callArguments targetMethod) returns := by
      rw [hil₂, hil₁]
      rfl
    have hbalance := proxy_balanced_iff ⟨targetMethod, data, kind, none⟩ returns
      (by rw [hbelow, List.append_nil]; exact hbefore) hstands
    rw [← hcode, hlength] at hbalance
    constructor
    · intro h
      obtain ⟨hok, hlen⟩ := hbalance.1 ⟨h.pushed, h.consumed⟩
      exact ⟨hlen, hok, fun hdyn => absurd hdirect (by simp [hdyn])⟩
    · rintro ⟨hlen, hok, -⟩
      obtain ⟨hpushed, hconsumed⟩ := hbalance.2 ⟨hok, hlen⟩
      exact ⟨hpushed, hconsumed, fun _ h => (by cases h), fun _ h => (by cases h)⟩
  · rw [if_neg hdirect] at hrest
    split at hrest
    · rw [runWith_throw] at hrest
      cases hrest
    obtain ⟨dynMethod, il₂, hcall, hpure⟩ := runWith_bind_eq_ok.1 hrest
    obtain ⟨⟨before, inst, _, hdynamic⟩, returns, hil₂⟩ :=
      runWith_addIlForDynamicMethodCall hloaded.types hcall
    rw [runWith_pure] at hpure
    cases hpure
    have hcode : il.instructions = (.op .getDelegate :: (code₁ ++ code₂)) ++
        callCode .dynamicMethod (callArguments targetMethod) returns := by
      rw [hil₂, hil₁]
      rfl
    have hdelegate : Block (@effect Typ) True [.op .getDelegate] [] [.delegate] :=
      .op fun _ => rfl
    have hbalance := proxy_balanced_iff
      ⟨targetMethod, data, .dynamicMethod, some dynMethod⟩ returns
      ((hdelegate.append (hbefore.frame [.delegate])).congr (iff_of_eq (true_and _))) hstands
    have hbody := dynamic_balanced_iff hdynamic
    rw [List.singleton_append, ← hcode, hlength] at hbalance
    constructor
    · intro h
      obtain ⟨hok, hlen⟩ := hbalance.1 ⟨h.pushed, h.consumed⟩
      exact ⟨hlen, hok, fun _ =>
        hbody.1 ⟨h.dynamicPushed dynMethod rfl, h.dynamicConsumed dynMethod rfl⟩⟩
    · rintro ⟨hlen, hok, hfit⟩
      obtain ⟨hpushed, hconsumed⟩ := hbalance.2 ⟨hok, hlen⟩
      obtain ⟨hdynPushed, hdynConsumed⟩ := hbody.2 (hfit (by simpa using hdirect))
      refine ⟨hpushed, hconsumed, fun d hd => ?_, fun d hd => ?_⟩
      · cases hd
        exact hdynPushed
      · cases hd
        exact hdynConsumed

/-! ### A target with an optional parameter -/

inductive SampleType
  | object | void | string | iDuckType
  deriving DecidableEq, Repr

/-- A public method `Add` of so many strings, all but the first of them optional. -/
def sampleMethod (parameters : ℕ) : MethodInfo SampleType where
  name := "Add"
  parameters := (List.range parameters).map fun i => ⟨.string, false, false, decide (0 < i)⟩
  returnType := .void
  declaringType := .object
  genericArguments := []
  isStatic := false
  isPublic := true
  isGenericMethod := false
  containsGenericParameters := false
  duckAttribute := none
  hasDuckReverseMethod := false

/-- The reflection over a target type whose only method is `Add` of two strings. -/
def sample : Reflection SampleType where
  isByRef _ := false
  elementType _ := none
  makeByRefType t := t
  isGenericParameter _ := false
  isGenericType _ := false
  isValueType _ := false
  isEnum _ := false
  isClass t := t != .iDuckType
  isAbstract _ := false
  enumUnderlyingType t := t
  isAssignableFrom t t' := decide (t = t' ∨ t = .object)
  toString _ := ""
  fullName _ := none
  name _ := ""
  assemblyName _ := ""
  genericTypeArguments _ := []
  object := .object
  void := .void
  iDuckType := .iDuckType
  inCoreLibrary t := t != .iDuckType
  hasDuckCopy _ := false
  getType _ := none
  getMethod _ _ _ types := if types = [.string, .string] then some (sampleMethod 2) else none
  makeGenericMethod _ _ := none
  makeGenericMethod_shape _ _ _ h := by cases h
  useDirectAccessTo _ := true

def sampleCall : ProxyCall SampleType := ⟨sampleMethod 2, [], .direct, none⟩

/-- For a proxy method without the optional parameter the call takes one value too many. -/
theorem optional_parameter_not_pushed :
    ∃ il, runWith (createMethod sample .object .object (sampleMethod 1) [sampleMethod 2])
        (.new SampleType) = (.ok sampleCall, il) ∧ ¬ StackBalanced sampleCall il := by
  refine ⟨⟨[.op (.ldarg 0), .op .ldfld, .op (.ldarg 1), .op (.call 3 false)], 4, [], 0⟩, rfl, ?_⟩
  intro h
  have hcode := h.consumed
  rw [EveryPath.op_iff rfl, EveryPath.op_iff rfl, EveryPath.op_iff rfl] at hcode
  exact EveryPath.not_op rfl hcode

theorem createMethod_balanced_two :
    StackBalanced sampleCall ⟨[.op (.ldarg 0), .op .ldfld, .op (.ldarg 1), .op (.ldarg 2),
      .op (.call 3 false)], 5, [], 0⟩ := by
  have hrun : runWith (createMethod sample .object .object (sampleMethod 2) [sampleMethod 2])
      (.new SampleType) = (.ok sampleCall, ⟨[.op (.ldarg 0), .op .ldfld, .op (.ldarg 1),
        .op (.ldarg 2), .op (.call 3 false)], 5, [], 0⟩) := rfl
  refine (createMethod_balanced_iff sample .object .object (sampleMethod 2) [sampleMethod 2]
    _ _ hrun).2 ⟨rfl, ?_, fun h => by cases h⟩
  refine ⟨?_, ?_, trivial⟩
  · show 0 + 1 < 256
    decide
  · show 1 + 1 < 256
    decide

end Emitter

end DdTrace.DuckTyping
