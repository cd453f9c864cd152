import DdTrace.DuckTyping.IlTypes
import DdTrace.DuckTyping.StackBalance

/-!
# The types of conversions

`Generates m P` says what code an emitter appends and which locals it declares, `Turns` that the
code turns the value on top of the stack into another.
-/

namespace DdTrace.DuckTyping

open DdTrace.Lib DdTrace.Lib.Throwing

namespace Emitter

variable {Typ : Type} {α β : Type} {m : Emitter Typ α} {f : α → Emitter Typ β}

/-! ### What an emitter appends -/

/-- Where `m` returns, it has appended `code` at the end, from such locals to such. -/
def Generates (m : Emitter Typ α) (P : List Typ → α → List Typ → List (Instr (OpCode Typ)) → Prop) :
    Prop :=
  ∀ il a il', il.offset = il.instructions.length → runWith m il = (.ok a, il') →
    il'.offset = il'.instructions.length ∧ ∃ code, il'.instructions = il.instructions ++ code ∧
      P il.locals a il'.locals code

theorem Generates.mono {P Q : List Typ → α → List Typ → List (Instr (OpCode Typ)) → Prop}
    (h : Generates m P) (hPQ : ∀ L a L' code, P L a L' code → Q L a L' code) : Generates m Q := by
  intro il a il' hend hrun
  obtain ⟨hend', code, hcode, hP⟩ := h il a il' hend hrun
  exact ⟨hend', code, hcode, hPQ _ _ _ _ hP⟩

theorem Generates.bind {P : List Typ → α → List Typ → List (Instr (OpCode Typ)) → Prop}
    {R : α → List Typ → β → List Typ → List (Instr (OpCode Typ)) → Prop} (h : Generates m P)
    (hf : ∀ a, Generates (f a) (R a)) :
    Generates (m >>= f) fun L b L'' code => ∃ a L' code₁ code₂, P L a L' code₁ ∧
      R a L' b L'' code₂ ∧ code = code₁ ++ code₂ := by
  intro il b il'' hend hrun
  obtain ⟨a, il', hm, hrest⟩ := runWith_bind_eq_ok.1 hrun
  obtain ⟨hend', code₁, hcode₁, hP⟩ := h il a il' hend hm
  obtain ⟨hend'', code₂, hcode₂, hR⟩ := hf a il' b il'' hend' hrest
  exact ⟨hend'', code₁ ++ code₂, by rw [hcode₂, hcode₁, List.append_assoc],
    a, _, code₁, code₂, hP, hR, rfl⟩

theorem generates_pure (a : α) :
    Generates (pure a : Emitter Typ α) fun L b L' code => b = a ∧ L' = L ∧ code = [] := by
  intro il b il' hend hrun
  rw [runWith_pure] at hrun
  cases hrun
  exact ⟨hend, [], (List.append_nil _).symm, rfl, rfl, rfl⟩

theorem generates_throw {P : List Typ → α → List Typ → List (Instr (OpCode Typ)) → Prop}
    (e : EmitException Typ) : Generates (throw e) P := by
  intro il a il' _ hrun
  rw [runWith_throw] at hrun
  cases hrun

theorem generates_emit (i : Instr (OpCode Typ)) :
    Generates (emit i) fun L _ L' code => L' = L ∧ code = [i] := by
  intro il a il' hend hrun
  rw [emit, runWith_modify] at hrun
  cases hrun
  have hinsert : il.instructions.insertIdx il.offset i = il.instructions ++ [i] := by
    rw [hend, List.insertIdx_length_self]
  refine ⟨?_, [i], hinsert, rfl, rfl⟩
  rw [hinsert, List.length_append, hend, List.length_singleton]

theorem generates_defineLabel :
    Generates (defineLabel : Emitter Typ ℕ) fun L _ L' code => L' = L ∧ code = [] := by
  intro il a il' hend hrun
  simp only [defineLabel, runWith_bind, runWith_get, runWith_modify, runWith_pure] at hrun
  cases hrun
  exact ⟨hend, [], (List.append_nil _).symm, rfl, rfl⟩

theorem generates_defineLabels {P : List Typ → α → List Typ → List (Instr (OpCode Typ)) → Prop}
    {f : ℕ → ℕ → Emitter Typ α} (h : ∀ l, Generates (f l (l + 1)) P) :
    Generates (defineLabel >>= fun a => defineLabel >>= fun b => f a b) P := by
  intro il a il' hend hrun
  simp only [defineLabel, runWith_bind, runWith_get, runWith_modify, runWith_pure] at hrun
  exact h il.labels { il with labels := il.labels + 1 + 1 } a il' hend hrun

theorem generates_declareLocal (localType : Option Typ) :
    Generates (declareLocal localType) fun L a L' code => a = L.length ∧
      ∃ t, localType = some t ∧ L' = L ++ [t] ∧ code = [] := by
  cases localType with
  | none => exact generates_throw _
  | some t =>
    intro il a il' hend hrun
    simp only [declareLocal, runWith_bind, runWith_get, runWith_modify, runWith_pure] at hrun
    cases hrun
    exact ⟨hend, [], (List.append_nil _).symm, rfl, t, rfl, rfl, rfl⟩

/-- Emitters in a row append their code in a row. -/
theorem Generates.seq {code code' : List (Instr (OpCode Typ))}
    (h : Generates m fun L _ L' c => L' = L ∧ c = code)
    (hf : ∀ a, Generates (f a) fun L _ L' c => L' = L ∧ c = code') :
    Generates (m >>= f) fun L _ L' c => L' = L ∧ c = code ++ code' := by
  refine (Generates.bind h hf).mono ?_
  rintro L b L' _ ⟨a, L₁, _, _, ⟨rfl, rfl⟩, ⟨rfl, rfl⟩, rfl⟩
  exact ⟨rfl, rfl⟩

/-! ### Blocks -/

variable [DecidableEq Typ] {T : TypeSystem Typ}

/-- Where `m` returns, which needs `fact`, it has declared no local and appended code that turns
a value `v` on top of the stack into `post v`, where `ok v` holds. -/
def Turns (T : TypeSystem Typ) (fact : Prop) (ok : StackType Typ → Prop)
    (post : StackType Typ → StackType Typ) (m : Emitter Typ α) : Prop :=
  Generates m fun L _ L' code => L' = L ∧ fact ∧ ∀ arguments locals v,
    Block (T.typedEffect arguments locals) (ok v) code [v] [post v]

variable {fact fact' : Prop} {ok ok' : StackType Typ → Prop}
  {post post' : StackType Typ → StackType Typ}

theorem Turns.bind (h : Turns T fact ok post m) (hf : ∀ a, Turns T fact' ok' post' (f a)) :
    Turns T (fact ∧ fact') (fun v => ok v ∧ ok' (post v)) (post' ∘ post) (m >>= f) := by
  refine (Generates.bind h hf).mono ?_
  rintro L b L' _ ⟨a, L₁, code₁, code₂, ⟨rfl, hfact, h₁⟩, ⟨rfl, hfact', h₂⟩, rfl⟩
  exact ⟨rfl, ⟨hfact, hfact'⟩, fun args locals v => (h₁ args locals v).append (h₂ args locals _)⟩

theorem Turns.congr (h : Turns T fact ok post m) (hfact : fact → fact')
    (hok : ∀ v, ok v ↔ ok' v) (hpost : ∀ v, post v = post' v) : Turns T fact' ok' post' m := by
  refine Generates.mono h ?_
  rintro L a L' code ⟨hL, hf, hblock⟩
  refine ⟨hL, hfact hf, fun args locals v => ?_⟩
  rw [← hpost]
  exact (hblock args locals v).congr (hok v)

theorem turns_pure (a : α) : Turns T True (fun _ => True) id (pure a : Emitter Typ α) := by
  refine (generates_pure a).mono ?_
  rintro L b L' _ ⟨-, rfl, rfl⟩
  exact ⟨rfl, trivial, fun _ _ _ => .nil⟩

theorem turns_throw (e : EmitException Typ) : Turns T fact ok post (throw e : Emitter Typ α) :=
  generates_throw e

/-- An operation on the top of the stack that asks `p` of it. -/
theorem turns_op {o : OpCode Typ} {p : StackType Typ → Bool}
    (h : ∀ args locals v s, T.typedEffect args locals o (v :: s) =
      if p v then some (post v :: s) else none) :
    Turns T True (fun v => p v) post (emitOp o) := by
  refine (generates_emit (.op o)).mono ?_
  rintro L _ L' _ ⟨rfl, rfl⟩
  exact ⟨rfl, trivial, fun args locals v => .op_if fun s => h args locals v s⟩

theorem turns_castclass (t : Typ) :
    Turns T True (fun v => T.isObject v) (fun _ => T.castResult t)
      (emitOp (.castclass t) : Emitter Typ Unit) := turns_op fun _ _ _ _ => rfl

theorem turns_box (t : Typ) :
    Turns T True (fun v => T.accepts t v) (fun _ => .boxed t)
      (emitOp (.box t) : Emitter Typ Unit) := turns_op fun _ _ _ _ => rfl

theorem turns_addIlToDuckChain (t : Typ) :
    Turns T True (fun v => T.accepts T.object v) (fun _ => .value t)
      (addIlToDuckChain t) := turns_op fun _ _ _ _ => rfl

theorem turns_addIlToExtractDuckType (t : Typ) :
    Turns T True (fun v => T.isObject v) (fun _ => .value T.object)
      (addIlToExtractDuckType T.toReflection t) := by
  have hcall : Turns T True (fun v => T.accepts T.iDuckType v) (fun _ => .value T.object)
      (emitOp .getInstance : Emitter Typ Unit) := turns_op fun _ _ _ _ => rfl
  refine ((turns_castclass T.iDuckType).bind fun _ => hcall).congr (fun _ => trivial) ?_
    fun _ => rfl
  intro v
  exact and_iff_left (TypeSystem.accepts_castResult.2 TypeSystem.isReferenceType_iDuckType)

/-! ### Conversions -/

/-- No exception is thrown for the conversion. -/
def Convertible (T : TypeSystem Typ) (actualType expectedType : Typ) : Prop :=
  T.underlying actualType = T.underlying expectedType ∨
    (if T.isValueType actualType then T.isValueType expectedType = false ∧
      (expectedType = T.object ∨
        T.isAssignableFrom (T.underlying expectedType) (T.underlying actualType))
    else T.isValueType expectedType →
      actualType = T.object ∨ T.isAssignableFrom actualType (T.underlying expectedType))

/-- What a conversion asks of the value. -/
def ConversionOk (T : TypeSystem Typ) (actualType expectedType : Typ) (v : StackType Typ) : Prop :=
  if T.isGenericParameter actualType && T.isGenericParameter expectedType then True
  else if T.underlying actualType = T.underlying expectedType then True
  else if T.isValueType actualType then T.accepts actualType v = true
  else if T.isValueType expectedType then T.isObject v = true
  else if expectedType = T.object then True
  else T.isObject v = true

def converted (T : TypeSystem Typ) (actualType expectedType : Typ) (v : StackType Typ) :
    StackType Typ :=
  if T.isGenericParameter actualType && T.isGenericParameter expectedType then v
  else if T.underlying actualType = T.underlying expectedType then v
  else if T.isValueType actualType then
    if expectedType = T.object then .boxed actualType else T.castResult expectedType
  else if T.isValueType expectedType then .value expectedType
  else if expectedType = T.object then v
  else T.castResult expectedType

/-- The code of `writeUnbox`: where the object is not of the type, it throws. -/
theorem block_unboxAny (t : Typ) (l : ℕ) (arguments : List (StackType Typ)) (locals : List Typ)
    (v : StackType Typ) :
    Block (T.typedEffect arguments locals) (T.isObject v) [.op .dup, .op (.isinst t), .brtrue l,
      .op .pop, .throw, .mark l, .op (.unboxAny t)] [v] [.value t] := by
  intro Q rest s
  simp only [List.cons_append, List.nil_append]
  rw [EveryPath.op_iff rfl]
  by_cases h : T.isObject v
  · have hisinst : T.typedEffect arguments locals (.isinst t) (v :: v :: s) =
        some (T.castResult t :: v :: s) := if_pos h
    have hunbox : T.typedEffect arguments locals (.unboxAny t) (v :: s) =
        some (.value t :: s) := if_pos h
    rw [EveryPath.op_iff hisinst, EveryPath.brtrue_iff (by simp; rfl), EveryPath.op_iff hunbox,
      EveryPath.op_iff rfl]
    exact (and_iff_left .throw).trans (and_iff_right h).symm
  · have hisinst : T.typedEffect arguments locals (.isinst t) (v :: v :: s) = none := if_neg h
    exact iff_of_false (EveryPath.not_op hisinst) fun hand => h hand.1

theorem turns_writeUnbox (t : Typ) :
    Turns T True (fun v => T.isObject v) (fun _ => .value t) (writeUnbox t) := by
  refine Generates.mono (Generates.bind generates_defineLabel fun l => .seq (generates_emit _)
    fun _ => .seq (generates_emit _) fun _ => .seq (generates_emit _) fun _ =>
    .seq (generates_emit _) fun _ => .seq (generates_emit _) fun _ => .seq (generates_emit _)
    fun _ => generates_emit _) ?_
  rintro L u L' _ ⟨l, L₁, _, _, ⟨rfl, rfl⟩, ⟨rfl, rfl⟩, rfl⟩
  exact ⟨rfl, trivial, block_unboxAny t l⟩

theorem turns_writeTypeConversion {actualType expectedType : Typ}
    (h : ¬ (T.isGenericParameter actualType && T.isGenericParameter expectedType)) :
    Turns T (Convertible T actualType expectedType) (ConversionOk T actualType expectedType)
      (converted T actualType expectedType)
      (writeTypeConversion T.toReflection actualType expectedType) := by
  have hunderlying : ∀ t, underlyingType T.toReflection t = T.underlying t := fun _ => rfl
  have hok : ConversionOk T actualType expectedType = fun v =>
      if T.underlying actualType = T.underlying expectedType then True
      else if T.isValueType actualType then T.accepts actualType v = true
      else if T.isValueType expectedType then T.isObject v = true
      else if expectedType = T.object then True
      else T.isObject v = true := funext fun v => if_neg h
  have hpost : converted T actualType expectedType = fun v =>
      if T.underlying actualType = T.underlying expectedType then v
      else if T.isValueType actualType then
        if expectedType = T.object then .boxed actualType else T.castResult expectedType
      else if T.isValueType expectedType then .value expectedType
      else if expectedType = T.object then v
      else T.castResult expectedType := funext fun v => if_neg h
  rw [hok, hpost, Convertible, writeTypeConversion]
  simp only [hunderlying, TypeSystem.isValueType_underlying_eq, TypeSystem.underlying_eq_object]
  by_cases heq : T.underlying actualType = T.underlying expectedType
  · simp only [if_pos heq]
    exact (turns_pure ()).congr (fun _ => .inl heq) (fun _ => Iff.rfl) fun _ => rfl
  simp only [if_neg heq]
  by_cases hactual : T.isValueType actualType
  · simp only [if_pos hactual]
    by_cases hexpected : T.isValueType expectedType
    · rw [if_pos hexpected]
      exact turns_throw _
    rw [if_neg hexpected]
    have hreference := Bool.eq_false_iff.2 hexpected
    by_cases hobject : expectedType = T.object
    · simp only [if_pos hobject]
      exact (turns_box actualType).congr (fun _ => .inr ⟨hreference, .inl hobject⟩)
        (fun _ => Iff.rfl) fun _ => rfl
    simp only [if_neg hobject]
    by_cases hassignable :
        T.isAssignableFrom (T.underlying expectedType) (T.underlying actualType)
    · rw [if_pos hassignable]
      exact ((turns_box actualType).bind fun _ => turns_castclass expectedType).congr
        (fun _ => .inr ⟨hreference, .inr hassignable⟩) (fun _ => and_iff_left rfl) fun _ => rfl
    · rw [if_neg hassignable]
      exact turns_throw _
  simp only [if_neg hactual]
  have hself := TypeSystem.underlying_of_not_isValueType (Bool.eq_false_iff.2 hactual)
  by_cases hexpected : T.isValueType expectedType
  · simp only [if_pos hexpected, hself]
    by_cases hassignable : actualType = T.object ∨
        T.isAssignableFrom actualType (T.underlying expectedType)
    · rw [if_pos (by rwa [Bool.or_eq_true, decide_eq_true_eq])]
      exact (turns_writeUnbox expectedType).congr (fun _ => .inr fun _ => hassignable)
        (fun _ => Iff.rfl) fun _ => rfl
    · rw [if_neg (by rwa [Bool.or_eq_true, decide_eq_true_eq])]
      exact turns_throw _
  simp only [if_neg hexpected]
  by_cases hobject : expectedType = T.object
  · simp only [if_pos hobject]
    exact (turns_pure ()).congr (fun _ => .inr fun h => absurd h hexpected) (fun _ => Iff.rfl)
      fun _ => rfl
  · simp only [if_neg hobject,
      TypeSystem.underlying_of_not_isValueType (Bool.eq_false_iff.2 hexpected)]
    exact (turns_castclass expectedType).congr (fun _ => .inr fun h => absurd h hexpected)
      (fun _ => Iff.rfl) fun _ => rfl

theorem turns_writeSafeTypeConversion (actualType expectedType : Typ) :
    Turns T (T.isGenericParameter actualType ∧ T.isGenericParameter expectedType ∨
        Convertible T actualType expectedType)
      (ConversionOk T actualType expectedType) (converted T actualType expectedType)
      (writeSafeTypeConversion T.toReflection actualType expectedType) := by
  unfold writeSafeTypeConversion
  split_ifs with h
  · refine (turns_pure ()).congr (fun _ => .inl (Bool.and_eq_true_iff.1 h)) ?_ ?_
    · intro v
      rw [ConversionOk, if_pos h]
    · intro v
      rw [converted, if_pos h]
      rfl
  · exact (turns_writeTypeConversion h).congr .inr (fun _ => Iff.rfl) fun _ => rfl

/-! ### Sound conversions -/

/-- Between generic parameters nothing is converted; otherwise values of such types are neither
boxed nor unboxed. -/
def SoundConversion (T : TypeSystem Typ) (actualType expectedType : Typ) : Prop :=
  if T.isGenericParameter actualType && T.isGenericParameter expectedType then
    T.genericParameterPosition actualType = T.genericParameterPosition expectedType
  else T.isOpaque actualType = false ∧ T.isOpaque expectedType = false

variable {s t : Typ} {v : StackType Typ}

/-- The conversion of an object reference, typed as the reference type `s`. -/
theorem object_conversion_iff (hs : T.isReferenceType s) (ht : T.isByRef t = false)
    (hv : T.isObject v) (hsame : s = t → T.accepts t v) :
    ConversionOk T s t v ∧ T.accepts t (converted T s t v) ↔ T.isOpaque t = false := by
  obtain ⟨hvalue, hparameter, -⟩ := TypeSystem.isReferenceType_iff.1 hs
  have hgeneric : ¬ (T.isGenericParameter s && T.isGenericParameter t) := by simp [hparameter]
  rw [ConversionOk, converted, if_neg hgeneric, if_neg hgeneric]
  have hunderlying := TypeSystem.underlying_of_not_isValueType hvalue
  by_cases heq : T.underlying s = T.underlying t
  · rw [if_pos heq, if_pos heq]
    have htvalue : T.isValueType t = false := by
      rw [← TypeSystem.isValueType_underlying_eq, ← heq, hunderlying, hvalue]
    have hst : s = t := by
      rw [← hunderlying, heq, TypeSystem.underlying_of_not_isValueType htvalue]
    exact iff_of_true ⟨trivial, hsame hst⟩ (TypeSystem.isOpaque_of_isReferenceType (hst ▸ hs))
  rw [if_neg heq, if_neg heq, if_neg (Bool.eq_false_iff.1 hvalue),
    if_neg (Bool.eq_false_iff.1 hvalue)]
  by_cases htvalue : T.isValueType t
  · rw [if_pos htvalue, if_pos htvalue]
    exact iff_of_true ⟨hv, TypeSystem.accepts_self t⟩ (TypeSystem.isOpaque_of_isValueType htvalue)
  rw [if_neg htvalue, if_neg htvalue]
  by_cases hobject : t = T.object
  · rw [if_pos hobject, if_pos hobject]
    rw [hobject, TypeSystem.accepts_object]
    exact iff_of_true ⟨trivial, hv⟩
      (TypeSystem.isOpaque_of_isReferenceType TypeSystem.isReferenceType_object)
  · rw [if_neg hobject, if_neg hobject, TypeSystem.accepts_castResult,
      TypeSystem.isReferenceType_iff_not_isOpaque (Bool.eq_false_iff.2 htvalue) ht]
    exact and_iff_right hv

/-- The conversion of a value of its own type. -/
theorem value_conversion_iff (hs : T.isByRef s = false) (ht : T.isByRef t = false)
    (hconvertible : T.isGenericParameter s ∧ T.isGenericParameter t ∨ Convertible T s t) :
    ConversionOk T s t (.value s) ∧ T.accepts t (converted T s t (.value s)) ↔
      SoundConversion T s t := by
  rw [SoundConversion]
  by_cases hboth : T.isGenericParameter s && T.isGenericParameter t
  · rw [if_pos hboth, ConversionOk, converted, if_pos hboth, if_pos hboth, TypeSystem.accepts,
      if_pos hboth, beq_iff_eq]
    exact and_iff_right trivial
  have hconvertible := hconvertible.resolve_left (hboth ∘ Bool.and_eq_true_iff.2)
  rw [if_neg hboth]
  by_cases hvalue : T.isValueType s
  · have hboxed := TypeSystem.isOpaque_of_isValueType hvalue
    rw [ConversionOk, converted, if_neg hboth, if_neg hboth]
    by_cases heq : T.underlying s = T.underlying t
    · rw [if_pos heq, if_pos heq]
      have htvalue : T.isValueType t := by
        rw [← TypeSystem.isValueType_underlying_eq, ← heq, TypeSystem.isValueType_underlying_eq,
          hvalue]
      exact iff_of_true ⟨trivial, (TypeSystem.accepts_value hboth).2 (.inl heq)⟩
        ⟨hboxed, TypeSystem.isOpaque_of_isValueType htvalue⟩
    · obtain ⟨hreference, -⟩ : T.isValueType t = false ∧ _ := by
        have h := hconvertible.resolve_left heq
        rwa [if_pos hvalue] at h
      rw [if_neg heq, if_neg heq, if_pos hvalue, if_pos hvalue, and_iff_right hboxed,
        and_iff_right (TypeSystem.accepts_self s)]
      by_cases hobject : t = T.object
      · rw [if_pos hobject, hobject, TypeSystem.accepts_object]
        exact iff_of_true rfl
          (TypeSystem.isOpaque_of_isReferenceType TypeSystem.isReferenceType_object)
      · rw [if_neg hobject, TypeSystem.accepts_castResult,
          TypeSystem.isReferenceType_iff_not_isOpaque hreference ht]
  · have hvalue := Bool.eq_false_iff.2 hvalue
    by_cases hs' : T.isReferenceType s
    · have hv : T.isObject (.value s) := hs'
      rw [object_conversion_iff hs' ht hv fun heq => heq ▸ TypeSystem.accepts_self s]
      exact (and_iff_right (TypeSystem.isOpaque_of_isReferenceType hs')).symm
    · have hboxed : ¬ T.isOpaque s = false :=
        (TypeSystem.isReferenceType_iff_not_isOpaque hvalue hs).not.1 hs'
      refine iff_of_false (fun h => ?_) fun h => hboxed h.1
      have hobject : ¬ T.isObject (.value s) := hs'
      have heq : T.underlying s ≠ T.underlying t := by
        intro heq
        rw [TypeSystem.underlying_of_not_isValueType hvalue] at heq
        have htvalue : T.isValueType t = false := by
          rw [← TypeSystem.isValueType_underlying_eq, ← heq, hvalue]
        rw [TypeSystem.underlying_of_not_isValueType htvalue] at heq
        rw [← heq, Bool.and_self] at hboth
        exact hboxed (by rw [TypeSystem.isOpaque, Bool.eq_false_iff.2 hboth, Bool.false_and])
      rw [ConversionOk, converted, if_neg hboth, if_neg hboth, if_neg heq, if_neg heq,
        if_neg (Bool.eq_false_iff.1 hvalue), if_neg (Bool.eq_false_iff.1 hvalue)] at h
      by_cases htvalue : T.isValueType t
      · rw [if_pos htvalue] at h
        exact hobject h.1
      rw [if_neg htvalue, if_neg htvalue] at h
      by_cases htobject : t = T.object
      · rw [if_pos htobject, if_pos htobject, htobject, TypeSystem.accepts_object] at h
        exact hobject h.2
      · rw [if_neg htobject] at h
        exact hobject h.1

end Emitter

end DdTrace.DuckTyping
