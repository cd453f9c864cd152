import DdTrace.DuckTyping.ConversionTypes

/-!
# The types of one parameter

What the target gets for a parameter of the proxy, and what is stored through the proxy's
reference after the call.
-/

namespace DdTrace.DuckTyping

open DdTrace.Lib DdTrace.Lib.Throwing

/-- `CreateMethods` or `CreateReverseProxyMethods`, which pass different functions. -/
inductive CastDirection
  | forward
  | reverse
  deriving DecidableEq, Repr

namespace Emitter

variable {Typ : Type} {α β : Type} [DecidableEq Typ]

section

variable (r : Reflection Typ)

def castParameter : CastDirection → Typ → Emitter Typ Unit
  | .forward => addIlToExtractDuckType r
  | .reverse => addIlToDuckChain

def needsCast : CastDirection → Typ → Typ → Bool
  | .forward => needsDuckChaining r
  | .reverse => needsDuckChainingReverse r

def castOutput : CastDirection → Typ → Emitter Typ Unit
  | .forward => addIlToDuckChain
  | .reverse => addIlToExtractDuckType r

end

variable {T : TypeSystem Typ} {dir : CastDirection} {arguments : List (StackType Typ)}
  {locals : List Typ} {n idx : ℕ} {s t o i : Typ}

/-! ### Casts -/

/-- The type that a cast of a parameter leaves. -/
def parameterCast (T : TypeSystem Typ) (t : Typ) : CastDirection → Typ
  | .forward => T.object
  | .reverse => t

def outputCast (T : TypeSystem Typ) (t : Typ) : CastDirection → Typ
  | .forward => t
  | .reverse => T.object

theorem turns_castParameter (dir : CastDirection) (t : Typ) :
    Turns T True (fun v => T.isObject v) (fun _ => .value (parameterCast T t dir))
      (castParameter T.toReflection dir t) := by
  cases dir with
  | forward => exact turns_addIlToExtractDuckType t
  | reverse =>
    refine (turns_addIlToDuckChain t).congr id (fun v => ?_) fun _ => rfl
    rw [TypeSystem.accepts_object]

theorem turns_castOutput (dir : CastDirection) (t : Typ) :
    Turns T True (fun v => T.isObject v) (fun _ => .value (outputCast T t dir))
      (castOutput T.toReflection dir t) := by
  cases dir with
  | forward =>
    refine (turns_addIlToDuckChain t).congr id (fun v => ?_) fun _ => rfl
    rw [TypeSystem.accepts_object]
  | reverse => exact turns_addIlToExtractDuckType t

/-- The operations of a cast. -/
def castOps (T : TypeSystem Typ) (t : Typ) : CastDirection → List (OpCode Typ)
  | .forward => [.castclass T.iDuckType, .getInstance]
  | .reverse => [.create t]

omit [DecidableEq Typ] in
theorem generates_castParameter (dir : CastDirection) (t : Typ) :
    Generates (castParameter T.toReflection dir t) fun L _ L' code =>
      L' = L ∧ code = (castOps T t dir).map .op := by
  cases dir with
  | forward => exact .seq (generates_emit _) fun _ => generates_emit _
  | reverse => exact generates_emit _

theorem block_castOps (dir : CastDirection) (t : Typ) (v : StackType Typ) :
    Block (T.typedEffect arguments locals) (T.isObject v) ((castOps T t dir).map .op) [v]
      [.value (parameterCast T t dir)] := by
  cases dir with
  | forward =>
    have hcast : Block (T.typedEffect arguments locals) (T.isObject v)
        [.op (.castclass T.iDuckType)] [v] [T.castResult T.iDuckType] := .op_if fun _ => rfl
    have hcall : Block (T.typedEffect arguments locals)
        (T.accepts T.iDuckType (T.castResult T.iDuckType)) [.op .getInstance]
        [T.castResult T.iDuckType] [.value T.object] := .op_if fun _ => rfl
    exact (hcast.append hcall).congr (and_iff_left
      (TypeSystem.accepts_castResult.2 TypeSystem.isReferenceType_iDuckType))
  | reverse =>
    have hcreate : Block (T.typedEffect arguments locals) (T.accepts T.object v)
        [.op (.create t)] [v] [.value t] := .op_if fun _ => rfl
    rwa [TypeSystem.accepts_object] at hcreate

omit [DecidableEq Typ] in
/-- Null stays null, another value is cast; what comes behind takes either. -/
theorem block_castUnlessNull {ops : List (OpCode Typ)} {code : List (Instr (OpCode Typ))}
    {effect : OpCode Typ → List (StackType Typ) → Option (List (StackType Typ))}
    {v w : StackType Typ} {post : List (StackType Typ)} {okCast okNull ok : Prop}
    (hdup : ∀ s, effect .dup (v :: s) = some (v :: v :: s))
    (hpop : ∀ s, effect .pop (v :: s) = some s)
    (hldnull : ∀ s, effect .ldnull s = some (.null :: s))
    (hcast : Block effect okCast (ops.map .op) [v] [w]) (l : ℕ)
    (hnull : Block effect okNull code [.null] post) (hcode : Block effect ok code [w] post) :
    Block effect (okNull ∧ okCast ∧ ok) (castCode l ops ++ code) [v] post := by
  intro Q rest s
  have hv : EveryPath effect Q (ops.map .op ++ (.mark (l + 1) :: (code ++ rest))) (v :: s) ↔
      okCast ∧ ok ∧ EveryPath effect Q rest (post ++ s) := by
    have h := hcast Q (.mark (l + 1) :: (code ++ rest)) s
    rwa [List.singleton_append, EveryPath.mark_iff, hcode] at h
  have hjump : fromMark (l + 1) (.mark l :: (ops.map .op ++ (.mark (l + 1) :: (code ++ rest)))) =
      some (code ++ rest) := by
    rw [fromMark_mark_of_ne (by omega), fromMark_ops, fromMark_mark]
  simp only [castCode, List.cons_append, List.nil_append, List.append_assoc]
  rw [EveryPath.op_iff (hdup s), EveryPath.brtrue_iff (by simp; rfl), EveryPath.op_iff (hpop s),
    EveryPath.op_iff (hldnull s), EveryPath.br_iff hjump, hv]
  have h0 := hnull Q rest s
  rw [List.singleton_append] at h0
  rw [h0]
  constructor
  · rintro ⟨⟨hcast, hok, hrest⟩, hnull, -⟩
    exact ⟨⟨hnull, hcast, hok⟩, hrest⟩
  · rintro ⟨⟨hnull, hcast, hok⟩, hrest⟩
    exact ⟨⟨hcast, hok, hrest⟩, hnull, hrest⟩

omit [DecidableEq Typ] in
theorem generates_duckCastUnlessNull (dir : CastDirection) (t : Typ) :
    Generates (duckCastUnlessNull (castParameter T.toReflection dir t)) fun L _ L' code =>
      L' = L ∧ ∃ l, code = castCode l (castOps T t dir) := by
  refine generates_defineLabels fun l => ?_
  refine Generates.mono (.seq (generates_emit _) fun _ => .seq (generates_emit _) fun _ =>
    .seq (generates_emit _) fun _ => .seq (generates_emit _) fun _ => .seq (generates_emit _)
    fun _ => .seq (generates_emit _) fun _ => .seq (generates_castParameter dir t) fun _ =>
    generates_emit _) ?_
  rintro L _ L' _ ⟨rfl, rfl⟩
  exact ⟨rfl, l, rfl⟩

/-! ### Arguments and locals -/

theorem generates_writeLoadArgument (index : ℕ) :
    Generates (writeLoadArgument index false : Emitter Typ Unit) fun L _ L' code => L' = L ∧
      ∀ arguments locals v, arguments[index + 1]? = some v →
        Block (T.typedEffect arguments locals) True code [] [v] := by
  show Generates (emitOp (if index + 1 ≤ 3 then .ldarg (index + 1) else .ldargS (index + 1))) _
  refine (generates_emit _).mono ?_
  rintro L _ L' _ ⟨rfl, rfl⟩
  refine ⟨rfl, fun arguments locals v hv => .op fun s => ?_⟩
  split
  all_goals exact congrArg (Option.map (· :: s)) hv

theorem generates_writeStoreLocal (n : ℕ) :
    Generates (writeStoreLocal n : Emitter Typ Unit) fun L _ L' code => L' = L ∧
      ∀ arguments locals t v, locals[n]? = some t →
        Block (T.typedEffect arguments locals) (T.accepts t v) code [v] [] := by
  unfold writeStoreLocal
  refine (generates_emit _).mono ?_
  rintro L _ L' _ ⟨rfl, rfl⟩
  refine ⟨rfl, fun arguments locals t v ht => .op_if fun s => ?_⟩
  have hany : (locals[n]?).any (T.accepts · v) = T.accepts t v := by rw [ht]; rfl
  rw [← hany]
  split
  all_goals rfl

theorem generates_writeLoadLocal (n : ℕ) :
    Generates (writeLoadLocal n : Emitter Typ Unit) fun L _ L' code => L' = L ∧
      ∀ arguments locals t, locals[n]? = some t →
        Block (T.typedEffect arguments locals) True code [] [.value t] := by
  unfold writeLoadLocal
  refine (generates_emit _).mono ?_
  rintro L _ L' _ ⟨rfl, rfl⟩
  refine ⟨rfl, fun arguments locals t ht => .op fun s => ?_⟩
  split
  all_goals exact congrArg (Option.map fun t => StackType.value t :: s) ht

theorem generates_ldlocaS (n : ℕ) :
    Generates (emitOp (.ldlocaS n) : Emitter Typ Unit) fun L _ L' code => L' = L ∧
      ∀ arguments locals t, locals[n]? = some t →
        Block (T.typedEffect arguments locals) True code [] [.reference t] := by
  refine (generates_emit _).mono ?_
  rintro L _ L' _ ⟨rfl, rfl⟩
  exact ⟨rfl, fun arguments locals t ht => .op fun s =>
    congrArg (Option.map fun t => StackType.reference t :: s) ht⟩

/-! ### A reference to a variable of another type -/

/-- The conversion to the type is sound for the value, and so is storing its result. -/
def ConvertsTo (T : TypeSystem Typ) (s t : Typ) (v : StackType Typ) : Prop :=
  ConversionOk T s t v ∧ T.accepts t (converted T s t v)

/-- What `loadConverted` asks of the types behind the references. -/
def LoadsRef (T : TypeSystem Typ) (dir : CastDirection) (o i : Typ) : Prop :=
  T.isReferenceType o ∧
    if needsCast T.toReflection dir i o then
      ConvertsTo T o i .null ∧ T.isObject (.value o) ∧
        ConvertsTo T o i (.value (parameterCast T i dir))
    else ConvertsTo T o i (.value o)

def ConversionPasses (T : TypeSystem Typ) (s t : Typ) : Prop :=
  T.isGenericParameter s ∧ T.isGenericParameter t ∨ Convertible T s t

theorem generates_storeConverted (n : ℕ) (o i : Typ) :
    Generates (do
      writeSafeTypeConversion T.toReflection o i
      writeStoreLocal n
      emitOp (.ldlocaS n)) fun L _ L' code => L' = L ∧ ConversionPasses T o i ∧
        ∀ arguments locals v, locals[n]? = some i →
          Block (T.typedEffect arguments locals) (ConvertsTo T o i v) code [v] [.reference i] := by
  refine (Generates.bind (turns_writeSafeTypeConversion o i) fun _ =>
    Generates.bind (@generates_writeStoreLocal _ _ T n) fun _ => @generates_ldlocaS _ _ T n).mono ?_
  rintro L _ L' _ ⟨_, L₁, code, _, ⟨rfl, hconvertible, hconvert⟩,
    ⟨_, L₂, store, load, ⟨rfl, hstore⟩, ⟨rfl, hload⟩, rfl⟩, rfl⟩
  refine ⟨rfl, hconvertible, fun arguments locals v ht => ?_⟩
  exact ((hconvert arguments locals v).append
    ((hstore arguments locals i _ ht).append (hload arguments locals i ht))).congr
      (and_congr_right' (and_iff_left trivial))

theorem generates_loadConverted (dir : CastDirection) (idx n : ℕ) (o i : Typ) :
    Generates (loadConverted T.toReflection (castParameter T.toReflection dir)
      (needsCast T.toReflection dir) idx n o i) fun L _ L' code => L' = L ∧
        ConversionPasses T o i ∧ ∀ arguments locals, arguments[idx + 1]? = some (.reference o) →
          locals[n]? = some i →
            Block (T.typedEffect arguments locals) (LoadsRef T dir o i) code [] [.reference i] := by
  have hindirect : ∀ arguments locals, Block (T.typedEffect arguments locals) (T.isReferenceType o)
      [.op .ldindRef] [.reference o] [.value o] := fun _ _ => .op_if fun _ => rfl
  unfold loadConverted LoadsRef
  by_cases hcast : needsCast T.toReflection dir i o
  · simp only [if_pos hcast]
    refine (Generates.bind (@generates_writeLoadArgument _ _ T idx) fun _ =>
      Generates.bind (generates_emit _) fun _ =>
        Generates.bind (@generates_duckCastUnlessNull _ T dir i) fun _ =>
          generates_storeConverted n o i).mono ?_
    rintro L _ L' _ ⟨_, _, load, _, ⟨rfl, hload⟩, ⟨_, _, _, _, ⟨rfl, rfl⟩,
      ⟨_, _, _, store, ⟨rfl, l, rfl⟩, ⟨rfl, hconvertible, hstore⟩, rfl⟩, rfl⟩, rfl⟩
    refine ⟨rfl, hconvertible, fun arguments locals ho hi => ?_⟩
    have htail := block_castUnlessNull (fun _ => rfl) (fun _ => rfl) (fun _ => rfl)
      (@block_castOps _ _ T arguments locals dir i (.value o)) l (hstore arguments locals .null hi)
      (hstore arguments locals _ hi)
    exact ((hload arguments locals _ ho).append ((hindirect arguments locals).append htail)).congr
      (and_iff_right trivial)
  · simp only [if_neg hcast]
    refine (Generates.bind (@generates_writeLoadArgument _ _ T idx) fun _ =>
      Generates.bind (generates_emit _) fun _ => generates_storeConverted n o i).mono ?_
    rintro L _ L' _ ⟨_, _, load, _, ⟨rfl, hload⟩, ⟨_, _, _, store, ⟨rfl, rfl⟩,
      ⟨rfl, hconvertible, hstore⟩, rfl⟩, rfl⟩
    refine ⟨rfl, hconvertible, fun arguments locals ho hi => ?_⟩
    exact ((hload arguments locals _ ho).append ((hindirect arguments locals).append
      (hstore arguments locals _ hi))).congr (and_iff_right trivial)

/-! ### Which types these are -/

/-- The side of the proxy definition: it is the one that may be a struct with `DuckCopy`. -/
def proxySide (o i : Typ) : CastDirection → Typ
  | .forward => o
  | .reverse => i

theorem needsCast_of_hasDuckCopy (h : T.hasDuckCopy (proxySide o i dir)) :
    needsCast T.toReflection dir i o := by
  cases dir
  all_goals exact Bool.or_eq_true_iff.2 (.inl h)

/-- What needs a cast and is no copy is of the proxy's types, and of another type. -/
theorem proxySide_of_needsCast (h : needsCast T.toReflection dir i o)
    (hcopy : T.hasDuckCopy (proxySide o i dir) = false) :
    o ≠ i ∧ T.isValueType (proxySide o i dir) = false ∧
      T.isGenericParameter (proxySide o i dir) = false ∧
      proxySide o i dir ≠ T.object := by
  have hcore : ∀ t, T.inCoreLibrary t = false → t ≠ T.object := by
    rintro t ht rfl
    rw [T.inCoreLibrary_object] at ht
    cases ht
  cases dir with
  | forward =>
    have hcopy : T.hasDuckCopy o = false := hcopy
    simp only [needsCast, needsDuckChaining, hcopy, Bool.false_or, Bool.and_eq_true, bne_iff_ne,
      Bool.not_eq_true'] at h
    exact ⟨h.1.1.1.1, h.1.1.1.2, h.1.1.2, hcore o h.2⟩
  | reverse =>
    have hcopy : T.hasDuckCopy i = false := hcopy
    simp only [needsCast, needsDuckChainingReverse, needsDuckChaining, hcopy, Bool.false_or,
      Bool.and_eq_true, bne_iff_ne, Bool.not_eq_true'] at h
    exact ⟨h.1.1.1.1.symm, h.1.1.1.2, h.1.1.2, hcore i h.2⟩

/-- An unboxed value is not converted as if it were an object. -/
theorem not_convertsTo_value (ho : T.isReferenceType o) (hi : T.isValueType i)
    (ht : t = i ∨ t = T.object) : ¬ ConvertsTo T o t (.value i) := by
  obtain ⟨hvalue, hparameter, -⟩ := TypeSystem.isReferenceType_iff.1 ho
  have hboth : ¬ (T.isGenericParameter o && T.isGenericParameter t) := by simp [hparameter]
  have hobject : ¬ T.isObject (.value i) := by
    intro h
    rw [(TypeSystem.isReferenceType_iff.1 h).1] at hi
    cases hi
  rw [ConvertsTo, ConversionOk, converted, if_neg hboth, if_neg hboth,
    if_neg (Bool.eq_false_iff.1 hvalue), if_neg (Bool.eq_false_iff.1 hvalue)]
  rcases ht with rfl | rfl
  · have hne : T.underlying o ≠ T.underlying t := by
      intro heq
      rw [← TypeSystem.isValueType_underlying_eq, ← heq, TypeSystem.isValueType_underlying_eq,
        hvalue] at hi
      cases hi
    rw [if_neg hne, if_neg hne, if_pos hi]
    exact fun h => hobject h.1
  · have hreference := Bool.eq_false_iff.1 T.isValueType_object
    rw [if_neg hreference, if_neg hreference, if_pos rfl, if_pos rfl, ite_self, ite_self,
      TypeSystem.accepts_object]
    exact fun h => hobject h.2

/-- A cast and a conversion of its result to the type or to `object`. -/
theorem cast_iff (hcast : needsCast T.toReflection dir i o) (hi : T.isByRef i = false)
    (ht : t = i ∨ t = T.object) :
    T.isObject (.value o) ∧ ConvertsTo T o t (.value (parameterCast T i dir)) ↔
      T.hasDuckCopy (proxySide o i dir) = false ∧ T.isReferenceType o ∧ T.isOpaque t = false := by
  have htref : T.isByRef t = false := by
    rcases ht with rfl | rfl
    · exact hi
    · exact T.isByRef_object
  show T.isReferenceType o ∧ _ ↔ _
  rw [and_left_comm]
  refine and_congr_right fun ho => ?_
  by_cases hcopy : T.hasDuckCopy (proxySide o i dir)
  · refine iff_of_false (fun h => ?_) fun h => ?_
    · have hvalue := T.isValueType_duckCopy _ hcopy
      cases dir with
      | forward =>
        have hreference := (TypeSystem.isReferenceType_iff.1 ho).1
        exact Bool.false_ne_true (hreference.symm.trans hvalue)
      | reverse => exact not_convertsTo_value ho hvalue ht h
    · rw [h.1] at hcopy
      cases hcopy
  · have hcopy := Bool.eq_false_iff.2 hcopy
    obtain ⟨hne, hvalue, hparameter, hobject⟩ := proxySide_of_needsCast hcast hcopy
    rw [and_iff_right hcopy]
    cases dir with
    | forward =>
      refine object_conversion_iff ho htref TypeSystem.isReferenceType_object fun heq => ?_
      rcases ht with rfl | rfl
      · exact absurd heq hne
      · exact absurd heq hobject
    | reverse =>
      have hireference : T.isReferenceType i :=
        TypeSystem.isReferenceType_iff.2 ⟨hvalue, hparameter, hi⟩
      have hv : T.isObject (.value i) := hireference
      refine object_conversion_iff ho htref hv fun _ => ?_
      rcases ht with rfl | rfl
      · exact TypeSystem.accepts_self t
      · show T.accepts T.object (.value i)
        rw [TypeSystem.accepts_object]
        exact hv

theorem loadsRef_iff (ho : T.isByRef o = false) (hi : T.isByRef i = false)
    (hpasses : ConversionPasses T o i) : LoadsRef T dir o i ↔
      T.isReferenceType o ∧ T.isOpaque i = false ∧ T.hasDuckCopy (proxySide o i dir) = false := by
  unfold LoadsRef
  refine and_congr_right fun href => ?_
  split
  · rename_i hcast
    have hnull : ConvertsTo T o i .null ↔ T.isOpaque i = false :=
      object_conversion_iff href hi rfl fun heq => heq ▸ href
    rw [hnull, cast_iff hcast hi (.inl rfl), and_iff_right href]
    exact ⟨fun h => ⟨h.1, h.2.1⟩, fun h => ⟨h.1, h.2, h.1⟩⟩
  · rename_i hcast
    have hcopy : T.hasDuckCopy (proxySide o i dir) = false :=
      Bool.eq_false_iff.2 (hcast ∘ needsCast_of_hasDuckCopy)
    have hboth : ¬ (T.isGenericParameter o && T.isGenericParameter i) := by
      simp [(TypeSystem.isReferenceType_iff.1 href).2.1]
    have hopaque := TypeSystem.isOpaque_of_isReferenceType href
    rw [ConvertsTo, value_conversion_iff ho hi hpasses, SoundConversion, if_neg hboth,
      and_iff_right hopaque, and_iff_left hcopy]

/-! ### After the call -/

/-- What a write through the proxy's reference asks of the types behind the references. -/
def StoresRef (T : TypeSystem Typ) (dir : CastDirection) (o i : Typ) : Prop :=
  T.isReferenceType o ∧
    if needsCast T.toReflection dir i o then
      T.isObject (if T.isValueType i then .boxed i else .value i) ∧
        T.accepts o (.value (outputCast T o dir))
    else ConvertsTo T i o (.value i)

theorem generates_boxValue (i : Typ) :
    Generates (if T.isValueType i then emitOp (.box i) else pure () : Emitter Typ Unit)
      fun L _ L' code => L' = L ∧ ∀ arguments locals,
        Block (T.typedEffect arguments locals) True code [.value i]
          [if T.isValueType i then .boxed i else .value i] := by
  by_cases h : T.isValueType i
  · simp only [if_pos h]
    refine Generates.mono (@turns_box _ _ T i) ?_
    rintro L _ L' code ⟨rfl, -, hblock⟩
    exact ⟨rfl, fun arguments locals => (hblock arguments locals _).congr
      (iff_true_intro (TypeSystem.accepts_self i))⟩
  · simp only [if_neg h]
    refine (generates_pure ()).mono ?_
    rintro L _ L' _ ⟨-, rfl, rfl⟩
    exact ⟨rfl, fun _ _ => .nil⟩

theorem generates_setOutputOrRefParameter (dir : CastDirection) {d : OutputAndRefParameterData Typ}
    (ho : T.elementType d.proxyArgumentType = some o) (hi : T.elementType d.localType = some i) :
    Generates (setOutputOrRefParameter T.toReflection (needsCast T.toReflection dir)
      (castOutput T.toReflection dir) d) fun L _ L' code => L' = L ∧
        (needsCast T.toReflection dir i o = false → ConversionPasses T i o) ∧
        ∀ arguments locals, arguments[d.proxyArgumentIndex + 1]? = some (.reference o) →
          locals[d.localIndex]? = some i →
            Block (T.typedEffect arguments locals) (StoresRef T dir o i) code [] [] := by
  have hstore : ∀ arguments locals v, Block (T.typedEffect arguments locals)
      (T.isReferenceType o && T.accepts o v) [.op .stindRef] [v, .reference o] [] :=
    fun _ _ _ => .op_if fun _ => rfl
  unfold setOutputOrRefParameter StoresRef
  rw [ho, hi]
  by_cases hcast : needsCast T.toReflection dir i o
  · simp only [if_pos hcast]
    refine (Generates.bind (@generates_writeLoadArgument _ _ T d.proxyArgumentIndex) fun _ =>
      Generates.bind (@generates_writeLoadLocal _ _ T d.localIndex) fun _ =>
        Generates.bind (@generates_boxValue _ _ T i) fun _ =>
          Generates.bind (@turns_castOutput _ _ T dir o) fun _ => generates_emit _).mono ?_
    rintro L _ L' _ ⟨_, _, load, _, ⟨rfl, hload⟩, ⟨_, _, load', _, ⟨rfl, hload'⟩,
      ⟨_, _, box, _, ⟨rfl, hbox⟩, ⟨_, _, cast, _, ⟨rfl, -, hturn⟩, ⟨rfl, rfl⟩, rfl⟩, rfl⟩,
        rfl⟩, rfl⟩
    refine ⟨rfl, fun h => absurd hcast (Bool.eq_false_iff.1 h), fun arguments locals ho hi => ?_⟩
    have hvalue := (hload' arguments locals i hi).frame [.reference o]
    have hboxed := (hbox arguments locals).frame [.reference o]
    have hturned := (hturn arguments locals (if T.isValueType i then .boxed i else .value i)).frame
      [.reference o]
    refine ((hload arguments locals _ ho).append (hvalue.append (hboxed.append (hturned.append
      (hstore arguments locals _))))).congr ?_
    rw [Bool.and_eq_true]
    tauto
  · simp only [if_neg hcast]
    refine (Generates.bind (@generates_writeLoadArgument _ _ T d.proxyArgumentIndex) fun _ =>
      Generates.bind (@generates_writeLoadLocal _ _ T d.localIndex) fun _ =>
        Generates.bind (turns_writeSafeTypeConversion i o) fun _ => generates_emit _).mono ?_
    rintro L _ L' _ ⟨_, _, load, _, ⟨rfl, hload⟩, ⟨_, _, load', _, ⟨rfl, hload'⟩,
      ⟨_, _, convert, _, ⟨rfl, hpasses, hturn⟩, ⟨rfl, rfl⟩, rfl⟩, rfl⟩, rfl⟩
    refine ⟨rfl, fun _ => hpasses, fun arguments locals ho hi => ?_⟩
    have hvalue := (hload' arguments locals i hi).frame [.reference o]
    have hturned := (hturn arguments locals (.value i)).frame [.reference o]
    refine ((hload arguments locals _ ho).append (hvalue.append (hturned.append
      (hstore arguments locals _)))).congr ?_
    rw [Bool.and_eq_true, ConvertsTo]
    tauto

theorem storesRef_iff (ho : T.isByRef o = false) (hi : T.isByRef i = false)
    (hpasses : needsCast T.toReflection dir i o = false → ConversionPasses T i o) :
    StoresRef T dir o i ↔ T.isReferenceType o ∧ T.isOpaque i = false ∧
      (dir = .reverse → needsCast T.toReflection dir i o → o = T.object) := by
  unfold StoresRef
  refine and_congr_right fun href => ?_
  split
  · rename_i hcast
    have hboxed : T.isObject (if T.isValueType i then .boxed i else .value i) ↔
        T.isOpaque i = false := by
      by_cases hvalue : T.isValueType i
      · rw [if_pos hvalue]
        exact iff_of_true rfl (TypeSystem.isOpaque_of_isValueType hvalue)
      · rw [if_neg hvalue]
        exact TypeSystem.isReferenceType_iff_not_isOpaque (Bool.eq_false_iff.2 hvalue) hi
    rw [hboxed]
    refine and_congr_right fun _ => ?_
    cases dir with
    | forward => exact iff_of_true (TypeSystem.accepts_self o) fun h => by cases h
    | reverse =>
      show T.accepts o (.value T.object) ↔ _
      rw [TypeSystem.accepts_value_object]
      exact ⟨fun h _ _ => h, fun h => h rfl hcast⟩
  · rename_i hcast
    have hboth : ¬ (T.isGenericParameter i && T.isGenericParameter o) := by
      simp [(TypeSystem.isReferenceType_iff.1 href).2.1]
    rw [ConvertsTo, value_conversion_iff hi ho (hpasses (Bool.eq_false_iff.2 hcast)),
      SoundConversion, if_neg hboth]
    exact ⟨fun h => ⟨h.1, fun _ h' => absurd h' hcast⟩,
      fun h => ⟨h.1, TypeSystem.isOpaque_of_isReferenceType href⟩⟩

end Emitter

end DdTrace.DuckTyping
