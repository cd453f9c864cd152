import DdTrace.DuckTyping.ParameterTypes

/-!
# The types of a proxy method's arguments

`addIlToLoadArguments` and, behind the call, `addIlToSetOutputAndRefParameters`: the code is type
sound where each parameter of the proxy and of the target is a `TypedParameter`.
-/

namespace DdTrace.DuckTyping

open DdTrace.Lib DdTrace.Lib.Throwing

namespace Emitter

variable {Typ : Type} [DecidableEq Typ] {T : TypeSystem Typ} {dir : CastDirection} {idx : ℕ}
  {o i outerType innerType : Typ}

/-! ### Values -/

/-- The type that the code of the proxy can name. -/
def accessibleType (T : TypeSystem Typ) (t : Typ) : Typ :=
  if T.useDirectAccessTo t then t else T.object

/-- What is converted: the argument, or what the cast made of it. -/
def castValue (T : TypeSystem Typ) (dir : CastDirection) (outerType innerType : Typ) :
    StackType Typ :=
  .value (if needsCast T.toReflection dir innerType outerType then
    parameterCast T innerType dir else outerType)

theorem generates_loadValue (dir : CastDirection) (idx : ℕ) (outerType innerType : Typ) :
    Generates (loadValue T.toReflection (castParameter T.toReflection dir)
      (needsCast T.toReflection dir) idx outerType innerType) fun L type L' code => L' = L ∧
        type = accessibleType T innerType ∧ ConversionPasses T outerType type ∧
        ∀ arguments locals, arguments[idx + 1]? = some (.value outerType) →
          Block (T.typedEffect arguments locals)
            ((needsCast T.toReflection dir innerType outerType → T.isObject (.value outerType)) ∧
              ConversionOk T outerType type (castValue T dir outerType innerType)) code []
            [converted T outerType type (castValue T dir outerType innerType)] := by
  unfold loadValue castValue
  by_cases hcast : needsCast T.toReflection dir innerType outerType
  · simp only [if_pos hcast]
    refine (Generates.bind (@generates_writeLoadArgument _ _ T idx) fun _ =>
      Generates.bind (@turns_castParameter _ _ T dir innerType) fun _ =>
        Generates.bind (turns_writeSafeTypeConversion outerType _) fun _ =>
          generates_pure _).mono ?_
    rintro L type L' _ ⟨_, _, load, _, ⟨rfl, hload⟩, ⟨_, _, cast, _, ⟨rfl, -, hturn⟩,
      ⟨_, _, convert, _, ⟨rfl, hpasses, hconvert⟩, ⟨rfl, rfl, rfl⟩, rfl⟩, rfl⟩, rfl⟩
    refine ⟨rfl, rfl, hpasses, fun arguments locals ho => ?_⟩
    rw [List.append_nil]
    refine ((hload arguments locals _ ho).append ((hturn arguments locals _).append
      (hconvert arguments locals _))).congr ?_
    exact ⟨fun h => ⟨fun _ => h.2.1, h.2.2⟩, fun h => ⟨trivial, h.1 hcast, h.2⟩⟩
  · simp only [if_neg hcast]
    refine (Generates.bind (@generates_writeLoadArgument _ _ T idx) fun _ =>
        Generates.bind (turns_writeSafeTypeConversion outerType _) fun _ =>
          generates_pure _).mono ?_
    rintro L type L' _ ⟨_, _, load, _, ⟨rfl, hload⟩,
      ⟨_, _, convert, _, ⟨rfl, hpasses, hconvert⟩, ⟨rfl, rfl, rfl⟩, rfl⟩, rfl⟩
    refine ⟨rfl, rfl, hpasses, fun arguments locals ho => ?_⟩
    rw [List.append_nil]
    refine ((hload arguments locals _ ho).append (hconvert arguments locals _)).congr ?_
    exact ⟨fun h => ⟨fun h' => absurd h' hcast, h.2⟩, fun h => ⟨trivial, h.2⟩⟩

/-- The value may be passed as it is, or boxed. -/
def PassesAsIs (T : TypeSystem Typ) (outerType innerType : Typ) : Prop :=
  if T.isValueType outerType then
    T.isReferenceType innerType ∧ T.isAssignableFrom innerType outerType
  else if T.isGenericParameter outerType then T.isGenericParameter innerType ∧
    T.genericParameterPosition outerType = T.genericParameterPosition innerType
  else innerType = outerType ∨
    (T.isReferenceType innerType ∧ T.isAssignableFrom innerType outerType)

/-- A parameter by value. A `direct` call takes a value of the target's type, also where the code
cannot name it; a dynamic method then takes an object. -/
def TypedValue (T : TypeSystem Typ) (dir : CastDirection) (direct : Bool) (outerType innerType : Typ) :
    Prop :=
  if direct ∧ accessibleType T innerType ≠ innerType then
    if needsCast T.toReflection dir innerType outerType then
      dir = .reverse ∧ T.isReferenceType outerType
    else PassesAsIs T outerType innerType
  else T.hasDuckCopy (proxySide outerType innerType dir) = false ∧
    if needsCast T.toReflection dir innerType outerType then
      T.isReferenceType outerType ∧ T.isOpaque (accessibleType T innerType) = false
    else SoundConversion T outerType (accessibleType T innerType)

omit [DecidableEq Typ] in
theorem accessibleType_cases (T : TypeSystem Typ) (t : Typ) :
    accessibleType T t = t ∨ accessibleType T t = T.object := by
  unfold accessibleType
  split
  · exact .inl rfl
  · exact .inr rfl

/-- The conversion to `object`: a value type is boxed. -/
theorem converted_object (v : StackType Typ) :
    (ConversionOk T o T.object v ↔ (T.isValueType o → T.accepts o v)) ∧
      converted T o T.object v = if T.isValueType o then .boxed o else v := by
  have hboth : ¬ (T.isGenericParameter o && T.isGenericParameter T.object) := by
    simp [T.isGenericParameter_object]
  rw [ConversionOk, converted, if_neg hboth, if_neg hboth]
  by_cases hobject : T.underlying o = T.underlying T.object
  · have hvalue : ¬ T.isValueType o := by
      rw [← TypeSystem.isValueType_underlying_eq, hobject, TypeSystem.underlying_object,
        T.isValueType_object]
      exact Bool.false_ne_true
    rw [if_pos hobject, if_pos hobject, if_neg hvalue]
    exact ⟨iff_of_true trivial fun h => absurd h hvalue, rfl⟩
  rw [if_neg hobject, if_neg hobject]
  by_cases hvalue : T.isValueType o
  · rw [if_pos hvalue, if_pos hvalue, if_pos hvalue, if_pos rfl]
    exact ⟨⟨fun h _ => h, fun h => h hvalue⟩, rfl⟩
  · have hreference := Bool.eq_false_iff.1 T.isValueType_object
    rw [if_neg hvalue, if_neg hvalue, if_neg hvalue, if_neg hreference, if_neg hreference,
      if_pos rfl, if_pos rfl]
    exact ⟨iff_of_true trivial fun h => absurd h hvalue, rfl⟩

theorem passesAsIs_iff (ho : T.isByRef o = false) (hobject : i ≠ T.object) :
    T.accepts i (if T.isValueType o then .boxed o else .value o) ↔ PassesAsIs T o i := by
  unfold PassesAsIs
  by_cases hvalue : T.isValueType o
  · rw [if_pos hvalue, if_pos hvalue]
    simp [TypeSystem.accepts, hobject]
  rw [if_neg hvalue, if_neg hvalue]
  have hvalue := Bool.eq_false_iff.2 hvalue
  by_cases hboth : T.isGenericParameter o && T.isGenericParameter i
  · obtain ⟨hparameter, hparameter'⟩ := Bool.and_eq_true_iff.1 hboth
    rw [TypeSystem.accepts, if_pos hboth, if_pos hparameter, beq_iff_eq, and_iff_right hparameter']
  have hunderlying : T.underlying o = T.underlying i ↔ i = o := by
    rw [TypeSystem.underlying_of_not_isValueType hvalue]
    constructor
    · intro heq
      have hi : T.isValueType i = false := by
        rw [← TypeSystem.isValueType_underlying_eq, ← heq, hvalue]
      rw [heq, TypeSystem.underlying_of_not_isValueType hi]
    · rintro rfl
      exact (TypeSystem.underlying_of_not_isValueType hvalue).symm
  rw [TypeSystem.accepts_value hboth, hunderlying]
  by_cases hparameter : T.isGenericParameter o
  · rw [if_pos hparameter]
    have hother : ¬ T.isGenericParameter i :=
      fun h => hboth (Bool.and_eq_true_iff.2 ⟨hparameter, h⟩)
    refine iff_of_false ?_ fun h => hother h.1
    rintro (rfl | h)
    · exact hother hparameter
    · rw [(TypeSystem.isReferenceType_iff.1 h.1).2.1] at hparameter
      cases hparameter
  · rw [if_neg hparameter]
    have href : T.isReferenceType o :=
      TypeSystem.isReferenceType_iff.2 ⟨hvalue, Bool.eq_false_iff.2 hparameter, ho⟩
    simp only [href, hobject, true_and, false_or]

theorem typedValue_iff {direct : Bool} (ho : T.isByRef o = false) (hi : T.isByRef i = false)
    (hpasses : ConversionPasses T o (accessibleType T i)) :
    ((needsCast T.toReflection dir i o → T.isObject (.value o)) ∧
        ConversionOk T o (accessibleType T i) (castValue T dir o i)) ∧
      T.accepts (if direct then i else accessibleType T i)
        (converted T o (accessibleType T i) (castValue T dir o i)) ↔
      TypedValue T dir direct o i := by
  have haccessible : T.isByRef (accessibleType T i) = false := by
    rcases accessibleType_cases T i with h | h
    · rw [h, hi]
    · rw [h, T.isByRef_object]
  unfold TypedValue castValue
  by_cases hdirect : direct ∧ accessibleType T i ≠ i
  · rw [if_pos hdirect, if_pos hdirect.1]
    have hobject := (accessibleType_cases T i).resolve_left hdirect.2
    have hi' : i ≠ T.object := fun h => hdirect.2 (hobject.trans h.symm)
    obtain ⟨hok, hconverted⟩ := @converted_object _ _ T o
      (.value (if needsCast T.toReflection dir i o then parameterCast T i dir else o))
    rw [hobject, hok, hconverted]
    by_cases hcast : needsCast T.toReflection dir i o
    · simp only [if_pos hcast]
      constructor
      · rintro ⟨⟨hcastable, -⟩, haccepts⟩
        have hreference : T.isReferenceType o := hcastable hcast
        have hvalue := Bool.eq_false_iff.1 (TypeSystem.isReferenceType_iff.1 hreference).1
        rw [if_neg hvalue] at haccepts
        cases dir with
        | forward => exact absurd (TypeSystem.accepts_value_object.1 haccepts) hi'
        | reverse => exact ⟨rfl, hreference⟩
      · rintro ⟨rfl, hreference⟩
        have hvalue := Bool.eq_false_iff.1 (TypeSystem.isReferenceType_iff.1 hreference).1
        rw [if_neg hvalue]
        exact ⟨⟨fun _ => hreference, fun h => absurd h hvalue⟩, TypeSystem.accepts_self i⟩
    · simp only [if_neg hcast]
      rw [passesAsIs_iff ho hi']
      exact and_iff_right ⟨fun h => absurd h hcast, fun _ => TypeSystem.accepts_self o⟩
  · rw [if_neg hdirect]
    have hexpected : (if direct then i else accessibleType T i) = accessibleType T i := by
      split
      · rename_i h
        by_contra hne
        exact hdirect ⟨h, Ne.symm hne⟩
      · rfl
    rw [hexpected, and_assoc]
    by_cases hcast : needsCast T.toReflection dir i o
    · simp only [if_pos hcast]
      have h := cast_iff hcast hi (accessibleType_cases T i)
      exact (and_congr_left' ⟨fun h => h hcast, fun h _ => h⟩).trans h
    · simp only [if_neg hcast]
      have hcopy : T.hasDuckCopy (proxySide o i dir) = false :=
        Bool.eq_false_iff.2 (hcast ∘ needsCast_of_hasDuckCopy)
      rw [and_iff_right hcopy, value_conversion_iff ho haccessible hpasses]
      exact and_iff_right fun h => absurd h hcast

/-! ### References -/

/-- The target gets the address of a local of the type `i`, and what it leaves there is stored
through the proxy's reference to the type `o`. For a parameter that is no output, the local has
the proxy's value first. -/
def TypedReference (T : TypeSystem Typ) (dir : CastDirection) (isOut : Bool) (o i : Typ) : Prop :=
  T.isReferenceType o ∧ T.isOpaque i = false ∧
    (isOut = false → accessibleType T i = i ∧ T.hasDuckCopy (proxySide o i dir) = false) ∧
    (dir = .reverse → needsCast T.toReflection dir i o → o = T.object)

/-- When the code for a parameter of the proxy and one of the target is type sound. -/
def TypedParameter (T : TypeSystem Typ) (dir : CastDirection) (direct : Bool)
    (outer inner : ParameterInfo Typ) : Prop :=
  if outer.isOut || T.isByRef outer.parameterType then
    outer.parameterType = inner.parameterType ∨ T.isByRef outer.parameterType ∧
      ∃ o i, T.elementType outer.parameterType = some o ∧
        T.elementType inner.parameterType = some i ∧ TypedReference T dir outer.isOut o i
  else TypedValue T dir direct outer.parameterType inner.parameterType

/-- The type that a call takes: the target's own, or the one recorded for the dynamic method. -/
def expectedType (direct : Bool) (inner : ParameterInfo Typ) (type : Typ) : Typ :=
  if direct then inner.parameterType else type

/-- What is stored through the proxy's reference is converted without an exception. -/
def OutputPasses (T : TypeSystem Typ) (dir : CastDirection) (d : OutputAndRefParameterData Typ) :
    Prop :=
  ∀ o i, T.elementType d.proxyArgumentType = some o → T.elementType d.localType = some i →
    needsCast T.toReflection dir i o = false → ConversionPasses T i o

/-- The write through the proxy's reference is sound. -/
def OutputTyped (T : TypeSystem Typ) (dir : CastDirection) (d : OutputAndRefParameterData Typ) : Prop :=
  ∀ o i, T.elementType d.proxyArgumentType = some o → T.elementType d.localType = some i →
    StoresRef T dir o i

/-- A parameter to be written back has a local of its type. -/
structure Recorded (T : TypeSystem Typ) (idx : ℕ) (outerType : Typ) (locals : List Typ)
    (d : OutputAndRefParameterData Typ) : Prop where
  index : d.proxyArgumentIndex = idx
  type : d.proxyArgumentType = outerType
  slot : ∃ i, T.elementType d.localType = some i ∧ locals[d.localIndex]? = some i

/-- The code that loads a parameter, with the local it declares. -/
structure LoadsParameter (T : TypeSystem Typ) (dir : CastDirection) (idx : ℕ)
    (outer inner : ParameterInfo Typ) (L : List Typ)
    (a : Option (OutputAndRefParameterData Typ) × Typ) (L' : List Typ)
    (code : List (Instr (OpCode Typ))) : Prop where
  grows : L <+: L'
  recorded : ∀ d ∈ a.1, Recorded T idx outer.parameterType L' d
  typed : ∀ direct arguments locals, L' <+: locals →
    arguments[idx + 1]? = some (T.typeOf outer.parameterType) →
      (∀ d ∈ a.1, OutputPasses T dir d) → ∃ ok item,
        Block (T.typedEffect arguments locals) ok code [] [item] ∧
        (ok ∧ T.accepts (expectedType direct inner a.2) item →
          ∀ d ∈ a.1, T.isByRef d.proxyArgumentType) ∧
        ((ok ∧ T.accepts (expectedType direct inner a.2) item) ∧
          (∀ d ∈ a.1, T.isByRef d.proxyArgumentType ∧ OutputTyped T dir d) ↔
            TypedParameter T dir direct outer inner)

theorem accepts_typeOf (t : Typ) : T.accepts t (T.typeOf t) := by
  unfold TypeSystem.typeOf
  split
  · rename_i e href helement
    simp [TypeSystem.accepts, href, helement]
  · exact TypeSystem.accepts_self t

omit [DecidableEq Typ] in
theorem getElem?_of_isPrefixOf {L L' : List Typ} {n : ℕ} {t : Typ} (h : L <+: L')
    (hn : L[n]? = some t) : L'[n]? = some t := by
  obtain ⟨rest, rfl⟩ := h
  rw [List.getElem?_append_left (List.getElem?_eq_some_iff.1 hn).1, hn]

/-- A parameter that the target takes as it is. -/
theorem loadsParameter_argument {outer inner : ParameterInfo Typ}
    (hsame : outer.parameterType = inner.parameterType)
    (hkind : outer.isOut || T.isByRef outer.parameterType) :
    Generates (do
      writeLoadArgument idx false
      pure ((none : Option (OutputAndRefParameterData Typ)), inner.parameterType))
      (LoadsParameter T dir idx outer inner) := by
  refine (Generates.bind (@generates_writeLoadArgument _ _ T idx) fun _ => generates_pure _).mono ?_
  rintro L a L' _ ⟨_, _, code, _, ⟨rfl, hload⟩, ⟨rfl, rfl, rfl⟩, rfl⟩
  refine ⟨List.prefix_rfl, nofun, fun direct arguments locals _ harg _ => ?_⟩
  rw [List.append_nil]
  refine ⟨True, _, hload arguments locals _ harg, nofun, ?_⟩
  have hexpected : expectedType direct inner inner.parameterType = outer.parameterType := by
    unfold expectedType
    rw [ite_self, hsame]
  rw [TypedParameter, if_pos hkind, hexpected]
  exact iff_of_true ⟨⟨trivial, accepts_typeOf _⟩, nofun⟩ (.inl hsame)

theorem accepts_reference {t s : Typ} (hi : T.elementType t = some i) :
    T.accepts t (.reference s) ↔ T.isByRef t ∧ T.underlying s = T.underlying i := by
  simp [TypeSystem.accepts, hi]

omit [DecidableEq Typ] in
theorem underlying_accessibleType :
    T.underlying (accessibleType T i) = T.underlying i ↔ accessibleType T i = i := by
  refine ⟨fun h => ?_, fun h => by rw [h]⟩
  rcases accessibleType_cases T i with hsame | hobject
  · exact hsame
  · rw [hobject, TypeSystem.underlying_object, eq_comm, TypeSystem.underlying_eq_object] at h
    rw [hobject, h]

/-- The write of what stands in the local of the type `i`. -/
theorem outputTyped_iff {d : OutputAndRefParameterData Typ}
    (ho : T.elementType d.proxyArgumentType = some o) (hi : T.elementType d.localType = some i)
    (horef : T.isByRef o = false) (hiref : T.isByRef i = false) (hpasses : OutputPasses T dir d) :
    OutputTyped T dir d ↔ T.isReferenceType o ∧ T.isOpaque i = false ∧
      (dir = .reverse → needsCast T.toReflection dir i o → o = T.object) := by
  rw [← storesRef_iff horef hiref (hpasses o i ho hi)]
  refine ⟨fun h => h o i ho hi, fun h o' i' ho' hi' => ?_⟩
  obtain rfl : o = o' := Option.some.inj (ho.symm.trans ho')
  obtain rfl : i = i' := Option.some.inj (hi.symm.trans hi')
  exact h

theorem loadsParameter_output {outer inner : ParameterInfo Typ} (hout : outer.isOut)
    (hbyRef : T.isByRef outer.parameterType = T.isByRef inner.parameterType)
    (hne : outer.parameterType ≠ inner.parameterType) :
    Generates (do
      let data ← loadOutput T.toReflection idx outer.parameterType inner.parameterType
      pure (some data, inner.parameterType)) (LoadsParameter T dir idx outer inner) := by
  unfold loadOutput
  refine (Generates.bind (Generates.bind (generates_declareLocal _) fun n =>
    Generates.bind (@generates_ldlocaS _ _ T n) fun _ => generates_pure _) fun _ =>
      generates_pure _).mono ?_
  rintro L a L' _ ⟨_, _, _, _, ⟨n, _, _, _, ⟨rfl, i, hi, rfl, rfl⟩,
    ⟨_, _, code, _, ⟨rfl, hload⟩, ⟨rfl, rfl, rfl⟩, rfl⟩, rfl⟩, ⟨rfl, rfl, rfl⟩, rfl⟩
  have hslot : (L ++ [i])[L.length]? = some i := List.getElem?_concat_length
  refine ⟨List.prefix_append _ _, ?_, fun direct arguments locals hlocals _ hpasses => ?_⟩
  · rintro d ⟨⟩
    exact ⟨rfl, rfl, i, hi, hslot⟩
  rw [List.append_nil, List.append_nil, List.nil_append]
  refine ⟨True, _, hload arguments locals i (getElem?_of_isPrefixOf hlocals hslot), ?_, ?_⟩
  · rintro ⟨-, haccepts⟩ d ⟨⟩
    have hinner : T.accepts inner.parameterType (.reference i) := by
      rwa [expectedType, ite_self] at haccepts
    exact hbyRef ▸ ((accepts_reference hi).1 hinner).1
  have hexpected : expectedType direct inner inner.parameterType = inner.parameterType := ite_self _
  have hkind : (outer.isOut || T.isByRef outer.parameterType) = true := by rw [hout, Bool.true_or]
  rw [TypedParameter, if_pos hkind, or_iff_right hne, hexpected, accepts_reference hi, ← hbyRef,
    true_and, and_iff_left rfl]
  refine and_congr_right fun href => ?_
  obtain ⟨o, ho, horef⟩ := T.elementType_byRef _ href
  have hiref : T.isByRef i = false := by
    obtain ⟨i', hi', hiref⟩ := T.elementType_byRef _ (hbyRef ▸ href)
    rwa [Option.some.inj (hi.symm.trans hi')]
  have hdata := @outputTyped_iff _ _ T dir o i ⟨L.length, inner.parameterType, idx,
    outer.parameterType⟩ ho hi horef hiref (hpasses _ rfl)
  constructor
  · intro h
    obtain ⟨hreference, hboxed, hobject⟩ := hdata.1 (h _ rfl).2
    exact ⟨o, i, ho, hi, hreference, hboxed,
      fun hin => (Bool.false_ne_true (hin.symm.trans hout)).elim,
      hobject⟩
  · rintro ⟨o', i', ho', hi', hreference, hboxed, -, hobject⟩ d ⟨⟩
    obtain rfl : o = o' := Option.some.inj (ho.symm.trans ho')
    obtain rfl : i = i' := Option.some.inj (hi.symm.trans hi')
    exact ⟨href, hdata.2 ⟨hreference, hboxed, hobject⟩⟩

theorem loadsParameter_ref {outer inner : ParameterInfo Typ} (hout : outer.isOut = false)
    (href : T.isByRef outer.parameterType) (href' : T.isByRef inner.parameterType)
    (hne : outer.parameterType ≠ inner.parameterType) :
    Generates (do
      let data ← loadRef T.toReflection (castParameter T.toReflection dir)
        (needsCast T.toReflection dir) idx outer.parameterType inner.parameterType
      pure (some data, inner.parameterType)) (LoadsParameter T dir idx outer inner) := by
  obtain ⟨o, ho, horef⟩ := T.elementType_byRef _ href
  obtain ⟨i, hi, hiref⟩ := T.elementType_byRef _ href'
  have hfold : (if T.useDirectAccessTo i then i else T.object) = accessibleType T i := rfl
  unfold loadRef
  simp only [ho, hi, hfold]
  refine (Generates.bind (Generates.bind (generates_declareLocal _) fun n =>
    Generates.bind (@generates_loadConverted _ _ T dir idx n o _) fun _ => generates_pure _)
      fun _ => generates_pure _).mono ?_
  rintro L a L' _ ⟨_, _, _, _, ⟨n, _, _, _, ⟨rfl, i', hi', rfl, rfl⟩,
    ⟨_, _, code, _, ⟨rfl, hconverts, hload⟩, ⟨rfl, rfl, rfl⟩, rfl⟩, rfl⟩, ⟨rfl, rfl, rfl⟩, rfl⟩
  obtain rfl : accessibleType T i = i' := Option.some.inj hi'
  have hslot : (L ++ [accessibleType T i])[L.length]? = some (accessibleType T i) :=
    List.getElem?_concat_length
  have hlocal : T.elementType (if T.useDirectAccessTo i then inner.parameterType
      else T.makeByRefType T.object) = some (accessibleType T i) := by
    unfold accessibleType
    split
    · exact hi
    · exact T.elementType_makeByRefType T.object T.isByRef_object
  refine ⟨List.prefix_append _ _, ?_, fun direct arguments locals hlocals harg hpasses => ?_⟩
  · rintro d ⟨⟩
    exact ⟨rfl, rfl, _, hlocal, hslot⟩
  have hreference : arguments[idx + 1]? = some (.reference o) := by
    rw [harg, TypeSystem.typeOf, href, ho]
  have hlocalref : T.isByRef (accessibleType T i) = false := by
    rcases accessibleType_cases T i with h | h
    · rw [h, hiref]
    · rw [h, T.isByRef_object]
  have hexpected : expectedType direct inner inner.parameterType = inner.parameterType := ite_self _
  have hkind : (outer.isOut || T.isByRef outer.parameterType) = true := by rw [href, Bool.or_true]
  have hdata := @outputTyped_iff _ _ T dir o (accessibleType T i) ⟨L.length, _, idx,
    outer.parameterType⟩ ho hlocal horef hlocalref (hpasses _ rfl)
  rw [List.append_nil, List.append_nil, List.nil_append]
  refine ⟨_, _, hload arguments locals hreference (getElem?_of_isPrefixOf hlocals hslot), ?_, ?_⟩
  · rintro - d ⟨⟩
    exact href
  rw [loadsRef_iff horef hlocalref hconverts, TypedParameter, if_pos hkind, or_iff_right hne,
    hexpected, accepts_reference hi, underlying_accessibleType, and_iff_right href,
    and_iff_right href']
  constructor
  · rintro ⟨⟨⟨hreference, hboxed, hcopy⟩, hsame⟩, h⟩
    obtain ⟨-, -, hobject⟩ := hdata.1 (h _ rfl).2
    rw [hsame] at hboxed hcopy hobject
    exact ⟨o, i, ho, hi, hreference, hboxed, fun _ => ⟨hsame, hcopy⟩, hobject⟩
  · rintro ⟨o', i', ho', hi', hreference, hboxed, hin, hobject⟩
    obtain rfl : o = o' := Option.some.inj (ho.symm.trans ho')
    obtain rfl : i = i' := Option.some.inj (hi.symm.trans hi')
    obtain ⟨hsame, hcopy⟩ := hin hout
    rw [hsame] at hdata ⊢
    refine ⟨⟨⟨hreference, hboxed, hcopy⟩, rfl⟩, ?_⟩
    rintro d ⟨⟩
    exact ⟨href, hdata.2 ⟨hreference, hboxed, hobject⟩⟩

theorem loadsParameter_value {outer inner : ParameterInfo Typ} (hout : outer.isOut = false)
    (href : T.isByRef outer.parameterType = false) (href' : T.isByRef inner.parameterType = false) :
    Generates (do
      let type ← loadValue T.toReflection (castParameter T.toReflection dir)
        (needsCast T.toReflection dir) idx outer.parameterType inner.parameterType
      pure ((none : Option (OutputAndRefParameterData Typ)), type))
      (LoadsParameter T dir idx outer inner) := by
  refine (Generates.bind (generates_loadValue dir idx _ _) fun _ => generates_pure _).mono ?_
  rintro L a L' _ ⟨_, _, code, _, ⟨rfl, rfl, hpasses, hload⟩, ⟨rfl, rfl, rfl⟩, rfl⟩
  refine ⟨List.prefix_rfl, nofun, fun direct arguments locals _ harg _ => ?_⟩
  have hvalue : arguments[idx + 1]? = some (.value outer.parameterType) := by
    rw [harg, TypeSystem.typeOf, href]
  have hkind : ¬ (outer.isOut || T.isByRef outer.parameterType) = true := by simp [hout, href]
  rw [List.append_nil]
  refine ⟨_, _, hload arguments locals hvalue, nofun, ?_⟩
  rw [TypedParameter, if_neg hkind, expectedType, typedValue_iff href href' hpasses]
  exact and_iff_left nofun

theorem generates_loadArgument (dir : CastDirection) (outerMethod innerMethod : MethodInfo Typ)
    (outerMethodGenericArguments : List Typ) (idx : ℕ) (outer inner : ParameterInfo Typ) :
    Generates (loadArgument T.toReflection (castParameter T.toReflection dir)
      (needsCast T.toReflection dir) outerMethod innerMethod outerMethodGenericArguments idx outer
      inner) (LoadsParameter T dir idx outer inner) := by
  unfold loadArgument
  dsimp only
  by_cases hdirection : (outer.isOut != inner.isOut || outer.isIn != inner.isIn) = true
  · rw [if_pos hdirection]
    exact generates_throw _
  by_cases hbyRef : (T.isByRef outer.parameterType != T.isByRef inner.parameterType) = true
  · rw [if_neg hdirection, if_pos hbyRef]
    exact generates_throw _
  rw [if_neg hdirection, if_neg hbyRef]
  have hbyRef : T.isByRef outer.parameterType = T.isByRef inner.parameterType := by
    rwa [bne_iff_ne, not_ne_iff] at hbyRef
  by_cases hgeneric : (T.isGenericParameter outer.parameterType !=
      T.isGenericParameter inner.parameterType &&
        decide (0 < outerMethodGenericArguments.length)) = true
  · rw [if_pos hgeneric]
    exact generates_throw _
  rw [if_neg hgeneric]
  by_cases hout : outer.isOut
  · rw [if_pos hout]
    by_cases hne : (outer.parameterType != inner.parameterType) = true
    · rw [if_pos hne]
      exact loadsParameter_output hout hbyRef (bne_iff_ne.1 hne)
    · rw [if_neg hne]
      have hsame : outer.parameterType = inner.parameterType := by
        rwa [bne_iff_ne, not_ne_iff] at hne
      exact loadsParameter_argument hsame (by rw [hout, Bool.true_or])
  rw [if_neg hout]
  have hout := Bool.eq_false_iff.2 hout
  by_cases href : T.isByRef outer.parameterType
  · rw [if_pos href]
    by_cases hne : (outer.parameterType != inner.parameterType) = true
    · rw [if_pos hne]
      exact loadsParameter_ref hout href (hbyRef ▸ href) (bne_iff_ne.1 hne)
    · rw [if_neg hne]
      have hsame : outer.parameterType = inner.parameterType := by
        rwa [bne_iff_ne, not_ne_iff] at hne
      exact loadsParameter_argument hsame (by rw [href, Bool.or_true])
  · rw [if_neg href]
    have href := Bool.eq_false_iff.2 href
    exact loadsParameter_value hout href (hbyRef ▸ href)

/-! ### The loop over the parameters -/

/-- The types that the call takes for the parameters of the proxy. -/
def expectedTypes (direct : Bool) (outer inner : List (ParameterInfo Typ)) (types : List Typ) :
    List Typ := (List.zipWith (expectedType direct) inner types).take outer.length

/-- The values on the stack, the last one on top, may stand where such are expected. -/
def Accepted (T : TypeSystem Typ) (expected : List Typ) (s : List (StackType Typ)) : Prop :=
  List.Forall₂ (fun t v => T.accepts t v) expected s.reverse

structure LoadsParameters (T : TypeSystem Typ) (dir : CastDirection) (idx : ℕ)
    (outer inner : List (ParameterInfo Typ)) (L : List Typ)
    (a : List (OutputAndRefParameterData Typ) × List Typ) (L' : List Typ)
    (code : List (Instr (OpCode Typ))) : Prop where
  grows : L <+: L'
  recorded : ∀ d ∈ a.1, ∃ k p, outer[k]? = some p ∧ Recorded T (idx + k) p.parameterType L' d
  typed : ∀ direct arguments locals, L' <+: locals →
    (∀ k p, outer[k]? = some p → arguments[idx + k + 1]? = some (T.typeOf p.parameterType)) →
      (∀ d ∈ a.1, OutputPasses T dir d) → ∃ ok items,
        Block (T.typedEffect arguments locals) ok code [] items ∧
        (ok ∧ Accepted T (expectedTypes direct outer inner a.2) items →
          ∀ d ∈ a.1, T.isByRef d.proxyArgumentType) ∧
        ((ok ∧ Accepted T (expectedTypes direct outer inner a.2) items) ∧
          (∀ d ∈ a.1, T.isByRef d.proxyArgumentType ∧ OutputTyped T dir d) ↔
            ∀ p ∈ outer.zip inner, TypedParameter T dir direct p.1 p.2)

omit [DecidableEq Typ] in
theorem Recorded.mono {t : Typ} {L L' : List Typ} {d : OutputAndRefParameterData Typ}
    (h : Recorded T idx t L d) (hL : L <+: L') : Recorded T idx t L' d := by
  obtain ⟨i, hi, hslot⟩ := h.slot
  exact ⟨h.index, h.type, i, hi, getElem?_of_isPrefixOf hL hslot⟩

/-- The first parameter and then the rest. -/
theorem LoadsParameter.cons {outer inner : ParameterInfo Typ}
    {outers inners : List (ParameterInfo Typ)} {L L₁ L' : List Typ}
    {datum : Option (OutputAndRefParameterData Typ)} {type : Typ}
    {data : List (OutputAndRefParameterData Typ)} {types : List Typ}
    {code₁ code₂ : List (Instr (OpCode Typ))}
    (h : LoadsParameter T dir idx outer inner L (datum, type) L₁ code₁)
    (hrest : LoadsParameters T dir (idx + 1) outers inners L₁ (data, types) L' code₂) :
    LoadsParameters T dir idx (outer :: outers) (inner :: inners) L
      (datum.toList ++ data, type :: types) L' (code₁ ++ code₂) := by
  refine ⟨h.grows.trans hrest.grows, fun d hd => ?_,
    fun direct arguments locals hL hargs hpasses => ?_⟩
  · rcases List.mem_append.1 hd with hd | hd
    · exact ⟨0, outer, rfl, (h.recorded d (Option.mem_toList.1 hd)).mono hrest.grows⟩
    · obtain ⟨k, p, hp, hrecorded⟩ := hrest.recorded d hd
      refine ⟨k + 1, p, hp, ?_⟩
      rwa [show idx + (k + 1) = idx + 1 + k by omega]
  · rw [List.forall_mem_append] at hpasses
    obtain ⟨ok₁, item, hblock₁, hbyRef₁, hiff₁⟩ :=
      h.typed direct arguments locals (hrest.grows.trans hL)
      (hargs 0 outer rfl) fun d hd => hpasses.1 d (Option.mem_toList.2 hd)
    obtain ⟨ok₂, items, hblock₂, hbyRef₂, hiff₂⟩ := hrest.typed direct arguments locals hL
      (fun k p hp => by
        rw [show idx + 1 + k + 1 = idx + (k + 1) + 1 by omega]
        exact hargs (k + 1) p hp) hpasses.2
    refine ⟨_, _, hblock₁.append (hblock₂.frame [item]), ?_⟩
    dsimp only at hbyRef₁ hbyRef₂ hiff₁ hiff₂ ⊢
    have haccepted : Accepted T
        (expectedTypes direct (outer :: outers) (inner :: inners) (type :: types))
        (items ++ [item]) ↔ T.accepts (expectedType direct inner type) item ∧
          Accepted T (expectedTypes direct outers inners types) items := by
      rw [Accepted, List.reverse_append, List.reverse_singleton, List.singleton_append]
      exact List.forall₂_cons
    rw [List.zip_cons_cons, List.forall_mem_cons, ← hiff₁, ← hiff₂, haccepted,
      List.forall_mem_append, List.forall_mem_append]
    simp only [Option.mem_toList]
    refine ⟨fun hok => ⟨hbyRef₁ ⟨hok.1.1, hok.2.1⟩, hbyRef₂ ⟨hok.1.2, hok.2.2⟩⟩, ?_⟩
    constructor
    · rintro ⟨⟨⟨hok₁, hok₂⟩, hitem, hitems⟩, hdatum, hdata⟩
      exact ⟨⟨⟨hok₁, hitem⟩, hdatum⟩, ⟨hok₂, hitems⟩, hdata⟩
    · rintro ⟨⟨⟨hok₁, hitem⟩, hdatum⟩, ⟨hok₂, hitems⟩, hdata⟩
      exact ⟨⟨⟨hok₁, hok₂⟩, hitem, hitems⟩, hdatum, hdata⟩

theorem generates_loadArguments (dir : CastDirection) (outerMethod innerMethod : MethodInfo Typ)
    (outerMethodGenericArguments : List Typ) (idx : ℕ) (outer inner : List (ParameterInfo Typ)) :
    Generates (loadArguments T.toReflection (castParameter T.toReflection dir)
      (needsCast T.toReflection dir) outerMethod innerMethod outerMethodGenericArguments idx outer
      inner) (LoadsParameters T dir idx outer inner) := by
  induction inner generalizing idx outer with
  | nil =>
    cases outer with
    | cons p outer => exact generates_throw _
    | nil =>
      refine (generates_pure _).mono ?_
      rintro L a L' _ ⟨rfl, rfl, rfl⟩
      have hnone : ∀ {P : Prop} {d : OutputAndRefParameterData Typ}, d ∈ [] → P := by
        rintro P d ⟨⟩
      refine ⟨List.prefix_rfl, fun d hd => hnone hd, fun direct arguments locals _ _ _ => ?_⟩
      refine ⟨True, [], .nil, ?_, iff_of_true ⟨⟨trivial, .nil⟩, ?_⟩ ?_⟩
      · exact fun _ d hd => hnone hd
      · exact fun d hd => hnone hd
      · intro p hp
        cases hp
  | cons innerInfo inner ih =>
    cases outer with
    | nil =>
      unfold loadArguments
      split
      · exact generates_throw _
      · refine (Generates.bind (ih (idx + 1) []) fun _ => generates_pure _).mono ?_
        rintro L a L' _ ⟨⟨data, types⟩, L₁, code, _, hrest, ⟨rfl, rfl, rfl⟩, rfl⟩
        rw [List.append_nil]
        refine ⟨hrest.grows, fun d hd => ?_, fun direct arguments locals hL _ hpasses => ?_⟩
        · obtain ⟨k, p, hp, -⟩ := hrest.recorded d hd
          cases hp
        · refine hrest.typed direct arguments locals hL (fun k p hp => ?_) hpasses
          cases hp
    | cons outerInfo outer =>
      unfold loadArguments
      refine (Generates.bind (generates_loadArgument dir outerMethod innerMethod
        outerMethodGenericArguments idx outerInfo innerInfo) fun _ =>
          Generates.bind (ih (idx + 1) outer) fun _ => generates_pure _).mono ?_
      rintro L a L' _ ⟨⟨datum, type⟩, L₁, code₁, _, hfirst,
        ⟨⟨data, types⟩, L₂, code₂, _, hrest, ⟨rfl, rfl, rfl⟩, rfl⟩, rfl⟩
      rw [List.append_nil]
      exact hfirst.cons hrest

/-! ### After the call -/

/-- The reference to write through is an argument, and what is written stands in a local. -/
def Settled (T : TypeSystem Typ) (arguments : List (StackType Typ)) (locals : List Typ)
    (d : OutputAndRefParameterData Typ) : Prop :=
  T.isByRef d.proxyArgumentType ∧
    arguments[d.proxyArgumentIndex + 1]? = some (T.typeOf d.proxyArgumentType) ∧
    ∃ i, T.elementType d.localType = some i ∧ locals[d.localIndex]? = some i

theorem generates_setOutput (dir : CastDirection) (d : OutputAndRefParameterData Typ) :
    Generates (setOutputOrRefParameter T.toReflection (needsCast T.toReflection dir)
      (castOutput T.toReflection dir) d) fun L _ L' code => L' = L ∧ OutputPasses T dir d ∧
        ∀ arguments locals, Settled T arguments locals d →
          Block (T.typedEffect arguments locals) (OutputTyped T dir d) code [] [] := by
  by_cases hfound : ∃ o i, T.elementType d.proxyArgumentType = some o ∧
      T.elementType d.localType = some i
  · obtain ⟨o, i, ho, hi⟩ := hfound
    refine (generates_setOutputOrRefParameter dir ho hi).mono ?_
    rintro L _ L' code ⟨rfl, hpasses, hstore⟩
    refine ⟨rfl, fun o' i' ho' hi' => ?_, ?_⟩
    · obtain rfl : o = o' := Option.some.inj (ho.symm.trans ho')
      obtain rfl : i = i' := Option.some.inj (hi.symm.trans hi')
      exact hpasses
    · rintro arguments locals ⟨href, harg, i', hi', hslot⟩
      obtain rfl : i = i' := Option.some.inj (hi.symm.trans hi')
      rw [TypeSystem.typeOf, href, ho] at harg
      refine (hstore arguments locals harg hslot).congr
        ⟨fun h o' i' ho' hi' => ?_, fun h => h o i ho hi⟩
      obtain rfl : o = o' := Option.some.inj (ho.symm.trans ho')
      obtain rfl : i = i' := Option.some.inj (hi.symm.trans hi')
      exact h
  · unfold setOutputOrRefParameter
    split
    · rename_i o i ho hi
      exact absurd ⟨o, i, ho, hi⟩ hfound
    · exact generates_throw _

theorem generates_setOutputs (dir : CastDirection) (data : List (OutputAndRefParameterData Typ)) :
    Generates (addIlToSetOutputAndRefParameters T.toReflection (needsCast T.toReflection dir)
      (castOutput T.toReflection dir) data) fun L _ L' code => L' = L ∧
        (∀ d ∈ data, OutputPasses T dir d) ∧
        ∀ arguments locals, (∀ d ∈ data, Settled T arguments locals d) →
          Block (T.typedEffect arguments locals) (∀ d ∈ data, OutputTyped T dir d) code [] [] := by
  induction data with
  | nil =>
    refine (generates_pure ()).mono ?_
    rintro L _ L' _ ⟨-, rfl, rfl⟩
    exact ⟨rfl, nofun, fun arguments locals _ => Block.nil.congr (iff_of_true trivial nofun)⟩
  | cons d data ih =>
    refine (Generates.bind (generates_setOutput dir d) fun _ => ih).mono ?_
    rintro L _ L' _ ⟨_, L₁, code₁, code₂, ⟨rfl, hpasses, hfirst⟩, ⟨rfl, hrest, hblock⟩, rfl⟩
    refine ⟨rfl, List.forall_mem_cons.2 ⟨hpasses, hrest⟩, fun arguments locals h => ?_⟩
    rw [List.forall_mem_cons] at h
    exact ((hfirst arguments locals h.1).append (hblock arguments locals h.2)).congr
      List.forall_mem_cons.symm

/-! ### The code of a proxy method -/

/-- The code in front of the call and behind it, and the types recorded for a dynamic method. -/
structure Passed (Typ : Type) where
  load : List (Instr (OpCode Typ))
  store : List (Instr (OpCode Typ))
  types : List Typ

/-- The arguments are loaded, and behind the call the output and ref parameters are set. -/
def passParameters (T : TypeSystem Typ) (dir : CastDirection) (outerMethod innerMethod : MethodInfo Typ)
    (outerMethodGenericArguments : List Typ) : Emitter Typ (Passed Typ) := do
  let (outputAndRefParameters, types) ← addIlToLoadArguments T.toReflection
    (castParameter T.toReflection dir) (needsCast T.toReflection dir) innerMethod outerMethod
    outerMethodGenericArguments
  let loaded ← get
  addIlToSetOutputAndRefParameters T.toReflection (needsCast T.toReflection dir)
    (castOutput T.toReflection dir) outputAndRefParameters
  let stored ← get
  pure ⟨loaded.instructions, stored.instructions.drop loaded.instructions.length, types⟩

/-- The arguments of the proxy method, behind the proxy itself. -/
def argumentTypes (T : TypeSystem Typ) (outerMethod : MethodInfo Typ) : List (StackType Typ) :=
  .value outerMethod.declaringType :: outerMethod.parameters.map fun p => T.typeOf p.parameterType

/-- On every path, the operations find values of the types that they need, the call finds one of
the expected type for each parameter of the proxy, and the stores leave the stack as it was. -/
structure TypeSound (T : TypeSystem Typ) (outerMethod innerMethod : MethodInfo Typ) (direct : Bool)
    (passed : Passed Typ) (locals : List Typ) : Prop where
  load : EveryPath (T.typedEffect (argumentTypes T outerMethod) locals)
    (Accepted T (expectedTypes direct outerMethod.parameters innerMethod.parameters passed.types))
    passed.load []
  store : EveryPath (T.typedEffect (argumentTypes T outerMethod) locals) (· = []) passed.store []

theorem passParameters_typeSound_iff (T : TypeSystem Typ) (dir : CastDirection) (direct : Bool)
    (outerMethod innerMethod : MethodInfo Typ) (outerMethodGenericArguments : List Typ)
    (passed : Passed Typ) (il : LazyILGenerator Typ)
    (hrun : runWith (passParameters T dir outerMethod innerMethod outerMethodGenericArguments)
      (.new Typ) = (.ok passed, il)) :
    TypeSound T outerMethod innerMethod direct passed il.locals ↔
      ∀ p ∈ outerMethod.parameters.zip innerMethod.parameters,
        TypedParameter T dir direct p.1 p.2 := by
  obtain ⟨⟨data, types⟩, il₁, hload, hrest⟩ := runWith_bind_eq_ok.1 hrun
  obtain ⟨loaded, _, hget, hrest⟩ := runWith_bind_eq_ok.1 hrest
  rw [runWith_get] at hget
  cases hget
  obtain ⟨u, il₂, hstore, hrest⟩ := runWith_bind_eq_ok.1 hrest
  obtain ⟨stored, _, hget, hrest⟩ := runWith_bind_eq_ok.1 hrest
  rw [runWith_get] at hget
  cases hget
  rw [runWith_pure] at hrest
  cases hrest
  obtain ⟨hend, code, hcode, hloads⟩ := generates_loadArguments dir outerMethod innerMethod
    outerMethodGenericArguments 0 _ _ _ _ _ rfl hload
  obtain ⟨-, code', hcode', hlocals, hpasses, hblock'⟩ := generates_setOutputs dir data _ _ _ hend
    hstore
  have hargs : ∀ k p, outerMethod.parameters[k]? = some p →
      (argumentTypes T outerMethod)[0 + k + 1]? = some (T.typeOf p.parameterType) := by
    intro k p hp
    rw [Nat.zero_add, argumentTypes, List.getElem?_cons_succ, List.getElem?_map, hp]
    rfl
  obtain ⟨ok, items, hblock, hbyRef, hiff⟩ := hloads.typed direct (argumentTypes T outerMethod)
    il.locals (hlocals ▸ List.prefix_rfl) hargs hpasses
  have hload_code : il₁.instructions = code := hcode
  have hstore_code : il.instructions.drop il₁.instructions.length = code' := by
    rw [hcode', List.drop_left]
  have hsettled : (∀ d ∈ data, T.isByRef d.proxyArgumentType) →
      ∀ d ∈ data, Settled T (argumentTypes T outerMethod) il.locals d := by
    intro href d hd
    obtain ⟨k, p, hp, hrecorded⟩ := hloads.recorded d hd
    obtain ⟨i, hi, hslot⟩ := hrecorded.slot
    refine ⟨href d hd, ?_, i, hi, hlocals ▸ hslot⟩
    rw [hrecorded.index, hrecorded.type]
    exact hargs k p hp
  rw [← hiff]
  constructor
  · rintro ⟨hl, hs⟩
    have hl' := hblock.everyPath_iff.1 (hload_code ▸ hl)
    have href := hbyRef hl'
    have hs' := ((hblock' _ _ (hsettled href)).everyPath_iff.1 (hstore_code ▸ hs)).1
    exact ⟨hl', fun d hd => ⟨href d hd, hs' d hd⟩⟩
  · rintro ⟨hl, hs⟩
    have href : ∀ d ∈ data, T.isByRef d.proxyArgumentType := fun d hd => (hs d hd).1
    refine ⟨?_, ?_⟩
    · show EveryPath _ _ il₁.instructions []
      rw [hload_code]
      exact hblock.everyPath_iff.2 hl
    · show EveryPath _ _ (il.instructions.drop il₁.instructions.length) []
      rw [hstore_code]
      exact (hblock' _ _ (hsettled href)).everyPath_iff.2 ⟨fun d hd => (hs d hd).2, rfl⟩

/-- The code of a conversion between types, run on a value of the first. -/
theorem conversion_typeSound_iff {s t : Typ} (hs : T.isByRef s = false) (ht : T.isByRef t = false)
    {il : LazyILGenerator Typ} (hrun : runWith (writeSafeTypeConversion T.toReflection s t)
      (.new Typ) = (.ok (), il)) (arguments : List (StackType Typ)) (locals : List Typ) :
    EveryPath (T.typedEffect arguments locals) (Accepted T [t]) il.instructions [.value s] ↔
      SoundConversion T s t := by
  obtain ⟨-, code, hcode, -, hpasses, hblock⟩ :=
    turns_writeSafeTypeConversion s t _ _ _ rfl hrun
  have hinstructions : il.instructions = code := hcode
  have h := hblock arguments locals (.value s) (Accepted T [t]) [] []
  rw [List.append_nil, List.append_nil, List.append_nil, EveryPath.nil_iff] at h
  have haccepted : Accepted T [t] [converted T s t (.value s)] ↔
      T.accepts t (converted T s t (.value s)) := by
    rw [Accepted, List.reverse_singleton, List.forall₂_cons]
    exact and_iff_left .nil
  rw [hinstructions, h, haccepted, value_conversion_iff hs ht hpasses]

/-- When the code that loads and sets the parameters is type sound, and when a conversion is. -/
theorem typeSound_iff (T : TypeSystem Typ) :
    (∀ (dir : CastDirection) (direct : Bool) (outerMethod innerMethod : MethodInfo Typ)
      (outerMethodGenericArguments : List Typ) (passed : Passed Typ) (il : LazyILGenerator Typ),
      runWith (passParameters T dir outerMethod innerMethod outerMethodGenericArguments)
        (.new Typ) = (.ok passed, il) →
      (TypeSound T outerMethod innerMethod direct passed il.locals ↔
        ∀ p ∈ outerMethod.parameters.zip innerMethod.parameters,
          TypedParameter T dir direct p.1 p.2)) ∧
    ∀ (s t : Typ) (il : LazyILGenerator Typ), T.isByRef s = false → T.isByRef t = false →
      runWith (writeSafeTypeConversion T.toReflection s t) (.new Typ) = (.ok (), il) →
      ∀ arguments locals,
        (EveryPath (T.typedEffect arguments locals) (Accepted T [t]) il.instructions [.value s] ↔
          SoundConversion T s t) :=
  ⟨passParameters_typeSound_iff T, fun _ _ _ hs ht hrun => conversion_typeSound_iff hs ht hrun⟩

/-! ### An enum by reference -/

inductive Element
  | object | void | text | int32 | color | iDuckType
  deriving DecidableEq, Repr

/-- A type, or the by-ref type of it. -/
structure ElementType where
  element : Element
  isByRef : Bool
  deriving DecidableEq, Repr

/-- A public method `Read` with a parameter of the type. -/
def readMethod (t : ElementType) : MethodInfo ElementType where
  name := "Read"
  parameters := [⟨t, false, false, false⟩]
  returnType := ⟨.void, false⟩
  declaringType := ⟨.object, false⟩
  genericArguments := []
  isStatic := false
  isPublic := true
  isGenericMethod := false
  containsGenericParameters := false
  duckAttribute := none
  hasDuckReverseMethod := false

/-- `color` is an enum over `int32`, `text` a class. -/
def colors : TypeSystem ElementType where
  isByRef := ElementType.isByRef
  elementType t := if t.isByRef then some ⟨t.element, false⟩ else none
  makeByRefType t := ⟨t.element, true⟩
  isGenericParameter _ := false
  isGenericType _ := false
  isValueType t := !t.isByRef && (t.element == .int32 || t.element == .color)
  isEnum t := !t.isByRef && t.element == .color
  isClass t := !t.isByRef && (t.element == .object || t.element == .text)
  isAbstract _ := false
  enumUnderlyingType t := ⟨.int32, t.isByRef⟩
  isAssignableFrom t t' := t == t' || t == ⟨.object, false⟩
  toString _ := ""
  fullName _ := none
  name _ := ""
  assemblyName _ := ""
  genericTypeArguments _ := []
  object := ⟨.object, false⟩
  void := ⟨.void, false⟩
  iDuckType := ⟨.iDuckType, false⟩
  inCoreLibrary t := t.element != .iDuckType
  hasDuckCopy _ := false
  getType _ := none
  getMethod _ _ _ _ := none
  makeGenericMethod _ _ := none
  makeGenericMethod_shape _ _ _ h := by cases h
  useDirectAccessTo _ := true
  genericParameterPosition _ := 0
  isValueType_enum t h := by
    obtain ⟨element, isByRef⟩ := t
    cases element <;> cases isByRef <;> first | rfl | cases h
  isValueType_underlying t h := by
    obtain ⟨element, isByRef⟩ := t
    cases element <;> cases isByRef <;> first | rfl | cases h
  isValueType_duckCopy _ h := by cases h
  elementType_byRef t h := ⟨⟨t.element, false⟩, if_pos h, rfl⟩
  elementType_makeByRefType t h := by
    obtain ⟨element, isByRef⟩ := t
    obtain rfl : isByRef = false := h
    rfl
  isByRef_object := rfl
  isValueType_object := rfl
  isGenericParameter_object := rfl
  inCoreLibrary_object := rfl
  eq_object_of_isAssignableFrom t h := by
    obtain ⟨element, isByRef⟩ := t
    cases element <;> cases isByRef <;> first | rfl | cases h
  isByRef_iDuckType := rfl
  isValueType_iDuckType := rfl
  isGenericParameter_iDuckType := rfl

/-- The value behind a reference to an enum is loaded and stored as an object reference. -/
theorem enum_loaded_as_object :
    selectTargetMethod colors.toReflection false ⟨.object, false⟩ (readMethod ⟨.color, true⟩)
      [readMethod ⟨.int32, true⟩] = .ok (some (readMethod ⟨.int32, true⟩)) ∧
    ∃ passed il, runWith (passParameters colors .forward (readMethod ⟨.color, true⟩)
        (readMethod ⟨.int32, true⟩) []) (.new ElementType) = (.ok passed, il) ∧
      passed.load = [.op (.ldarg 1), .op .ldindRef, .op (.stloc 0), .op (.ldlocaS 0)] ∧
      passed.store = [.op (.ldarg 1), .op (.ldloc 0), .op .stindRef] ∧
      colors.isReferenceType ⟨.color, false⟩ = false ∧
      ¬ TypeSound colors (readMethod ⟨.color, true⟩) (readMethod ⟨.int32, true⟩) true passed
        il.locals := by
  refine ⟨by decide, _, _, rfl, rfl, rfl, rfl, fun h => ?_⟩
  have hload := h.load
  rw [show Passed.load _ = [.op (.ldarg 1), .op .ldindRef, .op (.stloc 0), .op (.ldlocaS 0)] from
    rfl, EveryPath.op_iff rfl] at hload
  exact EveryPath.not_op rfl hload

/-- A reference to an object, for a target that takes one to a text. -/
theorem typeSound_iff_text :
    ∃ passed il, runWith (passParameters colors .forward (readMethod ⟨.object, true⟩)
        (readMethod ⟨.text, true⟩) []) (.new ElementType) = (.ok passed, il) ∧
      TypeSound colors (readMethod ⟨.object, true⟩) (readMethod ⟨.text, true⟩) true passed
        il.locals := by
  refine ⟨_, _, rfl, ((typeSound_iff colors).1 .forward true _ _ [] _ _ rfl).2 ?_⟩
  intro p hp
  obtain rfl := List.mem_singleton.1 hp
  refine .inr ⟨rfl, ⟨.object, false⟩, ⟨.text, false⟩, rfl, rfl, rfl, rfl, fun _ => ⟨rfl, rfl⟩,
    nofun⟩

end Emitter

end DdTrace.DuckTyping
