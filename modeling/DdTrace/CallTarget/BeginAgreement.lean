import DdTrace.CallTarget.WrapperRuns
import DdTrace.CallTarget.Wrappers
import Mathlib.Data.List.Forall2

/-!
# The fast and the slow begin wrapper

Both wrappers of a target should call `OnMethodBegin` with corresponding arguments. They do exactly
when `SlowBeginFits` (`slow_agrees_iff`): of a duck-typed parameter the slow wrapper goes by the
argument's own type, so that null and an object that implements the constraint are passed as they
are, where the fast wrapper makes a duck type by the static type.
-/

namespace DdTrace.CallTarget.IntegrationMapper

open Lib

variable {Typ : Type}

section

variable [DecidableEq Typ] (R : ValueTypes Typ)

/-- The same object, or values of one representation: a parameter of an enum type takes another
enum. -/
inductive Equal (v w : Value Typ) : Prop
  | same : v.box = w.box → Equal v w
  | representation {s t : Typ} {content : ℕ} :
      underlying R.toRuntimeTypes s = underlying R.toRuntimeTypes t →
      v.box = .boxed s content → w.box = .boxed t content → Equal v w

/-- What the two wrappers pass for a parameter that is duck typed by a constraint or plain. -/
def Corresponds (constraint : Option Typ) (v w : Value Typ) : Prop :=
  match constraint with
  | none => Equal R v w
  | some _ => (v = .null ∧ w = .null) ∨
      ∃ proxyType proxyType' target, v = .proxy proxyType target ∧ w = .proxy proxyType' target

/-- The arguments correspond, and those of the slow wrapper are of the parameters' types. -/
def CorrespondAll (method : MethodInfo Typ) (typeArguments : List Typ) :
    List (SignatureType Typ) → List (Value Typ) → List (Value Typ) → Prop
  | parameter :: parameters, v :: vs, w :: ws =>
    (Corresponds R (method.argumentConstraint R.toRuntimeTypes parameter) v w ∧
      w.HasType R (parameter.instantiate R.toRuntimeTypes typeArguments)) ∧
    CorrespondAll method typeArguments parameters vs ws
  | [], [], [] => True
  | _, _, _ => False

/-- The slow wrapper, which gets the arguments in an array, calls the method as the fast one does:
with the same instance, if any, and corresponding arguments. -/
def SlowAgrees (integrationType : IntegrationType Typ) (targetType : Typ)
    (argumentsTypes : List Typ) (fast : DynamicMethod Typ) (inst : Value Typ)
    (values : List (Value Typ)) : Prop :=
  ∃ slow method fastTypes slowTypes instances fastValues slowValues,
    createSlowBeginMethodDelegate R.toRuntimeTypes integrationType targetType = .ok (some slow) ∧
    fast.invoke R (.value inst :: values.map .value) =
      .ok (.invoked (.onMethod method fastTypes) ((instances ++ fastValues).map .value)) ∧
    slow.invoke R [.value inst, .array (values.map Value.box)] =
      .ok (.invoked (.onMethod method slowTypes) ((instances ++ slowValues).map .value)) ∧
    instances.length = (if method.mustLoadInstance argumentsTypes then 1 else 0) ∧
    CorrespondAll R method slowTypes
      (method.valueParameters (method.mustLoadInstance argumentsTypes)) fastValues slowValues

/-! ### When the wrappers agree -/

/-- The type arguments of the slow wrapper. -/
def slowBeginTypes (method : MethodInfo Typ) (targetType : Typ) : List Typ :=
  passedType R.toRuntimeTypes (method.firstConstraint 0) targetType ::
    slowTypeArguments R.toRuntimeTypes method (method.valueParameters method.loadsInstance)

/-- A value for a duck-typed parameter is an object whose own type does not implement the
constraint and has a duck type; and the type argument of a generic parameter takes what is
passed. -/
def ValueFits (method : MethodInfo Typ) (typeArguments : List Typ)
    (parameter : SignatureType Typ) (v : Value Typ) : Prop :=
  match method.argumentConstraint R.toRuntimeTypes parameter with
  | some constraint => ∃ t proxyType, v.box.getType = some t ∧
      R.isAssignableFrom constraint t = false ∧
      R.getOrCreateProxyType constraint t = some proxyType ∧
      (Value.proxy proxyType v.box).HasType R
        (parameter.instantiate R.toRuntimeTypes typeArguments)
  | none => parameter.position?.isSome →
      v.box.HasType R (parameter.instantiate R.toRuntimeTypes typeArguments)

def ValuesFit (method : MethodInfo Typ) (typeArguments : List Typ) :
    List (SignatureType Typ) → List (Value Typ) → Prop
  | parameter :: parameters, v :: values =>
    ValueFits R method typeArguments parameter v ∧
      ValuesFit method typeArguments parameters values
  | _, _ => True

structure SlowBeginFits (method : MethodInfo Typ) (targetType : Typ) (argumentsTypes : List Typ)
    (values : List (Value Typ)) : Prop where
  fast : BeginFits R.toRuntimeTypes method targetType argumentsTypes
  parameters : method.parameters ≠ []
  admits : method.admits R.toRuntimeTypes (slowBeginTypes R method targetType)
  values : ValuesFit R method (slowBeginTypes R method targetType)
    (method.valueParameters method.loadsInstance) values

end

section

variable [DecidableEq Typ] {R : ValueTypes Typ} {method : MethodInfo Typ} {v : Value Typ}
  {parameter : SignatureType Typ} {parameters : List (SignatureType Typ)} {s t : Typ}
  {typeArguments types argumentsTypes sourceTypes : List Typ} {targetType : Typ}
  {integrationType : IntegrationType Typ} {values : List (Value Typ)} {fast : DynamicMethod Typ}
  {inst : Value Typ}

/-! ### One parameter -/

omit [DecidableEq Typ] in
theorem hasType_box (h : v.HasType R s) (ht : R.isValueType t = false)
    (hassignable : R.isAssignableFrom t s) : v.box.HasType R t := by
  cases h with
  | null => exact .null ht
  | reference _ hs => exact .reference ht (R.isAssignableFrom_trans _ _ _ hassignable hs)
  | boxed _ hs => exact .boxed ht (R.isAssignableFrom_trans _ _ _ hassignable hs)
  | proxy _ hs => exact .proxy ht (R.isAssignableFrom_trans _ _ _ hassignable hs)
  | plain => exact .boxed ht hassignable
  | nullable hs =>
    rename_i u content
    have hu := R.isAssignableFrom_trans _ _ _ hassignable (R.isAssignableFrom_nullableOf _ _ hs)
    cases content with
    | none => exact .null ht
    | some c => exact .boxed ht hu

/-- An argument is unboxed as what it was boxed as, or as another enum of its representation. -/
theorem unboxAny_box (h : v.HasType R s) (hs : R.isValueType s) (ht : R.isValueType t)
    (hunderlying : underlying R.toRuntimeTypes s = underlying R.toRuntimeTypes t) :
    ∃ w, unboxAny R t v.box = .ok w ∧ Equal R v w ∧ w.HasType R t := by
  have hnull : ∀ a u, R.nullableOf a = some u → underlying R.toRuntimeTypes a = a :=
    fun a u ha => if_neg (Bool.eq_false_iff.1 (R.isEnum_of_nullableOf a u ha))
  have hsame : ∀ a b u, underlying R.toRuntimeTypes a = underlying R.toRuntimeTypes b →
      R.nullableOf a = some u → b = a := by
    intro a b u hab ha
    rw [hnull a u ha] at hab
    by_cases hb : R.isEnum b
    · rw [underlying, if_pos hb] at hab
      have := R.nullableOf_enumUnderlyingType b hb
      rw [← hab, ha] at this
      cases this
    · rw [underlying, if_neg hb] at hab
      exact hab.symm
  cases h with
  | null hreference =>
    rw [hreference] at hs
    cases hs
  | reference hreference =>
    rw [hreference] at hs
    cases hs
  | boxed hreference =>
    rw [hreference] at hs
    cases hs
  | proxy hreference =>
    rw [hreference] at hs
    cases hs
  | plain _ hplain =>
    rename_i content _
    have htplain : R.nullableOf t = none := by
      cases htu : R.nullableOf t with
      | none => rfl
      | some u =>
        rw [hsame t s u hunderlying.symm htu, htu] at hplain
        cases hplain
    refine ⟨.plain t content, ?_, .representation hunderlying rfl rfl, .plain ht htplain⟩
    simp only [Value.box, unboxAny, htplain, if_pos hunderlying]
  | nullable hu =>
    rename_i u content
    obtain rfl := hsame s t u hunderlying hu
    refine ⟨.nullable u content, ?_, .same rfl, .nullable hu⟩
    cases content with
    | none => simp only [Value.box, unboxAny, hu]
    | some c => simp only [Value.box, unboxAny, hu, if_pos]

/-- What becomes of the parameter is passed as the fast wrapper passes it. -/
def Converts (R : ValueTypes Typ) (method : MethodInfo Typ) (types : List Typ)
    (parameter : SignatureType Typ) (v passed : Value Typ) : Prop :=
  ∃ w, convertElement R method parameter v.box = .ok w ∧
    Corresponds R (method.argumentConstraint R.toRuntimeTypes parameter) passed w ∧
    w.HasType R (parameter.instantiate R.toRuntimeTypes types)

theorem argumentConstraint_concrete (h : parameter.position? = none) :
    method.argumentConstraint R.toRuntimeTypes parameter = none := by
  rw [MethodInfo.argumentConstraint, h]
  rfl

/-- A concrete parameter takes a value of its own representation. -/
theorem converts_concrete (hclosed : parameter.closed? R.toRuntimeTypes = some t)
    (hposition : parameter.position? = none) (hv : v.HasType R s)
    (hpasses : R.isAssignableFrom t s || (R.isEnum s && R.isEnum t))
    (hfits : R.isValueType s → underlying R.toRuntimeTypes s = underlying R.toRuntimeTypes t) :
    Converts R method types parameter v v := by
  have hconstraint : method.argumentConstraint R.toRuntimeTypes parameter = none :=
    argumentConstraint_concrete hposition
  rw [Converts, convertElement, hconstraint, hclosed, instantiate_of_closed types hclosed]
  cases ht : R.isValueType t with
  | true =>
    have hs : R.isValueType s := by
      rcases (Bool.or_eq_true_iff.1 hpasses) with hassignable | henum
      · exact R.isValueType_of_isAssignableFrom t s hassignable ht
      · exact R.isValueType_of_isEnum s (Bool.and_eq_true_iff.1 henum).1
    rw [Option.filter_some_pos ht]
    exact unboxAny_box hv hs ht (hfits hs)
  | false =>
    have hassignable : R.isAssignableFrom t s := by
      rcases (Bool.or_eq_true_iff.1 hpasses) with hassignable | henum
      · exact hassignable
      · have := R.isValueType_of_isEnum t (Bool.and_eq_true_iff.1 henum).2
        rw [ht] at this
        cases this
    rw [Option.filter_some_neg ht]
    exact ⟨v.box, rfl, .same (Value.box_box v).symm, hasType_box hv ht hassignable⟩

/-- A plain generic parameter gets the object. -/
theorem converts_plain_iff {position : ℕ} (hposition : parameter.position? = some position)
    (hconstraint : method.argumentConstraint R.toRuntimeTypes parameter = none) :
    Converts R method types parameter v v ↔
      v.box.HasType R (parameter.instantiate R.toRuntimeTypes types) := by
  rw [Converts, convertElement, hconstraint]
  have hclosed : parameter.closed? R.toRuntimeTypes = none := by
    rw [position?_eq_some hposition]
    rfl
  rw [hclosed]
  constructor
  · rintro ⟨w, hw, -, htype⟩
    cases hw
    exact htype
  · intro htype
    exact ⟨v.box, rfl, .same (Value.box_box v).symm, htype⟩

omit [DecidableEq Typ] in
theorem ne_proxy (v : Value Typ) (proxyType : Typ) : v ≠ .proxy proxyType v := by
  intro h
  have := congrArg sizeOf h
  simp at this

theorem convertType_eq_proxy_iff {constraint proxyType : Typ} :
    convertType R constraint v = .ok (.proxy proxyType v) ↔
      ∃ t, v.getType = some t ∧ R.isAssignableFrom constraint t = false ∧
        R.getOrCreateProxyType constraint t = some proxyType := by
  rw [convertType]
  by_cases hself : v = .null ∨ constraint = R.object
  · rw [if_pos hself]
    refine iff_of_false (fun h => ne_proxy v proxyType (Except.ok.inj h)) ?_
    rintro ⟨t, ht, hassignable, -⟩
    rcases hself with rfl | rfl
    · cases ht
    · rw [R.isAssignableFrom_object] at hassignable
      cases hassignable
  rw [if_neg hself]
  cases v.getType with
  | none => exact iff_of_false nofun nofun
  | some t =>
    dsimp only
    by_cases hassignable : R.isAssignableFrom constraint t
    · rw [if_pos (.inr hassignable)]
      refine iff_of_false (fun h => ne_proxy v proxyType (Except.ok.inj h)) ?_
      rintro ⟨_, ⟨⟩, hfalse, -⟩
      rw [hassignable] at hfalse
      cases hfalse
    · have hne : t ≠ constraint := by
        rintro rfl
        exact hassignable (R.isAssignableFrom_self t)
      rw [if_neg (not_or.2 ⟨hne, hassignable⟩)]
      constructor
      · intro h
        refine ⟨t, rfl, Bool.eq_false_iff.2 hassignable, ?_⟩
        cases hproxy : R.getOrCreateProxyType constraint t with
        | none =>
          rw [hproxy] at h
          cases h
        | some p =>
          rw [hproxy] at h
          cases h
          rfl
      · rintro ⟨_, ⟨⟩, -, hproxy⟩
        rw [hproxy]

/-- A duck-typed parameter gets a duck type over the object, if its own type has one and does not
implement the constraint. -/
theorem converts_duckTyped_iff {constraint proxyType : Typ}
    (hconstraint : method.argumentConstraint R.toRuntimeTypes parameter = some constraint) :
    Converts R method types parameter v (.proxy proxyType v.box) ↔
      ValueFits R method types parameter v := by
  rw [Converts, convertElement, ValueFits, hconstraint]
  constructor
  · rintro ⟨w, hw, hcorresponds, htype⟩
    rcases hcorresponds with ⟨hnull, -⟩ | ⟨p, q, target, hp, rfl⟩
    · cases hnull
    cases hp
    obtain ⟨t, ht, hassignable, hproxy⟩ := convertType_eq_proxy_iff.1 hw
    exact ⟨t, q, ht, hassignable, hproxy, htype⟩
  · rintro ⟨t, q, ht, hassignable, hproxy, htype⟩
    exact ⟨.proxy q v.box, convertType_eq_proxy_iff.2 ⟨t, ht, hassignable, hproxy⟩,
      .inr ⟨proxyType, q, v.box, rfl, rfl⟩, htype⟩

/-! ### All parameters -/

/-- What the checks say of the first parameter. -/
theorem converts_iff {k : ℕ} {ts : List Typ}
    (hok : argumentTypeArguments R.toRuntimeTypes method (parameter :: parameters)
      (s :: sourceTypes) = .ok ts)
    (hfits : ParametersFit R.toRuntimeTypes typeArguments k (parameter :: parameters)
      (s :: sourceTypes)) (hv : v.HasType R s) :
    Converts R method types parameter v
        (passedValue R (method.argumentConstraint R.toRuntimeTypes parameter) s v) ↔
      ValueFits R method types parameter v := by
  cases hposition : parameter.position? with
  | none =>
    have hconstraint : method.argumentConstraint R.toRuntimeTypes parameter = none :=
      argumentConstraint_concrete hposition
    rw [argumentTypeArguments_concrete hposition] at hok
    rw [ParametersFit, hposition] at hfits
    rw [ValueFits, hconstraint, hposition]
    split at hok
    · rename_i hpasses
      obtain ⟨t, hclosed, hpasses⟩ := (Option.any_eq_true ..).1 hpasses
      have hfit := hfits.1
      rw [instantiate_of_closed _ hclosed] at hfit
      exact iff_of_true (converts_concrete hclosed hposition hv hpasses hfit) fun h => by cases h
    · cases hok
  | some position =>
    rw [argumentTypeArguments_generic hposition] at hok
    obtain ⟨t, ht, -⟩ := bind_eq_ok.1 hok
    cases hconstraint : method.argumentConstraint R.toRuntimeTypes parameter with
    | none =>
      rw [ValueFits, hconstraint, hposition]
      exact (converts_plain_iff hposition hconstraint).trans ⟨fun h _ => h, fun h => h rfl⟩
    | some constraint =>
      rw [hconstraint] at ht
      rw [passedValue, Option.bind_some, typeArgument_proxyType ht]
      exact converts_duckTyped_iff hconstraint

/-- The checks of the other parameters pass too. -/
theorem argumentTypeArguments_tail {ts : List Typ}
    (hok : argumentTypeArguments R.toRuntimeTypes method (parameter :: parameters)
      (s :: sourceTypes) = .ok ts) :
    ∃ ts', argumentTypeArguments R.toRuntimeTypes method parameters sourceTypes = .ok ts' := by
  cases hposition : parameter.position? with
  | none =>
    rw [argumentTypeArguments_concrete hposition] at hok
    split at hok
    · exact ⟨ts, hok⟩
    · cases hok
  | some position =>
    rw [argumentTypeArguments_generic hposition] at hok
    obtain ⟨t, -, hok⟩ := bind_eq_ok.1 hok
    obtain ⟨ts', hts', -⟩ := bind_eq_ok.1 hok
    exact ⟨ts', hts'⟩

theorem parametersFit_tail {k : ℕ}
    (hfits : ParametersFit R.toRuntimeTypes typeArguments k (parameter :: parameters)
      (s :: sourceTypes)) :
    ∃ k', ParametersFit R.toRuntimeTypes typeArguments k' parameters sourceTypes := by
  rw [ParametersFit] at hfits
  split at hfits
  · exact ⟨k + 1, hfits.2⟩
  · exact ⟨k, hfits.2⟩

/-- What the slow wrapper passes for the parameters corresponds to what the fast one passes. -/
def ConvertsAll (R : ValueTypes Typ) (method : MethodInfo Typ) (types : List Typ)
    (parameters : List (SignatureType Typ)) (values passed : List (Value Typ)) : Prop :=
  ∃ ws, slowValues R method parameters (values.map Value.box) = .ok ws ∧
    CorrespondAll R method types parameters passed ws

theorem convertsAll_cons_iff {passed : Value Typ} {passedValues : List (Value Typ)} :
    ConvertsAll R method types (parameter :: parameters) (v :: values) (passed :: passedValues) ↔
      Converts R method types parameter v passed ∧
        ConvertsAll R method types parameters values passedValues := by
  rw [ConvertsAll, List.map_cons, slowValues_cons]
  constructor
  · rintro ⟨ws, hws, hall⟩
    obtain ⟨w, hw, hws⟩ := bind_eq_ok.1 hws
    obtain ⟨ws', hws', hws⟩ := bind_eq_ok.1 hws
    cases hws
    exact ⟨⟨w, hw, hall.1⟩, ws', hws', hall.2⟩
  · rintro ⟨⟨w, hw, hhead⟩, ws, hws, htail⟩
    exact ⟨w :: ws, bind_eq_ok.2 ⟨w, hw, bind_eq_ok.2 ⟨ws, hws, rfl⟩⟩, hhead, htail⟩

/-- The arguments correspond exactly when each fits. -/
theorem convertsAll_iff {k : ℕ} {ts : List Typ}
    (hvalues : List.Forall₂ (Value.HasType R) values sourceTypes)
    (hlen : parameters.length = sourceTypes.length)
    (hok : argumentTypeArguments R.toRuntimeTypes method parameters sourceTypes = .ok ts)
    (hfits : ParametersFit R.toRuntimeTypes typeArguments k parameters sourceTypes) :
    ConvertsAll R method types parameters values
        (fastValues R method parameters sourceTypes values) ↔
      ValuesFit R method types parameters values := by
  induction parameters generalizing k ts sourceTypes values with
  | nil =>
    obtain rfl := List.length_eq_zero_iff.1 hlen.symm
    cases hvalues
    exact iff_of_true ⟨[], rfl, trivial⟩ trivial
  | cons parameter parameters ih =>
    cases hvalues with
    | nil => cases hlen
    | cons hv hvalues =>
      obtain ⟨ts', hok'⟩ := argumentTypeArguments_tail hok
      obtain ⟨k', hfits'⟩ := parametersFit_tail hfits
      rw [fastValues, convertsAll_cons_iff, converts_iff hok hfits hv,
        ih hvalues (Nat.succ.inj hlen) hok' hfits']
      rfl

/-! ### Instances -/

theorem length_slowTypeArguments (parameters : List (SignatureType Typ)) :
    (slowTypeArguments R.toRuntimeTypes method parameters).length
      = parameters.countP (·.position?.isSome) := by
  induction parameters with
  | nil => rfl
  | cons parameter parameters ih =>
    rw [slowTypeArguments, List.countP_cons]
    cases parameter.position? with
    | none => exact ih
    | some position => exact congrArg (· + 1) ih

theorem length_inferredTypes (hlen : parameters.length = sourceTypes.length) :
    (inferredTypes R.toRuntimeTypes method parameters sourceTypes).length
      = parameters.countP (·.position?.isSome) := by
  induction parameters generalizing sourceTypes with
  | nil => rfl
  | cons parameter parameters ih =>
    obtain ⟨sourceType, sourceTypes, rfl⟩ : ∃ s ss, sourceTypes = s :: ss :=
      List.exists_cons_of_length_eq_add_one hlen.symm
    have hrest := ih (Nat.succ.inj hlen)
    rw [List.countP_cons]
    cases hposition : parameter.position? with
    | none =>
      rw [inferredTypes_concrete hposition]
      exact hrest
    | some position =>
      rw [inferredTypes_generic hposition]
      exact congrArg (· + 1) hrest

omit [DecidableEq Typ] in
theorem length_of_admits (h : method.admits R.toRuntimeTypes types) :
    types.length = method.genericArguments.length :=
  beq_iff_eq.1 (Bool.and_eq_true_iff.1 h).1

omit [DecidableEq Typ] in
theorem loadsInstance_iff : method.loadsInstance ↔
    method.parameters.head?.bind SignatureType.position? = some 0 := beq_iff_eq

/-- Both wrappers load the instance, or none does: the number of type arguments tells. -/
theorem loadsInstance_eq
    (h : BeginWrapper R.toRuntimeTypes method targetType argumentsTypes fast)
    (hadmits : method.admits R.toRuntimeTypes (slowBeginTypes R method targetType)) :
    method.loadsInstance = method.mustLoadInstance argumentsTypes := by
  cases hmust : method.mustLoadInstance argumentsTypes with
  | true => exact loadsInstance_iff.2 (h.first hmust)
  | false =>
    rw [Bool.eq_false_iff]
    intro hloads
    have hparameters := parameters_eq_cons hloads (loadsInstance_iff.1 hloads)
    have hall : method.valueParameters false = method.parameters := List.drop_zero ..
    have hfast := length_of_admits h.admits
    have hslow := length_of_admits hadmits
    have hlen := h.length
    rw [hmust, hall] at hlen
    rw [beginTypes, hmust, hall, List.length_cons, length_inferredTypes hlen, hparameters,
      List.countP_cons_of_pos rfl] at hfast
    rw [slowBeginTypes, List.length_cons, length_slowTypeArguments] at hslow
    omega

/-! ### The two wrappers -/

/-- The wrapper that gets an array. -/
def slowWrapper (R : ValueTypes Typ) (method : MethodInfo Typ) (targetType : Typ) :
    DynamicMethod Typ where
  returnType := R.callTargetState
  parameterTypes := [targetType, R.objectArray]
  code := writeInstance R.toRuntimeTypes method method.loadsInstance targetType ++
    writeElements R.toRuntimeTypes method 0 (method.valueParameters method.loadsInstance) ++
    [.op (.call (.onMethod method (slowBeginTypes R method targetType))), .op .ret]

theorem createSlow_eq_ok_iff {slow : DynamicMethod Typ}
    (hmethod : integrationType.onMethodBegin = some method)
    (h : BeginWrapper R.toRuntimeTypes method targetType argumentsTypes fast) :
    createSlowBeginMethodDelegate R.toRuntimeTypes integrationType targetType = .ok (some slow) ↔
      method.parameters ≠ [] ∧
      method.admits R.toRuntimeTypes (slowBeginTypes R method targetType) ∧
      slow = slowWrapper R method targetType := by
  have hgeneric : ¬ method.genericArguments.length < 1 := by
    rw [← length_of_admits h.admits, beginTypes, List.length_cons]
    omega
  rw [createSlowBeginMethodDelegate, hmethod]
  dsimp only
  by_cases hparameters : method.parameters = []
  · rw [checkSlowBegin, if_neg (not_not.2 h.returnType), if_neg hgeneric, if_pos hparameters]
    exact iff_of_false (fun h => by cases h) fun h => h.1 hparameters
  rw [checkSlowBegin, if_neg (not_not.2 h.returnType), if_neg hgeneric, if_neg hparameters,
    and_iff_right hparameters]
  constructor
  · intro hslow
    obtain ⟨instanceType, hinstance, hslow⟩ := bind_eq_ok.1 hslow
    obtain ⟨callee, hcallee, hslow⟩ := bind_eq_ok.1 hslow
    rw [typeArgument_eq_ok hinstance] at hcallee
    obtain ⟨hadmits, rfl⟩ := makeGenericMethod_eq_ok.1 hcallee
    exact ⟨hadmits, (Option.some.inj (Except.ok.inj hslow)).symm⟩
  · rintro ⟨hadmits, rfl⟩
    exact bind_eq_ok.2 ⟨_, h.instanceType,
      bind_eq_ok.2 ⟨_, makeGenericMethod_eq_ok.2 ⟨hadmits, rfl⟩, rfl⟩⟩

/-! ### Their calls -/

/-- The call, and the return behind it. -/
theorem run_call {arguments : List (Item Typ)} (method : MethodInfo Typ) (types : List Typ)
    (s : List (Item Typ)) :
    run R arguments [.op (.call (.onMethod method types)), .op .ret] (.running s)
      = .ok (.invoked (.onMethod method types) s.reverse) := rfl

omit [DecidableEq Typ] in
/-- What both wrappers pass is the instance, if it is loaded, and then the arguments. -/
theorem reverse_items (instances vs : List (Value Typ)) :
    ((vs.map Item.value).reverse ++ (instances.map Item.value).reverse).reverse
      = (instances ++ vs).map Item.value := by
  rw [List.reverse_append, List.reverse_reverse, List.reverse_reverse, List.map_append]

theorem invoke_fast (h : BeginWrapper R.toRuntimeTypes method targetType argumentsTypes fast)
    (hlt : argumentsTypes.length < 256) (hlen : values.length = argumentsTypes.length) :
    fast.invoke R (.value inst :: values.map .value) =
      .ok (.invoked (.onMethod method (beginTypes R.toRuntimeTypes method targetType argumentsTypes))
        ((instanceValues R method (method.mustLoadInstance argumentsTypes) targetType inst ++
          fastValues R method (method.valueParameters (method.mustLoadInstance argumentsTypes))
            argumentsTypes values).map .value)) := by
  have hindex : ∀ mustLoadInstance : Bool, (if mustLoadInstance then
      (if mustLoadInstance then 1 else 0) else (if mustLoadInstance then 1 else 0) + 1) = 1 := by
    decide
  have hvalues : ∀ (j : ℕ) v, values[j]? = some v →
      (Item.value inst :: values.map Item.value)[(if method.mustLoadInstance argumentsTypes then
        (if method.mustLoadInstance argumentsTypes then 1 else 0)
        else (if method.mustLoadInstance argumentsTypes then 1 else 0) + 1) + j]?
      = some (.value v) := by
    intro j v hj
    rw [hindex]
    rw [Nat.add_comm, List.getElem?_cons_succ, List.getElem?_map, hj]
    rfl
  have harg : (Item.value inst :: values.map Item.value)[0]? = some (.value inst) := rfl
  have hinstance := run_writeInstance (R := R) method (method.mustLoadInstance argumentsTypes)
    targetType harg
  have harguments := run_writeArguments (R := R) method (method.mustLoadInstance argumentsTypes)
    (s := ((instanceValues R method (method.mustLoadInstance argumentsTypes) targetType inst).map
      Item.value).reverse)
    (if method.mustLoadInstance argumentsTypes then 1 else 0)
    (method.valueParameters (method.mustLoadInstance argumentsTypes)) h.length hlen
    hvalues (by rw [hindex]; omega)
  rw [h.wrapper, DynamicMethod.invoke]
  dsimp only [beginLoads]
  rw [List.append_assoc, run_append_of_ok hinstance, run_append_of_ok harguments, run_call,
    reverse_items]

theorem invoke_slow (elements : List (Value Typ))
    (hlen : elements.length = (method.valueParameters method.loadsInstance).length) :
    (slowWrapper R method targetType).invoke R [.value inst, .array elements] =
      (slowValues R method (method.valueParameters method.loadsInstance) elements).map fun ws =>
        .invoked (.onMethod method (slowBeginTypes R method targetType))
          ((instanceValues R method method.loadsInstance targetType inst ++ ws).map .value) := by
  have harg : [Item.value inst, .array elements][0]? = some (.value inst) := rfl
  have harray : [Item.value inst, .array elements][1]? = some (.array elements) := rfl
  have hinstance := run_writeInstance (R := R) method method.loadsInstance targetType harg
  have helements := run_writeElements (R := R) method
    (s := ((instanceValues R method method.loadsInstance targetType inst).map Item.value).reverse)
    harray 0 (method.valueParameters method.loadsInstance) hlen
    (fun j v hj => by rw [Nat.zero_add, hj])
  rw [DynamicMethod.invoke, slowWrapper]
  dsimp only
  rw [List.append_assoc, run_append_of_ok hinstance, run_append, helements]
  cases slowValues R method (method.valueParameters method.loadsInstance) elements with
  | error e => rfl
  | ok ws =>
    show run R _ _ (.running _) = .ok (.invoked _ _)
    rw [run_call, reverse_items]

omit [DecidableEq Typ] in
/-- The instance and the arguments can be told from the list of both. -/
theorem append_items_inj {instances instances' vs vs' : List (Value Typ)}
    (h : (instances ++ vs).map Item.value = (instances' ++ vs').map Item.value)
    (hlen : instances.length = instances'.length) : instances = instances' ∧ vs = vs' :=
  List.append_inj (List.map_injective_iff.2 (fun _ _ hv => Item.value.inj hv) h) hlen

omit [DecidableEq Typ] in
theorem length_instanceValues [DecidableEq Typ] (mustLoadInstance : Bool) :
    (instanceValues R method mustLoadInstance targetType inst).length
      = if mustLoadInstance then 1 else 0 := by
  cases mustLoadInstance with
  | true => rfl
  | false => rfl

theorem slowAgrees_iff (hmethod : integrationType.onMethodBegin = some method)
    (h : BeginWrapper R.toRuntimeTypes method targetType argumentsTypes fast)
    (hvalues : List.Forall₂ (Value.HasType R) values argumentsTypes) :
    fast.Sound R.toRuntimeTypes ∧
        SlowAgrees R integrationType targetType argumentsTypes fast inst values ↔
      SlowBeginFits R method targetType argumentsTypes values := by
  obtain ⟨ts, hok⟩ := h.arguments
  have hlen := hvalues.length_eq
  have helements : ∀ loads : Bool, loads = method.mustLoadInstance argumentsTypes →
      (values.map Value.box).length = (method.valueParameters loads).length := by
    rintro _ rfl
    rw [List.length_map, hlen, h.length]
  rw [begin_sound_iff h]
  constructor
  · rintro ⟨hfits, slow, method', fastTypes, slowTypes, instances, vs, ws, hslow, hfast, hinvoke,
      hinstances, hall⟩
    obtain ⟨hparameters, hadmits, rfl⟩ := (createSlow_eq_ok_iff hmethod h).1 hslow
    have hloads := loadsInstance_eq h hadmits
    rw [invoke_fast h hfits.operands hlen] at hfast
    rw [invoke_slow _ (helements _ hloads)] at hinvoke
    obtain ⟨hcallee, hitems⟩ := Control.invoked.inj (Except.ok.inj hfast)
    obtain ⟨rfl, -⟩ := Callee.onMethod.inj hcallee
    obtain ⟨-, rfl⟩ := append_items_inj hitems ((length_instanceValues _).trans hinstances.symm)
    rw [hloads] at hinvoke
    cases hws : slowValues R method
        (method.valueParameters (method.mustLoadInstance argumentsTypes))
        (values.map Value.box) with
    | error e =>
      rw [hws] at hinvoke
      cases hinvoke
    | ok ws' =>
      rw [hws] at hinvoke
      obtain ⟨hcallee, hitems⟩ := Control.invoked.inj (Except.ok.inj hinvoke)
      obtain ⟨-, rfl⟩ := Callee.onMethod.inj hcallee
      obtain ⟨-, rfl⟩ := append_items_inj hitems ((length_instanceValues _).trans hinstances.symm)
      refine ⟨hfits, hparameters, hadmits, ?_⟩
      rw [hloads]
      exact (convertsAll_iff hvalues h.length hok hfits.parameters).1 ⟨ws', hws, hall⟩
  · intro hfits
    have hloads := loadsInstance_eq h hfits.admits
    have hall := hfits.values
    rw [hloads, ← convertsAll_iff hvalues h.length hok hfits.fast.parameters] at hall
    obtain ⟨ws, hws, hall⟩ := hall
    refine ⟨hfits.fast, slowWrapper R method targetType, method, _, _, _, _, ws,
      (createSlow_eq_ok_iff hmethod h).2 ⟨hfits.parameters, hfits.admits, rfl⟩,
      invoke_fast h hfits.fast.operands hlen, ?_, length_instanceValues _, hall⟩
    rw [invoke_slow _ (helements _ hloads), hloads, hws]
    rfl

/-- The wrappers agree exactly when what the slow one converts fits. -/
theorem slow_agrees_iff
    (h : createBeginMethodDelegate R.toRuntimeTypes integrationType targetType argumentsTypes
      = .ok (some fast))
    (hvalues : List.Forall₂ (Value.HasType R) values argumentsTypes) :
    fast.Sound R.toRuntimeTypes ∧
        SlowAgrees R integrationType targetType argumentsTypes fast inst values ↔
      ∀ method ∈ integrationType.onMethodBegin,
        SlowBeginFits R method targetType argumentsTypes values := by
  cases hmethod : integrationType.onMethodBegin with
  | none =>
    rw [createBeginMethodDelegate, hmethod] at h
    cases h
  | some method =>
    rw [slowAgrees_iff hmethod (beginWrapper hmethod h) hvalues]
    constructor
    · rintro hfits _ ⟨⟩
      exact hfits
    · exact fun hfits => hfits method rfl

end

/-! ### A duck-typed argument -/

/-- What is not a proxy type is assignable to `object` and itself. -/
theorem SampleType.isAssignableFrom_iff {t s : SampleType} (h : ∀ d r, s ≠ .proxy d r) :
    SampleType.isAssignableFrom t s ↔ t = .object ∨ t = s := by
  cases s with
  | proxy d r => exact absurd rfl (h d r)
  | _ => simp [SampleType.isAssignableFrom]

theorem SampleType.isAssignableFrom_trans (t s r : SampleType)
    (hts : SampleType.isAssignableFrom t s) (hsr : SampleType.isAssignableFrom s r) :
    SampleType.isAssignableFrom t r := by
  have hobject : SampleType.isAssignableFrom .object r := sampleTypes.isAssignableFrom_object r
  by_cases hs : ∃ d r', s = .proxy d r'
  · obtain ⟨d, r', rfl⟩ := hs
    have hr : SampleType.proxy d r' = r := by
      cases r with
      | proxy d' r'' => simpa [SampleType.isAssignableFrom] using hsr
      | _ => simp [SampleType.isAssignableFrom] at hsr
    rwa [← hr]
  · rw [not_exists] at hs
    rcases (SampleType.isAssignableFrom_iff fun d r' h => hs d ⟨r', h⟩).1 hts with rfl | rfl
    · exact hobject
    · exact hsr

def sampleValueTypes : ValueTypes SampleType where
  toRuntimeTypes := sampleTypes
  nullableOf _ := none
  isEnum_of_nullableOf _ _ := nofun
  nullableOf_enumUnderlyingType _ _ := rfl
  isValueType_of_nullableOf _ _ := nofun
  isAssignableFrom_nullableOf _ _ := nofun
  isAssignableFrom_trans := SampleType.isAssignableFrom_trans

/-- `OnMethodBegin<TTarget, TArg>(TTarget, TArg)` with a constraint on `TArg`. -/
def duckTypedIntegration : IntegrationType SampleType where
  onMethodBegin := some {
    genericArguments := [⟨[], fun _ => true⟩, ⟨[.iReturnValue], fun _ => true⟩]
    parameters := [.genericParameter 0, .genericParameter 1]
    returnType := .type .callTargetState
    inScope := by simp [SignatureType.Scoped] }
  onMethodEnd := none
  onAsyncMethodEnd := none

theorem slow_agrees_string : ∃ fast, createBeginMethodDelegate sampleTypes duckTypedIntegration
      .object [.string] = .ok (some fast) ∧ fast.Sound sampleTypes ∧
    SlowAgrees sampleValueTypes duckTypedIntegration .object [.string] fast
      (.reference .object 0) [.reference .string 1] := by
  refine ⟨_, rfl, ?_⟩
  apply (slow_agrees_iff (R := sampleValueTypes) rfl
    (.cons (.reference rfl (by decide)) .nil)).2
  rintro method ⟨⟩
  refine ⟨⟨by decide, .inl rfl, trivial⟩, nofun, by decide, ?_, trivial⟩
  exact ⟨.string, .proxy .iReturnValue .string, rfl, rfl, rfl, .proxy rfl (by decide)⟩

theorem sound_duckTyped {fast : DynamicMethod SampleType}
    (h : createBeginMethodDelegate sampleTypes duckTypedIntegration .object [.string]
      = .ok (some fast)) : fast.Sound sampleTypes := by
  have hwrapper := beginWrapper rfl h
  exact (begin_sound_iff hwrapper).2 ⟨by decide, .inl rfl, trivial⟩

theorem not_slowAgrees_null {fast : DynamicMethod SampleType}
    (h : createBeginMethodDelegate sampleTypes duckTypedIntegration .object [.string]
      = .ok (some fast)) :
    ¬ SlowAgrees sampleValueTypes duckTypedIntegration .object [.string] fast
      (.reference .object 0) [.null] := by
  intro hagrees
  have hfits := (slowAgrees_iff (R := sampleValueTypes) rfl (beginWrapper rfl h)
    (.cons (.null rfl) .nil)).1 ⟨sound_duckTyped h, hagrees⟩
  obtain ⟨t, -, ht, -⟩ := hfits.values.1
  cases ht

/-- For null, the fast wrapper makes a duck type and the slow one does not. -/
theorem slow_disagrees_null : ∃ fast, createBeginMethodDelegate sampleTypes duckTypedIntegration
      .object [.string] = .ok (some fast) ∧ fast.Sound sampleTypes ∧
    ¬ SlowAgrees sampleValueTypes duckTypedIntegration .object [.string] fast
      (.reference .object 0) [.null] :=
  ⟨_, rfl, sound_duckTyped rfl, not_slowAgrees_null rfl⟩

end DdTrace.CallTarget.IntegrationMapper
