import DdTrace.CallTarget.WrapperTypes

/-!
# Sound wrappers

For each of the wrappers, when it is sound. A duck typed return value of `OnMethodEnd` never is:
the code unwraps the duck type where `CallTargetReturn` is on the stack
(`not_sound_of_proxiedReturn`).
-/

namespace DdTrace.CallTarget.IntegrationMapper

open Lib

variable {Typ : Type} [DecidableEq Typ] {R : RuntimeTypes Typ} {w : DynamicMethod Typ}
  {integrationType : IntegrationType Typ} {method : MethodInfo Typ} {constraint : Option Typ}
  {targetType returnType wrapperType constraintType s t : Typ} {argumentsTypes types ts sourceTypes : List Typ}
  {parameter : SignatureType Typ} {parameters : List (SignatureType Typ)} {callee : Callee Typ}

/-! ### What the builders return -/

theorem bind_eq_ok {ε α β : Type} {x : Except ε α} {f : α → Except ε β} {b : β} :
    x >>= f = .ok b ↔ ∃ a, x = .ok a ∧ f a = .ok b := by
  cases x with
  | error e => exact iff_of_false nofun nofun
  | ok a => exact ⟨fun h => ⟨a, rfl, h⟩, fun ⟨_, ha, h⟩ => by cases ha; exact h⟩

omit [DecidableEq Typ] in
theorem makeGenericMethod_eq_ok : makeGenericMethod R method ts = .ok callee ↔
    method.admits R ts = true ∧ callee = .onMethod method ts := by
  rw [makeGenericMethod]
  split
  · rename_i hadmits
    exact ⟨fun h => ⟨hadmits, (Except.ok.inj h).symm⟩, fun h => by rw [h.2]⟩
  · rename_i hadmits
    exact iff_of_false nofun fun h => hadmits h.1

omit [DecidableEq Typ] in
/-- With a constraint there is a proxy type. -/
theorem typeArgument_proxyType {c : Typ} (h : typeArgument R (some c) s = .ok t) :
    R.getOrCreateProxyType c s = some t := by
  dsimp only [typeArgument] at h
  cases hproxy : R.getOrCreateProxyType c s with
  | some proxyType =>
    rw [hproxy] at h
    cases h
    rfl
  | none =>
    rw [hproxy] at h
    cases h

omit [DecidableEq Typ] in
theorem typeArgument_eq_ok (h : typeArgument R constraint s = .ok t) :
    t = passedType R constraint s := by
  cases constraint with
  | none =>
    cases h
    rfl
  | some c =>
    rw [passedType, Option.bind_some, typeArgument_proxyType h]
    rfl

theorem argumentTypeArguments_generic {position : ℕ}
    (h : parameter.position? = some position) :
    argumentTypeArguments R method (parameter :: parameters) (s :: sourceTypes) = (do
      let typeArgument ← typeArgument R (method.argumentConstraint R parameter) s
      return typeArgument :: (← argumentTypeArguments R method parameters sourceTypes)) := by
  rw [argumentTypeArguments, h]

theorem argumentTypeArguments_concrete (h : parameter.position? = none) :
    argumentTypeArguments R method (parameter :: parameters) (s :: sourceTypes) =
      if (parameter.closed? R).any fun t =>
          R.isAssignableFrom t s || (R.isEnum s && R.isEnum t) then
        argumentTypeArguments R method parameters sourceTypes
      else .error .invalidCast := by
  rw [argumentTypeArguments, h]

theorem inferredTypes_generic {position : ℕ} (h : parameter.position? = some position) :
    inferredTypes R method (parameter :: parameters) (s :: sourceTypes) =
      passedType R (method.argumentConstraint R parameter) s ::
        inferredTypes R method parameters sourceTypes := by
  rw [inferredTypes, h]

theorem inferredTypes_concrete (h : parameter.position? = none) :
    inferredTypes R method (parameter :: parameters) (s :: sourceTypes) =
      inferredTypes R method parameters sourceTypes := by
  rw [inferredTypes, h]

theorem argumentTypeArguments_eq_ok
    (h : argumentTypeArguments R method parameters sourceTypes = .ok ts) :
    ts = inferredTypes R method parameters sourceTypes := by
  induction parameters generalizing sourceTypes ts with
  | nil =>
    cases h
    rfl
  | cons parameter parameters ih =>
    cases sourceTypes with
    | nil =>
      cases h
      rfl
    | cons s sourceTypes =>
      cases hposition : parameter.position? with
      | some position =>
        rw [argumentTypeArguments_generic hposition] at h
        obtain ⟨t, ht, h⟩ := bind_eq_ok.1 h
        obtain ⟨ts', hts', h⟩ := bind_eq_ok.1 h
        cases h
        rw [inferredTypes_generic hposition, typeArgument_eq_ok ht, ih hts']
      | none =>
        rw [argumentTypeArguments_concrete hposition] at h
        rw [inferredTypes_concrete hposition]
        split at h
        · exact ih h
        · cases h

omit [DecidableEq Typ] in
theorem position?_eq_some {position : ℕ} (h : parameter.position? = some position) :
    parameter = .genericParameter position := by
  cases parameter with
  | genericParameter p =>
    cases h
    rfl
  | type t => cases h
  | callTargetReturn t => cases h
  | openType f => cases h

/-! ### Calls -/

theorem acceptsAll_append {ts ts' : List Typ} {vs vs' : List (StackType Typ)}
    (hlen : ts.length = vs.length) :
    acceptsAll R (ts ++ ts') (vs ++ vs') = (acceptsAll R ts vs && acceptsAll R ts' vs') := by
  induction ts generalizing vs with
  | nil =>
    obtain rfl := List.length_eq_zero_iff.1 hlen.symm
    rfl
  | cons t ts ih =>
    obtain ⟨v, vs, rfl⟩ : ∃ v vs', vs = v :: vs' := List.exists_cons_of_length_eq_add_one hlen.symm
    rw [List.cons_append, List.cons_append, acceptsAll, acceptsAll, ih (Nat.succ.inj hlen),
      Bool.and_assoc]

/-- A call behind the code that loads its arguments. -/
theorem block_loadsThenCall {ok : Prop} {loads : List (Instr (Op Typ))} {vs : List (StackType Typ)}
    (callee : Callee Typ)
    (hloads : Block (typedEffect R w) ok loads [] vs.reverse)
    (hlen : vs.length = (callee.parameters R).length) :
    Block (typedEffect R w) (ok ∧ acceptsAll R (callee.parameters R) vs)
      (loads ++ [.op (.call callee)]) [] [.value (callee.returnType R)] :=
  hloads.append (block_call callee vs hlen)

/-! ### OnMethodBegin -/

theorem checkBegin_eq_none (h : checkBegin R method argumentsTypes = none) :
    method.returnType.closed? R = some R.callTargetState ∧
      argumentsTypes.length ≤ method.parameters.length ∧
      method.parameters.length ≤ argumentsTypes.length + 1 ∧
      (method.mustLoadInstance argumentsTypes →
        method.parameters.head?.bind SignatureType.position? = some 0) := by
  rw [checkBegin] at h
  split at h
  · cases h
  rename_i hreturn
  split at h
  · cases h
  split at h
  · cases h
  rename_i hless
  split at h
  · cases h
  rename_i hmore
  split at h
  · cases h
  rename_i hfirst
  refine ⟨not_not.1 hreturn, by omega, by omega, fun hload => ?_⟩
  by_contra hne
  exact hfirst ⟨of_decide_eq_true hload, hne⟩

/-- The parameters take what is passed for them where they fit. -/
theorem acceptsAll_passedTypes_iff (types : List Typ) {k : ℕ}
    (hlen : parameters.length = sourceTypes.length)
    (htypes : ∀ j, (inferredTypes R method parameters sourceTypes)[j]? = types[k + j]?)
    (hok : argumentTypeArguments R method parameters sourceTypes = .ok ts) :
    acceptsAll R (parameters.map (·.instantiate R types))
        ((passedTypes R method parameters sourceTypes).map .value) ↔
      ParametersFit R types k parameters sourceTypes := by
  induction parameters generalizing sourceTypes ts k with
  | nil =>
    obtain rfl := List.length_eq_zero_iff.1 hlen.symm
    exact iff_of_true rfl trivial
  | cons parameter parameters ih =>
    obtain ⟨s, sourceTypes, rfl⟩ : ∃ s ss, sourceTypes = s :: ss :=
      List.exists_cons_of_length_eq_add_one hlen.symm
    have hlen := Nat.succ.inj hlen
    show (takes R (parameter.instantiate R types)
        (passedType R (method.argumentConstraint R parameter) s) &&
      acceptsAll R (parameters.map (·.instantiate R types))
        ((passedTypes R method parameters sourceTypes).map .value)) = true ↔ _
    rw [Bool.and_eq_true, ParametersFit]
    cases hposition : parameter.position? with
    | some position =>
      rw [argumentTypeArguments_generic hposition] at hok
      rw [inferredTypes_generic hposition] at htypes
      obtain ⟨t, -, hok⟩ := bind_eq_ok.1 hok
      obtain ⟨ts', hts', -⟩ := bind_eq_ok.1 hok
      have hpassed : passedType R (method.argumentConstraint R parameter) s
          = types.getD k R.object := by
        have hk := htypes 0
        rw [Nat.add_zero] at hk
        rw [List.getD_eq_getElem?_getD, ← hk]
        rfl
      have hrest := ih hlen (k := k + 1) (fun j => by
        rw [Nat.add_right_comm, Nat.add_assoc, ← htypes]
        rfl) hts'
      rw [hrest, hpassed, position?_eq_some hposition]
      dsimp only
      refine and_congr_left' ⟨Or.inr, ?_⟩
      rintro (rfl | h)
      · exact takes_self _
      · exact h
    | none =>
      rw [argumentTypeArguments_concrete hposition] at hok
      rw [inferredTypes_concrete hposition] at htypes
      split at hok
      · rename_i hpasses
        obtain ⟨t, hclosed, hpasses⟩ := (Option.any_eq_true ..).1 hpasses
        have hconstraint : method.argumentConstraint R parameter = none := by
          rw [MethodInfo.argumentConstraint, hposition]
          rfl
        rw [ih hlen htypes hok, hconstraint, instantiate_of_closed types hclosed]
        exact and_congr_left' (takes_iff_of_passes hpasses)
      · cases hok

omit [DecidableEq Typ] in
/-- The instance, if it is loaded, and its parameter. -/
theorem parameters_eq_cons {mustLoadInstance : Bool} (h : mustLoadInstance = true)
    (hfirst : method.parameters.head?.bind SignatureType.position? = some 0) :
    method.parameters = .genericParameter 0 :: method.valueParameters mustLoadInstance := by
  rw [MethodInfo.valueParameters, if_pos h]
  cases hparameters : method.parameters with
  | nil =>
    rw [hparameters] at hfirst
    cases hfirst
  | cons parameter parameters =>
    rw [hparameters] at hfirst
    rw [position?_eq_some hfirst]
    rfl

/-- The code that loads the arguments of `OnMethodBegin`. -/
def beginLoads (R : RuntimeTypes Typ) (method : MethodInfo Typ) (targetType : Typ)
    (argumentsTypes : List Typ) : List (Instr (Op Typ)) :=
  let mustLoadInstance := method.mustLoadInstance argumentsTypes
  writeInstance R method mustLoadInstance targetType ++
    writeArguments R method mustLoadInstance (if mustLoadInstance then 1 else 0)
      (method.valueParameters mustLoadInstance) argumentsTypes

/-- The wrapper of a method that passes the checks. -/
structure BeginWrapper (R : RuntimeTypes Typ) (method : MethodInfo Typ) (targetType : Typ)
    (argumentsTypes : List Typ) (w : DynamicMethod Typ) : Prop where
  returnType : method.returnType.closed? R = some R.callTargetState
  first : method.mustLoadInstance argumentsTypes →
    method.parameters.head?.bind SignatureType.position? = some 0
  length : (method.valueParameters (method.mustLoadInstance argumentsTypes)).length
    = argumentsTypes.length
  arguments : ∃ ts, argumentTypeArguments R method
    (method.valueParameters (method.mustLoadInstance argumentsTypes)) argumentsTypes = .ok ts
  admits : method.admits R (beginTypes R method targetType argumentsTypes)
  instanceType : typeArgument R (method.firstConstraint 0) targetType
    = .ok (passedType R (method.firstConstraint 0) targetType)
  wrapper : w = {
    returnType := R.callTargetState
    parameterTypes := targetType :: argumentsTypes
    code := beginLoads R method targetType argumentsTypes ++
      [.op (.call (.onMethod method (beginTypes R method targetType argumentsTypes))), .op .ret] }

theorem beginWrapper (hmethod : integrationType.onMethodBegin = some method)
    (h : createBeginMethodDelegate R integrationType targetType argumentsTypes = .ok (some w)) :
    BeginWrapper R method targetType argumentsTypes w := by
  rw [createBeginMethodDelegate, hmethod] at h
  dsimp only at h
  cases hcheck : checkBegin R method argumentsTypes with
  | some e =>
    rw [hcheck] at h
    cases h
  | none =>
    rw [hcheck] at h
    obtain ⟨types, htypes, h⟩ := bind_eq_ok.1 h
    obtain ⟨callee, hcallee, h⟩ := bind_eq_ok.1 h
    obtain ⟨instanceType, hinstance, htypes⟩ := bind_eq_ok.1 htypes
    obtain ⟨ts, hts, htypes⟩ := bind_eq_ok.1 htypes
    cases h
    cases htypes
    obtain ⟨hadmits, rfl⟩ := makeGenericMethod_eq_ok.1 hcallee
    obtain ⟨hreturn, hless, hmore, hfirst⟩ := checkBegin_eq_none hcheck
    have htypes : instanceType :: ts = beginTypes R method targetType argumentsTypes := by
      rw [beginTypes, typeArgument_eq_ok hinstance, argumentTypeArguments_eq_ok hts]
    refine ⟨hreturn, hfirst, ?_, ⟨ts, hts⟩, by rw [← htypes, hadmits], ?_, ?_⟩
    · rw [MethodInfo.valueParameters, List.length_drop]
      by_cases hload : method.mustLoadInstance argumentsTypes = true
      · have hne : method.parameters.length ≠ argumentsTypes.length := of_decide_eq_true hload
        rw [if_pos hload]
        omega
      · have heq : ¬ method.parameters.length ≠ argumentsTypes.length :=
          of_decide_eq_false (Bool.eq_false_iff.2 hload)
        rw [if_neg hload]
        omega
    · rw [← typeArgument_eq_ok hinstance, hinstance]
    · rw [← htypes]
      rfl

/-- The types of what is passed to `OnMethodBegin`. -/
def beginPassed (R : RuntimeTypes Typ) (method : MethodInfo Typ) (targetType : Typ)
    (argumentsTypes : List Typ) : List Typ :=
  let mustLoadInstance := method.mustLoadInstance argumentsTypes
  (if mustLoadInstance then [passedType R (method.firstConstraint 0) targetType] else []) ++
    passedTypes R method (method.valueParameters mustLoadInstance) argumentsTypes

theorem block_beginLoads (h : BeginWrapper R method targetType argumentsTypes w) :
    Block (typedEffect R w) (argumentsTypes.length < 256)
      (beginLoads R method targetType argumentsTypes) []
      ((beginPassed R method targetType argumentsTypes).map .value).reverse := by
  have hparameters : w.parameterTypes = targetType :: argumentsTypes := by rw [h.wrapper]
  have hindex : ∀ mustLoadInstance : Bool, (if mustLoadInstance then
      (if mustLoadInstance then 1 else 0) else (if mustLoadInstance then 1 else 0) + 1) = 1 := by
    decide
  have hinstance := block_writeInstance (R := R) (w := w) method
    (method.mustLoadInstance argumentsTypes) (congrArg (·[0]?) hparameters)
  have harguments := block_writeArguments (R := R) (w := w) method
    (method.mustLoadInstance argumentsTypes)
    (if method.mustLoadInstance argumentsTypes then 1 else 0)
    (method.valueParameters (method.mustLoadInstance argumentsTypes)) h.length (fun j => by
      rw [hindex, hparameters, Nat.add_comm]
      rfl)
  rw [hindex] at harguments
  have hpost : ((beginPassed R method targetType argumentsTypes).map StackType.value).reverse
      = ((passedTypes R method (method.valueParameters (method.mustLoadInstance argumentsTypes))
          argumentsTypes).map .value).reverse ++
        (if method.mustLoadInstance argumentsTypes then
          [.value (passedType R (method.firstConstraint 0) targetType)] else []) := by
    rw [beginPassed, List.map_append, List.reverse_append]
    cases method.mustLoadInstance argumentsTypes with
    | true => rfl
    | false => rfl
  rw [hpost]
  refine (hinstance.append (harguments.frame _)).congr ?_
  constructor
  · rintro ⟨-, hall⟩
    by_contra hlong
    have hlast := hall (argumentsTypes.length - 1) (by omega)
    omega
  · intro hlen
    exact ⟨trivial, fun j hj => by omega⟩

/-- The call takes what is passed where the parameters fit. -/
theorem acceptsAll_beginPassed_iff (h : BeginWrapper R method targetType argumentsTypes w) :
    acceptsAll R (method.parameters.map
        (·.instantiate R (beginTypes R method targetType argumentsTypes)))
        ((beginPassed R method targetType argumentsTypes).map .value) ↔
      ParametersFit R (beginTypes R method targetType argumentsTypes) 1
        (method.valueParameters (method.mustLoadInstance argumentsTypes)) argumentsTypes := by
  obtain ⟨ts, hts⟩ := h.arguments
  have hvalues := acceptsAll_passedTypes_iff (R := R)
    (beginTypes R method targetType argumentsTypes) (k := 1) h.length
    (fun j => by rw [Nat.add_comm]; rfl) hts
  rw [← hvalues, beginPassed]
  by_cases hload : method.mustLoadInstance argumentsTypes = true
  · have hparameters := parameters_eq_cons hload (h.first hload)
    have hinstance : takes R ((SignatureType.genericParameter 0).instantiate R
        (beginTypes R method targetType argumentsTypes))
        (passedType R (method.firstConstraint 0) targetType) = true := takes_self _
    rw [if_pos hload]
    conv_lhs => rw [hparameters]
    rw [List.map_cons, List.map_append, List.map_singleton, List.singleton_append, acceptsAll,
      Bool.and_eq_true]
    exact and_iff_right hinstance
  · have hparameters : method.valueParameters (method.mustLoadInstance argumentsTypes)
        = method.parameters := by
      rw [MethodInfo.valueParameters, if_neg hload]
      rfl
    rw [if_neg hload, hparameters]
    rfl

/-- Where the code that loads the arguments is a block, the method gets as many values as it has
parameters, and the wrapper returns what the method does. -/
theorem sound_iff_of_call (callee : Callee Typ) {ok : Prop} {loads : List (Instr (Op Typ))}
    {values : List Typ}
    (hcode : w.code = loads ++ [.op (.call callee), .op .ret])
    (hloads : Block (typedEffect R w) ok loads [] (values.map .value).reverse)
    (hlen : values.length = (callee.parameters R).length) :
    w.Sound R ↔ (ok ∧ acceptsAll R (callee.parameters R) (values.map .value)) ∧
      takes R w.returnType (callee.returnType R) := by
  have hcode' : w.code = (loads ++ [.op (.call callee)]) ++ [.op .ret] := by
    rw [hcode, List.append_assoc]
    rfl
  exact sound_iff hcode' (block_loadsThenCall callee hloads (by rw [List.length_map, hlen]))

theorem begin_sound_iff (h : BeginWrapper R method targetType argumentsTypes w) :
    w.Sound R ↔ BeginFits R method targetType argumentsTypes := by
  have hlen : (beginPassed R method targetType argumentsTypes).length
      = method.parameters.length := by
    have hvalues := h.length
    rw [beginPassed, List.length_append, passedTypes, List.length_zipWith, hvalues, Nat.min_self]
    by_cases hload : method.mustLoadInstance argumentsTypes = true
    · have hparameters := congrArg List.length (parameters_eq_cons hload (h.first hload))
      rw [List.length_cons, hvalues] at hparameters
      rw [if_pos hload, hparameters, List.length_singleton, Nat.add_comm]
    · rw [MethodInfo.valueParameters, if_neg hload] at hvalues
      rw [if_neg hload, ← hvalues]
      simp
  have hreturn : takes R w.returnType (Callee.returnType R
      (.onMethod method (beginTypes R method targetType argumentsTypes))) = true := by
    rw [h.wrapper, Callee.returnType, instantiate_of_closed _ h.returnType]
    exact takes_self _
  rw [sound_iff_of_call (.onMethod method (beginTypes R method targetType argumentsTypes))
    (by rw [h.wrapper]) (block_beginLoads h) (by rw [hlen, Callee.parameters, List.length_map]),
    Callee.parameters, acceptsAll_beginPassed_iff h]
  constructor
  · rintro ⟨⟨hoperands, hfit⟩, -⟩
    exact ⟨hoperands, hfit⟩
  · rintro ⟨hoperands, hfit⟩
    exact ⟨⟨hoperands, hfit⟩, hreturn⟩

/-! ### OnMethodEnd -/

/-- The parameters of an end method: the instance, if it is loaded, others, the exception and the
state. -/
inductive EndParameters (R : RuntimeTypes Typ) : Bool → List (SignatureType Typ) →
    List (SignatureType Typ) → Prop
  | withInstance {parameter e state : SignatureType Typ} {rest : List (SignatureType Typ)} :
      e.closed? R = some R.exception → state.closed? R = some R.callTargetState →
      EndParameters R true rest (parameter :: rest ++ [e, state])
  | withoutInstance {e state : SignatureType Typ} {rest : List (SignatureType Typ)} :
      e.closed? R = some R.exception → state.closed? R = some R.callTargetState →
      EndParameters R false rest (rest ++ [e, state])

/-- The parameters behind the instance and in front of the exception. -/
def MethodInfo.middleParameters (method : MethodInfo Typ) (mustLoadInstance : Bool) :
    List (SignatureType Typ) :=
  (method.valueParameters mustLoadInstance).dropLast.dropLast

/-- What passes the checks: the instance is there if there is one parameter more. -/
theorem checkEndParameters_eq_none {least : ℕ} (hleast : 2 ≤ least)
    (h : checkEndParameters R method least = none) :
    EndParameters R (method.parameters.length == least + 1)
        (method.middleParameters (method.parameters.length == least + 1)) method.parameters ∧
      (method.middleParameters (method.parameters.length == least + 1)).length + 2 = least := by
  unfold checkEndParameters at h
  dsimp only at h
  split at h
  · cases h
  rename_i hless
  split at h
  · cases h
  rename_i hmore
  split at h
  · cases h
  rename_i hexception
  split at h
  · cases h
  rename_i hstate
  rw [not_not] at hexception hstate
  obtain ⟨e, he, heclosed⟩ := Option.bind_eq_some_iff.1 hexception
  obtain ⟨state, hstate, hstateclosed⟩ := Option.bind_eq_some_iff.1 hstate
  have hlast : method.parameters.drop (method.parameters.length - 2) = [e, state] := by
    apply List.ext_getElem?
    intro i
    rw [List.getElem?_drop]
    match i with
    | 0 => exact he
    | 1 =>
      rw [show method.parameters.length - 2 + 1 = method.parameters.length - 1 by omega]
      exact hstate
    | i + 2 =>
      rw [List.getElem?_eq_none (by omega)]
      rfl
  have hparameters := List.take_append_drop (method.parameters.length - 2) method.parameters
  have hlength : (method.parameters.take (method.parameters.length - 2)).length + 2
      = method.parameters.length := by
    rw [List.length_take]
    omega
  have hmiddle : ∀ front : List (SignatureType Typ),
      (front ++ [e, state]).dropLast.dropLast = front := by
    intro front
    rw [List.append_cons, List.dropLast_concat, List.dropLast_concat]
  rw [hlast] at hparameters
  unfold MethodInfo.middleParameters MethodInfo.valueParameters
  generalize method.parameters.take (method.parameters.length - 2) = front at hparameters hlength
  cases hload : method.parameters.length == least + 1 with
  | true =>
    rw [beq_iff_eq] at hload
    cases front with
    | nil =>
      rw [List.length_nil] at hlength
      omega
    | cons parameter rest =>
      rw [List.length_cons] at hlength
      rw [← hparameters, if_pos rfl, List.cons_append, List.drop_one, List.tail_cons, hmiddle]
      exact ⟨.withInstance heclosed hstateclosed, by omega⟩
  | false =>
    rw [beq_eq_false_iff_ne] at hload
    rw [← hparameters, if_neg Bool.false_ne_true, List.drop_zero, hmiddle]
    exact ⟨.withoutInstance heclosed hstateclosed, by omega⟩

/-- The parameter of the instance fits where it takes the instance. -/
theorem instanceFits_iff (hparameter : method.parameters.head? = some parameter) :
    InstanceFits R method types ↔
      takes R (parameter.instantiate R types) (types.getD 0 R.object) := by
  rw [InstanceFits, hparameter]
  constructor
  · intro h
    rcases h parameter rfl with hposition | htakes
    · rw [position?_eq_some hposition]
      exact takes_self _
    · exact htakes
  · rintro h _ ⟨⟩
    exact .inr h

/-- What an end method gets: the instance, if it is loaded, others, the exception and the state. -/
def endPassed (R : RuntimeTypes Typ) (mustLoadInstance : Bool) (types values : List Typ) :
    List Typ :=
  (if mustLoadInstance then [types.getD 0 R.object] else []) ++
    (values ++ [R.exception, R.callTargetState])

/-- The exception and the state are taken as they are. -/
theorem acceptsAll_end {e state : SignatureType Typ} {rest : List (SignatureType Typ)}
    {values : List Typ} (he : e.closed? R = some R.exception)
    (hstate : state.closed? R = some R.callTargetState) (hlen : values.length = rest.length) :
    acceptsAll R ((rest ++ [e, state]).map (·.instantiate R types))
        ((values ++ [R.exception, R.callTargetState]).map .value) =
      acceptsAll R (rest.map (·.instantiate R types)) (values.map .value) := by
  rw [List.map_append, List.map_append, acceptsAll_append (by simpa using hlen.symm)]
  have hboth : acceptsAll R ([e, state].map (·.instantiate R types))
      ([R.exception, R.callTargetState].map .value) = true := by
    show (takes R (e.instantiate R types) R.exception &&
      (takes R (state.instantiate R types) R.callTargetState && true)) = true
    rw [instantiate_of_closed types he, instantiate_of_closed types hstate, takes_self, takes_self]
    rfl
  rw [hboth, Bool.and_true]

/-- The instance is taken where its parameter fits. -/
theorem acceptsAll_endPassed_iff (types values : List Typ) {mustLoadInstance : Bool}
    {rest : List (SignatureType Typ)} (h : EndParameters R mustLoadInstance rest method.parameters)
    (hlen : values.length = rest.length) :
    acceptsAll R (method.parameters.map (·.instantiate R types))
        ((endPassed R mustLoadInstance types values).map .value) ↔
      (mustLoadInstance = true → InstanceFits R method types) ∧
        acceptsAll R (rest.map (·.instantiate R types)) (values.map .value) := by
  generalize hparameters : method.parameters = parameters at h
  rw [endPassed]
  cases h with
  | withoutInstance he hstate =>
    rw [← acceptsAll_end he hstate hlen]
    exact (and_iff_right nofun).symm
  | @withInstance parameter e state _ he hstate =>
    have hhead : method.parameters.head? = some parameter := by
      rw [hparameters]
      rfl
    rw [instanceFits_iff hhead, ← acceptsAll_end he hstate hlen]
    show (takes R (parameter.instantiate R types) (types.getD 0 R.object) &&
      acceptsAll R ((rest ++ [e, state]).map (·.instantiate R types))
        ((values ++ [R.exception, R.callTargetState]).map .value)) = true ↔ _
    rw [Bool.and_eq_true]
    exact and_congr_left' ⟨fun h _ => h, fun h => h rfl⟩

omit [DecidableEq Typ] in
theorem length_endPassed (types values : List Typ) {mustLoadInstance : Bool}
    {rest : List (SignatureType Typ)} (h : EndParameters R mustLoadInstance rest parameters)
    (hlen : values.length = rest.length) :
    (endPassed R mustLoadInstance types values).length = parameters.length := by
  rw [endPassed]
  cases h with
  | withoutInstance => simp [hlen]
  | withInstance => simp [hlen, Nat.add_comm]

theorem checkEnd_eq_none (h : checkEnd R method = none) :
    method.returnType.closed? R = some R.callTargetReturn ∧
      checkEndParameters R method 2 = none := by
  rw [checkEnd] at h
  split at h
  · cases h
  rename_i hreturn
  split at h
  · cases h
  exact ⟨not_not.1 hreturn, h⟩

theorem block_writeEnd {i j : ℕ} (hi : w.parameterTypes[i]? = some R.exception)
    (hj : w.parameterTypes[j]? = some R.callTargetState) :
    Block (typedEffect R w) True [.op (.ldarg i), .op (.ldarg j)] []
      [.value R.callTargetState, .value R.exception] :=
  ((block_ldarg hi).append ((block_ldarg hj).frame _)).congr (and_self_iff.trans Iff.rfl)

/-- The instance in front of other values. -/
theorem block_instanceThen (method : MethodInfo Typ) (mustLoadInstance : Bool) (values : List Typ)
    {ok : Prop} {loads : List (Instr (Op Typ))}
    (htarget : w.parameterTypes[0]? = some targetType)
    (h : Block (typedEffect R w) ok loads [] (values.map .value).reverse) :
    Block (typedEffect R w) ok (writeInstance R method mustLoadInstance targetType ++ loads) []
      (((if mustLoadInstance then [passedType R (method.firstConstraint 0) targetType] else []) ++
        values).map StackType.value).reverse := by
  have hblock := (block_writeInstance (R := R) method mustLoadInstance htarget).append (h.frame _)
  rw [List.map_append, List.reverse_append]
  cases mustLoadInstance with
  | true => exact hblock.congr (and_iff_right trivial)
  | false => exact hblock.congr (and_iff_right trivial)

/-- The wrapper of an `OnMethodEnd` that passes the checks. -/
structure EndWrapper (R : RuntimeTypes Typ) (method : MethodInfo Typ) (targetType : Typ)
    (w : DynamicMethod Typ) : Prop where
  returnType : method.returnType.closed? R = some R.callTargetReturn
  parameters : EndParameters R (method.parameters.length == 3) [] method.parameters
  wrapper : w = {
    returnType := R.callTargetReturn
    parameterTypes := [targetType, R.exception, R.callTargetState]
    code := writeInstance R method (method.parameters.length == 3) targetType ++
      [.op (.ldarg 1), .op (.ldarg 2),
        .op (.call (.onMethod method [passedType R (method.firstConstraint 0) targetType])),
        .op .ret] }

theorem endWrapper (hmethod : integrationType.onMethodEnd = some method)
    (h : createEndMethodDelegate R integrationType targetType = .ok (some w)) :
    EndWrapper R method targetType w := by
  rw [createEndMethodDelegate, hmethod] at h
  dsimp only at h
  cases hcheck : checkEnd R method with
  | some e =>
    rw [hcheck] at h
    cases h
  | none =>
    rw [hcheck] at h
    obtain ⟨instanceType, hinstance, h⟩ := bind_eq_ok.1 h
    obtain ⟨callee, hcallee, h⟩ := bind_eq_ok.1 h
    obtain ⟨-, rfl⟩ := makeGenericMethod_eq_ok.1 hcallee
    obtain rfl := typeArgument_eq_ok hinstance
    obtain ⟨hreturn, hparameters⟩ := checkEnd_eq_none hcheck
    obtain ⟨hparameters, hlen⟩ := checkEndParameters_eq_none (Nat.le_refl 2) hparameters
    rw [List.length_eq_zero_iff.1 (Nat.add_right_cancel hlen)] at hparameters
    exact ⟨hreturn, hparameters, (Option.some.inj (Except.ok.inj h)).symm⟩

theorem end_sound_iff (h : EndWrapper R method targetType w) :
    w.Sound R ↔ EndFits R method targetType := by
  obtain ⟨hreturn, hparameters, hw⟩ := h
  have htypes : w.parameterTypes = [targetType, R.exception, R.callTargetState] := by rw [hw]
  have hloads := block_instanceThen (R := R) (w := w) method (method.parameters.length == 3)
    [R.exception, R.callTargetState] (congrArg (·[0]?) htypes)
    (block_writeEnd (i := 1) (j := 2) (congrArg (·[1]?) htypes) (congrArg (·[2]?) htypes))
  have hcode : w.code = (writeInstance R method (method.parameters.length == 3) targetType ++
      [.op (.ldarg 1), .op (.ldarg 2)]) ++ [.op (.call (.onMethod method
        [passedType R (method.firstConstraint 0) targetType])), .op .ret] := by
    rw [hw, List.append_assoc]
    rfl
  have hreturns : takes R w.returnType (Callee.returnType R (.onMethod method
      [passedType R (method.firstConstraint 0) targetType])) = true := by
    rw [hw, Callee.returnType, instantiate_of_closed _ hreturn]
    exact takes_self _
  have hlen := length_endPassed [passedType R (method.firstConstraint 0) targetType] []
    hparameters rfl
  have haccepts := acceptsAll_endPassed_iff [passedType R (method.firstConstraint 0) targetType] []
    hparameters rfl
  rw [sound_iff_of_call _ hcode hloads (hlen.trans (List.length_map ..).symm),
    and_iff_left hreturns, and_iff_right trivial, EndFits]
  refine haccepts.trans ?_
  rw [beq_iff_eq]
  exact and_iff_left rfl

/-! ### The methods that get the return value -/

/-- The duck type of the return value, if it is to be one. -/
def returnProxyType (R : RuntimeTypes Typ) (method : MethodInfo Typ) (returnType : Typ) :
    Option Typ :=
  method.returnConstraint.bind (R.getOrCreateProxyType · returnType)

def unwrapCode (proxyType : Option Typ) (returnType : Typ) : List (Instr (Op Typ)) :=
  match proxyType with
  | some proxyType => [.op (.call (.unwrapReturnValue proxyType returnType))]
  | none => []

/-- The wrapper of such a method that passes the checks. -/
structure ReturnWrapper (R : RuntimeTypes Typ) (method : MethodInfo Typ)
    (targetType returnType wrapperType : Typ) (parameter : SignatureType Typ)
    (w : DynamicMethod Typ) : Prop where
  parameters : EndParameters R (method.parameters.length == 4) [parameter] method.parameters
  returnParameter : method.returnParameter = some parameter
  closed : parameter.position? = none → parameter.closed? R = some returnType
  proxyType : ∀ c, method.returnConstraint = some c →
    ∃ p, R.getOrCreateProxyType c returnType = some p
  wrapper : w = {
    returnType := wrapperType
    parameterTypes := [targetType, returnType, R.exception, R.callTargetState]
    code := writeInstance R method (method.parameters.length == 4) targetType ++
      writeValue R (.op (.ldarg 1)) method.returnConstraint returnType ++
      [.op (.ldarg 2), .op (.ldarg 3),
        .op (.call (.onMethod method (returnTypes R method targetType returnType)))] ++
      unwrapCode (returnProxyType R method returnType) returnType ++ [.op .ret] }

omit [DecidableEq Typ] in
theorem returnParameter_of_endParameters
    (h : EndParameters R (method.parameters.length == 4) [parameter] method.parameters) :
    method.returnParameter = some parameter := by
  rw [MethodInfo.returnParameter]
  generalize method.parameters = parameters at h ⊢
  generalize hload : (parameters.length == 4) = mustLoadInstance at h
  cases h with
  | withInstance => rfl
  | withoutInstance => rfl

omit [DecidableEq Typ] in
theorem returnConstraint_generic {position : ℕ}
    (hparameter : method.returnParameter = some parameter)
    (hposition : parameter.position? = some position) :
    method.returnConstraint = method.firstConstraint 1 := by
  rw [MethodInfo.returnConstraint, hparameter, Option.bind_some, hposition]
  rfl

omit [DecidableEq Typ] in
theorem returnConstraint_concrete (hparameter : method.returnParameter = some parameter)
    (hposition : parameter.position? = none) : method.returnConstraint = none := by
  rw [MethodInfo.returnConstraint, hparameter, Option.bind_some, hposition]
  rfl

theorem returnTypeArguments_generic {position : ℕ}
    (hparameter : method.returnParameter = some parameter)
    (hposition : parameter.position? = some position)
    (h : returnTypeArguments R method returnType = .ok ts) :
    ∃ t, typeArgument R (method.firstConstraint 1) returnType = .ok t ∧ ts = [t] := by
  rw [returnTypeArguments, hparameter, Option.bind_some, hposition] at h
  dsimp only at h
  split at h
  · cases h
  cases htype : typeArgument R (method.firstConstraint 1) returnType with
  | error e =>
    rw [htype] at h
    cases h
  | ok t =>
    rw [htype] at h
    cases h
    exact ⟨t, rfl, rfl⟩

theorem returnTypeArguments_concrete (hparameter : method.returnParameter = some parameter)
    (hposition : parameter.position? = none)
    (h : returnTypeArguments R method returnType = .ok ts) :
    parameter.closed? R = some returnType ∧ ts = [] := by
  rw [returnTypeArguments, hparameter, Option.bind_some, hposition] at h
  dsimp only at h
  split at h
  · cases h
  · rename_i hclosed
    cases h
    exact ⟨not_not.1 hclosed, rfl⟩

theorem returnWrapper (hcheck : checkEndParameters R method 3 = none)
    (h : createReturnDelegate R method targetType returnType wrapperType = .ok (some w)) :
    ∃ parameter, ReturnWrapper R method targetType returnType wrapperType parameter w := by
  obtain ⟨hparameters, hlen⟩ := checkEndParameters_eq_none (by omega) hcheck
  obtain ⟨parameter, hmiddle⟩ := List.length_eq_one_iff.1 (Nat.add_right_cancel (m := 2) hlen)
  rw [hmiddle] at hparameters
  have hparameter := returnParameter_of_endParameters hparameters
  obtain ⟨instanceType, hinstance, h⟩ := bind_eq_ok.1 h
  obtain ⟨ts, hts, h⟩ := bind_eq_ok.1 h
  obtain ⟨callee, hcallee, h⟩ := bind_eq_ok.1 h
  obtain ⟨-, rfl⟩ := makeGenericMethod_eq_ok.1 hcallee
  obtain rfl := typeArgument_eq_ok hinstance
  have hw := (Option.some.inj (Except.ok.inj h)).symm
  refine ⟨parameter, hparameters, hparameter, fun hposition =>
    (returnTypeArguments_concrete hparameter hposition hts).1, ?_, ?_⟩
  · intro c hc
    cases hposition : parameter.position? with
    | none =>
      rw [returnConstraint_concrete hparameter hposition] at hc
      cases hc
    | some position =>
      obtain ⟨t, ht, -⟩ := returnTypeArguments_generic hparameter hposition hts
      rw [returnConstraint_generic hparameter hposition] at hc
      rw [hc] at ht
      exact ⟨t, typeArgument_proxyType ht⟩
  · have htypes : passedType R (method.firstConstraint 0) targetType :: ts
        = returnTypes R method targetType returnType := by
      rw [returnTypes, hparameter, Option.bind_some]
      cases hposition : parameter.position? with
      | none => rw [(returnTypeArguments_concrete hparameter hposition hts).2]
      | some position =>
        obtain ⟨t, ht, rfl⟩ := returnTypeArguments_generic hparameter hposition hts
        rw [typeArgument_eq_ok ht]
    rw [hw, htypes]
    rfl

/-- The wrapper returns what the method does, or unwraps it. -/
def ReturnsFit (R : RuntimeTypes Typ) (method : MethodInfo Typ)
    (targetType returnType wrapperType : Typ) : Prop :=
  let returned := method.returnType.instantiate R (returnTypes R method targetType returnType)
  match returnProxyType R method returnType with
  | some proxyType => takes R proxyType returned ∧ takes R wrapperType returnType
  | none => takes R wrapperType returned

/-- The parameter of the return value fits where it takes the value. -/
theorem returnFits_iff
    (h : ReturnWrapper R method targetType returnType wrapperType parameter w) :
    takes R (parameter.instantiate R (returnTypes R method targetType returnType))
        (passedType R method.returnConstraint returnType) ↔
      ReturnFits R method (returnTypes R method targetType returnType) := by
  rw [ReturnFits, h.returnParameter, Option.bind_some]
  cases hposition : parameter.position? with
  | none =>
    rw [returnConstraint_concrete h.returnParameter hposition,
      instantiate_of_closed _ (h.closed hposition)]
    exact iff_of_true (takes_self _) nofun
  | some position =>
    have hpassed : passedType R method.returnConstraint returnType
        = (returnTypes R method targetType returnType).getD 1 R.object := by
      rw [returnTypes, h.returnParameter, Option.bind_some, hposition,
        returnConstraint_generic h.returnParameter hposition]
      rfl
    rw [hpassed, position?_eq_some hposition]
    constructor
    · rintro htakes _ ⟨⟩
      exact .inr htakes
    · intro hfits
      rcases hfits position rfl with rfl | htakes
      · exact takes_self _
      · exact htakes

/-- The code up to the call is a block where the parameters fit. -/
theorem block_returnCall
    (h : ReturnWrapper R method targetType returnType wrapperType parameter w) :
    Block (typedEffect R w) (ReturnValueFits R method targetType returnType)
      (writeInstance R method (method.parameters.length == 4) targetType ++
        (writeValue R (.op (.ldarg 1)) method.returnConstraint returnType ++
          [.op (.ldarg 2), .op (.ldarg 3)]) ++
        [.op (.call (.onMethod method (returnTypes R method targetType returnType)))]) []
      [.value (method.returnType.instantiate R (returnTypes R method targetType returnType))] := by
  have htypes : w.parameterTypes = [targetType, returnType, R.exception, R.callTargetState] := by
    rw [h.wrapper]
  have hvalues : Block (typedEffect R w) True
      (writeValue R (.op (.ldarg 1)) method.returnConstraint returnType ++
        [.op (.ldarg 2), .op (.ldarg 3)]) []
      (([passedType R method.returnConstraint returnType] ++
        [R.exception, R.callTargetState]).map .value).reverse :=
    ((block_writeValue _ (block_ldarg (congrArg (·[1]?) htypes))).append
      ((block_writeEnd (i := 2) (j := 3) (congrArg (·[2]?) htypes)
        (congrArg (·[3]?) htypes)).frame _)).congr (and_self_iff.trans Iff.rfl)
  have hloads := block_instanceThen (R := R) (w := w) method (method.parameters.length == 4)
    ([passedType R method.returnConstraint returnType] ++ [R.exception, R.callTargetState])
    (congrArg (·[0]?) htypes) hvalues
  have hlen := length_endPassed (returnTypes R method targetType returnType)
    [passedType R method.returnConstraint returnType] h.parameters rfl
  have haccepts := acceptsAll_endPassed_iff (returnTypes R method targetType returnType)
    [passedType R method.returnConstraint returnType] h.parameters rfl
  have hcall := block_loadsThenCall
    (.onMethod method (returnTypes R method targetType returnType)) hloads
    ((List.length_map ..).trans (hlen.trans (List.length_map ..).symm))
  refine hcall.congr ?_
  rw [and_iff_right trivial]
  refine haccepts.trans ?_
  rw [beq_iff_eq]
  have hreturn := returnFits_iff h
  constructor
  · rintro ⟨hinstance, hvalue⟩
    exact ⟨hinstance, hreturn.1 (Bool.and_eq_true_iff.1 hvalue).1⟩
  · rintro ⟨hinstance, hvalue⟩
    exact ⟨hinstance, Bool.and_eq_true_iff.2 ⟨hreturn.2 hvalue, rfl⟩⟩

theorem return_sound_iff
    (h : ReturnWrapper R method targetType returnType wrapperType parameter w) :
    w.Sound R ↔ ReturnValueFits R method targetType returnType ∧
      ReturnsFit R method targetType returnType wrapperType := by
  have hcall := block_returnCall h
  have hcode : w.code = ((writeInstance R method (method.parameters.length == 4) targetType ++
      (writeValue R (.op (.ldarg 1)) method.returnConstraint returnType ++
        [.op (.ldarg 2), .op (.ldarg 3)]) ++
      [.op (.call (.onMethod method (returnTypes R method targetType returnType)))]) ++
      unwrapCode (returnProxyType R method returnType) returnType) ++ [.op .ret] := by
    rw [h.wrapper]
    simp only [List.append_assoc, List.cons_append, List.nil_append]
  have hwrapper : w.returnType = wrapperType := by rw [h.wrapper]
  rw [ReturnsFit]
  cases hproxy : returnProxyType R method returnType with
  | none =>
    rw [hproxy] at hcode
    rw [sound_iff (hcode.trans (by rw [unwrapCode, List.append_nil])) hcall, hwrapper]
    rfl
  | some proxyType =>
    rw [hproxy] at hcode
    have hunwrap := block_call (R := R) (w := w) (.unwrapReturnValue proxyType returnType)
      [.value (method.returnType.instantiate R (returnTypes R method targetType returnType))] rfl
    rw [sound_iff hcode (hcall.append hunwrap), hwrapper, and_assoc]
    refine and_congr_right' (and_congr_left' ?_)
    exact Bool.and_eq_true_iff.trans (and_iff_left rfl)

omit [DecidableEq Typ] in
theorem returnProxyType_eq_none_iff
    (h : ReturnWrapper R method targetType returnType wrapperType parameter w) :
    returnProxyType R method returnType = none ↔ method.returnConstraint = none := by
  rw [returnProxyType]
  cases hconstraint : method.returnConstraint with
  | none => exact iff_of_true rfl rfl
  | some c =>
    obtain ⟨p, hp⟩ := h.proxyType c hconstraint
    rw [Option.bind_some, hp]
    exact iff_of_false nofun nofun

theorem checkEndOf_eq_none (h : checkEndOf R method = none) :
    (∃ t, method.returnType = .callTargetReturn t) ∧ checkEndParameters R method 3 = none := by
  rw [checkEndOf] at h
  split at h
  · rename_i t hreturn
    split at h
    · cases h
    · exact ⟨⟨t, hreturn⟩, h⟩
  · cases h
  · cases h

theorem endOf_sound_iff (hmethod : integrationType.onMethodEnd = some method)
    (h : createEndMethodDelegateOf R integrationType targetType returnType = .ok (some w)) :
    w.Sound R ↔ EndOfFits R method targetType returnType := by
  rw [createEndMethodDelegateOf, hmethod] at h
  dsimp only at h
  cases hcheck : checkEndOf R method with
  | some e =>
    rw [hcheck] at h
    cases h
  | none =>
    rw [hcheck] at h
    obtain ⟨⟨t, hreturn⟩, hparameters⟩ := checkEndOf_eq_none hcheck
    obtain ⟨parameter, hw⟩ := returnWrapper hparameters h
    rw [return_sound_iff hw, ReturnsFit, hreturn, SignatureType.instantiate]
    have hnone := returnProxyType_eq_none_iff hw
    cases hproxy : returnProxyType R method returnType with
    | none =>
      dsimp only
      rw [takes_callTargetReturnOf_iff]
      constructor
      · rintro ⟨hfits, hreturned⟩
        refine ⟨hfits, hnone.1 hproxy, fun t' ht' => ?_⟩
        cases hreturn.symm.trans ht'
        exact hreturned
      · rintro ⟨hfits, -, hreturned⟩
        exact ⟨hfits, hreturned t hreturn⟩
    | some proxyType =>
      obtain ⟨c, -, hc⟩ := Option.bind_eq_some_iff.1 hproxy
      refine iff_of_false ?_ fun hfits => ?_
      · rintro ⟨-, htakes, -⟩
        exact not_takes_proxyType hc htakes
      · rw [hnone.2 hfits.plain] at hproxy
        cases hproxy

/-- A duck typed return value of `OnMethodEnd` is unwrapped where `CallTargetReturn` is on the
stack. -/
theorem not_sound_of_proxiedReturn (hmethod : integrationType.onMethodEnd = some method)
    (hreturn : method.returnConstraint = some constraintType)
    (h : createEndMethodDelegateOf R integrationType targetType returnType = .ok (some w)) :
    ¬ w.Sound R := by
  rw [endOf_sound_iff hmethod h]
  intro hfits
  rw [hfits.plain] at hreturn
  cases hreturn

/-! ### OnAsyncMethodEnd -/

theorem checkAsyncEnd_eq_none (h : checkAsyncEnd R method returnType = none) :
    checkEndParameters R method 3 = none := by
  rw [checkAsyncEnd] at h
  split at h
  · cases h
  split at h
  · cases h
  exact h

theorem asyncEnd_sound_iff (hmethod : integrationType.onAsyncMethodEnd = some method)
    (h : createAsyncEndMethodDelegate R integrationType targetType returnType = .ok (some w)) :
    w.Sound R ↔ AsyncEndFits R method targetType returnType := by
  rw [createAsyncEndMethodDelegate, hmethod] at h
  dsimp only at h
  cases hcheck : checkAsyncEnd R method returnType with
  | some e =>
    rw [hcheck] at h
    cases h
  | none =>
    rw [hcheck] at h
    obtain ⟨parameter, hw⟩ := returnWrapper (checkAsyncEnd_eq_none hcheck) h
    have hpassed : passedType R method.returnConstraint returnType
        = (returnProxyType R method returnType).getD returnType := rfl
    have hreturns : ReturnsFit R method targetType returnType returnType ↔
        takes R (passedType R method.returnConstraint returnType)
          (method.returnType.instantiate R (returnTypes R method targetType returnType)) := by
      rw [ReturnsFit, hpassed]
      cases returnProxyType R method returnType with
      | none => rfl
      | some proxyType => exact and_iff_left (takes_self _)
    rw [return_sound_iff hw, hreturns]
    constructor
    · rintro ⟨hfits, hreturned⟩
      exact ⟨hfits, hreturned⟩
    · rintro ⟨hfits, hreturned⟩
      exact ⟨hfits, hreturned⟩

end DdTrace.CallTarget.IntegrationMapper
