import DdTrace.CallTarget.IntegrationMapper

/-!
# The types in a wrapper

`typedEffect` follows the types of the values on the stack and is stuck where an operation finds
something else than it takes. The pieces of a wrapper are blocks; a wrapper is sound exactly when
the parameters take what the pieces leave and the returned value is of the declared type
(`createReturnDelegate_sound_iff`, `begin_sound_iff`).
-/

namespace DdTrace.CallTarget.IntegrationMapper

open Lib

variable {Typ : Type}

/-- A value on the stack: of a type, or boxed. -/
inductive StackType (Typ : Type) where
  | value (t : Typ)
  | boxed (t : Typ)
  deriving DecidableEq

section

variable [DecidableEq Typ] (R : RuntimeTypes Typ)

/-- What is on the stack of a value of the type. -/
def underlying (t : Typ) : Typ := if R.isEnum t then R.enumUnderlyingType t else t

/-- A parameter of the type `t` takes a value of the type `s` as it is: an enum is its underlying
type on the stack, and an object goes where its type is assignable. -/
def takes (t s : Typ) : Bool :=
  underlying R s == underlying R t ||
    (!R.isValueType s && !R.isValueType t && R.isAssignableFrom t s)

def accepts (t : Typ) : StackType Typ → Bool
  | .value s => takes R t s
  | .boxed s => !R.isValueType t && R.isAssignableFrom t s

def acceptsAll : List Typ → List (StackType Typ) → Bool
  | [], [] => true
  | t :: ts, v :: vs => accepts R t v && acceptsAll ts vs
  | _, _ => false

/-- What an operation does in a method with these parameters and this return type. The operand of
`ldarg.s` has one byte. What only the slow wrappers have is left out. -/
def typedEffect (w : DynamicMethod Typ) :
    Op Typ → List (StackType Typ) → Option (List (StackType Typ))
  | .ldarg i, s => (w.parameterTypes[i]?).map (.value · :: s)
  | .ldargS i, s => if i < 256 then (w.parameterTypes[i]?).map (.value · :: s) else none
  | .box t, v :: s => if accepts R t v then some (.boxed t :: s) else none
  | .newobj proxyType parameter, v :: s =>
    if accepts R parameter v then some (.value proxyType :: s) else none
  | .call callee, s =>
    let n := (callee.parameters R).length
    if acceptsAll R (callee.parameters R) (s.take n).reverse then
      some (.value (callee.returnType R) :: s.drop n)
    else none
  | .ret, [v] => if accepts R w.returnType v then some [] else none
  | _, _ => none

/-- Each call and each `newobj` finds its arguments on the stack, each of the parameter's type, and
a value of the declared type is returned from an otherwise empty stack. -/
def DynamicMethod.Sound (w : DynamicMethod Typ) : Prop :=
  EveryPath (typedEffect R w) (· = []) w.code []

/-- The type of a value that is passed: its own, or that of the duck type. -/
def passedType (constraint : Option Typ) (sourceType : Typ) : Typ :=
  (constraint.bind (R.getOrCreateProxyType · sourceType)).getD sourceType

/-- The types that stand for the generic parameters behind the first. -/
def inferredTypes (method : MethodInfo Typ) : List (SignatureType Typ) → List Typ → List Typ
  | parameter :: parameters, sourceType :: sourceTypes =>
    match parameter.position? with
    | some _ =>
      passedType R (method.argumentConstraint R parameter) sourceType ::
        inferredTypes method parameters sourceTypes
    | none => inferredTypes method parameters sourceTypes
  | _, _ => []

/-! ### When the types fit -/

/-- A generic parameter is the one whose type is inferred from the argument, or its type takes the
argument anyway. A value type is passed for a value type of the same representation. -/
def ParametersFit (typeArguments : List Typ) :
    ℕ → List (SignatureType Typ) → List Typ → Prop
  | k, parameter :: parameters, sourceType :: sourceTypes =>
    match parameter.position? with
    | some position =>
      (position = k ∨
        takes R (typeArguments.getD position R.object) (typeArguments.getD k R.object)) ∧
      ParametersFit typeArguments (k + 1) parameters sourceTypes
    | none =>
      (R.isValueType sourceType →
        underlying R sourceType = underlying R (parameter.instantiate R typeArguments)) ∧
      ParametersFit typeArguments k parameters sourceTypes
  | _, _, _ => True

/-- The first parameter is of the target's type, or takes the target anyway. -/
def InstanceFits (method : MethodInfo Typ) (typeArguments : List Typ) : Prop :=
  ∀ parameter ∈ method.parameters.head?, parameter.position? = some 0 ∨
    takes R (parameter.instantiate R typeArguments) (typeArguments.getD 0 R.object)

/-- A generic parameter of the return value is the second, or takes the value anyway. -/
def ReturnFits (method : MethodInfo Typ) (typeArguments : List Typ) : Prop :=
  ∀ position ∈ method.returnParameter.bind SignatureType.position?, position = 1 ∨
    takes R (typeArguments.getD position R.object) (typeArguments.getD 1 R.object)

/-- The type arguments of `OnMethodBegin`. -/
def beginTypes (method : MethodInfo Typ) (targetType : Typ) (argumentsTypes : List Typ) :
    List Typ :=
  passedType R (method.firstConstraint 0) targetType :: inferredTypes R method
    (method.valueParameters (method.mustLoadInstance argumentsTypes)) argumentsTypes

structure BeginFits (method : MethodInfo Typ) (targetType : Typ) (argumentsTypes : List Typ) :
    Prop where
  operands : argumentsTypes.length < 256
  parameters : ParametersFit R (beginTypes R method targetType argumentsTypes) 1
    (method.valueParameters (method.mustLoadInstance argumentsTypes)) argumentsTypes

/-- The type arguments of a method that gets the return value. -/
def returnTypes (method : MethodInfo Typ) (targetType returnType : Typ) : List Typ :=
  passedType R (method.firstConstraint 0) targetType ::
    match method.returnParameter.bind SignatureType.position? with
    | some _ => [passedType R (method.firstConstraint 1) returnType]
    | none => []

def EndFits (method : MethodInfo Typ) (targetType : Typ) : Prop :=
  method.parameters.length = 3 →
    InstanceFits R method [passedType R (method.firstConstraint 0) targetType]

/-- What the two methods that get the return value have in common. -/
structure ReturnValueFits (method : MethodInfo Typ) (targetType returnType : Typ) : Prop where
  instanceFits : method.parameters.length = 4 →
    InstanceFits R method (returnTypes R method targetType returnType)
  returnFits : ReturnFits R method (returnTypes R method targetType returnType)

/-- The return value is not a duck type, and `CallTargetReturn` is of its type. -/
structure EndOfFits (method : MethodInfo Typ) (targetType returnType : Typ) : Prop extends
    ReturnValueFits R method targetType returnType where
  plain : method.returnConstraint = none
  returned : ∀ t, method.returnType = .callTargetReturn t →
    t.instantiate R (returnTypes R method targetType returnType) = returnType

/-- What is returned goes where the return value, or its duck type, does. -/
structure AsyncEndFits (method : MethodInfo Typ) (targetType returnType : Typ) : Prop extends
    ReturnValueFits R method targetType returnType where
  returned : takes R (passedType R method.returnConstraint returnType)
    (method.returnType.instantiate R (returnTypes R method targetType returnType))

end

/-! ### Types -/

section

variable [DecidableEq Typ] {R : RuntimeTypes Typ} {t s : Typ}

theorem takes_iff : takes R t s ↔ underlying R s = underlying R t ∨
    R.isValueType s = false ∧ R.isValueType t = false ∧ R.isAssignableFrom t s := by
  rw [takes]
  simp only [Bool.or_eq_true, Bool.and_eq_true, beq_iff_eq, Bool.not_eq_true', and_assoc]

theorem takes_self (t : Typ) : takes R t t := takes_iff.2 (.inl rfl)

/-- A concrete parameter that passes the check. -/
theorem takes_iff_of_passes
    (h : R.isAssignableFrom t s || (R.isEnum s && R.isEnum t)) :
    takes R t s ↔ (R.isValueType s → underlying R s = underlying R t) := by
  rw [takes_iff]
  cases hs : R.isValueType s with
  | true => simp
  | false =>
    have henum : ¬ R.isEnum s := by
      intro henum
      rw [R.isValueType_of_isEnum s henum] at hs
      cases hs
    rw [Bool.or_eq_true, Bool.and_eq_true] at h
    have hassignable : R.isAssignableFrom t s := h.resolve_right fun h => henum h.1
    have ht : R.isValueType t = false := by
      rw [Bool.eq_false_iff]
      intro ht
      rw [R.isValueType_of_isAssignableFrom t s hassignable ht] at hs
      cases hs
    exact iff_of_true (.inr ⟨rfl, ht, hassignable⟩) nofun

theorem takes_callTargetReturnOf_iff :
    takes R (R.callTargetReturnOf t) (R.callTargetReturnOf s) ↔ s = t := by
  rw [takes_iff, underlying, underlying, if_neg (by simp [R.isEnum_callTargetReturnOf]),
    if_neg (by simp [R.isEnum_callTargetReturnOf]), R.isValueType_callTargetReturnOf]
  constructor
  · rintro (h | ⟨h, -⟩)
    · exact R.callTargetReturnOf_inj s t h
    · cases h
  · rintro rfl
    exact .inl rfl

/-- No `CallTargetReturn` goes where a duck type is expected. -/
theorem not_takes_proxyType {d p : Typ} (h : R.getOrCreateProxyType d t = some p) :
    ¬ takes R p (R.callTargetReturnOf s) := by
  obtain ⟨henum, hne⟩ := R.proxyType_ne d t p h
  rw [takes_iff, underlying, underlying, if_neg (by simp [R.isEnum_callTargetReturnOf]),
    if_neg (by simp [henum]), R.isValueType_callTargetReturnOf]
  rintro (h | ⟨h, -⟩)
  · exact hne s h.symm
  · cases h

omit [DecidableEq Typ] in
theorem instantiate_of_closed {parameter : SignatureType Typ} (typeArguments : List Typ)
    (h : parameter.closed? R = some t) : parameter.instantiate R typeArguments = t := by
  induction parameter generalizing t with
  | type s =>
    cases h
    rfl
  | genericParameter position => cases h
  | callTargetReturn s ih =>
    rw [SignatureType.closed?, Option.map_eq_some_iff] at h
    obtain ⟨a, ha, rfl⟩ := h
    rw [SignatureType.instantiate, ih ha]
  | openType f => cases h

/-! ### Pieces -/

variable {w : DynamicMethod Typ} {constraint : Option Typ} {method : MethodInfo Typ}
  {callee : Callee Typ} {ok : Prop}

theorem block_newobj {proxyType parameter : Typ} {v : StackType Typ} (h : accepts R parameter v) :
    Block (typedEffect R w) True [.op (.newobj proxyType parameter)] [v] [.value proxyType] :=
  .op fun _ => if_pos h

theorem block_writeCreateNewProxyInstance (proxyType targetType : Typ) :
    Block (typedEffect R w) True (writeCreateNewProxyInstance R proxyType targetType)
      [.value targetType] [.value proxyType] := by
  have hobject : accepts R R.object (.boxed targetType) := by
    simp [accepts, R.isValueType_object, R.isAssignableFrom_object]
  rw [writeCreateNewProxyInstance]
  split
  · rename_i hbox
    rw [Bool.and_eq_true, Bool.not_eq_true'] at hbox
    have hparameter : constructorParameter R proxyType targetType = R.object := by
      by_contra hne
      rw [constructorParameter] at hne hbox
      split at hne
      · rename_i hdirect
        rw [if_pos hdirect, hbox.1] at hbox
        cases hbox.2
      · exact hne rfl
    have hbox' : Block (typedEffect R w) True [.op (.box targetType)] [.value targetType]
        [.boxed targetType] := .op fun _ => if_pos (takes_self targetType)
    rw [hparameter]
    exact (hbox'.append (block_newobj hobject)).congr (and_self_iff.trans Iff.rfl)
  · rename_i hbox
    rw [Bool.and_eq_true, Bool.not_eq_true', not_and] at hbox
    apply block_newobj
    rw [constructorParameter] at hbox ⊢
    split
    · exact takes_self targetType
    · rename_i hdirect
      rw [if_neg hdirect] at hbox
      have hreference : R.isValueType targetType = false := by
        rw [Bool.eq_false_iff]
        exact fun hvalue => hbox hvalue R.isValueType_object
      exact takes_iff.2 (.inr ⟨hreference, R.isValueType_object, R.isAssignableFrom_object _⟩)

theorem block_writeValue {load : Instr (Op Typ)} (constraint : Option Typ)
    (h : Block (typedEffect R w) ok [load] [] [.value s]) :
    Block (typedEffect R w) ok (writeValue R load constraint s) []
      [.value (passedType R constraint s)] := by
  rw [writeValue, passedType]
  split
  · rename_i proxyType hproxy
    rw [hproxy]
    exact (h.append (block_writeCreateNewProxyInstance proxyType s)).congr (by rw [and_true])
  · rename_i hproxy
    rw [hproxy]
    exact h

theorem block_ldarg {i : ℕ} (h : w.parameterTypes[i]? = some s) :
    Block (typedEffect R w) True [.op (.ldarg i)] [] [.value s] :=
  .op fun _ => by rw [typedEffect, h]; rfl

theorem block_writeLoadArgument {i : ℕ} {isStatic : Bool}
    (h : w.parameterTypes[if isStatic then i else i + 1]? = some s) :
    Block (typedEffect R w) ((if isStatic then i else i + 1) < 256)
      [writeLoadArgument i isStatic] [] [.value s] := by
  unfold writeLoadArgument
  generalize (if isStatic then i else i + 1) = index at h ⊢
  by_cases hshort : index < 4
  · rw [if_pos hshort]
    exact (block_ldarg h).congr (iff_of_true trivial (by omega))
  · rw [if_neg hshort]
    exact .op_if fun _ => by rw [typedEffect, h]; rfl

/-- The types of what is passed for the parameters. -/
def passedTypes (R : RuntimeTypes Typ) (method : MethodInfo Typ)
    (parameters : List (SignatureType Typ)) (sourceTypes : List Typ) : List Typ :=
  List.zipWith (fun parameter s => passedType R (method.argumentConstraint R parameter) s)
    parameters sourceTypes

theorem block_writeArguments (method : MethodInfo Typ) (isStatic : Bool) (i : ℕ)
    (parameters : List (SignatureType Typ))
    {sourceTypes : List Typ} (hlen : parameters.length = sourceTypes.length)
    (h : ∀ j, sourceTypes[j]? = w.parameterTypes[(if isStatic then i else i + 1) + j]?) :
    Block (typedEffect R w) (∀ j < sourceTypes.length, (if isStatic then i else i + 1) + j < 256)
      (writeArguments R method isStatic i parameters sourceTypes) []
      ((passedTypes R method parameters sourceTypes).map .value).reverse := by
  induction parameters generalizing i sourceTypes with
  | nil =>
    obtain rfl := List.length_eq_zero_iff.1 hlen.symm
    exact Block.nil.congr (iff_of_true trivial (by simp))
  | cons parameter parameters ih =>
    obtain ⟨sourceType, sourceTypes, rfl⟩ : ∃ s ss, sourceTypes = s :: ss :=
      List.exists_cons_of_length_eq_add_one hlen.symm
    have hnext : ∀ j, (if isStatic then i + 1 else i + 1 + 1) + j
        = (if isStatic then i else i + 1) + (j + 1) := by
      intro j
      split
      · omega
      · omega
    have hload : Block (typedEffect R w) ((if isStatic then i else i + 1) < 256)
        [writeLoadArgument i isStatic] [] [.value sourceType] :=
      block_writeLoadArgument (h 0).symm
    have hhead := block_writeValue (method.argumentConstraint R parameter) hload
    have hrest : parameters.length = sourceTypes.length := Nat.succ.inj hlen
    have htail := ih (i + 1) hrest fun j => by
      rw [hnext, ← h (j + 1)]
      rfl
    rw [writeArguments]
    show Block _ _ _ _ (StackType.value _ :: (passedTypes R method parameters sourceTypes).map
      StackType.value).reverse
    rw [List.reverse_cons]
    refine (hhead.append (htail.frame _)).congr ?_
    constructor
    · rintro ⟨hfirst, hrest⟩ j hj
      cases j with
      | zero => exact hfirst
      | succ j =>
        rw [← hnext]
        exact hrest j (Nat.lt_of_succ_lt_succ hj)
    · intro hall
      refine ⟨hall 0 (Nat.zero_lt_succ _), fun j hj => ?_⟩
      rw [hnext]
      exact hall (j + 1) (Nat.succ_lt_succ hj)

theorem block_writeInstance (method : MethodInfo Typ) (mustLoadInstance : Bool) {targetType : Typ}
    (h : w.parameterTypes[0]? = some targetType) :
    Block (typedEffect R w) True (writeInstance R method mustLoadInstance targetType) []
      (if mustLoadInstance then [.value (passedType R (method.firstConstraint 0) targetType)]
        else []) := by
  rw [writeInstance]
  cases mustLoadInstance with
  | true => exact block_writeValue _ (block_ldarg h)
  | false => exact .nil

/-- A call of a method with as many parameters as there are values. -/
theorem block_call (callee : Callee Typ) (vs : List (StackType Typ))
    (hlen : vs.length = (callee.parameters R).length) :
    Block (typedEffect R w) (acceptsAll R (callee.parameters R) vs) [.op (.call callee)] vs.reverse
      [.value (callee.returnType R)] := by
  apply Block.op_if
  intro s
  have htake : ((vs.reverse ++ s).take (callee.parameters R).length).reverse = vs := by
    rw [← hlen, ← List.length_reverse, List.take_left, List.reverse_reverse]
  have hdrop : (vs.reverse ++ s).drop (callee.parameters R).length = s := by
    rw [← hlen, ← List.length_reverse, List.drop_left]
  rw [typedEffect, htake, hdrop]
  rfl

theorem sound_iff {code : List (Instr (Op Typ))} {v : StackType Typ}
    (hcode : w.code = code ++ [.op .ret]) (h : Block (typedEffect R w) ok code [] [v]) :
    w.Sound R ↔ ok ∧ accepts R w.returnType v := by
  have hret : EveryPath (typedEffect R w) (· = []) [.op .ret] [v] ↔ accepts R w.returnType v := by
    by_cases hv : accepts R w.returnType v
    · rw [EveryPath.op_iff (if_pos hv), EveryPath.nil_iff]
      exact iff_of_true rfl hv
    · exact iff_of_false (EveryPath.not_op (if_neg hv)) hv
  rw [DynamicMethod.Sound, hcode, ← hret]
  exact h _ _ []

end

end DdTrace.CallTarget.IntegrationMapper
