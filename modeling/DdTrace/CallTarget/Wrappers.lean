import DdTrace.CallTarget.WrapperSoundness

/-!
# The wrappers of an integration

`Creation` is one of the wrappers that are made for an integration. A wrapper is sound exactly when
the types fit (`wrapper_sound_iff`).
-/

namespace DdTrace.CallTarget.IntegrationMapper

open Lib

/-- What is made: for the begin with arguments of these types, for the end, for the end or the end
of a task with a value of this type. -/
inductive Creation (Typ : Type) where
  | onBegin (argumentsTypes : List Typ)
  | onEnd
  | onEndOf (returnType : Typ)
  | onAsyncEnd (returnType : Typ)

section

variable {Typ : Type} [DecidableEq Typ] (R : RuntimeTypes Typ)
  (integrationType : IntegrationType Typ) (targetType : Typ)

def Creation.create : Creation Typ → Except MapperException (Option (DynamicMethod Typ))
  | onBegin argumentsTypes =>
    createBeginMethodDelegate R integrationType targetType argumentsTypes
  | onEnd => createEndMethodDelegate R integrationType targetType
  | onEndOf returnType => createEndMethodDelegateOf R integrationType targetType returnType
  | onAsyncEnd returnType => createAsyncEndMethodDelegate R integrationType targetType returnType

def Creation.Fits : Creation Typ → Prop
  | onBegin argumentsTypes =>
    ∀ method ∈ integrationType.onMethodBegin, BeginFits R method targetType argumentsTypes
  | onEnd => ∀ method ∈ integrationType.onMethodEnd, EndFits R method targetType
  | onEndOf returnType =>
    ∀ method ∈ integrationType.onMethodEnd, EndOfFits R method targetType returnType
  | onAsyncEnd returnType =>
    ∀ method ∈ integrationType.onAsyncMethodEnd, AsyncEndFits R method targetType returnType

end

section

variable {Typ : Type} [DecidableEq Typ] {R : RuntimeTypes Typ}
  {integrationType : IntegrationType Typ} {targetType : Typ} {w : DynamicMethod Typ}

/-- What holds of the method that was found. -/
theorem forall_mem_of_ne_none {found : Option (MethodInfo Typ)} {Q : MethodInfo Typ → Prop}
    (hfound : found ≠ none) (h : ∀ method, found = some method → (w.Sound R ↔ Q method)) :
    w.Sound R ↔ ∀ method ∈ found, Q method := by
  obtain ⟨method, rfl⟩ := Option.ne_none_iff_exists'.1 hfound
  rw [h method rfl]
  constructor
  · rintro hQ _ ⟨⟩
    exact hQ
  · exact fun hQ => hQ method rfl

/-- A wrapper is sound exactly when the types fit. -/
theorem wrapper_sound_iff {c : Creation Typ}
    (h : c.create R integrationType targetType = .ok (some w)) :
    w.Sound R ↔ c.Fits R integrationType targetType := by
  cases c with
  | onBegin argumentsTypes =>
    refine forall_mem_of_ne_none ?_ fun method hmethod => begin_sound_iff (beginWrapper hmethod h)
    intro hnone
    rw [Creation.create, createBeginMethodDelegate, hnone] at h
    cases h
  | onEnd =>
    refine forall_mem_of_ne_none ?_ fun method hmethod => end_sound_iff (endWrapper hmethod h)
    intro hnone
    rw [Creation.create, createEndMethodDelegate, hnone] at h
    cases h
  | onEndOf returnType =>
    refine forall_mem_of_ne_none ?_ fun method hmethod => endOf_sound_iff hmethod h
    intro hnone
    rw [Creation.create, createEndMethodDelegateOf, hnone] at h
    cases h
  | onAsyncEnd returnType =>
    refine forall_mem_of_ne_none ?_ fun method hmethod => asyncEnd_sound_iff hmethod h
    intro hnone
    rw [Creation.create, createAsyncEndMethodDelegate, hnone] at h
    cases h

end

/-! ### An integration with a duck typed return value -/

inductive SampleType where
  | object
  | exception
  | callTargetState
  | callTargetReturn
  | callTargetReturnOf (t : SampleType)
  | objectArray
  | iDuckType
  | iReturnValue
  | string
  | int
  | proxy (definition targetType : SampleType)
  deriving DecidableEq

def SampleType.isValueType : SampleType → Bool
  | callTargetState => true
  | callTargetReturn => true
  | callTargetReturnOf _ => true
  | int => true
  | proxy _ _ => true
  | _ => false

/-- A proxy type implements its definition and `IDuckType`. -/
def SampleType.isAssignableFrom (expected actual : SampleType) : Bool :=
  expected == object || expected == actual ||
    match actual with
    | proxy definition _ => (expected == iReturnValue && definition == iReturnValue) ||
        expected == iDuckType
    | _ => false

def sampleTypes : RuntimeTypes SampleType where
  object := .object
  exception := .exception
  callTargetState := .callTargetState
  callTargetReturn := .callTargetReturn
  callTargetReturnOf := .callTargetReturnOf
  objectArray := .objectArray
  iDuckType := .iDuckType
  isValueType := SampleType.isValueType
  isEnum _ := false
  enumUnderlyingType := id
  isAssignableFrom := SampleType.isAssignableFrom
  getOrCreateProxyType definition targetType :=
    if definition = .iReturnValue then some (.proxy definition targetType) else none
  useDirectAccessTo _ _ := true
  isValueType_object := rfl
  isAssignableFrom_object _ := by simp [SampleType.isAssignableFrom]
  isAssignableFrom_self _ := by simp [SampleType.isAssignableFrom]
  isValueType_of_isEnum _ := nofun
  isValueType_of_isAssignableFrom t s h ht := by
    cases s with
    | proxy definition targetType => rfl
    | _ =>
      simp only [SampleType.isAssignableFrom, Bool.or_false, Bool.or_eq_true, beq_iff_eq] at h
      rcases h with rfl | rfl
      · cases ht
      · exact ht
  isValueType_callTargetReturnOf _ := rfl
  isEnum_callTargetReturnOf _ := rfl
  callTargetReturnOf_inj _ _ h := SampleType.callTargetReturnOf.inj h
  proxyType_ne d t p h := by
    split at h
    · cases h
      exact ⟨rfl, nofun⟩
    · cases h

/-- `OnMethodEnd<TTarget, TReturn>`, and `OnAsyncMethodEnd`, with a constraint on `TReturn`. -/
def noopMethod (returnType : SignatureType SampleType) (h : returnType.Scoped 2) :
    MethodInfo SampleType where
  genericArguments := [⟨[], fun _ => true⟩, ⟨[.iReturnValue], fun _ => true⟩]
  parameters := [.genericParameter 0, .genericParameter 1, .type .exception, .type .callTargetState]
  returnType := returnType
  inScope := by
    rw [List.forall_mem_cons]
    refine ⟨h, ?_⟩
    simp [SignatureType.Scoped]

def noopIntegration : IntegrationType SampleType where
  onMethodBegin := none
  onMethodEnd := some (noopMethod (.callTargetReturn (.genericParameter 1)) (by
    show 1 < 2
    decide))
  onAsyncMethodEnd := some (noopMethod (.genericParameter 1) (by
    show 1 < 2
    decide))

/-- The end of a task unwraps what the method returns. -/
theorem wrapper_sound_noop : ∃ w, (Creation.onAsyncEnd SampleType.string).create sampleTypes
    noopIntegration .object = .ok (some w) ∧ w.Sound sampleTypes := by
  have hcreate : (Creation.onAsyncEnd SampleType.string).create sampleTypes noopIntegration .object
      = .ok (some _) := rfl
  refine ⟨_, hcreate, (wrapper_sound_iff hcreate).2 ?_⟩
  rintro method ⟨⟩
  refine ⟨⟨fun _ => ?_, ?_⟩, by decide⟩
  · rintro parameter ⟨⟩
    exact .inl rfl
  · rintro position ⟨⟩
    exact .inl rfl

/-- The end of a method that returns a value unwraps a `CallTargetReturn`. -/
theorem wrapper_not_sound : ∃ w, (Creation.onEndOf SampleType.string).create sampleTypes
    noopIntegration .object = .ok (some w) ∧ ¬ w.Sound sampleTypes := by
  have hcreate : createEndMethodDelegateOf sampleTypes noopIntegration .object .string
      = .ok (some _) := rfl
  exact ⟨_, hcreate, not_sound_of_proxiedReturn rfl rfl hcreate⟩

end DdTrace.CallTarget.IntegrationMapper
