import DdTrace.Lib.StackCode

/-!
# The wrappers of an integration's methods

`IntegrationMapper` checks the signature of `OnMethodBegin`, `OnMethodEnd` or `OnAsyncMethodEnd`,
infers its type arguments from the target's types, and emits a dynamic method that loads the
arguments, some of them as duck types, and calls it. A loop that does both in the source, the
type arguments and the code, is two functions here. The texts of the exceptions are left out.
-/

namespace DdTrace.CallTarget.IntegrationMapper

open Lib

variable {Typ : Type}

/-! ### Types -/

/-- Closed types, and what the duck typing makes of them. -/
structure RuntimeTypes (Typ : Type) where
  object : Typ
  exception : Typ
  callTargetState : Typ
  callTargetReturn : Typ
  /-- `CallTargetReturn<T>` -/
  callTargetReturnOf : Typ → Typ
  objectArray : Typ
  iDuckType : Typ
  isValueType : Typ → Bool
  isEnum : Typ → Bool
  enumUnderlyingType : Typ → Typ
  /-- `to.IsAssignableFrom(from)` -/
  isAssignableFrom : Typ → Typ → Bool
  /-- `DuckType.GetOrCreateProxyType(definition, target).ProxyType`, with none for an exception. -/
  getOrCreateProxyType : Typ → Typ → Option Typ
  /-- Whether the proxy type's module may use the target type. -/
  useDirectAccessTo : Typ → Typ → Bool
  isValueType_object : isValueType object = false
  isAssignableFrom_object : ∀ t, isAssignableFrom object t
  isAssignableFrom_self : ∀ t, isAssignableFrom t t
  isValueType_of_isEnum : ∀ t, isEnum t → isValueType t
  isValueType_of_isAssignableFrom : ∀ t s, isAssignableFrom t s → isValueType t → isValueType s
  isValueType_callTargetReturnOf : ∀ t, isValueType (callTargetReturnOf t)
  isEnum_callTargetReturnOf : ∀ t, isEnum (callTargetReturnOf t) = false
  callTargetReturnOf_inj : ∀ s t, callTargetReturnOf s = callTargetReturnOf t → s = t
  /-- A proxy type is defined by the duck typing. -/
  proxyType_ne : ∀ d t p, getOrCreateProxyType d t = some p →
    isEnum p = false ∧ ∀ r, p ≠ callTargetReturnOf r

/-- A type in a signature. `callTargetReturn` also stands for the closed types of that form. -/
inductive SignatureType (Typ : Type) where
  | type (t : Typ)
  | genericParameter (position : ℕ)
  | callTargetReturn (t : SignatureType Typ)
  /-- Another type constructed from the generic parameters. -/
  | openType (instantiate : List Typ → Typ)

namespace SignatureType

/-- The type, if no generic parameter stands in it. -/
def closed? (R : RuntimeTypes Typ) : SignatureType Typ → Option Typ
  | type t => some t
  | callTargetReturn t => (t.closed? R).map R.callTargetReturnOf
  | _ => none

/-- `GenericParameterPosition`, of a generic parameter. -/
def position? : SignatureType Typ → Option ℕ
  | genericParameter position => some position
  | _ => none

def instantiate (R : RuntimeTypes Typ) (typeArguments : List Typ) : SignatureType Typ → Typ
  | type t => t
  | genericParameter position => typeArguments.getD position R.object
  | callTargetReturn t => R.callTargetReturnOf (t.instantiate R typeArguments)
  | openType instantiate => instantiate typeArguments

def Scoped (arity : ℕ) : SignatureType Typ → Prop
  | genericParameter position => position < arity
  | callTargetReturn t => t.Scoped arity
  | _ => True

end SignatureType

structure GenericArgument (Typ : Type) where
  /-- `GetGenericParameterConstraints` -/
  constraints : List Typ
  /-- Whether a type meets `class`, `struct` and `new()`. -/
  special : Typ → Bool

structure MethodInfo (Typ : Type) where
  genericArguments : List (GenericArgument Typ)
  parameters : List (SignatureType Typ)
  returnType : SignatureType Typ
  inScope : ∀ t ∈ returnType :: parameters, t.Scoped genericArguments.length

/-- What `GetMethod` finds. -/
structure IntegrationType (Typ : Type) where
  onMethodBegin : Option (MethodInfo Typ)
  onMethodEnd : Option (MethodInfo Typ)
  onAsyncMethodEnd : Option (MethodInfo Typ)

/-! ### Code -/

inductive Callee (Typ : Type) where
  | onMethod (method : MethodInfo Typ) (typeArguments : List Typ)
  | unwrapReturnValue (tFrom tTo : Typ)
  | convertType (t : Typ)

inductive Op (Typ : Type) where
  | ldarg (index : ℕ)
  | ldargS (index : ℕ)
  | ldcI4 (value : ℕ)
  | ldelemRef
  | box (t : Typ)
  | unboxAny (t : Typ)
  | newobj (proxyType parameter : Typ)
  | call (callee : Callee Typ)
  | ret

def Callee.parameters (R : RuntimeTypes Typ) : Callee Typ → List Typ
  | onMethod method typeArguments => method.parameters.map (·.instantiate R typeArguments)
  | unwrapReturnValue tFrom _ => [tFrom]
  | convertType _ => [R.object]

def Callee.returnType (R : RuntimeTypes Typ) : Callee Typ → Typ
  | onMethod method typeArguments => method.returnType.instantiate R typeArguments
  | unwrapReturnValue _ tTo => tTo
  | convertType t => t

structure DynamicMethod (Typ : Type) where
  returnType : Typ
  parameterTypes : List Typ
  code : List (Instr (Op Typ))

inductive MapperException where
  | returnType
  | invalidOperation
  | noGenericType
  | genericTypes
  | lessParameters
  | moreParameters
  | firstGenericArgument
  | exceptionMissing
  | callTargetStateMissing
  | returnValue
  | invalidCast
  | indexOutOfRange
  | duckType
  | makeGenericMethod
  deriving DecidableEq

section

variable [DecidableEq Typ] (R : RuntimeTypes Typ)

/-- There are as many type arguments as generic parameters, and they meet the constraints. -/
def MethodInfo.admits (method : MethodInfo Typ) (typeArguments : List Typ) : Bool :=
  typeArguments.length == method.genericArguments.length &&
    (method.genericArguments.zip typeArguments).all fun p =>
      p.1.special p.2 && p.1.constraints.all fun constraint => R.isAssignableFrom constraint p.2

/-- `MakeGenericMethod` -/
def makeGenericMethod (method : MethodInfo Typ) (typeArguments : List Typ) :
    Except MapperException (Callee Typ) :=
  if method.admits R typeArguments then .ok (.onMethod method typeArguments)
  else .error .makeGenericMethod

/-- The parameter of the proxy type's constructor. -/
def constructorParameter (proxyType targetType : Typ) : Typ :=
  if R.useDirectAccessTo proxyType targetType then targetType else R.object

def writeCreateNewProxyInstance (proxyType targetType : Typ) : List (Instr (Op Typ)) :=
  let parameter := constructorParameter R proxyType targetType
  if R.isValueType targetType && !R.isValueType parameter then
    [.op (.box targetType), .op (.newobj proxyType parameter)]
  else [.op (.newobj proxyType parameter)]

def writeIntValue (value : ℕ) : Instr (Op Typ) := .op (.ldcI4 value)

def writeLoadArgument (index : ℕ) (isStatic : Bool) : Instr (Op Typ) :=
  let index := if isStatic then index else index + 1
  if index < 4 then .op (.ldarg index) else .op (.ldargS index)

/-! ### Type arguments -/

/-- The type argument for a value: its type, or the proxy type that the constraint asks for. -/
def typeArgument (constraint : Option Typ) (sourceType : Typ) : Except MapperException Typ :=
  match constraint with
  | none => .ok sourceType
  | some constraint =>
    match R.getOrCreateProxyType constraint sourceType with
    | some proxyType => .ok proxyType
    | none => .error .duckType

/-- The value, as a duck type if there is a constraint. -/
def writeValue (load : Instr (Op Typ)) (constraint : Option Typ) (sourceType : Typ) :
    List (Instr (Op Typ)) :=
  match constraint.bind (R.getOrCreateProxyType · sourceType) with
  | some proxyType => load :: writeCreateNewProxyInstance R proxyType sourceType
  | none => [load]

/-- `GetGenericParameterConstraints().FirstOrDefault()` -/
def MethodInfo.firstConstraint (method : MethodInfo Typ) (position : ℕ) : Option Typ :=
  method.genericArguments[position]?.bind (·.constraints.head?)

/-- The same without `IDuckType`. -/
def MethodInfo.argumentConstraint (method : MethodInfo Typ) (parameter : SignatureType Typ) :
    Option Typ :=
  parameter.position?.bind fun position =>
    method.genericArguments[position]?.bind (·.constraints.find? (· ≠ R.iDuckType))

/-- The type arguments for the parameters behind the instance. -/
def argumentTypeArguments (method : MethodInfo Typ) :
    List (SignatureType Typ) → List Typ → Except MapperException (List Typ)
  | parameter :: parameters, sourceType :: sourceTypes =>
    match parameter.position? with
    | some _ => do
      let typeArgument ← typeArgument R (method.argumentConstraint R parameter) sourceType
      return typeArgument :: (← argumentTypeArguments method parameters sourceTypes)
    | none =>
      if (parameter.closed? R).any fun t =>
          R.isAssignableFrom t sourceType || (R.isEnum sourceType && R.isEnum t) then
        argumentTypeArguments method parameters sourceTypes
      else .error .invalidCast
  | _, _ => .ok []

def writeArguments (method : MethodInfo Typ) (mustLoadInstance : Bool) :
    ℕ → List (SignatureType Typ) → List Typ → List (Instr (Op Typ))
  | i, parameter :: parameters, sourceType :: sourceTypes =>
    writeValue R (writeLoadArgument i mustLoadInstance) (method.argumentConstraint R parameter)
        sourceType ++
      writeArguments method mustLoadInstance (i + 1) parameters sourceTypes
  | _, _, _ => []

/-! ### OnMethodBegin -/

def checkBegin (method : MethodInfo Typ) (argumentsTypes : List Typ) : Option MapperException :=
  if method.returnType.closed? R ≠ some R.callTargetState then some .returnType
  else if method.genericArguments.length < 1 then some .noGenericType
  else if method.parameters.length < argumentsTypes.length then some .lessParameters
  else if method.parameters.length > argumentsTypes.length + 1 then some .moreParameters
  else if method.parameters.length ≠ argumentsTypes.length ∧
      method.parameters.head?.bind SignatureType.position? ≠ some 0 then
    some .firstGenericArgument
  else none

def MethodInfo.mustLoadInstance (method : MethodInfo Typ) (argumentsTypes : List Typ) : Bool :=
  method.parameters.length ≠ argumentsTypes.length

/-- The parameters behind the instance. -/
def MethodInfo.valueParameters (method : MethodInfo Typ) (mustLoadInstance : Bool) :
    List (SignatureType Typ) :=
  method.parameters.drop (if mustLoadInstance then 1 else 0)

def beginTypeArguments (method : MethodInfo Typ) (targetType : Typ) (argumentsTypes : List Typ) :
    Except MapperException (List Typ) := do
  let instanceType ← typeArgument R (method.firstConstraint 0) targetType
  return instanceType :: (← argumentTypeArguments R method
    (method.valueParameters (method.mustLoadInstance argumentsTypes)) argumentsTypes)

def writeInstance (method : MethodInfo Typ) (mustLoadInstance : Bool) (targetType : Typ) :
    List (Instr (Op Typ)) :=
  if mustLoadInstance then writeValue R (.op (.ldarg 0)) (method.firstConstraint 0) targetType
  else []

def createBeginMethodDelegate (integrationType : IntegrationType Typ) (targetType : Typ)
    (argumentsTypes : List Typ) : Except MapperException (Option (DynamicMethod Typ)) :=
  match integrationType.onMethodBegin with
  | none => .ok none
  | some method =>
    match checkBegin R method argumentsTypes with
    | some e => .error e
    | none => do
      let mustLoadInstance := method.mustLoadInstance argumentsTypes
      let callGenericTypes ← beginTypeArguments R method targetType argumentsTypes
      let callee ← makeGenericMethod R method callGenericTypes
      return some {
        returnType := R.callTargetState
        parameterTypes := targetType :: argumentsTypes
        code := writeInstance R method mustLoadInstance targetType ++
          writeArguments R method mustLoadInstance (if mustLoadInstance then 1 else 0)
            (method.valueParameters mustLoadInstance) argumentsTypes ++
          [.op (.call callee), .op .ret] }

/-! ### OnMethodEnd -/

/-- The checks of the parameters, of which there are at least so many. -/
def checkEndParameters (method : MethodInfo Typ) (least : ℕ) : Option MapperException :=
  let n := method.parameters.length
  if n < least then some .lessParameters
  else if n > least + 1 then some .moreParameters
  else if (method.parameters[n - 2]?.bind (·.closed? R)) ≠ some R.exception then
    some .exceptionMissing
  else if (method.parameters[n - 1]?.bind (·.closed? R)) ≠ some R.callTargetState then
    some .callTargetStateMissing
  else none

def checkEnd (method : MethodInfo Typ) : Option MapperException :=
  if method.returnType.closed? R ≠ some R.callTargetReturn then some .returnType
  else if method.genericArguments.length ≠ 1 then some .genericTypes
  else checkEndParameters R method 2

def createEndMethodDelegate (integrationType : IntegrationType Typ) (targetType : Typ) :
    Except MapperException (Option (DynamicMethod Typ)) :=
  match integrationType.onMethodEnd with
  | none => .ok none
  | some method =>
    match checkEnd R method with
    | some e => .error e
    | none => do
      let mustLoadInstance := method.parameters.length == 3
      let instanceType ← typeArgument R (method.firstConstraint 0) targetType
      let callee ← makeGenericMethod R method [instanceType]
      return some {
        returnType := R.callTargetReturn
        parameterTypes := [targetType, R.exception, R.callTargetState]
        code := writeInstance R method mustLoadInstance targetType ++
          [.op (.ldarg 1), .op (.ldarg 2), .op (.call callee), .op .ret] }

/-- The parameter of the return value. -/
def MethodInfo.returnParameter (method : MethodInfo Typ) : Option (SignatureType Typ) :=
  method.parameters[if method.parameters.length = 4 then 1 else 0]?

/-- The constraint on the return value, if its parameter is generic. -/
def MethodInfo.returnConstraint (method : MethodInfo Typ) : Option Typ :=
  (method.returnParameter.bind SignatureType.position?).bind fun _ => method.firstConstraint 1

def returnTypeArguments (method : MethodInfo Typ) (returnType : Typ) :
    Except MapperException (List Typ) :=
  match method.returnParameter.bind SignatureType.position? with
  | some _ =>
    if method.genericArguments.length < 2 then .error .indexOutOfRange
    else (typeArgument R (method.firstConstraint 1) returnType).map ([·])
  | none =>
    if method.returnParameter.bind (·.closed? R) ≠ some returnType then .error .returnValue
    else .ok []

/-- What the two methods that get the return value have in common, with the wrapper's return
type. -/
def createReturnDelegate (method : MethodInfo Typ) (targetType returnType wrapperType : Typ) :
    Except MapperException (Option (DynamicMethod Typ)) := do
  let instanceType ← typeArgument R (method.firstConstraint 0) targetType
  let returnTypes ← returnTypeArguments R method returnType
  let callee ← makeGenericMethod R method (instanceType :: returnTypes)
  let unwrap := match method.returnConstraint.bind (R.getOrCreateProxyType · returnType) with
    | some proxyType => [.op (.call (.unwrapReturnValue proxyType returnType))]
    | none => []
  return some {
    returnType := wrapperType
    parameterTypes := [targetType, returnType, R.exception, R.callTargetState]
    code := writeInstance R method (method.parameters.length == 4) targetType ++
      writeValue R (.op (.ldarg 1)) method.returnConstraint returnType ++
      [.op (.ldarg 2), .op (.ldarg 3), .op (.call callee)] ++ unwrap ++ [.op .ret] }

def checkEndOf (method : MethodInfo Typ) : Option MapperException :=
  match method.returnType with
  | .callTargetReturn _ =>
    if method.genericArguments.length < 1 ∨ method.genericArguments.length > 2 then
      some .genericTypes
    else checkEndParameters R method 3
  | .openType _ => some .returnType
  | _ => some .invalidOperation

/-- `CreateEndMethodDelegate` for a target that returns a value. -/
def createEndMethodDelegateOf (integrationType : IntegrationType Typ)
    (targetType returnType : Typ) : Except MapperException (Option (DynamicMethod Typ)) :=
  match integrationType.onMethodEnd with
  | none => .ok none
  | some method =>
    match checkEndOf R method with
    | some e => .error e
    | none =>
      createReturnDelegate R method targetType returnType (R.callTargetReturnOf returnType)

/-! ### OnAsyncMethodEnd -/

def checkAsyncEnd (method : MethodInfo Typ) (returnType : Typ) : Option MapperException :=
  if method.returnType.position? = none ∧ method.returnType.closed? R ≠ some returnType then
    some .returnType
  else if method.genericArguments.length < 1 ∨ method.genericArguments.length > 2 then
    some .genericTypes
  else checkEndParameters R method 3

def createAsyncEndMethodDelegate (integrationType : IntegrationType Typ)
    (targetType returnType : Typ) : Except MapperException (Option (DynamicMethod Typ)) :=
  match integrationType.onAsyncMethodEnd with
  | none => .ok none
  | some method =>
    match checkAsyncEnd R method returnType with
    | some e => .error e
    | none => createReturnDelegate R method targetType returnType returnType

/-! ### OnMethodBegin with an array of arguments -/

/-- The type arguments for the parameters behind the instance: the constraint or `object`. -/
def slowTypeArguments (method : MethodInfo Typ) : List (SignatureType Typ) → List Typ
  | [] => []
  | parameter :: parameters =>
    match parameter.position? with
    | some _ =>
      (method.argumentConstraint R parameter).getD R.object :: slowTypeArguments method parameters
    | none => slowTypeArguments method parameters

/-- The argument at an index of the array. -/
def writeElement (method : MethodInfo Typ) (parameter : SignatureType Typ) (index : ℕ) :
    List (Instr (Op Typ)) :=
  let load : List (Instr (Op Typ)) := [.op (.ldarg 1), writeIntValue index, .op .ldelemRef]
  match method.argumentConstraint R parameter with
  | some constraint => load ++ [.op (.call (.convertType constraint))]
  | none =>
    match (parameter.closed? R).filter fun t => R.isValueType t with
    | some t => load ++ [.op (.unboxAny t)]
    | none => load

def writeElements (method : MethodInfo Typ) :
    ℕ → List (SignatureType Typ) → List (Instr (Op Typ))
  | _, [] => []
  | index, parameter :: parameters =>
    writeElement R method parameter index ++ writeElements method (index + 1) parameters

def checkSlowBegin (method : MethodInfo Typ) : Option MapperException :=
  if method.returnType.closed? R ≠ some R.callTargetState then some .returnType
  else if method.genericArguments.length < 1 then some .noGenericType
  else if method.parameters = [] then some .indexOutOfRange
  else none

/-- The first parameter is of the target's type. -/
def MethodInfo.loadsInstance (method : MethodInfo Typ) : Bool :=
  method.parameters.head?.bind SignatureType.position? == some 0

def createSlowBeginMethodDelegate (integrationType : IntegrationType Typ) (targetType : Typ) :
    Except MapperException (Option (DynamicMethod Typ)) :=
  match integrationType.onMethodBegin with
  | none => .ok none
  | some method =>
    match checkSlowBegin R method with
    | some e => .error e
    | none => do
      let parameters := method.valueParameters method.loadsInstance
      let instanceType ← typeArgument R (method.firstConstraint 0) targetType
      let callee ←
        makeGenericMethod R method (instanceType :: slowTypeArguments R method parameters)
      return some {
        returnType := R.callTargetState
        parameterTypes := [targetType, R.objectArray]
        code := writeInstance R method method.loadsInstance targetType ++
          writeElements R method 0 parameters ++ [.op (.call callee), .op .ret] }

end

end DdTrace.CallTarget.IntegrationMapper
