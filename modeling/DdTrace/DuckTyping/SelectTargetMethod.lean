import Mathlib.Data.List.Basic

/-!
# Which target method a proxy method calls

`SelectTargetMethod` finds the method of the target type that a proxy method stands for: the one
its attribute names, the one with the same parameter types, or the only one that can be matched
parameter by parameter. What it asks of `System.Reflection` are the fields of `Reflection`.
-/

namespace DdTrace.DuckTyping

structure ParameterInfo (Typ : Type) where
  parameterType : Typ
  isOut : Bool
  isIn : Bool
  isOptional : Bool
  deriving DecidableEq, Repr

/-- `DuckAttributeBase`, without the fallback to the base type. -/
structure DuckAttribute where
  name : Option String
  bindingFlags : ℕ
  genericParameterTypeNames : Option (List String)
  parameterTypeNames : Option (List String)
  explicitInterfaceTypeName : Option String
  deriving DecidableEq, Repr

/-- `new DuckAttribute()`: public, non-public, static and instance, with the hierarchy flattened. -/
def DuckAttribute.new : DuckAttribute where
  name := none
  bindingFlags := 16 + 32 + 8 + 4 + 64
  genericParameterTypeNames := none
  parameterTypeNames := none
  explicitInterfaceTypeName := none

/-- A method, with what `GetCustomAttribute` finds on it. -/
structure MethodInfo (Typ : Type) where
  name : String
  parameters : List (ParameterInfo Typ)
  returnType : Typ
  declaringType : Typ
  genericArguments : List Typ
  isStatic : Bool
  isPublic : Bool
  isGenericMethod : Bool
  containsGenericParameters : Bool
  duckAttribute : Option DuckAttribute
  hasDuckReverseMethod : Bool
  deriving DecidableEq, Repr

/-- The exceptions of the emission of a method: those of duck typing, then those of the runtime. -/
inductive EmitException (Typ : Type)
  | reverseAttributeParameterNamesMismatch (method : MethodInfo Typ)
  | targetMethodAmbiguousMatch (proxyMethod targetMethod targetMethod2 : MethodInfo Typ)
  | targetMethodNotFound (method : MethodInfo Typ)
  | incorrectReverseMethodUsage (method : MethodInfo Typ)
  | proxyMethodParameterIsMissing (proxyMethod : MethodInfo Typ) (parameter : ParameterInfo Typ)
  | proxyAndTargetMethodParameterSignatureMismatch (proxyMethod targetMethod : MethodInfo Typ)
  | invalidTypeConversion (actualType expectedType : Typ)
  | proxyMethodsWithGenericParametersNotSupported (proxyMethod : MethodInfo Typ)
  | indexOutOfRange
  | argumentNull
  | invalidOperation
  deriving DecidableEq, Repr

/-- What is asked of `System.Reflection`. -/
structure Reflection (Typ : Type) where
  isByRef : Typ → Bool
  /-- `GetElementType`, null for a type that has none. -/
  elementType : Typ → Option Typ
  makeByRefType : Typ → Typ
  isGenericParameter : Typ → Bool
  isGenericType : Typ → Bool
  isValueType : Typ → Bool
  isEnum : Typ → Bool
  isClass : Typ → Bool
  isAbstract : Typ → Bool
  enumUnderlyingType : Typ → Typ
  /-- `to.IsAssignableFrom(from)` -/
  isAssignableFrom : Typ → Typ → Bool
  toString : Typ → String
  fullName : Typ → Option String
  name : Typ → String
  assemblyName : Typ → String
  genericTypeArguments : Typ → List Typ
  object : Typ
  void : Typ
  iDuckType : Typ
  /-- `type.Module == typeof(string).Module` -/
  inCoreLibrary : Typ → Bool
  hasDuckCopy : Typ → Bool
  /-- `Type.GetType` without throwing. -/
  getType : String → Option Typ
  /-- `Type.GetMethod` by name, flags and parameter types. -/
  getMethod : Typ → String → ℕ → List Typ → Option (MethodInfo Typ)
  makeGenericMethod : MethodInfo Typ → List Typ → Option (MethodInfo Typ)
  /-- A constructed method has the parameters of its definition, with other types. -/
  makeGenericMethod_shape : ∀ m args m', makeGenericMethod m args = some m' →
    m'.parameters.length = m.parameters.length ∧ m'.isStatic = m.isStatic
  /-- Whether the proxy's module may use the type: always where it can be told to ignore
  access checks, else when the type is visible. -/
  useDirectAccessTo : Typ → Bool

variable {Typ : Type} [DecidableEq Typ] (r : Reflection Typ)

/-! ### One parameter -/

/-- The type a by-ref type refers to. -/
def Reflection.unwrapByRef (t : Typ) : Typ :=
  if r.isByRef t then (r.elementType t).getD t else t

/-- A generic argument of the proxy's parameter type cannot stand for the candidate's. -/
def genericArgumentMismatch (proxyType candidateType : Typ) : Bool :=
  if r.isByRef proxyType != r.isByRef candidateType then true
  else
    let proxyType := r.unwrapByRef proxyType
    let candidateType := r.unwrapByRef candidateType
    if r.isGenericParameter candidateType then false
    else if r.isValueType proxyType && !r.isEnum proxyType && proxyType != candidateType then true
    else if r.isClass proxyType && !r.isAbstract proxyType && proxyType != r.object then
      !r.isAssignableFrom candidateType proxyType
    else false

def parameterMismatch (proxyParam candidateParam : ParameterInfo Typ) : Bool :=
  if proxyParam.isOut != candidateParam.isOut then true
  else if r.isByRef proxyParam.parameterType != r.isByRef candidateParam.parameterType then true
  else
    let proxyParamType := r.unwrapByRef proxyParam.parameterType
    let candidateParamType := r.unwrapByRef candidateParam.parameterType
    if r.isGenericParameter candidateParamType then false
    else if r.isValueType proxyParamType && !r.isEnum proxyParamType &&
        proxyParamType != candidateParamType then true
    else if r.isClass proxyParamType && !r.isAbstract proxyParamType &&
        proxyParamType != r.object then
      if r.isAssignableFrom candidateParamType proxyParamType then false
      else if !r.isGenericType candidateParamType || !r.isGenericType proxyParamType then true
      else if r.toString candidateParamType == r.toString proxyParamType then false
      else
        let candidateArguments := r.genericTypeArguments candidateParamType
        let proxyArguments := r.genericTypeArguments proxyParamType
        candidateArguments.length != proxyArguments.length ||
          (proxyArguments.zip candidateArguments).any fun a => genericArgumentMismatch r a.1 a.2
    else false

/-! ### One candidate -/

/-- The candidate has the name looked for, or, after a wildcard for the interface, ends in it. -/
def nameMatches (name : String) (explicitInterfaceTypeName : Option String)
    (candidateName : String) : Bool :=
  match explicitInterfaceTypeName with
  | none | some "" => candidateName == name
  | some "*" => candidateName == name || candidateName.endsWith ("." ++ name)
  | some interfaceTypeName =>
    candidateName == interfaceTypeName.replace "+" "." ++ "." ++ name

/-- A type name of the attribute is the parameter's full name, its name, or its full name with
its assembly. -/
def parameterHasName (argument : String) (candidateParam : ParameterInfo Typ) : Bool :=
  let candidateParameter := candidateParam.parameterType
  some argument == r.fullName candidateParameter || argument == r.name candidateParameter ||
    argument == (r.fullName candidateParameter).getD "" ++ ", " ++ r.assemblyName candidateParameter

/-- No parameter is mismatched, and the parameters that the proxy lacks are optional. -/
def parametersMatch (proxyParameters candidateParameters : List (ParameterInfo Typ)) : Bool :=
  decide (proxyParameters.length ≤ candidateParameters.length) &&
    !((proxyParameters.zip candidateParameters).any fun p => parameterMismatch r p.1 p.2) &&
    (candidateParameters.drop proxyParameters.length).all (·.isOptional)

/-- The search among the candidates for the only one that matches. -/
def selectCandidate (proxyMethod : MethodInfo Typ) (proxyMethodDuckAttribute : DuckAttribute) :
    List (MethodInfo Typ) → Option (MethodInfo Typ) →
      Except (EmitException Typ) (Option (MethodInfo Typ))
  | [], targetMethod => .ok targetMethod
  | candidateMethod :: candidates, targetMethod =>
    let next := selectCandidate proxyMethod proxyMethodDuckAttribute candidates
    if !nameMatches (proxyMethodDuckAttribute.name.getD proxyMethod.name)
        proxyMethodDuckAttribute.explicitInterfaceTypeName candidateMethod.name then
      next targetMethod
    else
      let compare := if !parametersMatch r proxyMethod.parameters candidateMethod.parameters then
          next targetMethod
        else match targetMethod with
          | none => next (some candidateMethod)
          | some targetMethod =>
            .error (.targetMethodAmbiguousMatch proxyMethod targetMethod candidateMethod)
      match proxyMethodDuckAttribute.parameterTypeNames with
      | none => compare
      | some arguments =>
        if arguments.length != candidateMethod.parameters.length then next targetMethod
        else if (arguments.zip candidateMethod.parameters).all fun a => parameterHasName r a.1 a.2
        then .ok (some candidateMethod)
        else compare

/-- `reverse` says that the attribute is a `DuckReverseMethodAttribute`. -/
def selectTargetMethod (reverse : Bool) (targetType : Typ) (proxyMethod : MethodInfo Typ)
    (allTargetMethods : List (MethodInfo Typ)) :
    Except (EmitException Typ) (Option (MethodInfo Typ)) :=
  let proxyMethodDuckAttribute := proxyMethod.duckAttribute.getD .new
  let getMethod := r.getMethod targetType (proxyMethodDuckAttribute.name.getD proxyMethod.name)
    proxyMethodDuckAttribute.bindingFlags
  let proxyMethodParametersTypes := proxyMethod.parameters.map (·.parameterType)
  let search := match getMethod proxyMethodParametersTypes with
    | some targetMethod => .ok (some targetMethod)
    | none => selectCandidate r proxyMethod proxyMethodDuckAttribute allTargetMethods none
  match proxyMethodDuckAttribute.parameterTypeNames with
  | none => search
  | some names =>
    if reverse && proxyMethod.parameters.length != names.length then
      .error (.reverseAttributeParameterNamesMismatch proxyMethod)
    else
      let parameterTypes := names.filterMap r.getType
      if parameterTypes.length == names.length then
        match getMethod parameterTypes with
        | some targetMethod => .ok (some targetMethod)
        | none => search
      else search

end DdTrace.DuckTyping
