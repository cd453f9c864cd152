import DdTrace.DuckTyping.SelectTargetMethod
import DdTrace.Lib.StackCode
import DdTrace.Lib.Throwing

/-!
# The IL of a proxy method

`createMethod` is the part of `CreateMethods` that selects the target of one proxy method and
emits the code up to the call: the instance, the arguments (`addIlToLoadArguments`) and the call
itself, direct or through a dynamic method. `effect` is what the emitted operations do to the
stack, with a value named by where it comes from.
-/

namespace DdTrace.DuckTyping

open DdTrace.Lib DdTrace.Lib.Throwing

inductive OpCode (Typ : Type)
  /-- `Ldarg_0` to `Ldarg_3` -/
  | ldarg (index : ℕ)
  | ldargS (index : ℕ)
  | ldlocaS (index : ℕ)
  /-- `Stloc_0` to `Stloc_3` -/
  | stloc (index : ℕ)
  | stlocS (index : ℕ)
  /-- `Ldloc_0` to `Ldloc_3` -/
  | ldloc (index : ℕ)
  | ldlocS (index : ℕ)
  | ldfld
  | ldflda
  | ldindRef
  | stindRef
  | dup
  | pop
  | ldnull
  | castclass (type : Typ)
  | isinst (type : Typ)
  | unboxAny (type : Typ)
  | box (type : Typ)
  /-- The call of the getter of `IDuckType.Instance`. -/
  | getInstance
  /-- The call of `CreateCache<T>.Create`. -/
  | create (type : Typ)
  /-- The call of `DelegateCache<T>.GetDelegate`. -/
  | getDelegate
  | ldcI8
  | convI
  /-- A call, virtual call or indirect call that takes so many values. -/
  | call (arguments : ℕ) (returns : Bool)
  deriving DecidableEq, Repr

/-- A value on the stack, by its origin; one made from another has the origin of that one. -/
inductive StackValue
  | argument (index : ℕ)
  | currentInstance
  | address (localIndex : ℕ)
  | content (localIndex : ℕ)
  | null
  | delegate
  | functionPointer
  | result
  deriving DecidableEq, Repr

/-- What an operation does to the stack. A short form has an operand of one byte. -/
def effect {Typ : Type} : OpCode Typ → List StackValue → Option (List StackValue)
  | .ldarg i, s => some (.argument i :: s)
  | .ldargS i, s => if i < 256 then some (.argument i :: s) else none
  | .ldlocaS i, s => if i < 256 then some (.address i :: s) else none
  | .stloc _, _ :: s => some s
  | .stlocS i, _ :: s => if i < 256 then some s else none
  | .ldloc i, s => some (.content i :: s)
  | .ldlocS i, s => if i < 256 then some (.content i :: s) else none
  | .ldfld, _ :: s => some (.currentInstance :: s)
  | .ldflda, _ :: s => some (.currentInstance :: s)
  | .ldindRef, v :: s => some (v :: s)
  | .stindRef, _ :: _ :: s => some s
  | .dup, v :: s => some (v :: v :: s)
  | .pop, _ :: s => some s
  | .ldnull, s => some (.null :: s)
  | .castclass _, v :: s => some (v :: s)
  | .isinst _, v :: s => some (v :: s)
  | .unboxAny _, v :: s => some (v :: s)
  | .box _, v :: s => some (v :: s)
  | .getInstance, v :: s => some (v :: s)
  | .create _, v :: s => some (v :: s)
  | .getDelegate, s => some (.delegate :: s)
  | .ldcI8, s => some (.functionPointer :: s)
  | .convI, v :: s => some (v :: s)
  | .call arguments returns, s =>
    if arguments ≤ s.length then
      some ((if returns then [.result] else []) ++ s.drop arguments)
    else none
  | _, _ => none

/-! ### LazyILGenerator.cs, ILHelpersExtensions.cs -/

structure LazyILGenerator (Typ : Type) where
  instructions : List (Instr (OpCode Typ))
  offset : ℕ
  locals : List Typ
  labels : ℕ
  deriving DecidableEq, Repr

def LazyILGenerator.new (Typ : Type) : LazyILGenerator Typ where
  instructions := []
  offset := 0
  locals := []
  labels := 0

variable {Typ : Type}

abbrev Emitter (Typ : Type) := Throwing (EmitException Typ) (LazyILGenerator Typ)

namespace Emitter

def emit (i : Instr (OpCode Typ)) : Emitter Typ Unit :=
  modify fun il => { il with
    instructions := il.instructions.insertIdx il.offset i
    offset := il.offset + 1 }

def emitOp (o : OpCode Typ) : Emitter Typ Unit := emit (.op o)

def setOffset (value : ℕ) : Emitter Typ Unit :=
  modify fun il => { il with
    offset := if value > il.instructions.length then il.instructions.length else value }

def resetOffset : Emitter Typ Unit :=
  modify fun il => { il with offset := il.instructions.length }

def defineLabel : Emitter Typ ℕ := do
  let il ← get
  modify fun il => { il with labels := il.labels + 1 }
  pure il.labels

/-- The index of a new local; a null type is refused. -/
def declareLocal : Option Typ → Emitter Typ ℕ
  | none => throw .argumentNull
  | some localType => do
    let il ← get
    modify fun il => { il with locals := il.locals ++ [localType] }
    pure il.locals.length

def writeLoadArgument (index : ℕ) (isStatic : Bool) : Emitter Typ Unit :=
  let index := if isStatic then index else index + 1
  emitOp (if index ≤ 3 then .ldarg index else .ldargS index)

def writeStoreLocal (index : ℕ) : Emitter Typ Unit :=
  emitOp (if index ≤ 3 then .stloc index else .stlocS index)

def writeLoadLocal (index : ℕ) : Emitter Typ Unit :=
  emitOp (if index ≤ 3 then .ldloc index else .ldlocS index)

variable [DecidableEq Typ] (r : Reflection Typ)

def loadInstanceArgument (actualType expectedType : Typ) : Emitter Typ Unit := do
  emitOp (.ldarg 0)
  if actualType = expectedType then pure ()
  else if r.isValueType expectedType then
    let _ ← declareLocal (some expectedType)
    emitOp (.unboxAny expectedType)
    emitOp (.stloc 0)
    emitOp (.ldlocaS 0)
  else emitOp (.castclass expectedType)

def underlyingType (t : Typ) : Typ := if r.isEnum t then r.enumUnderlyingType t else t

/-- An object that is not of the expected value type throws when the code runs. -/
def writeUnbox (expectedType : Typ) : Emitter Typ Unit := do
  let lblIsExpected ← defineLabel
  emitOp .dup
  emitOp (.isinst expectedType)
  emit (.brtrue lblIsExpected)
  emitOp .pop
  emit .throw
  emit (.mark lblIsExpected)
  emitOp (.unboxAny expectedType)

def writeTypeConversion (actualType expectedType : Typ) : Emitter Typ Unit :=
  let actualUnderlyingType := underlyingType r actualType
  let expectedUnderlyingType := underlyingType r expectedType
  if actualUnderlyingType = expectedUnderlyingType then pure ()
  else if r.isValueType actualUnderlyingType then
    if r.isValueType expectedUnderlyingType then
      throw (.invalidTypeConversion actualType expectedType)
    else if expectedUnderlyingType = r.object then emitOp (.box actualType)
    else if r.isAssignableFrom expectedUnderlyingType actualUnderlyingType then do
      emitOp (.box actualType)
      emitOp (.castclass expectedType)
    else throw (.invalidTypeConversion actualType expectedType)
  else if r.isValueType expectedUnderlyingType then
    if actualUnderlyingType = r.object ||
        r.isAssignableFrom actualUnderlyingType expectedUnderlyingType then
      writeUnbox expectedType
    else throw (.invalidTypeConversion actualType expectedType)
  else if expectedUnderlyingType = r.object then pure ()
  else emitOp (.castclass expectedUnderlyingType)

def writeSafeTypeConversion (actualType expectedType : Typ) : Emitter Typ Unit :=
  if r.isGenericParameter actualType && r.isGenericParameter expectedType then pure ()
  else writeTypeConversion r actualType expectedType

/-- The values a call of the method takes. -/
def callArguments (m : MethodInfo Typ) : ℕ := (if m.isStatic then 0 else 1) + m.parameters.length

def emitCall (m : MethodInfo Typ) : Emitter Typ Unit :=
  emitOp (.call (callArguments m) (m.returnType != r.void))

def writeMethodCalli (m : MethodInfo Typ) : Emitter Typ Unit := do
  emitOp .ldcI8
  emitOp .convI
  emitOp (.call (callArguments m + 1) (m.returnType != r.void))

/-! ### DuckType.Methods.cs -/

def needsDuckChaining (targetType proxyType : Typ) : Bool :=
  r.hasDuckCopy proxyType ||
    (proxyType != targetType && !r.isValueType proxyType && !r.isGenericParameter proxyType &&
      !r.isAssignableFrom proxyType targetType && !r.inCoreLibrary proxyType)

def needsDuckChainingReverse (targetType proxyType : Typ) : Bool :=
  needsDuckChaining r proxyType targetType

def addIlToExtractDuckType (_ : Typ) : Emitter Typ Unit := do
  emitOp (.castclass r.iDuckType)
  emitOp .getInstance

def addIlToDuckChain (genericType : Typ) : Emitter Typ Unit := emitOp (.create genericType)

structure OutputAndRefParameterData (Typ : Type) where
  localIndex : ℕ
  localType : Typ
  proxyArgumentIndex : ℕ
  proxyArgumentType : Typ
  deriving DecidableEq, Repr

def initialiseProxyMethod (targetMethod : MethodInfo Typ) (instanceFieldType : Typ) :
    Emitter Typ Unit :=
  if targetMethod.isStatic then pure ()
  else do
    emitOp (.ldarg 0)
    emitOp (if r.isValueType instanceFieldType then .ldflda else .ldfld)

/-- How a value that may be null is cast: null stays null. -/
def duckCastUnlessNull (duckCastParameter : Emitter Typ Unit) : Emitter Typ Unit := do
  let lblCallGetInstance ← defineLabel
  let lblAfterGetInstance ← defineLabel
  emitOp .dup
  emit (.brtrue lblCallGetInstance)
  emitOp .pop
  emitOp .ldnull
  emit (.br lblAfterGetInstance)
  emit (.mark lblCallGetInstance)
  duckCastParameter
  emit (.mark lblAfterGetInstance)

variable (duckCastParameterFunc : Typ → Emitter Typ Unit) (needsDuckChainingFunc : Typ → Typ → Bool)

/-- An output parameter of another type: the target writes to a local. -/
def loadOutput (idx : ℕ) (outerParamType innerParamType : Typ) :
    Emitter Typ (OutputAndRefParameterData Typ) := do
  let localTargetArg ← declareLocal (r.elementType innerParamType)
  emitOp (.ldlocaS localTargetArg)
  pure ⟨localTargetArg, innerParamType, idx, outerParamType⟩

/-- The value behind the proxy's reference is converted and stored; the local's address is
loaded. -/
def loadConverted (idx localTargetArg : ℕ)
    (outerParamTypeElementType innerParamTypeElementType : Typ) : Emitter Typ Unit := do
  writeLoadArgument idx false
  emitOp .ldindRef
  if needsDuckChainingFunc innerParamTypeElementType outerParamTypeElementType then
    duckCastUnlessNull (duckCastParameterFunc innerParamTypeElementType)
  writeSafeTypeConversion r outerParamTypeElementType innerParamTypeElementType
  writeStoreLocal localTargetArg
  emitOp (.ldlocaS localTargetArg)

/-- A ref parameter of another type: the target gets a local that holds the converted value. -/
def loadRef (idx : ℕ) (outerParamType innerParamType : Typ) :
    Emitter Typ (OutputAndRefParameterData Typ) := do
  match r.elementType outerParamType, r.elementType innerParamType with
  | some outerParamTypeElementType, some innerParamTypeElementType =>
    let direct := r.useDirectAccessTo innerParamTypeElementType
    let innerParamType := if direct then innerParamType else r.makeByRefType r.object
    let innerParamTypeElementType := if direct then innerParamTypeElementType else r.object
    let localTargetArg ← declareLocal (some innerParamTypeElementType)
    loadConverted r duckCastParameterFunc needsDuckChainingFunc idx localTargetArg
      outerParamTypeElementType innerParamTypeElementType
    pure ⟨localTargetArg, innerParamType, idx, outerParamType⟩
  | _, _ => throw .argumentNull

/-- The type is the one the value has on the stack. -/
def loadValue (idx : ℕ) (outerParamType innerParamType : Typ) : Emitter Typ Typ := do
  writeLoadArgument idx false
  if needsDuckChainingFunc innerParamType outerParamType then
    duckCastParameterFunc innerParamType
  let innerParamType := if r.useDirectAccessTo innerParamType then innerParamType else r.object
  writeSafeTypeConversion r outerParamType innerParamType
  pure innerParamType

/-- One round of the loop with a parameter on both sides: what is to be written back after the
call, and the parameter's type in `innerMethodParametersTypes`. -/
def loadArgument (outerMethod innerMethod : MethodInfo Typ) (outerMethodGenericArguments : List Typ)
    (idx : ℕ) (outerParamInfo innerParamInfo : ParameterInfo Typ) :
    Emitter Typ (Option (OutputAndRefParameterData Typ) × Typ) :=
  let outerParamType := outerParamInfo.parameterType
  let innerParamType := innerParamInfo.parameterType
  if outerParamInfo.isOut != innerParamInfo.isOut || outerParamInfo.isIn != innerParamInfo.isIn then
    throw (.proxyAndTargetMethodParameterSignatureMismatch outerMethod innerMethod)
  else if r.isByRef outerParamType != r.isByRef innerParamType then
    throw (.proxyAndTargetMethodParameterSignatureMismatch outerMethod innerMethod)
  else if r.isGenericParameter outerParamType != r.isGenericParameter innerParamType &&
      decide (0 < outerMethodGenericArguments.length) then
    throw (.proxyAndTargetMethodParameterSignatureMismatch outerMethod innerMethod)
  else if outerParamInfo.isOut then
    if outerParamType != innerParamType then do
      let data ← loadOutput r idx outerParamType innerParamType
      pure (some data, innerParamType)
    else do
      writeLoadArgument idx false
      pure (none, innerParamType)
  else if r.isByRef outerParamType then
    if outerParamType != innerParamType then do
      let data ← loadRef r duckCastParameterFunc needsDuckChainingFunc idx outerParamType
        innerParamType
      pure (some data, innerParamType)
    else do
      writeLoadArgument idx false
      pure (none, innerParamType)
  else do
    let type ← loadValue r duckCastParameterFunc needsDuckChainingFunc idx outerParamType
      innerParamType
    pure (none, type)

/-- The loop from `idx` on. A parameter that the proxy lacks is checked and nothing is loaded. -/
def loadArguments (outerMethod innerMethod : MethodInfo Typ)
    (outerMethodGenericArguments : List Typ) :
    ℕ → List (ParameterInfo Typ) → List (ParameterInfo Typ) →
      Emitter Typ (List (OutputAndRefParameterData Typ) × List Typ)
  | _, [], [] => pure ([], [])
  | _, _ :: _, [] => throw .indexOutOfRange
  | idx, [], innerParamInfo :: inner =>
    if !innerParamInfo.isOptional then
      throw (.proxyMethodParameterIsMissing outerMethod innerParamInfo)
    else do
      let (data, types) ←
        loadArguments outerMethod innerMethod outerMethodGenericArguments (idx + 1) [] inner
      pure (data, innerParamInfo.parameterType :: types)
  | idx, outerParamInfo :: outer, innerParamInfo :: inner => do
    let (datum, type) ← loadArgument r duckCastParameterFunc needsDuckChainingFunc outerMethod
      innerMethod outerMethodGenericArguments idx outerParamInfo innerParamInfo
    let (data, types) ←
      loadArguments outerMethod innerMethod outerMethodGenericArguments (idx + 1) outer inner
    pure (datum.toList ++ data, type :: types)

def addIlToLoadArguments (innerMethod outerMethod : MethodInfo Typ)
    (outerMethodGenericArguments : List Typ) :
    Emitter Typ (List (OutputAndRefParameterData Typ) × List Typ) :=
  loadArguments r duckCastParameterFunc needsDuckChainingFunc outerMethod innerMethod
    outerMethodGenericArguments 0 outerMethod.parameters innerMethod.parameters

/-- One round of the loop after the call: what the target wrote to the local is converted and
stored through the proxy's reference. -/
def setOutputOrRefParameter (duckChainFunc : Typ → Emitter Typ Unit)
    (outOrRefParameter : OutputAndRefParameterData Typ) : Emitter Typ Unit :=
  match r.elementType outOrRefParameter.proxyArgumentType,
    r.elementType outOrRefParameter.localType with
  | some proxyArgumentType, some localType => do
    writeLoadArgument outOrRefParameter.proxyArgumentIndex false
    writeLoadLocal outOrRefParameter.localIndex
    if needsDuckChainingFunc localType proxyArgumentType then
      (if r.isValueType localType then emitOp (.box localType) else pure () : Emitter Typ Unit)
      duckChainFunc proxyArgumentType
    else writeSafeTypeConversion r localType proxyArgumentType
    emitOp .stindRef
  | _, _ => throw .argumentNull

def addIlToSetOutputAndRefParameters (duckChainFunc : Typ → Emitter Typ Unit) :
    List (OutputAndRefParameterData Typ) → Emitter Typ Unit
  | [] => pure ()
  | outOrRefParameter :: outputAndRefParameters => do
    setOutputOrRefParameter r needsDuckChainingFunc duckChainFunc outOrRefParameter
    addIlToSetOutputAndRefParameters duckChainFunc outputAndRefParameters

/-- How the target method is called. -/
inductive CallKind
  | direct
  | calli
  | dynamicMethod
  deriving DecidableEq, Repr

def makeGenericMethod (m : MethodInfo Typ) (args : List Typ) : Emitter Typ (MethodInfo Typ) :=
  match r.makeGenericMethod m args with
  | some m => pure m
  | none => throw .invalidOperation

def addIlForDirectMethodCall (targetMethod : MethodInfo Typ)
    (proxyMethodDefinitionGenericArguments : List Typ) :
    Emitter Typ (MethodInfo Typ × CallKind) := do
  let targetMethod ←
    (if 0 < proxyMethodDefinitionGenericArguments.length then
      makeGenericMethod r targetMethod proxyMethodDefinitionGenericArguments
    else pure targetMethod : Emitter Typ (MethodInfo Typ))
  if targetMethod.isPublic || targetMethod.isGenericMethod then
    emitCall r targetMethod
    pure (targetMethod, .direct)
  else
    writeMethodCalli r targetMethod
    pure (targetMethod, .calli)

/-- A dynamic method: its parameters and its code, up to the call of the target and as a whole. -/
structure DynamicMethod (Typ : Type) where
  parameters : List Typ
  returnType : Typ
  throughCall : List (Instr (OpCode Typ))
  instructions : List (Instr (OpCode Typ))
  deriving DecidableEq, Repr

/-- The loop over the parameters of the dynamic method, from `idx` on. -/
def loadDynamicArguments : ℕ → List Typ → List Typ → Emitter Typ Unit
  | idx, dynParameter :: dynParameters, targetParameter :: targetParameters => do
    writeLoadArgument idx true
    writeSafeTypeConversion r dynParameter targetParameter
    loadDynamicArguments (idx + 1) dynParameters targetParameters
  | _, _, _ => pure ()

def dynamicMethodCall (targetMethod : MethodInfo Typ) (targetMethodParametersTypes : List Typ) :
    Emitter Typ Unit := do
  (if !targetMethod.isStatic then loadInstanceArgument r r.object targetMethod.declaringType
    else pure () : Emitter Typ Unit)
  loadDynamicArguments r (if targetMethod.isStatic then 0 else 1) targetMethodParametersTypes
    (targetMethod.parameters.map (·.parameterType))
  if !targetMethod.containsGenericParameters then emitCall r targetMethod
  else writeMethodCalli r targetMethod

def dynamicMethodBody (targetMethod : MethodInfo Typ) (targetMethodParametersTypes : List Typ)
    (returnType : Typ) : Emitter Typ (List (Instr (OpCode Typ))) := do
  dynamicMethodCall r targetMethod targetMethodParametersTypes
  let il ← get
  writeSafeTypeConversion r targetMethod.returnType returnType
  pure il.instructions

def writeDynamicMethodCall (dynMethod : DynamicMethod Typ) : Emitter Typ Unit := do
  setOffset 0
  emitOp .getDelegate
  resetOffset
  emitOp (.call (1 + dynMethod.parameters.length) (dynMethod.returnType != r.void))

def addIlForDynamicMethodCall (targetMethod : MethodInfo Typ)
    (targetMethodParametersTypes : List Typ) : Emitter Typ (DynamicMethod Typ) := do
  let returnType :=
    if r.useDirectAccessTo targetMethod.returnType && !r.isGenericParameter targetMethod.returnType
    then targetMethod.returnType else r.object
  let dynParameters :=
    if targetMethod.isStatic then targetMethodParametersTypes
    else r.object :: targetMethodParametersTypes
  match runWith (dynamicMethodBody r targetMethod targetMethodParametersTypes returnType)
      (.new Typ) with
  | (.error e, _) => throw e
  | (.ok throughCall, dynIL) =>
    let dynMethod := ⟨dynParameters, returnType, throughCall, dynIL.instructions⟩
    writeDynamicMethodCall r dynMethod
    pure dynMethod

/-- The target whose arguments are loaded, what is to be written back, and how it is called. -/
structure ProxyCall (Typ : Type) where
  targetMethod : MethodInfo Typ
  outputAndRefParameters : List (OutputAndRefParameterData Typ)
  kind : CallKind
  dynMethod : Option (DynamicMethod Typ)
  deriving DecidableEq, Repr

/-- The target method that a proxy method calls, with the type arguments its attribute names. -/
def targetOf (targetType : Typ) (proxyMethodDefinition : MethodInfo Typ)
    (allTargetMethods : List (MethodInfo Typ)) : Emitter Typ (MethodInfo Typ) :=
  if proxyMethodDefinition.hasDuckReverseMethod then
    throw (.incorrectReverseMethodUsage proxyMethodDefinition)
  else match selectTargetMethod r false targetType proxyMethodDefinition allTargetMethods with
  | .error e => throw e
  | .ok none => throw (.targetMethodNotFound proxyMethodDefinition)
  | .ok (some targetMethod) =>
    if targetMethod.hasDuckReverseMethod then throw (.incorrectReverseMethodUsage targetMethod)
    else if proxyMethodDefinition.genericArguments.length = 0 ∧
        0 < targetMethod.genericArguments.length then
      match proxyMethodDefinition.duckAttribute.bind (·.genericParameterTypeNames) with
      | none => throw (.targetMethodNotFound proxyMethodDefinition)
      | some names =>
        if names.length ≠ targetMethod.genericArguments.length then
          throw (.targetMethodNotFound proxyMethodDefinition)
        else match names.mapM r.getType with
          | none => throw .argumentNull
          | some types => makeGenericMethod r targetMethod types
    else pure targetMethod

/-- The target method of a proxy method, with its instance and its arguments loaded. -/
def loadMethod (targetType instanceFieldType : Typ) (proxyMethodDefinition : MethodInfo Typ)
    (allTargetMethods : List (MethodInfo Typ)) :
    Emitter Typ (MethodInfo Typ × List (OutputAndRefParameterData Typ) × List Typ) := do
  let targetMethod ← targetOf r targetType proxyMethodDefinition allTargetMethods
  initialiseProxyMethod r targetMethod instanceFieldType
  let loaded ← addIlToLoadArguments r (addIlToExtractDuckType r) (needsDuckChaining r) targetMethod
    proxyMethodDefinition proxyMethodDefinition.genericArguments
  pure (targetMethod, loaded)

/-- `CreateMethods` for one proxy method, up to the call. -/
def createMethod (targetType instanceFieldType : Typ) (proxyMethodDefinition : MethodInfo Typ)
    (allTargetMethods : List (MethodInfo Typ)) : Emitter Typ (ProxyCall Typ) := do
  let (targetMethod, outputAndRefParameters, targetMethodParametersTypes) ←
    loadMethod r targetType instanceFieldType proxyMethodDefinition allTargetMethods
  if r.useDirectAccessTo targetType then
    let (_, kind) ←
      addIlForDirectMethodCall r targetMethod proxyMethodDefinition.genericArguments
    pure ⟨targetMethod, outputAndRefParameters, kind, none⟩
  else if 0 < proxyMethodDefinition.genericArguments.length then
    throw (.proxyMethodsWithGenericParametersNotSupported proxyMethodDefinition)
  else
    let dynMethod ← addIlForDynamicMethodCall r targetMethod targetMethodParametersTypes
    pure ⟨targetMethod, outputAndRefParameters, .dynamicMethod, some dynMethod⟩

end Emitter

end DdTrace.DuckTyping
