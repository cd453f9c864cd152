import DdTrace.Native.CallTarget
import DdTrace.Native.ReplacementCalls
import DdTrace.Tokens.CallTargetTokens

/-!
# The methods that instrumented code calls

The rest of `CallTargetTokens`: the member references it caches, and the method
specifications for one instrumented method. Every signature is built in a buffer of
`signatureBufferSize` bytes on the stack (`written`).
-/

namespace DdTrace.Tokens

open Lib Lib.Throwing Signature
open Native (FASTPATH_COUNT IMAGE_CEE_CS_CALLCONV_HASTHIS)

def mdMethodSpecNil : Token := 0x2B000000

def IMAGE_CEE_CS_CALLCONV_GENERICINST : UInt8 := 0x0A

def managed_profiler_calltarget_beginmethod_name : String := "BeginMethod"
def managed_profiler_calltarget_endmethod_name : String := "EndMethod"
def managed_profiler_calltarget_logexception_name : String := "LogException"
def managed_profiler_calltarget_getdefaultvalue_name : String := "GetDefaultValue"
def managed_profiler_calltarget_returntype_getdefault_name : String := "GetDefault"
def managed_profiler_calltarget_returntype_getreturnvalue_name : String := "GetReturnValue"

structure MethodMetadata extends ModuleMetadata where
  defineMethodSpec : Token → List UInt8 → Except HRESULT DefinedToken

/-! ## The state -/

inductive CachedMember
  | callTargetReturnVoidTypeGetDefault
  | getDefaultMemberRef
  | beginArrayMemberRef
  | beginMethodFastPathRefs (numArguments : Fin FASTPATH_COUNT)
  | endVoidMemberRef
  | logExceptionRef
  deriving DecidableEq

open CachedToken CachedMember

/-- All the fields of `CallTargetTokens`. -/
structure Fields where
  types : CallTargetTokens
  members : CachedMember → Token

/-- What the constructor leaves. -/
def Fields.initial : Fields := ⟨CachedToken.nil, fun _ => mdMemberRefNil⟩

abbrev F := Throwing Stop Fields

/-- What only changes the types. -/
def onTypes {α : Type} (m : M α) : F α :=
  onPart Fields.types (fun types fields => { fields with types }) m

/-- The result of a metadata function. -/
def defined {α : Type} : Except HRESULT α → F α
  | .ok a => pure a
  | .error hr => throw (.failed hr)

/-- `if (FAILED(hr)) return …`, for all of a function. -/
def orReturn (value : HRESULT → Token) (token : F Token) : F Token :=
  tryCatch token fun
    | .failed hr => pure (value hr)
    | .undefined => throw .undefined

/-- `signature` is written into its buffer, from index 0 on. -/
def written (signature : List UInt8) : F (List UInt8) :=
  if signatureBufferSize < signature.length then throw .undefined else pure signature

variable (metadata : MethodMetadata)

/-- Define a member reference if it is not there yet. -/
def ensureMember (member : CachedMember) (parent : CachedToken) (name : String)
    (signature : CallTargetTokens → List UInt8) : F Unit := do
  let fields ← get
  if fields.members member = mdMemberRefNil then do
    let signature ← written (signature fields.types)
    let token ← defined (metadata.defineMemberRef (fields.types parent) name signature)
    modify fun fields => { fields with members := Function.update fields.members member token }
  else pure ()

/-- A method specification, from the member reference and the signatures of its type
arguments. -/
def methodSpec (memberRef : Token) (typeArguments : List (List UInt8)) : F Token := do
  let signature ← written (IMAGE_CEE_CS_CALLCONV_GENERICINST :: UInt8.ofNat typeArguments.length ::
    typeArguments.flatten)
  let token ← defined (metadata.defineMethodSpec memberRef signature)
  return token

/-! ## The values before the method -/

def getCallTargetReturnVoidDefaultMemberRef : F Token := orReturn (fun _ => mdMemberRefNil) do
  onTypes (ensureBaseCalltargetTokens metadata.toModuleMetadata)
  ensureMember metadata callTargetReturnVoidTypeGetDefault callTargetReturnVoidTypeRef
    managed_profiler_calltarget_returntype_getdefault_name fun tokens =>
      [IMAGE_CEE_CS_CALLCONV_DEFAULT, 0x00, ELEMENT_TYPE_VALUETYPE] ++
        corSigCompressToken (tokens callTargetReturnVoidTypeRef)
  return (← get).members callTargetReturnVoidTypeGetDefault

def getCallTargetReturnValueDefaultMemberRef (callTargetReturnTypeSpec : Token) : F Token :=
  orReturn (fun _ => mdMemberRefNil) do
    onTypes (ensureBaseCalltargetTokens metadata.toModuleMetadata)
    let fields ← get
    if fields.types callTargetReturnTypeRef = mdTypeRefNil then return mdMemberRefNil
    else do
      let signature ← written
        ([IMAGE_CEE_CS_CALLCONV_DEFAULT, 0x00, ELEMENT_TYPE_GENERICINST, ELEMENT_TYPE_VALUETYPE] ++
          corSigCompressToken (fields.types callTargetReturnTypeRef) ++
          [0x01, ELEMENT_TYPE_VAR, 0x00])
      let token ← defined (metadata.defineMemberRef callTargetReturnTypeSpec
        managed_profiler_calltarget_returntype_getdefault_name signature)
      return token

/-- A failure to define `GetDefaultValue` is returned as if it were a token. -/
def getCallTargetDefaultValueMethodSpec (ret : List UInt8) : F Token :=
  orReturn (fun _ => mdMethodSpecNil) do
    onTypes (ensureBaseCalltargetTokens metadata.toModuleMetadata)
    orReturn id do
      ensureMember metadata getDefaultMemberRef callTargetTypeRef
        managed_profiler_calltarget_getdefaultvalue_name fun _ =>
          [IMAGE_CEE_CS_CALLCONV_GENERIC, 0x01, 0x00, ELEMENT_TYPE_MVAR, 0x00]
      let fields ← get
      orReturn (fun _ => mdMethodSpecNil) (methodSpec metadata (fields.members getDefaultMemberRef) [ret])

/-- What `ModifyLocalSigAndInitialize` calls: `CallTargetInvoker.GetDefaultValue` if there is
a return value, and the `GetDefault` of the `CallTargetReturn`. -/
structure InitializedLocals where
  localSig : ModifiedLocalSig
  defaultValue : Option Token
  returnDefault : Token

def modifyLocalSigAndInitialize (outside : ℕ → UInt8) (localVarSig : Token) (ret : List UInt8) :
    F InitializedLocals := do
  let localSig ← onTypes (modifyLocalSig metadata.toModuleMetadata outside localVarSig ret)
  if localSig.returnValueIndex ≠ -1 then do
    let defaultValue ← getCallTargetDefaultValueMethodSpec metadata ret
    let returnDefault ←
      getCallTargetReturnValueDefaultMemberRef metadata localSig.callTargetReturnToken
    return { localSig, defaultValue := some defaultValue, returnDefault }
  else do
    let returnDefault ← getCallTargetReturnVoidDefaultMemberRef metadata
    return { localSig, defaultValue := none, returnDefault }

/-! ## The calls around the method -/

/-- A type and the types around it. -/
inductive TypeInfo
  | mk (id type_spec : Token) (valueType isGeneric : Bool) (parent_type : Option TypeInfo)

namespace TypeInfo

def type_spec : TypeInfo → Token
  | mk _ type_spec _ _ _ => type_spec

def valueType : TypeInfo → Bool
  | mk _ _ valueType _ _ => valueType

/-- The loop of `GetCurrentTypeRef`: the outermost type, unless a generic one comes before. -/
def outermost : TypeInfo → Option Token
  | mk _ _ _ true _ => none
  | mk id _ _ false none => some id
  | mk _ _ _ false (some parent_type) => parent_type.outermost

end TypeInfo

/-- The token, and `isValueType`. -/
def getCurrentTypeRef (tokens : CallTargetTokens) (currentType : TypeInfo) : Token × Bool :=
  if currentType.type_spec ≠ mdTypeSpecNil then (currentType.type_spec, currentType.valueType)
  else
    match currentType.outermost with
    | some id => (id, currentType.valueType)
    | none => (tokens objectTypeRef, false)

/-- The type arguments that all calls start with: the integration and the current type. -/
def typeArguments (tokens : CallTargetTokens) (integrationTypeRef : Token)
    (currentType : TypeInfo) : List (List UInt8) :=
  let (currentTypeRef, isValueType) := getCurrentTypeRef tokens currentType
  [ELEMENT_TYPE_CLASS :: corSigCompressToken integrationTypeRef,
    (if isValueType then ELEMENT_TYPE_VALUETYPE else ELEMENT_TYPE_CLASS) ::
      corSigCompressToken currentTypeRef]

variable (integrationTypeRef : Token) (currentType : TypeInfo)

def writeBeginMethodWithArgumentsArray : F Token := do
  onTypes (ensureBaseCalltargetTokens metadata.toModuleMetadata)
  ensureMember metadata beginArrayMemberRef callTargetTypeRef
    managed_profiler_calltarget_beginmethod_name fun tokens =>
      [IMAGE_CEE_CS_CALLCONV_GENERIC, 0x02, 0x02, ELEMENT_TYPE_VALUETYPE] ++
        corSigCompressToken (tokens callTargetStateTypeRef) ++
        [ELEMENT_TYPE_MVAR, 0x01, ELEMENT_TYPE_SZARRAY, ELEMENT_TYPE_OBJECT]
  let fields ← get
  methodSpec metadata (fields.members beginArrayMemberRef)
    (typeArguments fields.types integrationTypeRef currentType)

/-- `MVAR` for each argument of the fast path. -/
def argumentVars (numArguments : ℕ) : List UInt8 :=
  (List.range numArguments).flatMap fun i => [ELEMENT_TYPE_MVAR, 0x01 + (UInt8.ofNat i + 1)]

def writeBeginMethod (methodArguments : List (List UInt8)) : F Token := do
  onTypes (ensureBaseCalltargetTokens metadata.toModuleMetadata)
  let numArguments := methodArguments.length
  if h : numArguments < FASTPATH_COUNT then do
    ensureMember metadata (beginMethodFastPathRefs ⟨numArguments, h⟩) callTargetTypeRef
      managed_profiler_calltarget_beginmethod_name fun tokens =>
        [IMAGE_CEE_CS_CALLCONV_GENERIC, 0x02 + UInt8.ofNat numArguments,
          0x01 + UInt8.ofNat numArguments, ELEMENT_TYPE_VALUETYPE] ++
          corSigCompressToken (tokens callTargetStateTypeRef) ++ [ELEMENT_TYPE_MVAR, 0x01] ++
          argumentVars numArguments
    let fields ← get
    methodSpec metadata (fields.members (beginMethodFastPathRefs ⟨numArguments, h⟩))
      (typeArguments fields.types integrationTypeRef currentType ++ methodArguments)
  else writeBeginMethodWithArgumentsArray metadata integrationTypeRef currentType

def writeEndVoidReturnMemberRef : F Token := do
  onTypes (ensureBaseCalltargetTokens metadata.toModuleMetadata)
  ensureMember metadata endVoidMemberRef callTargetTypeRef
    managed_profiler_calltarget_endmethod_name fun tokens =>
      [IMAGE_CEE_CS_CALLCONV_GENERIC, 0x02, 0x03, ELEMENT_TYPE_VALUETYPE] ++
        corSigCompressToken (tokens callTargetReturnVoidTypeRef) ++
        [ELEMENT_TYPE_MVAR, 0x01, ELEMENT_TYPE_CLASS] ++ corSigCompressToken (tokens exTypeRef) ++
        [ELEMENT_TYPE_VALUETYPE] ++ corSigCompressToken (tokens callTargetStateTypeRef)
  let fields ← get
  methodSpec metadata (fields.members endVoidMemberRef)
    (typeArguments fields.types integrationTypeRef currentType)

/-- What `GetTargetReturnValueTypeRef` returns is not looked at. -/
def writeEndReturnMemberRef (ret : List UInt8) : F Token := do
  onTypes (ensureBaseCalltargetTokens metadata.toModuleMetadata)
  let _ ← onTypes (getTargetReturnValueTypeRef metadata.toModuleMetadata ret)
  let fields ← get
  let signature ← written
    ([IMAGE_CEE_CS_CALLCONV_GENERIC, 0x03, 0x04, ELEMENT_TYPE_GENERICINST, ELEMENT_TYPE_VALUETYPE] ++
      corSigCompressToken (fields.types callTargetReturnTypeRef) ++
      [0x01, ELEMENT_TYPE_MVAR, 0x02, ELEMENT_TYPE_MVAR, 0x01, ELEMENT_TYPE_MVAR, 0x02,
        ELEMENT_TYPE_CLASS] ++ corSigCompressToken (fields.types exTypeRef) ++
      [ELEMENT_TYPE_VALUETYPE] ++ corSigCompressToken (fields.types callTargetStateTypeRef))
  let endMethodMemberRef ← defined (metadata.defineMemberRef (fields.types callTargetTypeRef)
    managed_profiler_calltarget_endmethod_name signature)
  methodSpec metadata endMethodMemberRef
    (typeArguments fields.types integrationTypeRef currentType ++ [ret])

def writeLogException : F Token := do
  onTypes (ensureBaseCalltargetTokens metadata.toModuleMetadata)
  ensureMember metadata logExceptionRef callTargetTypeRef
    managed_profiler_calltarget_logexception_name fun tokens =>
      [IMAGE_CEE_CS_CALLCONV_GENERIC, 0x02, 0x01, ELEMENT_TYPE_VOID, ELEMENT_TYPE_CLASS] ++
        corSigCompressToken (tokens exTypeRef)
  let fields ← get
  methodSpec metadata (fields.members logExceptionRef)
    (typeArguments fields.types integrationTypeRef currentType)

/-- Whatever fails, `mdMemberRefNil` is returned as the result. -/
def writeCallTargetReturnGetReturnValue (callTargetReturnTypeSpec : Token) : F Token :=
  tryCatch (do
    onTypes (ensureBaseCalltargetTokens metadata.toModuleMetadata)
    let signature ← written [IMAGE_CEE_CS_CALLCONV_DEFAULT ||| IMAGE_CEE_CS_CALLCONV_HASTHIS, 0x00,
      ELEMENT_TYPE_VAR, 0x00]
    let token ← defined (metadata.defineMemberRef callTargetReturnTypeSpec
      managed_profiler_calltarget_returntype_getreturnvalue_name signature)
    return token) fun
    | .failed _ => throw (.failed mdMemberRefNil)
    | .undefined => throw .undefined

end DdTrace.Tokens
