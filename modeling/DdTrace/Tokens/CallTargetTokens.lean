import DdTrace.Lib.Throwing
import DdTrace.Tokens.LocalVarSig

/-!
# The tokens of a module and its local variables

`CallTargetTokens` caches the tokens that instrumented code uses, defining each when it is
first asked for. `modifyLocalSig` appends the locals of the instrumentation to those of a
method. The metadata interfaces are parameters: `ModuleMetadata`.
-/

namespace DdTrace.Tokens

open Lib Lib.Throwing Signature

abbrev Token := UInt32
abbrev HRESULT := UInt32

def mdTokenNil : Token := 0x00000000
def mdTypeRefNil : Token := 0x01000000
def mdMemberRefNil : Token := 0x0A000000
def mdTypeSpecNil : Token := 0x1B000000
def mdAssemblyRefNil : Token := 0x23000000

def mdtTypeRef : UInt32 := 0x01000000
def mdtTypeSpec : UInt32 := 0x1B000000
def mdtBaseType : UInt32 := 0x72000000

def E_FAIL : HRESULT := 0x80004005

def IMAGE_CEE_CS_CALLCONV_DEFAULT : UInt8 := 0x00

def signatureBufferSize : ℕ := 500

def managed_profiler_calltarget_type : String :=
  "Datadog.Trace.ClrProfiler.CallTarget.CallTargetInvoker"
def managed_profiler_calltarget_statetype : String :=
  "Datadog.Trace.ClrProfiler.CallTarget.CallTargetState"
def managed_profiler_calltarget_statetype_getdefault_name : String := "GetDefault"
def managed_profiler_calltarget_returntype : String :=
  "Datadog.Trace.ClrProfiler.CallTarget.CallTargetReturn"
def managed_profiler_calltarget_returntype_generics : String :=
  "Datadog.Trace.ClrProfiler.CallTarget.CallTargetReturn`1"

/-! ## Compressed tokens and counts -/

def ridFromToken (tk : Token) : UInt32 := tk &&& 0x00FFFFFF
def typeFromToken (tk : Token) : UInt32 := tk &&& 0xFF000000

/-- The token as `CorSigCompressToken` hands it to `CorSigCompressData`. -/
def encodedToken (tk : Token) : UInt32 :=
  let rid := ridFromToken tk <<< 2
  let ulTyp := typeFromToken tk
  if ulTyp = mdtTypeRef then rid ||| 1
  else if ulTyp = mdtTypeSpec then rid ||| 2
  else if ulTyp = mdtBaseType then rid ||| 3
  else rid

/-- The index of a token has 24 bits, so it always has a compressed form. -/
def corSigCompressToken (tk : Token) : List UInt8 := (compress (encodedToken tk).toNat).getD []

/-- The value at `pData` and how many bytes it takes there. -/
def corSigUncompressData (pData : ℕ → UInt8) : UInt32 × UInt32 :=
  let b1 := pData 0
  if b1 &&& 0x80 = 0 then (b1.toUInt32, 1)
  else if b1 &&& 0xC0 = 0x80 then
    ((b1 &&& 0x3F).toUInt32 <<< 8 ||| (pData 1).toUInt32, 2)
  else if b1 &&& 0xE0 = 0xC0 then
    ((b1 &&& 0x1F).toUInt32 <<< 24 ||| (pData 1).toUInt32 <<< 16 ||| (pData 2).toUInt32 <<< 8 |||
      (pData 3).toUInt32, 4)
  else (0, -1)

/-! ## The metadata interfaces -/

/-- What a `Define` function returns when it succeeds. -/
abbrev DefinedToken := { token : Token // ridFromToken token ≠ 0 }

/-- A signature whose size is a `ULONG`. -/
abbrev Blob := { bytes : List UInt8 // bytes.length < 2 ^ 32 }

structure ModuleMetadata where
  /-- `DefineAssemblyRef` with the properties of the core library. -/
  defineCorLibAssemblyRef : Except HRESULT DefinedToken
  /-- `DefineAssemblyRef` with the properties of the managed profiler. -/
  defineProfilerAssemblyRef : Except HRESULT DefinedToken
  defineTypeRefByName : Token → String → Except HRESULT DefinedToken
  defineMemberRef : Token → String → List UInt8 → Except HRESULT DefinedToken
  getTokenFromTypeSpec : List UInt8 → Except HRESULT DefinedToken
  getTypeSpecFromToken : Token → Except HRESULT (List UInt8)
  getSigFromToken : Token → Except HRESULT Blob
  /-- From the buffer and the size of the signature in it. -/
  getTokenFromSig : List UInt8 → UInt32 → Except HRESULT DefinedToken

/-- A token stands for the signature it was made from, the nil token for none. -/
structure ModuleMetadata.Lawful (metadata : ModuleMetadata) : Prop where
  getTypeSpec : ∀ {signature : List UInt8} {token : DefinedToken},
    metadata.getTokenFromTypeSpec signature = .ok token →
    metadata.getTypeSpecFromToken token = .ok signature
  getTypeSpec_nil : ∀ signature : List UInt8,
    metadata.getTypeSpecFromToken mdTypeSpecNil ≠ .ok signature

/-! ## The cached tokens -/

inductive CachedToken
  | corLibAssemblyRef
  | objectTypeRef
  | exTypeRef
  | typeRef
  | runtimeTypeHandleRef
  | getTypeFromHandleToken
  | runtimeMethodHandleRef
  | profilerAssemblyRef
  | callTargetTypeRef
  | callTargetStateTypeRef
  | callTargetStateTypeGetDefault
  | callTargetReturnVoidTypeRef
  | callTargetReturnTypeRef
  deriving DecidableEq

open CachedToken

/-- What the field holds at first. -/
def CachedToken.nil : CachedToken → Token
  | corLibAssemblyRef | profilerAssemblyRef => mdAssemblyRefNil
  | getTypeFromHandleToken => mdTokenNil
  | callTargetStateTypeGetDefault => mdMemberRefNil
  | _ => mdTypeRefNil

/-- The fields of `CallTargetTokens`. -/
abbrev CallTargetTokens := CachedToken → Token

/-- Why a function does not come to its end: it returns a failure, or it writes behind the
end of its buffer. -/
inductive Stop
  | failed (hr : HRESULT)
  | undefined
  deriving DecidableEq

abbrev M := Throwing Stop CallTargetTokens

def ofResult {α : Type} : Except HRESULT α → M α
  | .ok a => pure a
  | .error hr => throw (.failed hr)

/-- Define a token if it is not there yet. -/
def ensure (field : CachedToken) (define : CallTargetTokens → Except HRESULT DefinedToken) :
    M Unit := do
  let tokens ← get
  if tokens field = field.nil then do
    let token ← ofResult (define tokens)
    modify fun tokens => Function.update tokens field token
  else pure ()

variable (metadata : ModuleMetadata)

/-- `DefineTypeRefByName`, in the scope that an assembly reference is. -/
def typeRefIn (scope : CachedToken) (name : String) (tokens : CallTargetTokens) :
    Except HRESULT DefinedToken :=
  metadata.defineTypeRefByName (tokens scope) name

def ensureCorLibTokens : M Unit := do
  ensure corLibAssemblyRef fun _ => metadata.defineCorLibAssemblyRef
  ensure objectTypeRef (typeRefIn metadata corLibAssemblyRef "System.Object")
  ensure exTypeRef (typeRefIn metadata corLibAssemblyRef "System.Exception")
  ensure typeRef (typeRefIn metadata corLibAssemblyRef "System.Type")
  ensure runtimeTypeHandleRef (typeRefIn metadata corLibAssemblyRef "System.RuntimeTypeHandle")
  ensure getTypeFromHandleToken fun tokens =>
    metadata.defineMemberRef (tokens typeRef) "GetTypeFromHandle"
      ([IMAGE_CEE_CS_CALLCONV_DEFAULT, 0x01, ELEMENT_TYPE_CLASS] ++
        corSigCompressToken (tokens typeRef) ++ [ELEMENT_TYPE_VALUETYPE] ++
        corSigCompressToken (tokens runtimeTypeHandleRef))
  ensure runtimeMethodHandleRef (typeRefIn metadata corLibAssemblyRef "System.RuntimeMethodHandle")

def ensureBaseCalltargetTokens : M Unit := do
  ensureCorLibTokens metadata
  ensure profilerAssemblyRef fun _ => metadata.defineProfilerAssemblyRef
  ensure callTargetTypeRef (typeRefIn metadata profilerAssemblyRef managed_profiler_calltarget_type)
  ensure callTargetStateTypeRef
    (typeRefIn metadata profilerAssemblyRef managed_profiler_calltarget_statetype)
  ensure callTargetStateTypeGetDefault fun tokens =>
    metadata.defineMemberRef (tokens callTargetStateTypeRef)
      managed_profiler_calltarget_statetype_getdefault_name
      ([IMAGE_CEE_CS_CALLCONV_DEFAULT, 0x00, ELEMENT_TYPE_VALUETYPE] ++
        corSigCompressToken (tokens callTargetStateTypeRef))

/-- `if (FAILED(hr)) return nil`, for all of a function. -/
def orNil (nil : Token) (token : M Token) : M Token :=
  tryCatch token fun
    | .failed _ => pure nil
    | .undefined => throw .undefined

def getTargetVoidReturnTypeRef : M Token := orNil mdTypeRefNil do
  ensureBaseCalltargetTokens metadata
  ensure callTargetReturnVoidTypeRef
    (typeRefIn metadata profilerAssemblyRef managed_profiler_calltarget_returntype)
  return (← get) callTargetReturnVoidTypeRef

/-- `CallTargetReturn<T>` for the type whose signature is `ret`. -/
def callTargetReturnSignature (tokens : CallTargetTokens) (ret : List UInt8) : List UInt8 :=
  ELEMENT_TYPE_GENERICINST :: ELEMENT_TYPE_VALUETYPE ::
    (corSigCompressToken (tokens callTargetReturnTypeRef) ++ ([0x01] ++ ret))

def getTargetReturnValueTypeRef (ret : List UInt8) : M Token := orNil mdTypeSpecNil do
  ensureBaseCalltargetTokens metadata
  ensure callTargetReturnTypeRef
    (typeRefIn metadata profilerAssemblyRef managed_profiler_calltarget_returntype_generics)
  let signature := callTargetReturnSignature (← get) ret
  if signatureBufferSize < signature.length then throw .undefined
  else do
    let token ← ofResult (metadata.getTokenFromTypeSpec signature)
    return token

/-! ## `ModifyLocalSig` -/

/-- The last local is the `CallTargetState`, whose type has the token `state`. The index of
the byte before it is computed in 32 bits. -/
def alreadyModified (originalSignature : ℕ → UInt8) (originalSignatureSize : UInt32)
    (state : List UInt8) : Prop :=
  let len := UInt32.ofNat state.length
  0 < originalSignatureSize - len ∧
    originalSignature (originalSignatureSize - len - 1).toNat = ELEMENT_TYPE_VALUETYPE ∧
    seg originalSignature (originalSignatureSize - len).toNat
      ((originalSignatureSize - len).toNat + state.length) = state

instance (originalSignature : ℕ → UInt8) (originalSignatureSize : UInt32) (state : List UInt8) :
    Decidable (alreadyModified originalSignature originalSignatureSize state) :=
  inferInstanceAs (Decidable (_ ∧ _ ∧ _))

/-- What is written into `newSignatureBuffer`, the size computed for it, and
`newLocalsCount`. -/
structure NewSignature where
  newSignature : List UInt8
  newSignatureSize : UInt32
  newLocalsCount : UInt32

/-- The return type: the compressed token of `CallTargetReturn`, or the signatures of the
type and of its `CallTargetReturn<T>`. -/
inductive ReturnParts
  | void (callTargetReturn : List UInt8)
  | value (returnSignatureType callTargetReturnSignature : List UInt8)
  deriving DecidableEq

def size (bytes : List UInt8) : UInt32 := UInt32.ofNat bytes.length

def ReturnParts.newLocalsCount : ReturnParts → UInt32
  | void _ => 3
  | value _ _ => 4

def ReturnParts.returnSignatureTypeSize : ReturnParts → UInt32
  | void _ => 0
  | value returnSignatureType _ => size returnSignatureType

def ReturnParts.callTargetReturnSizeForNewSignature : ReturnParts → UInt32
  | void callTargetReturn => 1 + size callTargetReturn
  | value _ callTargetReturnSignature => size callTargetReturnSignature

/-- The new locals, in the order they are written. -/
def newLocals (returnParts : ReturnParts) (exTypeRef callTargetStateTypeRef : List UInt8) :
    List (List UInt8) :=
  match returnParts with
  | .void callTargetReturn => [ELEMENT_TYPE_CLASS :: exTypeRef,
      ELEMENT_TYPE_VALUETYPE :: callTargetReturn, ELEMENT_TYPE_VALUETYPE :: callTargetStateTypeRef]
  | .value returnSignatureType callTargetReturnSignature => [returnSignatureType,
      ELEMENT_TYPE_CLASS :: exTypeRef, callTargetReturnSignature,
      ELEMENT_TYPE_VALUETYPE :: callTargetStateTypeRef]

/-- The new signature, if it fits in the buffer. Its size is not measured, but computed. -/
def newSignature (originalSignature : ℕ → UInt8) (originalSignatureSize : UInt32)
    (returnParts : ReturnParts) (exTypeRef callTargetStateTypeRef : List UInt8) :
    Option NewSignature := do
  let newSignatureSize := originalSignatureSize + returnParts.returnSignatureTypeSize +
    (1 + size exTypeRef) + returnParts.callTargetReturnSizeForNewSignature +
    (1 + size callTargetStateTypeRef)
  let added := (newLocals returnParts exTypeRef callTargetStateTypeRef).flatten
  if originalSignatureSize = 0 then do
    let newLocalsCount := returnParts.newLocalsCount
    let newLocalsBuffer ← compress newLocalsCount.toNat
    let newSignature := IMAGE_CEE_CS_CALLCONV_LOCAL_SIG :: (newLocalsBuffer ++ added)
    if signatureBufferSize < newSignature.length then none
    else return { newSignature, newSignatureSize := newSignatureSize + 2, newLocalsCount }
  else do
    let (oldLocals, oldLocalsLen) := corSigUncompressData fun i => originalSignature (1 + i)
    let newLocalsCount := returnParts.newLocalsCount + oldLocals
    let newLocalsBuffer ← compress newLocalsCount.toNat
    let copyLength := originalSignatureSize - 1 - oldLocalsLen
    let previous := seg originalSignature (1 + oldLocalsLen.toNat)
      (1 + oldLocalsLen.toNat + copyLength.toNat)
    let newSignature := IMAGE_CEE_CS_CALLCONV_LOCAL_SIG :: (newLocalsBuffer ++ (previous ++ added))
    if signatureBufferSize < newSignature.length then none
    else return {
      newSignature
      newSignatureSize := newSignatureSize + (size newLocalsBuffer - oldLocalsLen)
      newLocalsCount }

structure ModifiedLocalSig extends NewSignature where
  newLocalVarSig : Token
  callTargetStateIndex : UInt32
  exceptionIndex : UInt32
  callTargetReturnIndex : UInt32
  returnValueIndex : UInt32
  callTargetStateToken : Token
  exceptionToken : Token
  callTargetReturnToken : Token

/-- `retTypeFlags == TypeFlagVoid`. -/
def isVoid (ret : List UInt8) : Prop := ret.head? = some ELEMENT_TYPE_VOID

instance (ret : List UInt8) : Decidable (isVoid ret) := inferInstanceAs (Decidable (_ = _))

/-- `callTargetReturn`, and the parts of the return type. -/
def getReturnParts (ret : List UInt8) : M (Token × ReturnParts) := do
  if isVoid ret then do
    let callTargetReturn ← getTargetVoidReturnTypeRef metadata
    return (callTargetReturn, .void (corSigCompressToken callTargetReturn))
  else do
    let callTargetReturn ← getTargetReturnValueTypeRef metadata ret
    match metadata.getTypeSpecFromToken callTargetReturn with
    | .ok callTargetReturnSignature =>
      return (callTargetReturn, .value ret callTargetReturnSignature)
    | .error _ => throw (.failed E_FAIL)

/-- The original signature, empty without one. `outside` are the bytes behind it. -/
def getOriginalSignature (outside : ℕ → UInt8) (localVarSig : Token) :
    M ((ℕ → UInt8) × UInt32) := do
  if localVarSig ≠ mdTokenNil then do
    let signature ← ofResult (metadata.getSigFromToken localVarSig)
    let originalSignature := fun i => signature.1.getD i (outside i)
    let tokens ← get
    if alreadyModified originalSignature (size signature.1)
        (corSigCompressToken (tokens callTargetStateTypeRef)) then throw (.failed E_FAIL)
    else return (originalSignature, size signature.1)
  else return (outside, 0)

def modifyLocalSig (outside : ℕ → UInt8) (localVarSig : Token) (ret : List UInt8) :
    M ModifiedLocalSig := do
  ensureBaseCalltargetTokens metadata
  let (originalSignature, originalSignatureSize) ← getOriginalSignature metadata outside localVarSig
  let tokens ← get
  let (callTargetReturn, returnParts) ← getReturnParts metadata ret
  match newSignature originalSignature originalSignatureSize returnParts
      (corSigCompressToken (tokens exTypeRef))
      (corSigCompressToken (tokens callTargetStateTypeRef)) with
  | none => throw .undefined
  | some new => do
    let newLocalVarSig ← ofResult (metadata.getTokenFromSig new.newSignature new.newSignatureSize)
    let tokens ← get
    return {
      new with
      newLocalVarSig
      callTargetStateToken := tokens callTargetStateTypeRef
      exceptionToken := tokens exTypeRef
      callTargetReturnToken := callTargetReturn
      returnValueIndex := if isVoid ret then -1 else new.newLocalsCount - 4
      exceptionIndex := new.newLocalsCount - 3
      callTargetReturnIndex := new.newLocalsCount - 2
      callTargetStateIndex := new.newLocalsCount - 1 }

end DdTrace.Tokens
