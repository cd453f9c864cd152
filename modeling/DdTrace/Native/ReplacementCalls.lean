import DdTrace.Native.CallTarget
import DdTrace.SignatureTypes.TryParse

/-!
# Replacing calls

`ProcessReplacementCalls` goes through a method body once for each replacement and redirects the
calls of its target to its wrapper. The call becomes a `NOP` where it stands, so that jumps to it
stay good, and all that is new comes behind it: the boxing of the last argument, the three
arguments that every wrapper takes, the call of the wrapper and the unboxing of what it returns.
-/

namespace DdTrace.Native

open Signature (ELEMENT_TYPE_OBJECT IMAGE_CEE_CS_CALLCONV_GENERIC)
open SignatureTypes (numberOfArguments numberOfTypeArguments callingConvention)

def IMAGE_CEE_CS_CALLCONV_HASTHIS : UInt8 := 0x20

/-! ## What is asked -/

/-- The `FunctionInfo` of what a call is to. The signatures are their bytes. -/
structure TargetFunction where
  id : Token
  name : String
  typeName : String
  isGeneric : Bool
  signature : List UInt8
  functionSpecSignature : List UInt8
  methodDefId : Token

def TargetFunction.isValid (target : TargetFunction) : Bool := target.id ≠ 0

/-- A target method with its wrapper. -/
structure MethodReplacement where
  targetTypeName : String
  targetMethodName : String
  targetSignatureTypes : List String
  wrapperAction : String
  /-- `wrapper_method.get_method_cache_key()` -/
  wrapperMethodKey : String
  wrapperSignature : List UInt8

/-- The metadata of the module and the state of the profiler. -/
structure CallerModule where
  getFunctionInfo : Token → TargetFunction
  isFailedWrapperMemberKey : String → Bool
  getWrapperMethodRef : MethodReplacement → Option Token
  defineMethodSpec : Token → List UInt8 → Token
  tryParseSignatureTypes : TargetFunction → Option (List String)
  profilerAssemblyIsLoaded : Bool
  isDesktop : Bool
  corlibModuleLoaded : Bool
  inCorlibAppDomain : Bool
  instrumentDomainNeutralAssemblies : Bool
  /-- `&module_metadata->module_version_id` -/
  moduleVersionIdPtr : ℕ
  /-- The tokens to box the last argument with. -/
  boxTokens : TargetFunction → List Token
  returnTypeIsValueTypeOrGeneric : TargetFunction → Option Token

def isInstanceMethod (signature : List UInt8) : Bool :=
  callingConvention signature &&& IMAGE_CEE_CS_CALLCONV_HASTHIS ≠ 0

def returnTypeIsObject (signature : List UInt8) : Bool :=
  if signature.length > 2 ∧ callingConvention signature &&& IMAGE_CEE_CS_CALLCONV_GENERIC ≠ 0 then
    signature.getD 3 0 == ELEMENT_TYPE_OBJECT
  else if signature.length > 1 then signature.getD 2 0 == ELEMENT_TYPE_OBJECT
  else false

/-! ## Which calls are replaced -/

def isCall (op : OPCODE) : Bool := op == CEE_CALL || op == CEE_CALLVIRT

/-- The operand read as `m_Arg32`. -/
def ILInstr.arg32 (i : ILInstr) : Token :=
  match i.operand with
  | .arg bits => bits
  | .target p => p

/-- The opcode, the token and the module version id. -/
def added_parameters_count : ℕ := 3

/-- The subtractions wrap around in the source, to what no count of arguments is. -/
def expectedNumberArgs (mr : MethodReplacement) (target : TargetFunction) : ℤ :=
  numberOfArguments mr.wrapperSignature - added_parameters_count -
    if isInstanceMethod target.signature then 1 else 0

/-- `_` stands for any type. -/
def typesMatch (expected actual : List String) : Bool :=
  expected.length == actual.length &&
    (expected.zip actual).all fun (e, a) => e == "_" || e == a

/-- What a matched call is replaced with. -/
structure Replacement where
  wrapperMethodRef : Token
  methodDefToken : Token
  boxes : List Token
  unbox : Option Token

namespace CallerModule

variable (caller : CallerModule)

/-- The checks on the target of a call, in the order of the source. -/
def matchTarget (mr : MethodReplacement) (target : TargetFunction) : Option Replacement := do
  guard target.isValid
  guard (mr.targetTypeName = target.typeName ∧ mr.targetMethodName = target.name)
  guard (added_parameters_count + 3 ≤ mr.wrapperSignature.length)
  guard (expectedNumberArgs mr target = numberOfArguments target.signature)
  let wrapperMethodRef ← caller.getWrapperMethodRef mr
  guard (target.isGeneric → numberOfTypeArguments target.signature =
    numberOfTypeArguments mr.wrapperSignature)
  let actual ← caller.tryParseSignatureTypes target
  guard (typesMatch mr.targetSignatureTypes actual)
  guard caller.profilerAssemblyIsLoaded
  guard ¬(caller.isDesktop ∧ caller.corlibModuleLoaded ∧ caller.inCorlibAppDomain ∧
    ¬caller.instrumentDomainNeutralAssemblies)
  return {
    wrapperMethodRef :=
      if target.isGeneric then
        caller.defineMethodSpec wrapperMethodRef target.functionSpecSignature
      else wrapperMethodRef
    methodDefToken := if target.isGeneric then target.methodDefId else target.id
    boxes := caller.boxTokens target
    unbox :=
      if returnTypeIsObject mr.wrapperSignature then caller.returnTypeIsValueTypeOrGeneric target
      else none }

/-- The call `i` is replaced, behind the instruction `before`; a constrained virtual call is
not. -/
def replacementFor (mr : MethodReplacement) (before i : ILInstr) : Option Replacement :=
  if isCall i.opcode ∧ ¬(i.opcode = CEE_CALLVIRT ∧ before.opcode = CEE_CONSTRAINED) then
    caller.matchTarget mr (caller.getFunctionInfo i.arg32)
  else none

/-- The replacements that are gone through. -/
def isActive (mr : MethodReplacement) : Bool :=
  mr.wrapperAction == "ReplaceTargetMethod" &&
    !caller.isFailedWrapperMemberKey mr.wrapperMethodKey

end CallerModule

/-! ## The loop -/

namespace ILInstr

def loadInt64 (value : ℕ) : ILInstr := ⟨CEE_LDC_I8, .arg value⟩
def unboxAny (type : Token) : ILInstr := ⟨CEE_UNBOX_ANY, .arg type⟩

/-- The instruction with its opcode changed to `NOP`. -/
def nopped (i : ILInstr) : ILInstr := { i with opcode := CEE_NOP }

end ILInstr

namespace ILRewriter

open ILInstr

/-- Everything new goes behind the call, which is a `NOP` from then on. -/
def replaceCall (r : ILRewriter) (c : Replacement) (moduleVersionIdPtr : ℕ) (pInstr : InstrPtr) :
    ILRewriter :=
  let originalOpcode := (r.instr pInstr).opcode
  let pos := r.next pInstr
  let r := { r with instr := Function.update r.instr pInstr (r.instr pInstr).nopped }
  let r := r.emitAll pos (c.boxes.map box ++ [callMember c.wrapperMethodRef])
  let call := r.prev pos
  let r := r.emitAll call [loadInt32 originalOpcode, loadInt32 c.methodDefToken,
    loadInt64 moduleVersionIdPtr]
  match c.unbox with
  | some typeToken => (r.newILInstr (unboxAny typeToken)).insertAfter call r.newPtr
  | none => r

/-- The loop over the instructions from `pInstr` on. Behind a call that is replaced it goes on
with the next instruction but one. -/
def replaceCallsFrom (caller : CallerModule) (mr : MethodReplacement) :
    ℕ → ILRewriter → InstrPtr → Option ILRewriter
  | 0, _, _ => none
  | fuel + 1, r, pInstr =>
    if pInstr = m_IL then some r
    else
      match caller.replacementFor mr (r.instr (r.prev pInstr)) (r.instr pInstr) with
      | some c =>
        let pos := r.next pInstr
        let r := r.replaceCall c caller.moduleVersionIdPtr pInstr
        replaceCallsFrom caller mr fuel r (r.next pos)
      | none => replaceCallsFrom caller mr fuel r (r.next pInstr)

/-- One round of the outer loop. A body that does not end in a call is gone through once. -/
def replaceCalls (caller : CallerModule) (r : ILRewriter) (mr : MethodReplacement) :
    Option ILRewriter :=
  if caller.isActive mr then replaceCallsFrom caller mr (r.il.length + 1) r (r.next m_IL)
  else some r

def processReplacementCalls (caller : CallerModule) (methodReplacements : List MethodReplacement)
    (r : ILRewriter) : Option ILRewriter :=
  methodReplacements.foldlM (replaceCalls caller) r

end ILRewriter

end DdTrace.Native
