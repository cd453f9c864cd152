import DdTrace.Native.FailedRewrites
import DdTrace.Tokens.MethodSpecs
import DdTrace.Tokens.ModifyLocalSig

/-!
# What `CallTargetTokens` reports

The outcomes of the steps of the callback, from the functions of `CallTargetTokens` one after
the other on the same fields. In a module that has no room for one more signature the callback
goes on without its locals.
-/

namespace DdTrace.Native

open Lib Lib.Throwing Signature Tokens

/-! ## The reports -/

/-- The value that a step returns, and the fields that it leaves. A failure leaves them too;
what is behind an overrun of a buffer is not followed. -/
def observe {α : Type} (m : F α) : StateM Fields (Option α) := fun fields =>
  ((runWith m fields).1.toOption, (runWith m fields).2)

/-- A function that returns a nil token, or the result of a metadata function, if it fails. -/
def observeToken (m : F Tokens.Token) : StateM Fields (Option Tokens.Token) := do
  let token ← observe m
  return token.filter fun token => ridFromToken token ≠ 0 ∧ token < 0x80000000

def LocalSig.ofTokens (localSig : ModifiedLocalSig) (fields : Fields) : LocalSig where
  objectTypeRef := (fields.types .objectTypeRef).toNat
  localVarSig := localSig.newLocalVarSig.toNat
  callTargetStateIndex := localSig.callTargetStateIndex.toNat
  exceptionIndex := localSig.exceptionIndex.toNat
  callTargetReturnIndex := localSig.callTargetReturnIndex.toNat
  returnValueIndex := localSig.returnValueIndex.toNat
  callTargetReturnToken := localSig.callTargetReturnToken.toNat

/-- What the callback is called with, apart from the fields of `CallTargetTokens`. -/
structure Rewriting where
  metadata : MethodMetadata
  wrapperTypeRef : Option Tokens.Token
  profilerAssemblyIsLoaded : Bool
  imported : Option ILRewriter
  exports : Bool
  outside : ℕ → UInt8
  ret : List UInt8
  currentType : TypeInfo
  methodArguments : List (List UInt8)

namespace Rewriting

variable (w : Rewriting)

/-- `integrationTypeRef`, nil without a wrapper. -/
def integrationTypeRef : Tokens.Token := w.wrapperTypeRef.getD mdTypeRefNil

/-- `GetTkLocalVarSig`. -/
def localVarSig : Tokens.Token := UInt32.ofNat (w.imported.elim 0 (·.tkLocalVarSig))

/-- The initial values, where the signature has been modified. -/
def observeDefaults (localSig : Option ModifiedLocalSig) :
    StateM Fields (Option Tokens.Token × Option Tokens.Token) := do
  match localSig with
  | none => return (none, none)
  | some localSig =>
    if isVoid w.ret then do
      let returnDefault ← observeToken (getCallTargetReturnVoidDefaultMemberRef w.metadata)
      return (none, returnDefault)
    else do
      let defaultValue ← observeToken (getCallTargetDefaultValueMethodSpec w.metadata w.ret)
      let returnDefault ← observeToken (getCallTargetReturnValueDefaultMemberRef w.metadata
        localSig.callTargetReturnToken)
      return (defaultValue, returnDefault)

/-- The calls of `EndMethod` and of `GetReturnValue`. -/
def observeEnd (localSig : Option ModifiedLocalSig) :
    StateM Fields (Option Tokens.Token × Option Tokens.Token) := do
  if isVoid w.ret then do
    let endMethod ← observe (writeEndVoidReturnMemberRef w.metadata w.integrationTypeRef w.currentType)
    return (endMethod, none)
  else do
    let endMethod ← observe (writeEndReturnMemberRef w.metadata w.integrationTypeRef w.currentType
      w.ret)
    let getReturnValue ← observe (writeCallTargetReturnGetReturnValue w.metadata
      (localSig.elim mdTokenNil (·.callTargetReturnToken)))
    return (endMethod, getReturnValue)

def observeLogException : StateM Fields (Option Tokens.Token) :=
  observe (writeLogException w.metadata w.integrationTypeRef w.currentType)

/-- The steps in the order of the callback. -/
def outcomes : StateM Fields Outcomes := do
  let localSig ← observe (onTypes (modifyLocalSig w.metadata.toModuleMetadata w.outside
    w.localVarSig w.ret))
  let modified ← get
  let objectTypeRef := modified.types .objectTypeRef
  let (defaultValue, returnDefault) ← w.observeDefaults localSig
  let beginMethod ← observe (writeBeginMethod w.metadata w.integrationTypeRef w.currentType
    w.methodArguments)
  let begun ← get
  let beginLogException ← w.observeLogException
  let (endMethod, getReturnValue) ← w.observeEnd localSig
  let endLogException ← w.observeLogException
  return {
    wrapperTypeRef := w.wrapperTypeRef.map (·.toNat)
    profilerAssemblyIsLoaded := w.profilerAssemblyIsLoaded
    imported := w.imported
    localSig := localSig.map fun localSig => .ofTokens localSig modified
    objectTypeRefLeft := if objectTypeRef = mdTypeRefNil then none else some objectTypeRef.toNat
    defaultValue := defaultValue.map (·.toNat)
    returnDefault := returnDefault.map (·.toNat)
    beginMethod := beginMethod.map (·.toNat)
    exTypeRef := (begun.types .exTypeRef).toNat
    beginLogException := beginLogException.map (·.toNat)
    endMethod := endMethod.map (·.toNat)
    getReturnValue := getReturnValue.map (·.toNat)
    endLogException := endLogException.map (·.toNat)
    exports := w.exports }

end Rewriting

/-! ## A failure that goes unnoticed -/

open ILInstr

/-- A module where the new signature cannot be defined, and everything else can. -/
def noSignature : MethodMetadata where
  toModuleMetadata := {
    oneLocal (baseNames ++ [managed_profiler_calltarget_returntype]) with
    getTokenFromSig := fun _ _ => .error Tokens.E_FAIL }
  defineMethodSpec _ _ := definedToken 0x2B000001

/-- `static void M()` in a class, without a local. -/
def emptyMethod : FunctionInfo where
  isStatic := true
  isVoid := true
  valueType := false
  isGeneric := false
  typeId := 0x02000002
  typeSpec := none
  arguments := []
  numLocals := 0

/-- A body of one `RET`. -/
def returnOnly : ILRewriter where
  tkLocalVarSig := 0x11000001
  maxStack := 8
  flags := 0
  generateTinyHeader := false
  il := [1]
  instr := fun _ => ret
  eh := []
  nInstrs := 1

def noSignatureRewriting : Rewriting where
  metadata := noSignature
  wrapperTypeRef := some 0x01000020
  profilerAssemblyIsLoaded := true
  imported := some returnOnly
  exports := true
  outside := fun _ => 0
  ret := [ELEMENT_TYPE_VOID]
  currentType := .mk 0x02000002 mdTypeSpecNil false false none
  methodArguments := []

/-- The signature of the locals cannot be changed, and a body is exported that uses them. -/
theorem failed_rewrite_exported : ¬ (noSignatureRewriting.outcomes .initial).1.ChangesNothing
    emptyMethod (fun _ => 0) := by
  intro h
  have himported : (noSignatureRewriting.outcomes .initial).1.imported.isSome := by decide +kernel
  have hlocalSig : (noSignatureRewriting.outcomes .initial).1.localSig.isNone := by decide +kernel
  have hbegin : (noSignatureRewriting.outcomes .initial).1.beginMethod.isSome := by decide +kernel
  have hunset := (@Outcomes.unset_callback _ emptyMethod fun _ => 0).2 ⟨by decide +kernel,
    Option.ne_none_iff_isSome.2 himported, .inr ⟨by decide +kernel, .inr ⟨nofun, .inr ⟨
      Option.ne_none_iff_isSome.2 hbegin, .inl (Option.isNone_iff_eq_none.1 hlocalSig)⟩⟩⟩⟩
  exact (h (Outcomes.failure_of_unset hunset)).2 hunset

end DdTrace.Native
