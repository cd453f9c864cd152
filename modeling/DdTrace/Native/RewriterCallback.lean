import DdTrace.Lib.Traced
import DdTrace.Native.CallTarget

/-!
# The rewriter callback, with the results of its steps

`CallTarget_RewriterCallback` from its first line on: what each step reports, which reports are
looked at, and which of its variables are read while no step has set them. The steps are calls
of `CallTargetTokens` and of the rewriter; what they report is in `Outcomes`. Where nothing
fails the body that is exported is that of `ILRewriter.callTargetRewriterCallback`.
-/

namespace DdTrace.Native

open Lib Lib.Traced

/-! ## What happens -/

/-- The steps that can fail. -/
inductive Step
  | getWrapperMethodRef
  | import_
  | modifyLocalSig
  | getCallTargetDefaultValueMethodSpec
  | getCallTargetReturnDefaultMemberRef
  | getTypeTok
  | writeBeginMethod
  | writeBeginLogException
  | writeEndMethod
  | writeCallTargetReturnGetReturnValue
  | writeEndLogException
  | export_
  deriving DecidableEq

/-- The variables and the fields of `CallTargetTokens` that a step sets for the callback. -/
inductive Variable
  | wrapper_type_ref
  | callTargetStateIndex
  | exceptionIndex
  | callTargetReturnIndex
  | returnValueIndex
  | callTargetReturnToken
  | firstInstruction
  | defaultValueMethodSpec
  | callTargetReturnDefault
  | objectTypeRef
  | beginMethodCatchFirstInstr
  | endMethodCatchFirstInstr
  deriving DecidableEq

inductive Event
  | failed (step : Step)
  | used (v : Variable) (isSet : Bool)
  | exported
  deriving DecidableEq

/-- `return S_FALSE` is `stop`. -/
abbrev Callback := Traced Event

/-- A step whose result is not looked at. -/
def attempt {α : Type} (step : Step) (outcome : Option α) : Callback (Option α) :=
  ⟨if outcome.isSome then [] else [.failed step], some outcome⟩

/-- A step whose failure ends the callback. -/
def check {α : Type} (step : Step) (outcome : Option α) : Callback α :=
  ⟨if outcome.isSome then [] else [.failed step], outcome⟩

/-- Read a variable. `unset` is what it holds if no step has set it: `ULONG_MAX`, a nil token,
`nullptr`, or whatever is on the stack. -/
def use (unset : Variable → ℕ) (v : Variable) (value : Option ℕ) : Callback ℕ :=
  ⟨[.used v value.isSome], some (value.getD (unset v))⟩

section Results

variable {α : Type} {step : Step} {outcome : Option α} {unset : Variable → ℕ} {v : Variable}
  {value : Option ℕ}

@[simp] theorem result_attempt : (attempt step outcome).result = some outcome := rfl
@[simp] theorem result_check : (check step outcome).result = outcome := rfl
@[simp] theorem result_use : (use unset v value).result = some (value.getD (unset v)) := rfl

end Results

/-! ## The steps -/

/-- What `ModifyLocalSig` sets; `objectTypeRef` is one of the base tokens, which it defines
first. -/
structure LocalSig where
  objectTypeRef : Token
  localVarSig : Token
  callTargetStateIndex : ℕ
  exceptionIndex : ℕ
  callTargetReturnIndex : ℕ
  returnValueIndex : ℕ
  callTargetReturnToken : Token

/-- What `ModifyLocalSigAndInitialize` sets. -/
structure Locals extends LocalSig where
  firstInstruction : InstrPtr

/-- What each step reports when it is reached, `none` for a failure: the tokens of the calls,
the imported body. `objectTypeRefLeft` is the field of `CallTargetTokens` where `ModifyLocalSig`
fails. `exTypeRef` is there where it is read, since `WriteBeginMethod` has succeeded. -/
structure Outcomes where
  wrapperTypeRef : Option Token
  profilerAssemblyIsLoaded : Bool
  imported : Option ILRewriter
  localSig : Option LocalSig
  objectTypeRefLeft : Option Token
  defaultValue : Option Token
  returnDefault : Option Token
  beginMethod : Option Token
  exTypeRef : Token
  beginLogException : Option Token
  endMethod : Option Token
  getReturnValue : Option Token
  endLogException : Option Token
  exports : Bool

namespace Outcomes

open ILInstr

variable (o : Outcomes) (m : FunctionInfo) (unset : Variable → ℕ)

/-- `GetObjectTypeRef`, behind `ModifyLocalSig`. -/
def objectTypeRef : Option Token :=
  match o.localSig with
  | some localSig => some localSig.objectTypeRef
  | none => o.objectTypeRefLeft

/-- The first locals: the return value, and the `CallTargetReturn`. -/
def initReturn (localSig : LocalSig) : Callback (List ILInstr) :=
  if m.isVoid then do
    let returnDefault ← attempt .getCallTargetReturnDefaultMemberRef o.returnDefault
    let returnDefault ← use unset .callTargetReturnDefault returnDefault
    return [callMember returnDefault, stLocal localSig.callTargetReturnIndex]
  else do
    let defaultValue ← attempt .getCallTargetDefaultValueMethodSpec o.defaultValue
    let defaultValue ← use unset .defaultValueMethodSpec defaultValue
    let returnDefault ← attempt .getCallTargetReturnDefaultMemberRef o.returnDefault
    let returnDefault ← use unset .callTargetReturnDefault returnDefault
    return [callMember defaultValue, stLocal localSig.returnValueIndex, callMember returnDefault,
      stLocal localSig.callTargetReturnIndex]

/-- Nothing is set where `ModifyLocalSig` fails. -/
def modifyLocalSigAndInitialize (r : ILRewriter) (pos : InstrPtr) :
    Callback (ILRewriter × Option Locals) := do
  match ← attempt .modifyLocalSig o.localSig with
  | none => return (r, none)
  | some localSig => do
    let r := r.setTkLocalVarSig localSig.localVarSig
    let firstInstruction := r.newPtr
    let init ← o.initReturn m unset localSig
    return (r.emitAll pos (init ++ [loadNull, stLocal localSig.exceptionIndex]),
      some { localSig with firstInstruction })

/-- `GetTypeTok` is given `corLibAssemblyRef`, which is there if the `objectTypeRef` of the
array is: it is defined before. -/
def loadElement (i : ℕ) (arg : FunctionMethodArgument) : Callback (List ILInstr) :=
  if arg.byRef then stop
  else if arg.boxedType then do
    let tok ← check .getTypeTok arg.typeTok
    return [dup, loadInt32 i, m.loadArgumentAt i, box tok, stElemRef]
  else return [dup, loadInt32 i, m.loadArgumentAt i, stElemRef]

def loadElements (i : ℕ) : List FunctionMethodArgument → Callback (List ILInstr)
  | [] => return []
  | arg :: args => do
    let element ← loadElement m i arg
    let elements ← loadElements (i + 1) args
    return element ++ elements

def loadArguments : Callback (List ILInstr) :=
  if m.arguments.length < FASTPATH_COUNT then
    if m.arguments.any (·.byRef) then stop
    else return (List.range m.arguments.length).map m.loadArgumentAt
  else do
    let objectTypeRef ← use unset .objectTypeRef o.objectTypeRef
    let elements ← loadElements m 0 m.arguments
    return [loadInt32 m.arguments.length, newArr objectTypeRef] ++ elements

/-- `WriteLogException`, whose result is not looked at; its instruction, if there is one. -/
def writeLogException (step : Step) (logException wrapperTypeRef : Option Token)
    (r : ILRewriter) (pos : InstrPtr) : Callback (ILRewriter × Option InstrPtr) := do
  let _ ← use unset .wrapper_type_ref wrapperTypeRef
  match ← attempt step logException with
  | none => return (r, none)
  | some logException => return (r.emit pos (callMember logException), some r.newPtr)

/-- What the part before the method leaves for the rest. -/
structure Begun where
  rewriter : ILRewriter
  locals : Option Locals
  clause : EHClause

def beginMethodPart (wrapperTypeRef : Option Token) (r : ILRewriter) : Callback Begun := do
  let pos := r.next m_IL
  let (r, locals) ← o.modifyLocalSigAndInitialize m unset r pos
  let loadInstance ← orStop m.loadInstance
  let loadArguments ← o.loadArguments m unset
  let r := r.emitAll pos (loadInstance ++ loadArguments)
  let _ ← use unset .wrapper_type_ref wrapperTypeRef
  let beginMethod ← check .writeBeginMethod o.beginMethod
  let callTargetStateIndex ← use unset .callTargetStateIndex (locals.map (·.callTargetStateIndex))
  let r := r.emitAll pos [callMember beginMethod, stLocal callTargetStateIndex]
  let stateLeave := r.newPtr
  let r := r.emit pos leaveS
  let (r, catchFirst) ← writeLogException unset .writeBeginLogException o.beginLogException
    wrapperTypeRef r pos
  let catchLeave := r.newPtr
  let r := r.emit pos leaveS
  let firstInstruction ← use unset .firstInstruction (locals.map (·.firstInstruction))
  let catchFirst ← use unset .beginMethodCatchFirstInstr catchFirst
  let r := (r.setTarget stateLeave pos).setTarget catchLeave pos
  return {
    rewriter := r, locals
    clause := ⟨COR_ILEXCEPTION_CLAUSE_NONE, firstInstruction, catchFirst, catchFirst, catchLeave,
      .arg o.exTypeRef⟩ }

/-- The call of `EndMethod`. Where it, or the call of `GetReturnValue`, cannot be written it is
left out. -/
def endMethodCode (wrapperTypeRef : Option Token) (locals : Option Locals)
    (loadInstance : List ILInstr) : Callback (List ILInstr) := do
  let loadReturnValue ←
    if m.isVoid then pure []
    else do
      let returnValueIndex ← use unset .returnValueIndex (locals.map (·.returnValueIndex))
      pure [loadLocal returnValueIndex]
  let exceptionIndex ← use unset .exceptionIndex (locals.map (·.exceptionIndex))
  let callTargetStateIndex ← use unset .callTargetStateIndex (locals.map (·.callTargetStateIndex))
  let _ ← use unset .wrapper_type_ref wrapperTypeRef
  let endMethod ← attempt .writeEndMethod o.endMethod
  let callTargetReturnIndex ←
    use unset .callTargetReturnIndex (locals.map (·.callTargetReturnIndex))
  let getReturnValue ←
    if m.isVoid then pure []
    else do
      let _ ← use unset .callTargetReturnToken (locals.map (·.callTargetReturnToken))
      let getReturnValue ← attempt .writeCallTargetReturnGetReturnValue o.getReturnValue
      let returnValueIndex ← use unset .returnValueIndex (locals.map (·.returnValueIndex))
      pure (loadLocalAddress callTargetReturnIndex ::
        ((getReturnValue.map callMember).toList ++ [stLocal returnValueIndex]))
  return loadInstance ++ loadReturnValue ++
    (loadLocal exceptionIndex :: loadLocal callTargetStateIndex ::
      ((endMethod.map callMember).toList ++ [stLocal callTargetReturnIndex])) ++ getReturnValue

/-- What the part behind the method leaves for the rest. -/
structure Ended where
  rewriter : ILRewriter
  methodReturn : InstrPtr
  startExceptionCatch : InstrPtr
  rethrow : InstrPtr
  endFinally : InstrPtr
  clause : EHClause

def endMethodPart (wrapperTypeRef : Option Token) (locals : Option Locals) (r : ILRewriter) :
    Callback Ended := do
  let methodReturn := r.newPtr
  let last := r.prev m_IL
  let r := (r.newILInstr ret).insertAfter last methodReturn
  let exceptionIndex ← use unset .exceptionIndex (locals.map (·.exceptionIndex))
  let startExceptionCatch := r.newPtr
  let r := r.emit methodReturn (stLocal exceptionIndex)
  let rethrow := r.newPtr
  let r := r.emit methodReturn ILInstr.rethrow
  let loadInstance ← orStop m.loadInstance
  let tryStart := r.newPtr
  let endCode ← o.endMethodCode m unset wrapperTypeRef locals loadInstance
  let r := r.emitAll methodReturn endCode
  let tryLeave := r.newPtr
  let r := r.emit methodReturn leaveS
  let (r, catchFirst) ← writeLogException unset .writeEndLogException o.endLogException
    wrapperTypeRef r methodReturn
  let catchLeave := r.newPtr
  let r := r.emit methodReturn leaveS
  let catchFirst ← use unset .endMethodCatchFirstInstr catchFirst
  let endFinally := r.newPtr
  let r := r.emit methodReturn ILInstr.endFinally
  let r := (r.setTarget tryLeave endFinally).setTarget catchLeave endFinally
  return {
    rewriter := r
    methodReturn, startExceptionCatch, rethrow, endFinally
    clause := ⟨COR_ILEXCEPTION_CLAUSE_NONE, tryStart, catchFirst, catchFirst, catchLeave,
      .arg o.exTypeRef⟩ }

/-- The load of the return value, and the returns that become `LEAVE_S`. -/
def replaceReturns (locals : Option Locals) (e : Ended) : Callback ILRewriter :=
  if m.isVoid then
    return e.rewriter.replaceReturns m e.methodReturn (e.rewriter.next e.endFinally)
  else do
    let returnValueIndex ← use unset .returnValueIndex (locals.map (·.returnValueIndex))
    let r := e.rewriter.emit e.methodReturn (loadLocal returnValueIndex)
    -- the stores go to the local with this index
    return r.replaceReturns { m with numLocals := returnValueIndex } e.methodReturn
      (r.next e.endFinally)

/-- `Export` hands the new body over, or fails. -/
def export_ (r : ILRewriter) : Callback ILRewriter := do
  if o.exports then do
    log .exported
    return r
  else do
    log (.failed .export_)
    stop

/-- The body that is handed over. -/
def callTargetRewriterCallback : Callback ILRewriter := do
  let wrapperTypeRef ← attempt .getWrapperMethodRef o.wrapperTypeRef
  if o.profilerAssemblyIsLoaded then do
    let r ← check .import_ o.imported
    let b ← o.beginMethodPart m unset wrapperTypeRef r
    let e ← o.endMethodPart m unset wrapperTypeRef b.locals b.rewriter
    let r ← replaceReturns m unset b.locals e
    let firstInstruction ← use unset .firstInstruction (b.locals.map (·.firstInstruction))
    let exClause : EHClause := ⟨COR_ILEXCEPTION_CLAUSE_NONE, firstInstruction,
      e.startExceptionCatch, e.startExceptionCatch, e.rethrow, .arg o.exTypeRef⟩
    let finallyBegin := r.next e.rethrow
    let finallyClause : EHClause := ⟨COR_ILEXCEPTION_CLAUSE_FINALLY, firstInstruction,
      finallyBegin, finallyBegin, e.endFinally, .arg 0⟩
    o.export_ (r.setEHClause (r.eh ++ [b.clause, e.clause, exClause, finallyClause]))
  else stop

/-! ## Without a failure -/

variable {o m unset}

/-- The indices of the locals are those of the signature. -/
structure LocalSig.For (localSig : LocalSig) (m : FunctionInfo) (t : CallTargetTokens) : Prop where
  objectTypeRef : localSig.objectTypeRef = t.objectTypeRef
  localVarSig : localSig.localVarSig = t.localVarSig
  callTargetStateIndex : localSig.callTargetStateIndex = m.callTargetStateIndex
  exceptionIndex : localSig.exceptionIndex = m.exceptionIndex
  callTargetReturnIndex : localSig.callTargetReturnIndex = m.callTargetReturnIndex
  returnValueIndex : m.isVoid = false → localSig.returnValueIndex = m.returnValueIndex

/-- Every step reports what `r`, `m` and `t` have for it. -/
structure Succeeds (o : Outcomes) (m : FunctionInfo) (t : CallTargetTokens) (r : ILRewriter) :
    Prop where
  wrapperTypeRef : o.wrapperTypeRef ≠ none
  profilerAssemblyIsLoaded : o.profilerAssemblyIsLoaded = true
  imported : o.imported = some r
  localSig : ∃ localSig, o.localSig = some localSig ∧ LocalSig.For localSig m t
  defaultValue : m.isVoid = false → o.defaultValue = some t.defaultValue
  returnDefault : o.returnDefault = some t.returnDefault
  beginMethod : o.beginMethod = some t.beginMethod
  exTypeRef : o.exTypeRef = t.exTypeRef
  beginLogException : o.beginLogException = some t.logException
  endMethod : o.endMethod = some t.endMethod
  getReturnValue : m.isVoid = false → o.getReturnValue = some t.getReturnValue
  endLogException : o.endLogException = some t.logException
  exports : o.exports = true

variable {t : CallTargetTokens} {r : ILRewriter}

theorem loadElement_eq (i : ℕ) (arg : FunctionMethodArgument) :
    (loadElement m i arg).result = m.loadElement i arg := by
  unfold loadElement FunctionInfo.loadElement
  split_ifs
  · rfl
  · simp [Option.map_eq_bind, Function.comp_def]
  · rfl

theorem loadElements_eq (i : ℕ) (args : List FunctionMethodArgument) :
    (loadElements m i args).result = m.loadElements i args := by
  induction args generalizing i with
  | nil => rfl
  | cons arg args ih =>
    rw [loadElements, result_bind, loadElement_eq]
    simp only [result_bind, ih]
    rfl

theorem loadArguments_eq (h : o.objectTypeRef = some t.objectTypeRef) :
    (o.loadArguments m unset).result = m.loadArguments t := by
  unfold loadArguments FunctionInfo.loadArguments
  split_ifs
  · rfl
  · rfl
  · rw [result_bind, result_use, h, Option.bind_some, result_bind, loadElements_eq]
    rfl

theorem modifyLocalSigAndInitialize_eq (h : o.Succeeds m t r) {localSig : LocalSig}
    (hsig : o.localSig = some localSig) (hfor : LocalSig.For localSig m t) (pos : InstrPtr) :
    (o.modifyLocalSigAndInitialize m unset r pos).result =
      some ((r.setTkLocalVarSig t.localVarSig).emitAll pos (m.initLocals t),
        some { localSig with firstInstruction := r.newPtr }) := by
  unfold modifyLocalSigAndInitialize initReturn FunctionInfo.initLocals
  rw [result_bind, result_attempt, hsig, Option.bind_some]
  dsimp only
  rw [result_bind, h.returnDefault, hfor.localVarSig, hfor.exceptionIndex, hfor.callTargetReturnIndex]
  cases hvoid : m.isVoid with
  | true => rfl
  | false =>
    rw [h.defaultValue hvoid, hfor.returnValueIndex hvoid]
    rfl

theorem writeLogException_eq {step : Step} {logException : Token} {wrapperTypeRef : Option Token}
    (r : ILRewriter) (pos : InstrPtr) :
    (writeLogException unset step (some logException) wrapperTypeRef r pos).result =
      some (r.emit pos (ILInstr.callMember logException), some r.newPtr) := rfl

theorem beginMethodPart_eq (h : o.Succeeds m t r) {localSig : LocalSig}
    (hsig : o.localSig = some localSig) (hfor : LocalSig.For localSig m t)
    (wrapperTypeRef : Option Token) :
    (o.beginMethodPart m unset wrapperTypeRef r).result = (r.beginMethod m t).map fun b =>
      ⟨b.rewriter, some { localSig with firstInstruction := b.firstInstruction }, b.clause⟩ := by
  have hobject : o.objectTypeRef = some t.objectTypeRef := by
    rw [objectTypeRef, hsig, ← hfor.objectTypeRef]
  unfold beginMethodPart ILRewriter.beginMethod
  dsimp only
  rw [result_bind, modifyLocalSigAndInitialize_eq h hsig hfor, Option.bind_some, result_bind,
    result_orStop]
  cases m.loadInstance with
  | none => rfl
  | some code =>
    rw [Option.bind_some, result_bind, loadArguments_eq hobject]
    cases hargs : m.loadArguments t with
    | none => rfl
    | some arguments =>
      simp only [Option.bind_some, result_bind, result_use, result_check, h.beginMethod,
        h.beginLogException, writeLogException_eq, Option.map_some, Option.getD_some,
        hfor.callTargetStateIndex, h.exTypeRef, ← ILRewriter.emitAll_append, result_pure]
      rfl

theorem endMethodPart_eq (h : o.Succeeds m t r) {locals : Locals}
    (hfor : LocalSig.For locals.toLocalSig m t) (wrapperTypeRef : Option Token) (r' : ILRewriter) :
    (o.endMethodPart m unset wrapperTypeRef (some locals) r').result.map
        (fun e : Ended => ({
          rewriter := if m.isVoid then e.rewriter
            else e.rewriter.emit e.methodReturn (ILInstr.loadLocal m.returnValueIndex)
          methodReturn := e.methodReturn
          startExceptionCatch := e.startExceptionCatch
          rethrow := e.rethrow
          endFinally := e.endFinally
          clause := e.clause } : ILRewriter.EndMethod)) = r'.endMethod m t := by
  unfold endMethodPart ILRewriter.endMethod endMethodCode
  dsimp only
  rw [result_bind, result_use, Option.bind_some, result_bind, result_orStop]
  cases m.loadInstance with
  | none => rfl
  | some code =>
    cases hvoid : m.isVoid with
    | true =>
      simp [h.endMethod, h.endLogException, writeLogException_eq, hfor.exceptionIndex,
        hfor.callTargetStateIndex, hfor.callTargetReturnIndex, h.exTypeRef, FunctionInfo.endCode, hvoid]
    | false =>
      simp [h.endMethod, h.endLogException, writeLogException_eq, hfor.exceptionIndex,
        hfor.callTargetStateIndex, hfor.callTargetReturnIndex, h.exTypeRef, FunctionInfo.endCode,
        hvoid, h.getReturnValue hvoid, hfor.returnValueIndex hvoid]

theorem replaceReturns_eq {locals : Locals} (hfor : LocalSig.For locals.toLocalSig m t) (e : Ended) :
    (replaceReturns m unset (some locals) e).result =
      let r := if m.isVoid then e.rewriter
        else e.rewriter.emit e.methodReturn (ILInstr.loadLocal m.returnValueIndex)
      some (r.replaceReturns m e.methodReturn (r.next e.endFinally)) := by
  unfold replaceReturns
  by_cases hvoid : m.isVoid
  · simp only [if_pos hvoid]
    rfl
  · have hfalse : m.isVoid = false := by simpa using hvoid
    simp only [if_neg hvoid, result_bind, result_use, Option.map_some, Option.bind_some,
      Option.getD_some, result_pure, hfor.returnValueIndex hfalse]
    rfl

/-- Where no step fails, the body that is handed over is the rewritten one. -/
theorem callback_eq (h : o.Succeeds m t r) :
    (o.callTargetRewriterCallback m unset).result = r.callTargetRewriterCallback m t := by
  obtain ⟨localSig, hsig, hfor⟩ := h.localSig
  unfold callTargetRewriterCallback ILRewriter.callTargetRewriterCallback
  rw [result_bind, result_attempt, Option.bind_some, if_pos h.profilerAssemblyIsLoaded, result_bind,
    result_check, h.imported, Option.bind_some, result_bind, beginMethodPart_eq h hsig hfor]
  cases hbegin : r.beginMethod m t with
  | none => rfl
  | some b =>
    rw [Option.map_some, Option.bind_some]
    have hend := @endMethodPart_eq o m unset t r h
      { localSig with firstInstruction := b.firstInstruction } hfor o.wrapperTypeRef b.rewriter
    dsimp only
    rw [result_bind]
    show _ = (b.rewriter.endMethod m t).bind _
    rw [← hend]
    cases (o.endMethodPart m unset o.wrapperTypeRef
      (some { localSig with firstInstruction := b.firstInstruction }) b.rewriter).result with
    | none => rfl
    | some e =>
      rw [Option.bind_some, result_bind, replaceReturns_eq hfor, Option.map_some]
      dsimp only
      simp only [Option.bind_some, result_bind, result_use, export_, if_pos h.exports, h.exTypeRef,
        result_log, result_pure, Option.map_some, Option.getD_some]
      rfl

end Outcomes

end DdTrace.Native
