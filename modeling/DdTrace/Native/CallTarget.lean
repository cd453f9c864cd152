import DdTrace.Native.ILRewriter

/-!
# The CallTarget rewriter

`CallTarget_RewriterCallback` on an imported method body, up to `Export`: the code before
the method, the return that is the only one left, the catch and the finally around the
method, the `RET`s that become `LEAVE_S`, and the four exception clauses.
-/

namespace DdTrace.Native

/-! ## The instructions that `ILRewriterWrapper` emits -/

namespace ILInstr

def loadNull : ILInstr := ⟨CEE_LDNULL, .arg 0⟩

/-- `LoadInt32` of an array size or index. -/
def loadInt32 (value : ℕ) : ILInstr :=
  if value ≤ 8 then ⟨CEE_LDC_I4_0 + value, .arg 0⟩
  else if value ≤ 127 then ⟨CEE_LDC_I4_S, .arg value⟩
  else ⟨CEE_LDC_I4, .arg value⟩

def loadArgument (index : ℕ) : ILInstr :=
  if index ≤ 3 then ⟨CEE_LDARG_0 + index, .arg 0⟩
  else if index ≤ 255 then ⟨CEE_LDARG_S, .arg index⟩
  else ⟨CEE_LDARG, .arg (index % 2 ^ 16)⟩

def stLocal (index : ℕ) : ILInstr :=
  if index ≤ 3 then ⟨CEE_STLOC_0 + index, .arg 0⟩
  else if index ≤ 255 then ⟨CEE_STLOC_S, .arg index⟩
  else ⟨CEE_STLOC, .arg (index % 2 ^ 16)⟩

def loadLocal (index : ℕ) : ILInstr :=
  if index ≤ 3 then ⟨CEE_LDLOC_0 + index, .arg 0⟩
  else if index ≤ 255 then ⟨CEE_LDLOC_S, .arg index⟩
  else ⟨CEE_LDLOC, .arg (index % 2 ^ 16)⟩

def loadLocalAddress (index : ℕ) : ILInstr :=
  if index ≤ 255 then ⟨CEE_LDLOCA_S, .arg index⟩ else ⟨CEE_LDLOCA, .arg (index % 2 ^ 16)⟩

/-- `CallMember`, not virtual. -/
def callMember (member : Token) : ILInstr := ⟨CEE_CALL, .arg member⟩
def loadObj (token : Token) : ILInstr := ⟨CEE_LDOBJ, .arg token⟩
def box (type : Token) : ILInstr := ⟨CEE_BOX, .arg type⟩
def newArr (type : Token) : ILInstr := ⟨CEE_NEWARR, .arg type⟩
def dup : ILInstr := ⟨CEE_DUP, .arg 0⟩
def stElemRef : ILInstr := ⟨CEE_STELEM_REF, .arg 0⟩
def rethrow : ILInstr := ⟨CEE_RETHROW, .arg 0⟩
def endFinally : ILInstr := ⟨CEE_ENDFINALLY, .arg 0⟩
def ret : ILInstr := ⟨CEE_RET, .arg 0⟩
/-- `CreateInstr(CEE_LEAVE_S)`; its target is set later. -/
def leaveS : ILInstr := ⟨CEE_LEAVE_S, .arg 0⟩

end ILInstr

/-! ## The method -/

/-- `typeTok` is the token to box the argument with, `none` for `mdTokenNil`. -/
structure FunctionMethodArgument where
  byRef : Bool
  boxedType : Bool
  typeTok : Option Token

/-- What the callback reads of `FunctionInfo`. `numLocals` counts the locals of the
original signature. -/
structure FunctionInfo where
  isStatic : Bool
  isVoid : Bool
  valueType : Bool
  isGeneric : Bool
  typeId : Token
  typeSpec : Option Token
  arguments : List FunctionMethodArgument
  numLocals : ℕ

/-- The tokens that `CallTargetTokens` defines for the method. -/
structure CallTargetTokens where
  localVarSig : Token
  objectTypeRef : Token
  exTypeRef : Token
  /-- `CallTargetInvoker.GetDefaultValue<TReturn>`. -/
  defaultValue : Token
  /-- `CallTargetReturn.GetDefault` or `CallTargetReturn<TReturn>.GetDefault`. -/
  returnDefault : Token
  beginMethod : Token
  endMethod : Token
  logException : Token
  getReturnValue : Token

def FASTPATH_COUNT : ℕ := 9

namespace FunctionInfo

open ILInstr

variable (m : FunctionInfo) (t : CallTargetTokens)

/-! The locals that `ModifyLocalSig` adds. -/

def returnValueIndex : ℕ := m.numLocals
def exceptionIndex : ℕ := m.numLocals + if m.isVoid then 0 else 1
def callTargetReturnIndex : ℕ := m.exceptionIndex + 1
def callTargetStateIndex : ℕ := m.exceptionIndex + 2

/-- The code of `ModifyLocalSigAndInitialize`. -/
def initLocals : List ILInstr :=
  (if m.isVoid then [] else [callMember t.defaultValue, stLocal m.returnValueIndex]) ++
  [callMember t.returnDefault, stLocal m.callTargetReturnIndex,
    loadNull, stLocal m.exceptionIndex]

def loadInstance : Option (List ILInstr) :=
  if m.isStatic then
    if m.valueType then none else some [loadNull]
  else if m.valueType then
    match m.typeSpec with
    | some typeSpec => some [loadArgument 0, loadObj typeSpec]
    | none => if m.isGeneric then none else some [loadArgument 0, loadObj m.typeId]
  else some [loadArgument 0]

def loadArgumentAt (i : ℕ) : ILInstr := loadArgument (i + if m.isStatic then 0 else 1)

/-- An argument of the slow path, as an element of the array. -/
def loadElement (i : ℕ) (arg : FunctionMethodArgument) : Option (List ILInstr) :=
  if arg.byRef then none
  else if arg.boxedType then
    arg.typeTok.map fun tok => [dup, loadInt32 i, m.loadArgumentAt i, box tok, stElemRef]
  else some [dup, loadInt32 i, m.loadArgumentAt i, stElemRef]

def loadElements (i : ℕ) : List FunctionMethodArgument → Option (List ILInstr)
  | [] => some []
  | arg :: args => do
    let element ← m.loadElement i arg
    let elements ← loadElements (i + 1) args
    return element ++ elements

def loadArguments : Option (List ILInstr) :=
  if m.arguments.length < FASTPATH_COUNT then
    if m.arguments.any (·.byRef) then none
    else some ((List.range m.arguments.length).map m.loadArgumentAt)
  else do
    let elements ← m.loadElements 0 m.arguments
    return [loadInt32 m.arguments.length, newArr t.objectTypeRef] ++ elements

/-- The code up to the store of the `CallTargetState`. -/
def beginCode (loadInstance loadArguments : List ILInstr) : List ILInstr :=
  m.initLocals t ++ (loadInstance ++ loadArguments) ++
    [callMember t.beginMethod, stLocal m.callTargetStateIndex]

/-- The call of `EndMethod`, and what is done with what it returns. -/
def endCode (loadInstance : List ILInstr) : List ILInstr :=
  loadInstance ++
  (if m.isVoid then [] else [loadLocal m.returnValueIndex]) ++
  [loadLocal m.exceptionIndex, loadLocal m.callTargetStateIndex,
    callMember t.endMethod, stLocal m.callTargetReturnIndex] ++
  if m.isVoid then []
  else [loadLocalAddress m.callTargetReturnIndex, callMember t.getReturnValue,
    stLocal m.returnValueIndex]

end FunctionInfo

/-! ## The callback -/

namespace ILRewriter

open ILInstr

/-- What the first part leaves for the rest: `firstInstruction` and `beginMethodExClause`. -/
structure BeginMethod where
  rewriter : ILRewriter
  firstInstruction : InstrPtr
  clause : EHClause

/-- The code before the method body. -/
def beginMethod (r : ILRewriter) (m : FunctionInfo) (t : CallTargetTokens) :
    Option BeginMethod := do
  let loadInstance ← m.loadInstance
  let loadArguments ← m.loadArguments t
  let pos := r.next m_IL
  let firstInstruction := r.newPtr
  let r := r.setTkLocalVarSig t.localVarSig
  let r := r.emitAll pos (m.beginCode t loadInstance loadArguments)
  let stateLeave := r.newPtr
  let r := r.emit pos leaveS
  let catchFirst := r.newPtr
  let r := r.emit pos (callMember t.logException)
  let catchLeave := r.newPtr
  let r := r.emit pos leaveS
  let r := (r.setTarget stateLeave pos).setTarget catchLeave pos
  return {
    rewriter := r
    firstInstruction
    clause := ⟨COR_ILEXCEPTION_CLAUSE_NONE, firstInstruction, catchFirst, catchFirst,
      catchLeave, .arg t.exTypeRef⟩ }

/-- What the second part leaves for the rest. -/
structure EndMethod where
  rewriter : ILRewriter
  methodReturn : InstrPtr
  startExceptionCatch : InstrPtr
  rethrow : InstrPtr
  endFinally : InstrPtr
  clause : EHClause

/-- The code after the method body. -/
def endMethod (r : ILRewriter) (m : FunctionInfo) (t : CallTargetTokens) :
    Option EndMethod := do
  let methodReturn := r.newPtr
  let last := r.prev m_IL
  let r := (r.newILInstr ret).insertAfter last methodReturn
  let startExceptionCatch := r.newPtr
  let r := r.emit methodReturn (stLocal m.exceptionIndex)
  let rethrow := r.newPtr
  let r := r.emit methodReturn ILInstr.rethrow
  let loadInstance ← m.loadInstance
  let tryStart := r.newPtr
  let r := r.emitAll methodReturn (m.endCode t loadInstance)
  let tryLeave := r.newPtr
  let r := r.emit methodReturn leaveS
  let catchFirst := r.newPtr
  let r := r.emit methodReturn (callMember t.logException)
  let catchLeave := r.newPtr
  let r := r.emit methodReturn leaveS
  let endFinally := r.newPtr
  let r := r.emit methodReturn ILInstr.endFinally
  let r := (r.setTarget tryLeave endFinally).setTarget catchLeave endFinally
  let r := if m.isVoid then r else r.emit methodReturn (loadLocal m.returnValueIndex)
  return {
    rewriter := r
    methodReturn, startExceptionCatch, rethrow, endFinally
    clause := ⟨COR_ILEXCEPTION_CLAUSE_NONE, tryStart, catchFirst, catchFirst, catchLeave,
      .arg t.exTypeRef⟩ }

/-- The body of the loop that "changes all returns to a LEAVE.S": the store goes before the
`RET`, which is edited in place. -/
def replaceReturn (m : FunctionInfo) (methodReturn target : InstrPtr) (r : ILRewriter)
    (p : InstrPtr) : ILRewriter :=
  if (r.instr p).opcode = CEE_RET ∧ p ≠ methodReturn then
    let r := if m.isVoid then r else r.emit p (stLocal m.returnValueIndex)
    { r with instr := Function.update r.instr p ⟨CEE_LEAVE_S, .target target⟩ }
  else r

/-- The loop does not see what it inserts before the instruction it is at. -/
def replaceReturns (r : ILRewriter) (m : FunctionInfo) (methodReturn target : InstrPtr) :
    ILRewriter :=
  r.il.foldl (replaceReturn m methodReturn target) r

def callTargetRewriterCallback (r : ILRewriter) (m : FunctionInfo) (t : CallTargetTokens) :
    Option ILRewriter := do
  let b ← r.beginMethod m t
  let e ← b.rewriter.endMethod m t
  let r := e.rewriter
  let r := r.replaceReturns m e.methodReturn (r.next e.endFinally)
  let exClause : EHClause := ⟨COR_ILEXCEPTION_CLAUSE_NONE, b.firstInstruction,
    e.startExceptionCatch, e.startExceptionCatch, e.rethrow, .arg t.exTypeRef⟩
  let finallyBegin := r.next e.rethrow
  let finallyClause : EHClause := ⟨COR_ILEXCEPTION_CLAUSE_FINALLY, b.firstInstruction,
    finallyBegin, finallyBegin, e.endFinally, .arg 0⟩
  return r.setEHClause (r.eh ++ [b.clause, e.clause, exClause, finallyClause])

end ILRewriter

end DdTrace.Native
