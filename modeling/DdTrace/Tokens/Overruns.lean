import DdTrace.Tokens.Buffers
import Mathlib.Tactic.FinCases

/-!
# When a signature buffer is overrun

The calls that instrument a method, on the tokens that earlier calls left. A module with
thousands of type references (`wide`) has tokens of four bytes, and there every method that
does not fit is written behind a buffer, or looked at before the start of its signature.
-/

namespace DdTrace.Tokens

open Lib Lib.Throwing Signature CachedToken CachedMember
open Native (FASTPATH_COUNT)

/-! ## Runs -/

/-- A call of a public function of `CallTargetTokens`. -/
inductive Call
  | modifyLocalSigAndInitialize (outside : ℕ → UInt8) (localVarSig : Token) (ret : List UInt8)
  | writeBeginMethod (integrationTypeRef : Token) (currentType : TypeInfo)
    (methodArguments : List (List UInt8))
  | writeEndVoidReturnMemberRef (integrationTypeRef : Token) (currentType : TypeInfo)
  | writeEndReturnMemberRef (integrationTypeRef : Token) (currentType : TypeInfo) (ret : List UInt8)
  | writeLogException (integrationTypeRef : Token) (currentType : TypeInfo)
  | writeCallTargetReturnGetReturnValue (callTargetReturnTypeSpec : Token)

def Call.run (metadata : MethodMetadata) : Call → F Unit
  | modifyLocalSigAndInitialize outside localVarSig ret => do
    let _ ← Tokens.modifyLocalSigAndInitialize metadata outside localVarSig ret
  | writeBeginMethod integrationTypeRef currentType methodArguments => do
    let _ ← Tokens.writeBeginMethod metadata integrationTypeRef currentType methodArguments
  | writeEndVoidReturnMemberRef integrationTypeRef currentType => do
    let _ ← Tokens.writeEndVoidReturnMemberRef metadata integrationTypeRef currentType
  | writeEndReturnMemberRef integrationTypeRef currentType ret => do
    let _ ← Tokens.writeEndReturnMemberRef metadata integrationTypeRef currentType ret
  | writeLogException integrationTypeRef currentType => do
    let _ ← Tokens.writeLogException metadata integrationTypeRef currentType
  | writeCallTargetReturnGetReturnValue callTargetReturnTypeSpec => do
    let _ ← Tokens.writeCallTargetReturnGetReturnValue metadata callTargetReturnTypeSpec

/-- The fields after some calls, from what the constructor leaves. -/
inductive Reachable (metadata : MethodMetadata) : Fields → Prop
  | initial : Reachable metadata .initial
  | call {fields : Fields} (call : Call) : Reachable metadata fields →
    Reachable metadata (runWith (call.run metadata) fields).2

namespace MethodSignatures

variable (m : MethodSignatures)

/-- The calls that instrument the method. -/
def IsCall (metadata : MethodMetadata) : Call → Prop
  | .modifyLocalSigAndInitialize _ localVarSig ret =>
    m.HasLocalVarSig metadata.toModuleMetadata localVarSig ∧ ret = m.ret
  | .writeBeginMethod _ _ methodArguments => methodArguments = m.arguments
  | .writeEndReturnMemberRef _ _ ret => ret = m.ret
  | _ => True

/-- In no module and after no earlier calls is anything written behind a buffer. -/
def NeverOverruns : Prop :=
  ∀ (metadata : MethodMetadata) (fields : Fields), metadata.Lawful → Reachable metadata fields →
    ∀ call, m.IsCall metadata call → (runWith (call.run metadata) fields).1 ≠ .error .undefined

/-- The check for a rewritten signature reads in the original signature only. -/
def ReadsInside : Prop :=
  ∀ (metadata : MethodMetadata) (fields : Fields), metadata.Lawful → Reachable metadata fields →
    ∀ (tokens : CallTargetTokens) (localVarSig : Token) (blob : Blob) (outside : ℕ → UInt8),
      runWith (ensureBaseCalltargetTokens metadata.toModuleMetadata) fields.types =
        (.ok (), tokens) →
      m.HasLocalVarSig metadata.toModuleMetadata localVarSig → blob ∈ m.localVarSig →
      ∀ i ∈ lookBackReads (fun i => blob.1.getD i (outside i)) (size blob)
        (corSigCompressToken (tokens callTargetStateTypeRef)), i < blob.1.length

variable {m}

theorem Fits.neverOverruns (h : m.Fits) : m.NeverOverruns := by
  intro metadata fields hlaw _ call hcall
  have hrun : WritesInside (call.run metadata) := by
    cases call with
    | modifyLocalSigAndInitialize outside localVarSig ret =>
      obtain ⟨hsig, rfl⟩ := hcall
      exact .bind (writesInside_modifyLocalSigAndInitialize hlaw h hsig) fun _ => .pure ()
    | writeBeginMethod integrationTypeRef currentType methodArguments =>
      obtain rfl := hcall
      exact .bind (writesInside_writeBeginMethod h.arguments) fun _ => .pure ()
    | writeEndVoidReturnMemberRef integrationTypeRef currentType =>
      exact .bind writesInside_writeEndVoidReturnMemberRef fun _ => .pure ()
    | writeEndReturnMemberRef integrationTypeRef currentType ret =>
      obtain rfl := hcall
      exact .bind (writesInside_writeEndReturnMemberRef hlaw h.ret_le) fun _ => .pure ()
    | writeLogException integrationTypeRef currentType =>
      exact .bind writesInside_writeLogException fun _ => .pure ()
    | writeCallTargetReturnGetReturnValue callTargetReturnTypeSpec =>
      exact .bind writesInside_writeCallTargetReturnGetReturnValue fun _ => .pure ()
  exact (hrun fields).1

theorem length_corSigCompressToken_pos (tk : Token) : 0 < (corSigCompressToken tk).length := by
  rw [length_corSigCompressToken, compressedLength]
  split_ifs <;> omega

theorem Fits.readsInside (h : m.Fits) : m.ReadsInside := by
  intro metadata fields _ _ tokens localVarSig blob outside _ _ hblob
  refine (lookBackReads_inside_iff blob.2 (length_corSigCompressToken_pos _)
    (length_corSigCompressToken_le _)).2 ?_
  exact (length_corSigCompressToken_le _).trans (h.original blob hblob)

end MethodSignatures

/-! ## A module with many type references -/

/-- The token of the first type reference that the profiler adds. -/
def firstTypeRef (later : Bool) : Token := if later then 0x01001001 else 0x01001000

def wideToken (later : Bool) : CallTargetTokens
  | corLibAssemblyRef => 0x23000001
  | objectTypeRef => firstTypeRef later
  | exTypeRef => firstTypeRef later + 1
  | typeRef => firstTypeRef later + 2
  | runtimeTypeHandleRef => firstTypeRef later + 3
  | getTypeFromHandleToken => 0x0A001000
  | runtimeMethodHandleRef => firstTypeRef later + 4
  | profilerAssemblyRef => 0x23000002
  | callTargetTypeRef => firstTypeRef later + 5
  | callTargetStateTypeRef => firstTypeRef later + 6
  | callTargetStateTypeGetDefault => 0x0A001000
  | callTargetReturnVoidTypeRef => firstTypeRef later + 7
  | callTargetReturnTypeRef => firstTypeRef later + 8

def wideNames : List String :=
  baseNames ++ [managed_profiler_calltarget_returntype, managed_profiler_calltarget_returntype_generics]

/-- A module with `m` and thousands of type references. -/
def wide (m : MethodSignatures) (later : Bool) : MethodMetadata where
  defineCorLibAssemblyRef := definedToken 0x23000001
  defineProfilerAssemblyRef := definedToken 0x23000002
  defineTypeRefByName _ name := definedToken (firstTypeRef later + UInt32.ofNat (wideNames.idxOf name))
  defineMemberRef _ _ _ := definedToken 0x0A001000
  getTokenFromTypeSpec signature :=
    if signature = callTargetReturnSignature (wideToken later) m.ret then definedToken 0x1B000001
    else .error E_FAIL
  getTypeSpecFromToken token :=
    if token = 0x1B000001 then .ok (callTargetReturnSignature (wideToken later) m.ret)
    else .error E_FAIL
  getSigFromToken token :=
    match m.localVarSig with
    | some blob => if token = 0x11000001 then .ok blob else .error E_FAIL
    | none => .error E_FAIL
  getTokenFromSig _ _ := definedToken 0x11000002
  defineMethodSpec _ _ := definedToken 0x2B000001

section Wide

variable {m : MethodSignatures} {later : Bool}

theorem lawful_wide : (wide m later).Lawful where
  getTypeSpec {signature token} h := by
    simp only [wide] at h ⊢
    split at h
    · obtain rfl := ‹signature = _›
      obtain rfl : (⟨0x1B000001, by decide⟩ : DefinedToken) = token := Except.ok.inj h
      rfl
    · cases h
  getTypeSpec_nil signature h := by cases h

theorem length_wideToken (field : CachedToken) (h : field ∈ [objectTypeRef, exTypeRef,
    callTargetStateTypeRef, callTargetReturnVoidTypeRef, callTargetReturnTypeRef]) :
    (corSigCompressToken (wideToken later field)).length = 4 := by
  simp only [List.mem_cons, List.not_mem_nil, or_false] at h
  rcases h with rfl | rfl | rfl | rfl | rfl
  all_goals cases later <;> decide

/-- The base tokens, as the first call defines them. -/
def wideBase (later : Bool) : CallTargetTokens := fun field =>
  if field = callTargetReturnVoidTypeRef ∨ field = callTargetReturnTypeRef then field.nil
  else wideToken later field

theorem runWith_base : runWith (ensureBaseCalltargetTokens (wide m later).toModuleMetadata)
    CachedToken.nil = (.ok (), wideBase later) := by
  cases later with
  | false => exact Prod.ext rfl (funext fun field => by cases field <;> rfl)
  | true => exact Prod.ext rfl (funext fun field => by cases field <;> rfl)

theorem runWith_base_again : runWith (ensureBaseCalltargetTokens (wide m later).toModuleMetadata)
    (wideBase later) = (.ok (), wideBase later) := by
  apply ensures_ensureBaseCalltargetTokens.idle
  intro field hfield
  cases later <;> fin_cases hfield <;> decide

theorem runWith_getTargetVoidReturnTypeRef :
    (runWith (getTargetVoidReturnTypeRef (wide m later).toModuleMetadata) (wideBase later)).1 =
      .ok (wideToken later callTargetReturnVoidTypeRef) := by
  cases later <;> rfl

theorem runWith_ensureCallTargetReturn : runWith (ensure callTargetReturnTypeRef
      (typeRefIn (wide m later).toModuleMetadata profilerAssemblyRef
        managed_profiler_calltarget_returntype_generics)) (wideBase later) =
    (.ok (), Function.update (wideBase later) callTargetReturnTypeRef
      (wideToken later callTargetReturnTypeRef)) := by
  cases later <;> rfl

theorem runWith_getTargetReturnValueTypeRef :
    (runWith (getTargetReturnValueTypeRef (wide m later).toModuleMetadata m.ret) (wideBase later)).1 =
      if signatureBufferSize < (callTargetReturnSignature (wideToken later) m.ret).length then
        .error .undefined
      else .ok 0x1B000001 := by
  have hsignature : callTargetReturnSignature (Function.update (wideBase later)
      callTargetReturnTypeRef (wideToken later callTargetReturnTypeRef)) m.ret =
      callTargetReturnSignature (wideToken later) m.ret := by
    rw [callTargetReturnSignature, Function.update_self, callTargetReturnSignature]
  simp only [getTargetReturnValueTypeRef, orNil, runWith_tryCatch, runWith_bind, runWith_base_again,
    runWith_ensureCallTargetReturn, runWith_get, hsignature]
  by_cases hlen : signatureBufferSize < (callTargetReturnSignature (wideToken later) m.ret).length
  · rw [if_pos hlen, if_pos hlen]
    rfl
  · rw [if_neg hlen, if_neg hlen]
    have hspec : (wide m later).getTokenFromTypeSpec
        (callTargetReturnSignature (wideToken later) m.ret) = definedToken 0x1B000001 := if_pos rfl
    rw [hspec]
    rfl

/-- Either the type specification does not fit, or the parts are as long as they can be. -/
theorem runWith_getReturnParts :
    (runWith (getReturnParts (wide m later).toModuleMetadata m.ret) (wideBase later)).1 =
      .error .undefined ∨
    ∃ token parts, (runWith (getReturnParts (wide m later).toModuleMetadata m.ret)
        (wideBase later)).1 = .ok (token, parts) ∧
      ∀ ex state : List UInt8, ex.length = 4 → state.length = 4 →
        (newLocals parts ex state).length = m.newLocalsCount ∧
        (newLocals parts ex state).flatten.length = m.newLocalsLength := by
  unfold getReturnParts MethodSignatures.newLocalsCount MethodSignatures.newLocalsLength
  by_cases hvoid : isVoid m.ret
  · simp only [if_pos hvoid]
    right
    rw [runWith_bind_of_ok runWith_getTargetVoidReturnTypeRef]
    refine ⟨_, _, rfl, fun ex state hex hstate => ⟨rfl, ?_⟩⟩
    have htoken := @length_wideToken later callTargetReturnVoidTypeRef (by decide)
    simp only [newLocals, List.flatten_cons, List.flatten_nil, List.length_append,
      List.length_cons, List.length_nil]
    omega
  · simp only [if_neg hvoid]
    have hrun := @runWith_getTargetReturnValueTypeRef m later
    by_cases hlen : signatureBufferSize < (callTargetReturnSignature (wideToken later) m.ret).length
    · rw [if_pos hlen] at hrun
      exact .inl (runWith_bind_of_error hrun)
    · rw [if_neg hlen] at hrun
      right
      have hspec : (wide m later).getTypeSpecFromToken 0x1B000001 =
        .ok (callTargetReturnSignature (wideToken later) m.ret) := rfl
      rw [runWith_bind_of_ok hrun, hspec]
      refine ⟨_, _, rfl, fun ex state hex hstate => ⟨rfl, ?_⟩⟩
      have htoken := @length_wideToken later callTargetReturnTypeRef (by decide)
      have hlen := length_callTargetReturnSignature (wideToken later) m.ret
      simp only [newLocals, List.flatten_cons, List.flatten_nil, List.length_append,
        List.length_cons, List.length_nil]
      omega

/-- The token of the local variables. -/
def wideLocalVarSig (m : MethodSignatures) : Token :=
  if m.localVarSig = none then mdTokenNil else 0x11000001

theorem hasLocalVarSig_wide :
    m.HasLocalVarSig (wide m later).toModuleMetadata (wideLocalVarSig m) := by
  unfold MethodSignatures.HasLocalVarSig wideLocalVarSig
  cases hsig : m.localVarSig with
  | none => rfl
  | some blob =>
    refine ⟨by rw [if_neg nofun]; decide, ?_⟩
    simp [wide, hsig]

/-- The last byte of the signature is not the one of the token. -/
def lastByteDiffers (m : MethodSignatures) (later : Bool) : Prop :=
  ∀ blob ∈ m.localVarSig, blob.1.getD (blob.1.length - 1) 0 ≠
    (corSigCompressToken (wideToken later callTargetStateTypeRef)).getD 3 0

theorem exists_lastByteDiffers (m : MethodSignatures) : ∃ later, lastByteDiffers m later := by
  by_cases h : lastByteDiffers m false
  · exact ⟨false, h⟩
  · refine ⟨true, fun blob hblob heq => h fun blob' hblob' heq' => ?_⟩
    obtain rfl := Option.some.inj (hblob.symm.trans hblob')
    rw [heq] at heq'
    exact absurd heq' (by decide)

theorem not_alreadyModified {blob : Blob} {p : ℕ → UInt8} (h : lastByteDiffers m later)
    (hblob : blob ∈ m.localVarSig) (hlen : 4 ≤ blob.1.length)
    (hp : ∀ i < blob.1.length, p i = blob.1.getD i 0) :
    ¬ alreadyModified p (size blob)
      (corSigCompressToken (wideToken later callTargetStateTypeRef)) := by
  rintro ⟨-, -, hseg⟩
  have hfour := @length_wideToken later callTargetStateTypeRef (by decide)
  have hsize : (size blob).toNat = blob.1.length := toNat_size blob.2
  have hstart : (size blob - UInt32.ofNat 4).toNat = blob.1.length - 4 := by
    rw [UInt32.toNat_sub_of_le _ _ (UInt32.le_iff_toNat_le.2 (by rw [hsize]; exact hlen)), hsize]
    rfl
  rw [hfour, hstart, Nat.sub_add_cancel hlen] at hseg
  refine h blob hblob ?_
  rw [← hseg, seg, ← hp _ (by omega)]
  have hthree : blob.1.length - (blob.1.length - 4) = 4 := by omega
  rw [hthree]
  simp [List.range']
  congr 1
  omega

theorem runWith_getOriginalSignature (h : lastByteDiffers m later)
    (horiginal : ∀ blob ∈ m.localVarSig, 4 ≤ blob.1.length) :
    ∃ (original : ℕ → UInt8) (bytes : List UInt8),
      runWith (getOriginalSignature (wide m later).toModuleMetadata (fun _ => 0)
        (wideLocalVarSig m)) (wideBase later) = (.ok (original, size bytes), wideBase later) ∧
      (bytes = [] ∧ m.locals = [] ∨ LocalVarSig bytes m.locals) ∧ bytes.length < 2 ^ 32 ∧
      ∀ i < bytes.length, original i = bytes.getD i 0 := by
  have hlocals := m.hlocals
  have hsig := @hasLocalVarSig_wide m later
  unfold MethodSignatures.HasLocalVarSig at hsig
  unfold getOriginalSignature
  cases hblob : m.localVarSig with
  | none =>
    rw [hblob] at hlocals hsig
    rw [if_neg (not_not.2 (show wideLocalVarSig m = mdTokenNil from hsig))]
    exact ⟨_, [], rfl, .inl ⟨rfl, hlocals⟩, by decide, fun i hi => absurd hi (Nat.not_lt_zero i)⟩
  | some blob =>
    rw [hblob] at hlocals hsig
    have hread : ∀ i < blob.1.length, blob.1.getD i 0 = blob.1.getD i 0 := fun _ _ => rfl
    have hnot := not_alreadyModified h hblob (horiginal blob hblob) hread
    rw [if_pos hsig.1, hsig.2]
    refine ⟨_, blob, ?_, .inr hlocals, blob.2, hread⟩
    have hstate : wideBase later callTargetStateTypeRef = wideToken later callTargetStateTypeRef :=
      if_neg (by decide)
    simp only [ofResult, runWith_bind, runWith_pure, runWith_get, hstate, if_neg hnot]

theorem newSignature_eq_none {original ex state : List UInt8} {originalSignature : ℕ → UInt8}
    {parts : ReturnParts}
    (horiginal : original = [] ∧ m.locals = [] ∨ LocalVarSig original m.locals)
    (hlen : original.length < 2 ^ 32)
    (hread : ∀ i < original.length, originalSignature i = original.getD i 0)
    (hcount : (newLocals parts ex state).length = m.newLocalsCount)
    (hparts : (newLocals parts ex state).flatten.length = m.newLocalsLength)
    (hlong : signatureBufferSize < 1 + compressedLength (m.locals.length + m.newLocalsCount) +
      m.locals.flatten.length + m.newLocalsLength) :
    newSignature originalSignature (size original) parts ex state = none := by
  rw [newSignature_eq horiginal hlen hread]
  rcases hbuffer : compress (m.locals ++ newLocals parts ex state).length with _ | buffer
  · rfl
  · have hbufferLen := length_compress hbuffer
    rw [List.length_append, hcount] at hbufferLen
    rw [Option.bind_some]
    dsimp only
    rw [if_pos ?_]
    rw [List.flatten_append, List.length_cons, List.length_append, List.length_append, hbufferLen]
    omega

theorem runWith_modifyLocalSig (h : lastByteDiffers m later)
    (horiginal : ∀ blob ∈ m.localVarSig, 4 ≤ blob.1.length)
    (hlong : signatureBufferSize < 1 + compressedLength (m.locals.length + m.newLocalsCount) +
      m.locals.flatten.length + m.newLocalsLength) :
    (runWith (modifyLocalSig (wide m later).toModuleMetadata (fun _ => 0) (wideLocalVarSig m) m.ret)
      CachedToken.nil).1 = .error .undefined := by
  obtain ⟨original, bytes, hrun, hlocals, hlen, hread⟩ := runWith_getOriginalSignature h horiginal
  have hbase := @runWith_base m later
  unfold modifyLocalSig
  rw [runWith_bind, hbase]
  dsimp only
  rw [runWith_bind, hrun]
  dsimp only
  rw [runWith_bind, runWith_get]
  dsimp only
  rcases @runWith_getReturnParts m later with hparts | ⟨token, parts, hparts, hlength⟩
  · exact runWith_bind_of_error hparts
  · obtain ⟨hcount, hlength⟩ := hlength
      (corSigCompressToken (wideBase later exTypeRef))
      (corSigCompressToken (wideBase later callTargetStateTypeRef))
      (length_wideToken exTypeRef (by decide)) (length_wideToken callTargetStateTypeRef (by decide))
    rw [runWith_bind_of_ok hparts]
    dsimp only
    rw [newSignature_eq_none hlocals hlen hread hcount hlength hlong]
    rfl

theorem runWith_ensureMember {metadata : MethodMetadata} {fields : Fields} {member : CachedMember}
    {parent : CachedToken} {name : String} {signature : CallTargetTokens → List UInt8}
    {token : DefinedToken} (hnil : fields.members member = mdMemberRefNil)
    (hlen : (signature fields.types).length ≤ signatureBufferSize)
    (hdefine : metadata.defineMemberRef (fields.types parent) name (signature fields.types) =
      .ok token) :
    runWith (ensureMember metadata member parent name signature) fields =
      (.ok (), { fields with members := Function.update fields.members member token }) := by
  simp only [ensureMember, runWith_bind, runWith_get, if_pos hnil, written, if_neg (not_lt.2 hlen),
    runWith_pure, hdefine, defined, runWith_modify]

theorem runWith_methodSpec {metadata : MethodMetadata} {fields : Fields} {memberRef : Token}
    {typeArguments : List (List UInt8)}
    (hlong : signatureBufferSize < 2 + typeArguments.flatten.length) :
    (runWith (methodSpec metadata memberRef typeArguments) fields).1 = .error .undefined := by
  refine runWith_bind_of_error ?_
  rw [written, if_pos ?_]
  · rfl
  · rw [List.length_cons, List.length_cons]
    omega

/-- A class behind thousands of others. -/
def wideType : TypeInfo := .mk 0x02001000 mdTypeSpecNil false false none

theorem length_typeArguments_wide (tokens : CallTargetTokens) :
    (typeArguments tokens 0x01001000 wideType).flatten.length = 10 := rfl

theorem runWith_writeBeginMethod (hfast : m.arguments.length < FASTPATH_COUNT)
    (hlong : signatureBufferSize < 12 + m.arguments.flatten.length) :
    (runWith (writeBeginMethod (wide m later) 0x01001000 wideType m.arguments) .initial).1 =
      .error .undefined := by
  have hbase : runWith (onTypes (ensureBaseCalltargetTokens (wide m later).toModuleMetadata))
      .initial = (.ok (), ⟨wideBase later, fun _ => mdMemberRefNil⟩) := by
    rw [onTypes, runWith_onPart, show Fields.initial.types = CachedToken.nil from rfl, runWith_base]
    rfl
  have hstate := length_corSigCompressToken_le (wideBase later callTargetStateTypeRef)
  unfold writeBeginMethod
  rw [runWith_bind, hbase]
  dsimp only
  rw [dif_pos hfast, runWith_bind, runWith_ensureMember rfl ?_ rfl]
  · dsimp only
    rw [runWith_bind, runWith_get]
    dsimp only
    apply runWith_methodSpec
    rw [List.flatten_append, List.length_append, length_typeArguments_wide]
    omega
  · simp only [List.length_append, List.length_cons, List.length_nil, length_argumentVars,
      signatureBufferSize, FASTPATH_COUNT] at hfast ⊢
    omega

end Wide

/-! ## The result -/

namespace MethodSignatures

variable {m : MethodSignatures}

/-- A module that is wide enough has the check read before the start of a short signature. -/
theorem ReadsInside.original (h : m.ReadsInside) : ∀ blob ∈ m.localVarSig, 4 ≤ blob.1.length := by
  intro blob hblob
  have hread := h (wide m false) .initial lawful_wide .initial (wideBase false) (wideLocalVarSig m)
    blob (fun _ => 0) runWith_base hasLocalVarSig_wide hblob
  rw [lookBackReads_inside_iff blob.2 (length_corSigCompressToken_pos _)
    (length_corSigCompressToken_le _)] at hread
  exact hread

theorem NeverOverruns.locals (h : m.NeverOverruns)
    (horiginal : ∀ blob ∈ m.localVarSig, 4 ≤ blob.1.length) :
    1 + compressedLength (m.locals.length + m.newLocalsCount) + m.locals.flatten.length +
      m.newLocalsLength ≤ signatureBufferSize := by
  by_contra hlong
  obtain ⟨later, hdiffers⟩ := exists_lastByteDiffers m
  refine h (wide m later) .initial lawful_wide .initial
    (.modifyLocalSigAndInitialize (fun _ => 0) (wideLocalVarSig m) m.ret)
    ⟨hasLocalVarSig_wide, rfl⟩ ?_
  refine runWith_bind_of_error (runWith_bind_of_error ?_)
  exact runWith_modifyLocalSig hdiffers horiginal (not_le.1 hlong)

theorem NeverOverruns.arguments (h : m.NeverOverruns)
    (hfast : m.arguments.length < FASTPATH_COUNT) :
    12 + m.arguments.flatten.length ≤ signatureBufferSize := by
  by_contra hlong
  refine h (wide m false) .initial lawful_wide .initial
    (.writeBeginMethod 0x01001000 wideType m.arguments) rfl ?_
  exact runWith_bind_of_error (runWith_writeBeginMethod hfast (not_le.1 hlong))

/-- The buffers are never overrun, and the check reads in the signature only, exactly when the
method fits with tokens of four bytes. -/
theorem buffers_inside_iff (m : MethodSignatures) : m.NeverOverruns ∧ m.ReadsInside ↔ m.Fits := by
  constructor
  · rintro ⟨hwrites, hreads⟩
    exact ⟨hwrites.locals hreads.original, hwrites.arguments, hreads.original⟩
  · intro h
    exact ⟨h.neverOverruns, h.readsInside⟩

theorem length_oneIntSig :
    [IMAGE_CEE_CS_CALLCONV_LOCAL_SIG, 0x01, ELEMENT_TYPE_I4].length < 2 ^ 32 := by
  decide

/-- `void M()` with an `int` for its only local. -/
def oneInt : MethodSignatures where
  localVarSig := some ⟨[IMAGE_CEE_CS_CALLCONV_LOCAL_SIG, 0x01, ELEMENT_TYPE_I4], length_oneIntSig⟩
  locals := [[ELEMENT_TYPE_I4]]
  ret := [ELEMENT_TYPE_VOID]
  arguments := []
  hlocals := ⟨[0x01], rfl, rfl, List.forall_mem_singleton.2 (.alone (by decide))⟩
  hret := .inl rfl
  harguments := nofun

/-- `void M()` with 500 locals that are `int`s. -/
def manyInts : MethodSignatures where
  localVarSig := some ⟨IMAGE_CEE_CS_CALLCONV_LOCAL_SIG :: 0x81 :: 0xF4 ::
    (List.replicate 500 [ELEMENT_TYPE_I4]).flatten, by decide +kernel⟩
  locals := List.replicate 500 [ELEMENT_TYPE_I4]
  ret := [ELEMENT_TYPE_VOID]
  arguments := []
  hlocals := by
    refine ⟨[0x81, 0xF4], rfl, ?_, fun type htype => ?_⟩
    · rw [List.length_replicate]
      rfl
    · rw [List.eq_of_mem_replicate htype]
      exact .alone (by decide)
  hret := .inl rfl
  harguments := nofun

/-- A method that is written behind the buffer, and one that is looked at before its start. -/
theorem buffers_not_inside : ¬ manyInts.NeverOverruns ∧ ¬ oneInt.ReadsInside := by
  constructor
  · intro h
    have horiginal : ∀ blob ∈ manyInts.localVarSig, 4 ≤ blob.1.length := by decide +kernel
    have hfits := h.locals horiginal
    exact absurd hfits (by decide +kernel)
  · intro h
    have := h.original _ rfl
    exact absurd this (by decide)

end MethodSignatures

end DdTrace.Tokens
