import DdTrace.Tokens.MethodSpecs
import DdTrace.Tokens.ModifyLocalSig
import Mathlib.Algebra.BigOperators.Group.List.Basic

/-!
# The signature buffers

The signatures of an instrumented method go into buffers of `signatureBufferSize` bytes, and
nobody looks how long they are. They fit for every module exactly when the method is small
enough for tokens of four bytes (`MethodSignatures.Fits`).
-/

namespace DdTrace.Tokens

open Lib Lib.Throwing Signature CachedToken CachedMember
open Native (FASTPATH_COUNT)

/-! ## Lengths -/

theorem length_corSigCompressToken (tk : Token) :
    (corSigCompressToken tk).length = compressedLength (encodedToken tk).toNat := by
  obtain ⟨bytes, h⟩ := compress_of_lt ((encodedToken_lt tk).trans (by decide))
  rw [corSigCompressToken, h, ← length_compress h]
  rfl

theorem length_corSigCompressToken_le (tk : Token) : (corSigCompressToken tk).length ≤ 4 := by
  rw [length_corSigCompressToken]
  exact compressedLength_le _

theorem length_callTargetReturnSignature (tokens : CallTargetTokens) (ret : List UInt8) :
    (callTargetReturnSignature tokens ret).length =
      3 + (corSigCompressToken (tokens callTargetReturnTypeRef)).length + ret.length := by
  simp only [callTargetReturnSignature, List.length_cons, List.length_append, List.length_nil]
  omega

theorem length_argumentVars (n : ℕ) : (argumentVars n).length = 2 * n := by
  rw [argumentVars, List.length_flatMap]
  simp [mul_comm]

/-! ## Nothing is written behind a buffer -/

variable {metadata : MethodMetadata} {σ α β : Type} {ret : List UInt8}

/-- `m` writes into its buffers only. -/
def WritesInside (m : Throwing Stop σ α) : Prop := Avoids Stop.undefined m fun _ => True

namespace WritesInside

variable {m : Throwing Stop σ α}

theorem of_avoids {P : α → Prop} (h : Avoids Stop.undefined m P) : WritesInside m :=
  h.mono fun _ _ => trivial

theorem pure (a : α) : WritesInside (pure a : Throwing Stop σ α) := Avoids.pure trivial

theorem get : WritesInside (get : Throwing Stop σ σ) := Avoids.get

theorem bind {f : α → Throwing Stop σ β} (hm : WritesInside m) (hf : ∀ a, WritesInside (f a)) :
    WritesInside (m >>= f) := Avoids.bind hm fun a _ => hf a

theorem onTypes {m : M α} (h : WritesInside m) : WritesInside (onTypes m) := Avoids.onPart _ _ h

theorem orReturn {value : HRESULT → Token} {m : F Token} (h : WritesInside m) :
    WritesInside (orReturn value m) := by
  refine Avoids.tryCatch h fun e he => ?_
  cases e with
  | failed hr => exact .pure trivial
  | undefined => exact absurd rfl he

end WritesInside

theorem avoids_ofResult {result : Except HRESULT α} :
    Avoids Stop.undefined (ofResult result) fun a => result = .ok a := by
  cases result with
  | ok a => exact .pure rfl
  | error hr => exact .throw nofun

theorem writesInside_defined {result : Except HRESULT α} : WritesInside (defined result) := by
  cases result with
  | ok a => exact .pure a
  | error hr => exact Avoids.throw nofun

theorem writesInside_ensure {field : CachedToken}
    {define : CallTargetTokens → Except HRESULT DefinedToken} :
    WritesInside (ensure field define) := by
  refine .bind .get fun tokens => ?_
  split
  · exact .bind (.of_avoids avoids_ofResult) fun _ => Avoids.modify
  · exact .pure ()

theorem writesInside_ensureBaseCalltargetTokens {metadata : ModuleMetadata} :
    WritesInside (ensureBaseCalltargetTokens metadata) := by
  refine .bind ?_ fun _ => ?_
  · exact .bind writesInside_ensure fun _ => .bind writesInside_ensure fun _ =>
      .bind writesInside_ensure fun _ => .bind writesInside_ensure fun _ =>
      .bind writesInside_ensure fun _ => .bind writesInside_ensure fun _ => writesInside_ensure
  · exact .bind writesInside_ensure fun _ => .bind writesInside_ensure fun _ =>
      .bind writesInside_ensure fun _ => writesInside_ensure

theorem writesInside_base :
    WritesInside (onTypes (ensureBaseCalltargetTokens metadata.toModuleMetadata)) :=
  .onTypes writesInside_ensureBaseCalltargetTokens

theorem writesInside_written {signature : List UInt8} (h : signature.length ≤ signatureBufferSize) :
    WritesInside (written signature) := by
  rw [written, if_neg (not_lt.2 h)]
  exact .pure signature

theorem writesInside_ensureMember {member : CachedMember} {parent : CachedToken} {name : String}
    {signature : CallTargetTokens → List UInt8}
    (h : ∀ tokens, (signature tokens).length ≤ signatureBufferSize) :
    WritesInside (ensureMember metadata member parent name signature) := by
  refine .bind .get fun fields => ?_
  split
  · exact .bind (writesInside_written (h fields.types)) fun _ =>
      .bind writesInside_defined fun _ => Avoids.modify
  · exact .pure ()

theorem writesInside_methodSpec {memberRef : Token} {typeArguments : List (List UInt8)}
    (h : 2 + typeArguments.flatten.length ≤ signatureBufferSize) :
    WritesInside (methodSpec metadata memberRef typeArguments) := by
  refine .bind (writesInside_written ?_) fun _ => .bind writesInside_defined fun _ => .pure _
  rw [List.length_cons, List.length_cons]
  omega

/-! ### The values before the method -/

theorem writesInside_getCallTargetReturnVoidDefaultMemberRef :
    WritesInside (getCallTargetReturnVoidDefaultMemberRef metadata) := by
  refine .orReturn (.bind writesInside_base fun _ => .bind ?_ fun _ =>
    .bind .get fun _ => .pure _)
  refine writesInside_ensureMember fun tokens => ?_
  have := length_corSigCompressToken_le (tokens callTargetReturnVoidTypeRef)
  simp only [List.length_append, List.length_cons, List.length_nil, signatureBufferSize]
  omega

theorem writesInside_getCallTargetReturnValueDefaultMemberRef {callTargetReturnTypeSpec : Token} :
    WritesInside (getCallTargetReturnValueDefaultMemberRef metadata callTargetReturnTypeSpec) := by
  refine .orReturn (.bind writesInside_base fun _ => .bind .get fun fields => ?_)
  split
  · exact .pure _
  · refine .bind (writesInside_written ?_) fun _ => .bind writesInside_defined fun _ => .pure _
    have := length_corSigCompressToken_le (fields.types callTargetReturnTypeRef)
    simp only [List.length_append, List.length_cons, List.length_nil, signatureBufferSize]
    omega

theorem writesInside_getCallTargetDefaultValueMethodSpec
    (h : 2 + ret.length ≤ signatureBufferSize) :
    WritesInside (getCallTargetDefaultValueMethodSpec metadata ret) := by
  refine .orReturn (.bind writesInside_base fun _ => .orReturn (.bind ?_ fun _ =>
    .bind .get fun _ => .orReturn (writesInside_methodSpec ?_)))
  · exact writesInside_ensureMember fun _ => by decide
  · rwa [List.flatten_singleton]

/-! ### The calls around the method -/

variable {integrationTypeRef : Token} {currentType : TypeInfo}

theorem length_typeArguments_le (tokens : CallTargetTokens) :
    (typeArguments tokens integrationTypeRef currentType).flatten.length ≤ 10 := by
  have h1 := length_corSigCompressToken_le integrationTypeRef
  have h2 := length_corSigCompressToken_le (getCurrentTypeRef tokens currentType).1
  simp only [typeArguments, List.flatten_cons, List.flatten_nil, List.length_append,
    List.length_cons, List.length_nil]
  omega

theorem typeArguments_fit (tokens : CallTargetTokens) :
    2 + (typeArguments tokens integrationTypeRef currentType).flatten.length ≤
      signatureBufferSize := by
  have := @length_typeArguments_le integrationTypeRef currentType tokens
  rw [signatureBufferSize]
  omega

/-- A member reference, and a specification of it. -/
theorem writesInside_call {member : CachedMember} {parent : CachedToken} {name : String}
    {signature : CallTargetTokens → List UInt8} (types : CallTargetTokens → List (List UInt8))
    (h : ∀ tokens, (signature tokens).length ≤ signatureBufferSize)
    (htypes : ∀ tokens, 2 + (types tokens).flatten.length ≤ signatureBufferSize) :
    WritesInside (ensureMember metadata member parent name signature >>= fun _ => get >>=
      fun fields => methodSpec metadata (fields.members member) (types fields.types)) :=
  .bind (writesInside_ensureMember h) fun _ => .bind .get fun fields =>
    writesInside_methodSpec (htypes fields.types)

theorem writesInside_writeBeginMethodWithArgumentsArray :
    WritesInside (writeBeginMethodWithArgumentsArray metadata integrationTypeRef currentType) := by
  refine .bind writesInside_base fun _ => ?_
  refine writesInside_call (fun tokens => typeArguments tokens integrationTypeRef currentType)
    (fun tokens => ?_) typeArguments_fit
  have := length_corSigCompressToken_le (tokens callTargetStateTypeRef)
  simp only [List.length_append, List.length_cons, List.length_nil, signatureBufferSize]
  omega

theorem writesInside_writeBeginMethod {methodArguments : List (List UInt8)}
    (h : methodArguments.length < FASTPATH_COUNT →
      12 + methodArguments.flatten.length ≤ signatureBufferSize) :
    WritesInside (writeBeginMethod metadata integrationTypeRef currentType methodArguments) := by
  refine .bind writesInside_base fun _ => ?_
  dsimp only
  split
  · rename_i hfast
    have hfits := h hfast
    refine writesInside_call (fun tokens => typeArguments tokens integrationTypeRef currentType ++
      methodArguments) (fun tokens => ?_) fun tokens => ?_
    · have := length_corSigCompressToken_le (tokens callTargetStateTypeRef)
      simp only [List.length_append, List.length_cons, List.length_nil, length_argumentVars,
        signatureBufferSize, FASTPATH_COUNT] at hfast ⊢
      omega
    · have := @length_typeArguments_le integrationTypeRef currentType tokens
      rw [List.flatten_append, List.length_append]
      omega
  · exact writesInside_writeBeginMethodWithArgumentsArray

theorem writesInside_writeEndVoidReturnMemberRef :
    WritesInside (writeEndVoidReturnMemberRef metadata integrationTypeRef currentType) := by
  refine .bind writesInside_base fun _ => ?_
  refine writesInside_call (fun tokens => typeArguments tokens integrationTypeRef currentType)
    (fun tokens => ?_) typeArguments_fit
  have h1 := length_corSigCompressToken_le (tokens callTargetReturnVoidTypeRef)
  have h2 := length_corSigCompressToken_le (tokens exTypeRef)
  have h3 := length_corSigCompressToken_le (tokens callTargetStateTypeRef)
  simp only [List.length_append, List.length_cons, List.length_nil, signatureBufferSize]
  omega

theorem writesInside_writeLogException :
    WritesInside (writeLogException metadata integrationTypeRef currentType) := by
  refine .bind writesInside_base fun _ => ?_
  refine writesInside_call (fun tokens => typeArguments tokens integrationTypeRef currentType)
    (fun tokens => ?_) typeArguments_fit
  have := length_corSigCompressToken_le (tokens exTypeRef)
  simp only [List.length_append, List.length_cons, List.length_nil, signatureBufferSize]
  omega

theorem writesInside_writeCallTargetReturnGetReturnValue {callTargetReturnTypeSpec : Token} :
    WritesInside (writeCallTargetReturnGetReturnValue metadata callTargetReturnTypeSpec) := by
  refine Avoids.tryCatch (WritesInside.bind writesInside_base fun _ => WritesInside.bind
    (writesInside_written (by decide)) fun _ => WritesInside.bind writesInside_defined
    fun _ => WritesInside.pure _) fun e he => ?_
  cases e with
  | failed hr => exact Avoids.throw nofun
  | undefined => exact absurd rfl he

/-! ## The method -/

/-- The signatures of a method, as they stand in the metadata: its local variables, if it has
any, its return type and its arguments. -/
structure MethodSignatures where
  localVarSig : Option Blob
  locals : List (List UInt8)
  ret : List UInt8
  arguments : List (List UInt8)
  hlocals : (localVarSig.elim (locals = []) fun blob => LocalVarSig blob locals)
  hret : ReturnType ret
  harguments : ∀ argument ∈ arguments, TypeSig argument

namespace MethodSignatures

variable (m : MethodSignatures)

/-- `localVarSig` is the token of the local variables. -/
def HasLocalVarSig (metadata : ModuleMetadata) (localVarSig : Token) : Prop :=
  m.localVarSig.elim (localVarSig = mdTokenNil) fun blob =>
    localVarSig ≠ mdTokenNil ∧ metadata.getSigFromToken localVarSig = .ok blob

theorem length_locals_le : m.locals.length ≤ m.locals.flatten.length := by
  have hlocals := m.hlocals
  have htypes : ∀ type ∈ m.locals, TypeSig type := by
    cases hsig : m.localVarSig with
    | none =>
      rw [hsig] at hlocals
      rw [show m.locals = [] from hlocals]
      nofun
    | some blob =>
      rw [hsig] at hlocals
      obtain ⟨_, -, -, htypes⟩ := hlocals
      exact htypes
  rw [List.length_flatten, ← List.length_map (f := List.length)]
  refine List.length_le_sum_of_one_le _ fun n hn => ?_
  obtain ⟨type, htype, rfl⟩ := List.mem_map.1 hn
  obtain ⟨b, rest, rfl, -⟩ := (htypes type htype).follows
  exact Nat.le_add_left 1 rest.length

/-- How many locals are added. -/
def newLocalsCount : ℕ := if isVoid m.ret then 3 else 4

/-- How many bytes they take, with tokens of four bytes. -/
def newLocalsLength : ℕ := if isVoid m.ret then 15 else 17 + 2 * m.ret.length

/-- The method is small enough for tokens of four bytes. -/
structure Fits : Prop where
  locals : 1 + compressedLength (m.locals.length + m.newLocalsCount) + m.locals.flatten.length +
    m.newLocalsLength ≤ signatureBufferSize
  arguments : m.arguments.length < FASTPATH_COUNT →
    12 + m.arguments.flatten.length ≤ signatureBufferSize
  original : ∀ blob ∈ m.localVarSig, 4 ≤ blob.1.length

variable {m}

theorem Fits.ret_le (h : m.Fits) : 12 + m.ret.length ≤ signatureBufferSize := by
  have hlocals := h.locals
  rw [newLocalsLength, signatureBufferSize] at hlocals
  rw [signatureBufferSize]
  rcases m.hret with hret | ⟨-, hret⟩
  · rw [hret]
    decide
  · rw [if_neg hret] at hlocals
    omega

end MethodSignatures

/-! ## `ModifyLocalSig` -/

section ModifyLocalSig

variable {metadata : ModuleMetadata} {m : MethodSignatures}

theorem writesInside_getTargetVoidReturnTypeRef :
    WritesInside (getTargetVoidReturnTypeRef metadata) := by
  refine Avoids.tryCatch (WritesInside.bind writesInside_ensureBaseCalltargetTokens fun _ =>
    WritesInside.bind writesInside_ensure fun _ => WritesInside.bind .get fun _ =>
    WritesInside.pure _) fun e he => ?_
  cases e with
  | failed hr => exact .pure trivial
  | undefined => exact absurd rfl he

theorem avoids_getTargetReturnValueTypeRef (hlaw : metadata.Lawful)
    (h : 7 + ret.length ≤ signatureBufferSize) :
    Avoids Stop.undefined (getTargetReturnValueTypeRef metadata ret) fun token =>
      ∀ signature, metadata.getTypeSpecFromToken token = .ok signature →
        signature.length ≤ 7 + ret.length := by
  refine .tryCatch (.bind writesInside_ensureBaseCalltargetTokens fun _ _ =>
    .bind writesInside_ensure fun _ _ => .bind .get fun tokens _ => ?_) fun e he => ?_
  · have hlen := length_callTargetReturnSignature tokens ret
    have htoken := length_corSigCompressToken_le (tokens callTargetReturnTypeRef)
    dsimp only
    rw [if_neg (by omega)]
    refine .bind avoids_ofResult fun token hspec => .pure fun signature hsignature => ?_
    rw [hlaw.getTypeSpec hspec] at hsignature
    obtain rfl := Except.ok.inj hsignature
    omega
  · cases e with
    | failed hr => exact .pure fun signature hsignature => absurd hsignature (hlaw.getTypeSpec_nil _)
    | undefined => exact absurd rfl he

theorem avoids_getReturnParts (hlaw : metadata.Lawful) (hfits : m.Fits) :
    Avoids Stop.undefined (getReturnParts metadata m.ret) fun parts =>
      ∀ ex state : List UInt8, ex.length ≤ 4 → state.length ≤ 4 →
        (newLocals parts.2 ex state).length = m.newLocalsCount ∧
        (newLocals parts.2 ex state).flatten.length ≤ m.newLocalsLength := by
  have hret := hfits.ret_le
  unfold getReturnParts MethodSignatures.newLocalsCount MethodSignatures.newLocalsLength
  split
  · refine .bind writesInside_getTargetVoidReturnTypeRef fun token _ =>
      .pure fun ex state hex hstate => ⟨rfl, ?_⟩
    have htoken := length_corSigCompressToken_le token
    simp only [newLocals, List.flatten_cons, List.flatten_nil, List.length_append,
      List.length_cons, List.length_nil]
    omega
  · refine .bind (avoids_getTargetReturnValueTypeRef hlaw (by omega)) fun token htoken => ?_
    split
    · rename_i signature hsignature
      refine .pure fun ex state hex hstate => ⟨rfl, ?_⟩
      have hlen := htoken signature hsignature
      simp only [newLocals, List.flatten_cons, List.flatten_nil, List.length_append,
        List.length_cons, List.length_nil]
      omega
    · exact .throw fun h => by cases h

theorem avoids_getOriginalSignature {outside : ℕ → UInt8} {localVarSig : Token}
    (h : m.HasLocalVarSig metadata localVarSig) :
    Avoids Stop.undefined (getOriginalSignature metadata outside localVarSig) fun original =>
      ∃ bytes : List UInt8, (bytes = [] ∧ m.locals = [] ∨ LocalVarSig bytes m.locals) ∧
        original.2 = size bytes ∧ bytes.length < 2 ^ 32 ∧
        ∀ i < bytes.length, original.1 i = bytes.getD i 0 := by
  have hlocals := m.hlocals
  unfold MethodSignatures.HasLocalVarSig at h
  unfold getOriginalSignature
  cases hsig : m.localVarSig with
  | none =>
    rw [hsig] at h hlocals
    rw [if_neg (not_not.2 (show localVarSig = mdTokenNil from h))]
    exact .pure ⟨[], .inl ⟨rfl, hlocals⟩, rfl, by decide, fun i hi => absurd hi (Nat.not_lt_zero i)⟩
  | some blob =>
    rw [hsig] at h hlocals
    rw [if_pos h.1, h.2]
    refine .bind avoids_ofResult fun signature hresult => .bind .get fun tokens _ => ?_
    obtain rfl := Except.ok.inj hresult
    split
    · exact .throw fun h => by cases h
    · refine .pure ⟨blob, .inr hlocals, rfl, blob.2, fun i hi => ?_⟩
      exact (List.getD_eq_getElem _ _ hi).trans (List.getD_eq_getElem _ _ hi).symm

theorem newSignature_ne_none {original ex state : List UInt8} {originalSignature : ℕ → UInt8}
    {parts : ReturnParts} (hfits : m.Fits)
    (horiginal : original = [] ∧ m.locals = [] ∨ LocalVarSig original m.locals)
    (hlen : original.length < 2 ^ 32)
    (hread : ∀ i < original.length, originalSignature i = original.getD i 0)
    (hcount : (newLocals parts ex state).length = m.newLocalsCount)
    (hparts : (newLocals parts ex state).flatten.length ≤ m.newLocalsLength) :
    newSignature originalSignature (size original) parts ex state ≠ none := by
  have hlocals := hfits.locals
  rw [newSignature_eq horiginal hlen hread]
  have hflat := m.length_locals_le
  obtain ⟨buffer, hbuffer⟩ : ∃ buffer, compress (m.locals ++ newLocals parts ex state).length =
      some buffer := by
    refine compress_of_lt ?_
    rw [signatureBufferSize] at hlocals
    have : m.newLocalsCount ≤ 4 := by
      unfold MethodSignatures.newLocalsCount
      split <;> omega
    rw [List.length_append]
    omega
  have hbufferLen := length_compress hbuffer
  rw [hbuffer, Option.bind_some]
  dsimp only
  rw [List.length_append, hcount] at hbufferLen
  rw [if_neg ?_]
  · nofun
  · rw [List.flatten_append, List.length_cons, List.length_append, List.length_append, hbufferLen]
    omega

theorem writesInside_modifyLocalSig {outside : ℕ → UInt8} {localVarSig : Token}
    (hlaw : metadata.Lawful) (hfits : m.Fits) (h : m.HasLocalVarSig metadata localVarSig) :
    WritesInside (modifyLocalSig metadata outside localVarSig m.ret) := by
  refine .bind writesInside_ensureBaseCalltargetTokens fun _ =>
    Avoids.bind (avoids_getOriginalSignature h) fun original horiginal => ?_
  obtain ⟨bytes, hlocals, hsize, hlen, hread⟩ := horiginal
  refine WritesInside.bind .get fun tokens => Avoids.bind (avoids_getReturnParts hlaw hfits)
    fun parts hparts => ?_
  obtain ⟨hcount, hparts⟩ := hparts _ _ (length_corSigCompressToken_le (tokens exTypeRef))
    (length_corSigCompressToken_le (tokens callTargetStateTypeRef))
  have hne := newSignature_ne_none hfits hlocals hlen hread hcount hparts
  dsimp only
  rw [hsize]
  split
  · exact absurd ‹_› hne
  · exact WritesInside.bind (.of_avoids avoids_ofResult) fun _ => WritesInside.bind .get fun _ =>
      WritesInside.pure _

end ModifyLocalSig

theorem writesInside_modifyLocalSigAndInitialize {m : MethodSignatures} {outside : ℕ → UInt8}
    {localVarSig : Token} (hlaw : metadata.Lawful) (hfits : m.Fits)
    (h : m.HasLocalVarSig metadata.toModuleMetadata localVarSig) :
    WritesInside (modifyLocalSigAndInitialize metadata outside localVarSig m.ret) := by
  have hret := hfits.ret_le
  refine .bind (.onTypes (writesInside_modifyLocalSig hlaw hfits h)) fun localSig => ?_
  split
  · exact .bind (writesInside_getCallTargetDefaultValueMethodSpec (by omega)) fun _ =>
      .bind writesInside_getCallTargetReturnValueDefaultMemberRef fun _ => .pure _
  · exact .bind writesInside_getCallTargetReturnVoidDefaultMemberRef fun _ => .pure _

theorem writesInside_writeEndReturnMemberRef {integrationTypeRef : Token} {currentType : TypeInfo}
    (hlaw : metadata.Lawful) (h : 12 + ret.length ≤ signatureBufferSize) :
    WritesInside (writeEndReturnMemberRef metadata integrationTypeRef currentType ret) := by
  refine .bind writesInside_base fun _ => .bind
    (.onTypes (.of_avoids (avoids_getTargetReturnValueTypeRef hlaw (by omega)))) fun _ =>
    .bind .get fun fields => .bind (writesInside_written ?_) fun _ =>
    .bind writesInside_defined fun _ => writesInside_methodSpec ?_
  · have h1 := length_corSigCompressToken_le (fields.types callTargetReturnTypeRef)
    have h2 := length_corSigCompressToken_le (fields.types exTypeRef)
    have h3 := length_corSigCompressToken_le (fields.types callTargetStateTypeRef)
    simp only [List.length_append, List.length_cons, List.length_nil, signatureBufferSize]
    omega
  · have := @length_typeArguments_le integrationTypeRef currentType fields.types
    rw [List.flatten_append, List.length_append, List.flatten_singleton]
    omega

/-! ## The check for a rewritten signature -/

/-- The indices that the check reads; `memcmp` may read all it is given. -/
def lookBackReads (originalSignature : ℕ → UInt8) (originalSignatureSize : UInt32)
    (state : List UInt8) : List ℕ :=
  let len := UInt32.ofNat state.length
  if 0 < originalSignatureSize - len then
    (originalSignatureSize - len - 1).toNat ::
      if originalSignature (originalSignatureSize - len - 1).toNat = ELEMENT_TYPE_VALUETYPE then
        List.range' (originalSignatureSize - len).toNat state.length
      else []
  else []

theorem lookBackReads_inside_iff {originalSignature : ℕ → UInt8} {bytes state : List UInt8}
    (hlen : bytes.length < 2 ^ 32) (hpos : 0 < state.length) (hstate : state.length ≤ 4) :
    (∀ i ∈ lookBackReads originalSignature (size bytes) state, i < bytes.length) ↔
      state.length ≤ bytes.length := by
  have hsize : (size bytes).toNat = bytes.length := toNat_size hlen
  have hof : (UInt32.ofNat state.length).toNat = state.length :=
    UInt32.toNat_ofNat_of_lt' (by simp only [UInt32.size]; omega)
  have hone : (1 : UInt32).toNat = 1 := rfl
  have hsub : (size bytes - UInt32.ofNat state.length).toNat =
      (2 ^ 32 - state.length + bytes.length) % 2 ^ 32 := by
    rw [UInt32.toNat_sub, hsize, hof]
  have hiff : 0 < size bytes - UInt32.ofNat state.length ↔
      0 < (2 ^ 32 - state.length + bytes.length) % 2 ^ 32 := by
    rw [UInt32.lt_iff_toNat_lt, hsub]
    rfl
  unfold lookBackReads
  dsimp only
  constructor
  · intro h
    by_contra hlt
    rw [if_pos (hiff.2 (by omega))] at h
    have hread := h _ List.mem_cons_self
    rw [UInt32.toNat_sub, hsub, hone] at hread
    omega
  · intro hle
    split
    · rename_i hread
      rw [hiff] at hread
      refine List.forall_mem_cons.2 ⟨?_, ?_⟩
      · rw [UInt32.toNat_sub, hsub, hone]
        omega
      · split
        · intro i hi
          rw [List.mem_range'_1, hsub] at hi
          omega
        · nofun
    · nofun

end DdTrace.Tokens
