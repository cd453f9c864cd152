import DdTrace.Tokens.CallTargetTokens

/-!
# What `ModifyLocalSig` leaves

The size of the new signature, its locals and the indices agree, whatever the original
signature and the return type. The one slip is the reference to `CallTargetReturn`: nobody
looks whether it could be defined.
-/

namespace DdTrace.Tokens

open Lib Lib.Throwing Signature

/-! ## Counts -/

variable {bytes count : List UInt8} {n : ℕ} {p : ℕ → UInt8}

theorem toNat_shiftLeft_byte (b : UInt8) {k : UInt32} (hk : k.toNat ≤ 24) :
    (b.toUInt32 <<< k).toNat = b.toNat <<< k.toNat := by
  have hb := b.toNat_lt
  have hmod : k.toNat % 32 = k.toNat := Nat.mod_eq_of_lt (by omega)
  rw [UInt32.toNat_shiftLeft, UInt8.toNat_toUInt32, hmod, Nat.mod_eq_of_lt]
  rw [Nat.shiftLeft_eq]
  calc b.toNat * 2 ^ k.toNat ≤ b.toNat * 2 ^ 24 := Nat.mul_le_mul_left _ (Nat.pow_le_pow_right (by decide) hk)
    _ < 2 ^ 32 := by omega

theorem toNat_two {b1 b2 : UInt8} : ((b1 &&& 0x3F).toUInt32 <<< 8 ||| b2.toUInt32).toNat =
    (b1 &&& 0x3F).toNat <<< 8 ||| b2.toNat := by
  rw [UInt32.toNat_or, toNat_shiftLeft_byte _ (by decide), UInt8.toNat_toUInt32]
  rfl

theorem toNat_four {b1 b2 b3 b4 : UInt8} : ((b1 &&& 0x1F).toUInt32 <<< 24 ||| b2.toUInt32 <<< 16 |||
      b3.toUInt32 <<< 8 ||| b4.toUInt32).toNat =
    (b1 &&& 0x1F).toNat <<< 24 ||| b2.toNat <<< 16 ||| b3.toNat <<< 8 ||| b4.toNat := by
  rw [UInt32.toNat_or, UInt32.toNat_or, UInt32.toNat_or, toNat_shiftLeft_byte _ (by decide),
    toNat_shiftLeft_byte _ (by decide), toNat_shiftLeft_byte _ (by decide), UInt8.toNat_toUInt32]
  rfl

/-- The library reads what is a number for the parser. -/
theorem corSigUncompressData_of_number (h : Number bytes n)
    (hp : ∀ i < bytes.length, p i = bytes.getD i 0) :
    corSigUncompressData p = (UInt32.ofNat n, size bytes) ∧ n < 2 ^ 29 := by
  rcases bytes with _ | ⟨b1, rest⟩
  · cases h
  have h0 : p 0 = b1 := hp 0 (by simp)
  simp only [Number, uncompress] at h
  unfold corSigUncompressData
  rw [h0]
  by_cases h80 : b1 < 0x80
  · rw [if_pos h80] at h
    obtain ⟨rfl, rfl⟩ := Prod.mk.inj (Option.some.inj h)
    rw [if_pos ((and_0x80 b1).2 h80)]
    have hb := b1.toNat_lt
    refine ⟨Prod.ext ?_ rfl, by omega⟩
    apply UInt32.toNat_inj.1
    rw [UInt8.toNat_toUInt32, UInt32.toNat_ofNat_of_lt' (by simp only [UInt32.size]; omega)]
  rw [if_neg h80] at h
  rw [if_neg (mt (and_0x80 b1).1 h80)]
  by_cases hc0 : b1 < 0xC0
  · rw [if_pos hc0] at h
    rw [if_pos ((and_0xC0 b1 h80).2 hc0)]
    rcases rest with _ | ⟨b2, rest⟩
    · cases h
    obtain ⟨rfl, rfl⟩ := Prod.mk.inj (Option.some.inj h)
    have h1 : p 1 = b2 := hp 1 (by simp)
    have hb1 := b1.toNat_lt
    have hb2 := b2.toNat_lt
    have hlt : ofBigEndian [b1, b2] - 2 ^ 15 < 2 ^ 29 := by
      rw [ofBigEndian_pair]
      omega
    refine ⟨Prod.ext ?_ rfl, hlt⟩
    apply UInt32.toNat_inj.1
    rw [h1, toNat_two, value_two h80 hc0,
      UInt32.toNat_ofNat_of_lt' (by simp only [UInt32.size]; omega)]
  rw [if_neg hc0] at h
  rw [if_neg (mt (and_0xC0 b1 h80).1 hc0)]
  split at h
  · rename_i he0
    rw [if_pos ((and_0xE0 b1 hc0).2 he0)]
    rcases rest with _ | ⟨b2, _ | ⟨b3, _ | ⟨b4, rest⟩⟩⟩
    · cases h
    · cases h
    · cases h
    obtain ⟨rfl, rfl⟩ := Prod.mk.inj (Option.some.inj h)
    have h1 : p 1 = b2 := hp 1 (by simp)
    have h2 : p 2 = b3 := hp 2 (by simp)
    have h3 : p 3 = b4 := hp 3 (by simp)
    have hb1 : b1.toNat < 0xE0 := UInt8.lt_iff_toNat_lt.1 he0
    have hb2 := b2.toNat_lt
    have hb3 := b3.toNat_lt
    have hb4 := b4.toNat_lt
    have hlt : ofBigEndian [b1, b2, b3, b4] - (2 ^ 31 + 2 ^ 30) < 2 ^ 29 := by
      rw [ofBigEndian_four]
      omega
    refine ⟨Prod.ext ?_ rfl, hlt⟩
    apply UInt32.toNat_inj.1
    rw [h1, h2, h3, toNat_four, value_four hc0 he0,
      UInt32.toNat_ofNat_of_lt' (by simp only [UInt32.size]; omega)]
  · cases h

/-! ## The new signature -/

theorem size_append (l l' : List UInt8) : size (l ++ l') = size l + size l' := by
  rw [size, List.length_append, UInt32.ofNat_add]
  rfl

theorem size_cons (b : UInt8) (l : List UInt8) : size (b :: l) = 1 + size l :=
  size_append [b] l

theorem toNat_size {l : List UInt8} (h : l.length < 2 ^ 32) : (size l).toNat = l.length :=
  UInt32.toNat_ofNat_of_lt' h

theorem ReturnParts.newLocalsCount_eq (returnParts : ReturnParts) {ex state : List UInt8} :
    returnParts.newLocalsCount.toNat = (newLocals returnParts ex state).length := by
  cases returnParts <;> rfl

theorem size_newLocals (returnParts : ReturnParts) {ex state : List UInt8} :
    size (newLocals returnParts ex state).flatten = returnParts.returnSignatureTypeSize +
      (1 + size ex) + returnParts.callTargetReturnSizeForNewSignature + (1 + size state) := by
  cases returnParts with
  | void callTargetReturn =>
    simp only [newLocals, List.flatten_cons, List.flatten_nil, size_append, size_cons,
      ReturnParts.returnSignatureTypeSize, ReturnParts.callTargetReturnSizeForNewSignature]
    have : size [] = 0 := rfl
    grind
  | value returnSignatureType callTargetReturnSignature =>
    simp only [newLocals, List.flatten_cons, List.flatten_nil, size_append, size_cons,
      ReturnParts.returnSignatureTypeSize, ReturnParts.callTargetReturnSizeForNewSignature]
    have : size [] = 0 := rfl
    grind

/-- The signature that is written, its size and its number of locals, where it fits in the
buffer. -/
theorem newSignature_eq {original ex state : List UInt8} {locals : List (List UInt8)}
    {originalSignature : ℕ → UInt8} {returnParts : ReturnParts}
    (horiginal : original = [] ∧ locals = [] ∨ LocalVarSig original locals)
    (hlen : original.length < 2 ^ 32)
    (hread : ∀ i < original.length, originalSignature i = original.getD i 0) :
    newSignature originalSignature (size original) returnParts ex state =
      (compress (locals ++ newLocals returnParts ex state).length).bind fun buffer =>
        let signature := IMAGE_CEE_CS_CALLCONV_LOCAL_SIG ::
          (buffer ++ (locals ++ newLocals returnParts ex state).flatten)
        if signatureBufferSize < signature.length then none
        else some ⟨signature, size signature,
          UInt32.ofNat (locals ++ newLocals returnParts ex state).length⟩ := by
  have hcount := @ReturnParts.newLocalsCount_eq returnParts ex state
  have hfew : (newLocals returnParts ex state).length ≤ 4 := by
    cases returnParts <;> simp [newLocals]
  have hadded := @size_newLocals returnParts ex state
  unfold newSignature
  dsimp only
  rcases horiginal with ⟨rfl, rfl⟩ | ⟨count, rfl, hnumber, hlocals⟩
  · rw [if_pos (show size [] = 0 from rfl), hcount, List.nil_append]
    rcases hbuffer : compress (newLocals returnParts ex state).length with _ | buffer
    · rfl
    have hone : size buffer = 1 := by
      rw [size, length_compress_of_lt (by omega) hbuffer]
      rfl
    have hsize : size (IMAGE_CEE_CS_CALLCONV_LOCAL_SIG ::
        (buffer ++ (newLocals returnParts ex state).flatten)) = size [] +
        returnParts.returnSignatureTypeSize + (1 + size ex) +
        returnParts.callTargetReturnSizeForNewSignature + (1 + size state) + 2 := by
      rw [size_cons, size_append, hadded, hone]
      have : size [] = 0 := rfl
      grind
    have hnew : UInt32.ofNat (newLocals returnParts ex state).length = returnParts.newLocalsCount := by
      rw [← hcount, UInt32.ofNat_toNat]
    rw [Option.bind_some, hsize, hnew]
    rfl
  · have hflat : count.length + locals.flatten.length + 1 < 2 ^ 32 := by simpa using hlen
    have hsize : size (IMAGE_CEE_CS_CALLCONV_LOCAL_SIG :: (count ++ locals.flatten)) =
        1 + (size count + size locals.flatten) := by rw [size_cons, size_append]
    have hne : size (IMAGE_CEE_CS_CALLCONV_LOCAL_SIG :: (count ++ locals.flatten)) ≠ 0 := by
      intro h0
      have := toNat_size hlen
      rw [h0] at this
      cases this
    obtain ⟨hold, hn⟩ := corSigUncompressData_of_number hnumber
      (p := fun i => originalSignature (1 + i)) fun i hi => by
        rw [hread (1 + i) (by simp; omega), Nat.add_comm 1 i, List.getD_cons_succ,
          List.getD_append _ _ _ _ hi]
    have hcopy : size (IMAGE_CEE_CS_CALLCONV_LOCAL_SIG :: (count ++ locals.flatten)) - 1 -
        size count = size locals.flatten := by
      rw [hsize]
      grind
    have hprevious : seg originalSignature (1 + (size count).toNat)
        (1 + (size count).toNat + (size locals.flatten).toNat) = locals.flatten := by
      obtain ⟨-, -, hrest⟩ := seg_eq_cons (seg_eq_of_getD hread) (Nat.zero_le _)
      obtain ⟨-, -, hlast⟩ := seg_eq_append hrest (by simp)
      have hend : (IMAGE_CEE_CS_CALLCONV_LOCAL_SIG :: (count ++ locals.flatten)).length =
          1 + count.length + locals.flatten.length := by
        rw [List.length_cons, List.length_append]
        omega
      rw [toNat_size (by omega), toNat_size (by omega), ← hend]
      rwa [Nat.zero_add] at hlast
    have htotal : (returnParts.newLocalsCount + UInt32.ofNat locals.length).toNat =
        (locals ++ newLocals returnParts ex state).length := by
      rw [UInt32.toNat_add, hcount, UInt32.toNat_ofNat_of_lt' (by simp only [UInt32.size]; omega),
        List.length_append]
      omega
    rw [if_neg hne, hold]
    dsimp only
    rw [hcopy, hprevious, htotal]
    rcases hbuffer : compress (locals ++ newLocals returnParts ex state).length with _ | buffer
    · rfl
    have hnewSize : size (IMAGE_CEE_CS_CALLCONV_LOCAL_SIG ::
        (buffer ++ (locals ++ newLocals returnParts ex state).flatten)) =
        size (IMAGE_CEE_CS_CALLCONV_LOCAL_SIG :: (count ++ locals.flatten)) +
        returnParts.returnSignatureTypeSize + (1 + size ex) +
        returnParts.callTargetReturnSizeForNewSignature + (1 + size state) +
        (size buffer - size count) := by
      rw [hsize, List.flatten_append, size_cons, size_append, size_append, hadded]
      grind
    rw [Option.bind_some, hnewSize, ← htotal, UInt32.ofNat_toNat, List.flatten_append]
    rfl

theorem newSignature_spec {original ex state : List UInt8} {locals : List (List UInt8)}
    {originalSignature : ℕ → UInt8} {returnParts : ReturnParts} {new : NewSignature}
    (horiginal : original = [] ∧ locals = [] ∨ LocalVarSig original locals)
    (hlen : original.length < 2 ^ 32)
    (hread : ∀ i < original.length, originalSignature i = original.getD i 0)
    (htypes : ∀ type ∈ newLocals returnParts ex state, TypeSig type)
    (h : newSignature originalSignature (size original) returnParts ex state = some new) :
    new.newSignatureSize.toNat = new.newSignature.length ∧
      LocalVarSig new.newSignature (locals ++ newLocals returnParts ex state) ∧
      new.newLocalsCount.toNat = locals.length + (newLocals returnParts ex state).length := by
  rw [newSignature_eq horiginal hlen hread, Option.bind_eq_some_iff] at h
  obtain ⟨buffer, hbuffer, h⟩ := h
  dsimp only at h
  split at h
  · cases h
  rename_i hfits
  obtain rfl := Option.some.inj h
  refine ⟨toNat_size (lt_of_le_of_lt (not_lt.1 hfits) (by decide)),
    ⟨buffer, rfl, number_of_compress hbuffer, ?_⟩, ?_⟩
  · intro type htype
    rcases List.mem_append.1 htype with h | h
    · rcases horiginal with ⟨-, rfl⟩ | ⟨count, -, -, hlocals⟩
      · cases h
      · exact hlocals type h
    · exact htypes type h
  · have hlt : (locals ++ newLocals returnParts ex state).length < 2 ^ 29 := by
      by_contra hle
      rw [compress, if_neg (by omega), if_neg (by omega), if_neg hle] at hbuffer
      cases hbuffer
    rw [← List.length_append]
    exact UInt32.toNat_ofNat_of_lt' (by simp only [UInt32.size]; omega)

/-! ## The cached tokens -/

open CachedToken

/-- A token that is cached stays. -/
def Extends (s s' : CallTargetTokens) : Prop :=
  ∀ field : CachedToken, s field ≠ field.nil → s' field = s field

theorem Extends.refl (s : CallTargetTokens) : Extends s s := fun _ _ => rfl

theorem Extends.trans {s t u : CallTargetTokens} (h : Extends s t) (h' : Extends t u) :
    Extends s u := by
  intro field hne
  rw [h' field (by rwa [h field hne]), h field hne]

/-- `m` caches the tokens of `fields`, and no others. -/
structure Ensures (fields : List CachedToken) (m : M Unit) : Prop where
  extends_ : Always Extends m
  others : ∀ s, ∀ field ∉ fields, (runWith m s).2 field = s field
  ok : ∀ {s s'}, runWith m s = (.ok (), s') → ∀ field ∈ fields, s' field ≠ field.nil
  idle : ∀ {s}, (∀ field ∈ fields, s field ≠ field.nil) → runWith m s = (.ok (), s)

theorem Ensures.others_of_run {fields : List CachedToken} {m : M Unit} {s s' : CallTargetTokens}
    {result : Except Stop Unit} (hm : Ensures fields m) (h : runWith m s = (result, s'))
    {field : CachedToken} (hfield : field ∉ fields) : s' field = s field := by
  have := hm.others s field hfield
  rwa [h] at this

theorem Ensures.extends_of_run {fields : List CachedToken} {m : M Unit} {s s' : CallTargetTokens}
    {result : Except Stop Unit} (hm : Ensures fields m) (h : runWith m s = (result, s')) :
    Extends s s' := by
  have := hm.extends_ s
  rwa [h] at this

variable {metadata : ModuleMetadata} {s s' : CallTargetTokens} {field : CachedToken}
  {define : CallTargetTokens → Except HRESULT DefinedToken}

theorem ensure_of_ne_nil (h : s field ≠ field.nil) :
    runWith (ensure field define) s = (.ok (), s) := by
  simp only [ensure, runWith_bind, runWith_get, if_neg h, runWith_pure]

/-- The token is there, cannot be defined, or is now there. -/
theorem ensure_cases (field : CachedToken) (define : CallTargetTokens → Except HRESULT DefinedToken)
    (s : CallTargetTokens) :
    s field ≠ field.nil ∧ runWith (ensure field define) s = (.ok (), s) ∨
    s field = field.nil ∧ (∃ hr, define s = .error hr ∧
      runWith (ensure field define) s = (.error (.failed hr), s)) ∨
    s field = field.nil ∧ ∃ token, define s = .ok token ∧
      runWith (ensure field define) s = (.ok (), Function.update s field token) := by
  by_cases h : s field = field.nil
  · rcases hdefine : define s with hr | token
    · refine .inr (.inl ⟨h, hr, rfl, ?_⟩)
      simp only [ensure, runWith_bind, runWith_get, if_pos h, hdefine, ofResult, runWith_throw]
    · refine .inr (.inr ⟨h, token, rfl, ?_⟩)
      simp only [ensure, runWith_bind, runWith_get, if_pos h, hdefine, ofResult, runWith_pure,
        runWith_modify]
  · exact .inl ⟨h, ensure_of_ne_nil h⟩

theorem defined_ne_nil (token : DefinedToken) (field : CachedToken) :
    (token : Token) ≠ field.nil := by
  intro h
  refine token.2 ?_
  rw [h]
  cases field <;> rfl

theorem ensures_ensure : Ensures [field] (ensure field define) where
  extends_ s := by
    rcases ensure_cases field define s with ⟨h, hrun⟩ | ⟨h, hr, -, hrun⟩ | ⟨h, token, -, hrun⟩
    · rw [hrun]; exact Extends.refl s
    · rw [hrun]; exact Extends.refl s
    · rw [hrun]
      intro other hne
      exact Function.update_of_ne (by rintro rfl; exact hne h) _ _
  others s other hother := by
    have hne : other ≠ field := fun h => hother (h ▸ List.mem_cons_self)
    rcases ensure_cases field define s with ⟨h, hrun⟩ | ⟨h, hr, -, hrun⟩ | ⟨h, token, -, hrun⟩
    · rw [hrun]
    · rw [hrun]
    · rw [hrun]; exact Function.update_of_ne hne _ _
  ok {s s'} h other hother := by
    obtain rfl := List.mem_singleton.1 hother
    rcases ensure_cases other define s with ⟨hne, hrun⟩ | ⟨-, hr, -, hrun⟩ | ⟨-, token, -, hrun⟩
    · obtain rfl := congrArg Prod.snd (hrun.symm.trans h)
      exact hne
    · cases hrun.symm.trans h
    · obtain rfl : Function.update s other token = s' := congrArg Prod.snd (hrun.symm.trans h)
      rw [Function.update_self]
      exact defined_ne_nil token other
  idle h := ensure_of_ne_nil (h field List.mem_cons_self)

theorem Ensures.bind {fields fields' : List CachedToken} {m m' : M Unit} (h : Ensures fields m)
    (h' : Ensures fields' m') : Ensures (fields ++ fields') (m >>= fun _ => m') where
  extends_ := Always.bind (R := Extends) Extends.trans h.extends_ fun _ => h'.extends_
  others s field hnot := by
    rw [List.mem_append, not_or] at hnot
    have hfirst := h.others s field hnot.1
    rw [runWith_bind]
    rcases hrun : runWith m s with ⟨e | u, s₁⟩
    · rwa [hrun] at hfirst
    · rw [hrun] at hfirst
      exact (h'.others s₁ field hnot.2).trans hfirst
  ok {s s'} hrun field hmem := by
    obtain ⟨⟨⟩, s₁, hrun₁, hrun₂⟩ := runWith_bind_eq_ok.1 hrun
    rcases List.mem_append.1 hmem with hmem | hmem
    · have hne := h.ok hrun₁ field hmem
      have hext := h'.extends_ s₁ field hne
      rw [hrun₂] at hext
      exact fun hnil => hne (hext.symm.trans hnil)
    · exact h'.ok hrun₂ field hmem
  idle {s} hne := by
    rw [runWith_bind_eq_ok]
    refine ⟨(), s, h.idle fun field hmem => ?_, h'.idle fun field hmem => ?_⟩
    · exact hne field (List.mem_append_left _ hmem)
    · exact hne field (List.mem_append_right _ hmem)

def corLibTokens : List CachedToken :=
  [corLibAssemblyRef, objectTypeRef, exTypeRef, typeRef, runtimeTypeHandleRef,
    getTypeFromHandleToken, runtimeMethodHandleRef]

def profilerTokens : List CachedToken :=
  [profilerAssemblyRef, callTargetTypeRef, callTargetStateTypeRef, callTargetStateTypeGetDefault]

theorem ensures_ensureCorLibTokens : Ensures corLibTokens (ensureCorLibTokens metadata) :=
  ensures_ensure.bind (ensures_ensure.bind (ensures_ensure.bind (ensures_ensure.bind
    (ensures_ensure.bind (ensures_ensure.bind ensures_ensure)))))

theorem ensures_ensureBaseCalltargetTokens :
    Ensures (corLibTokens ++ profilerTokens) (ensureBaseCalltargetTokens metadata) :=
  ensures_ensureCorLibTokens.bind
    (ensures_ensure.bind (ensures_ensure.bind (ensures_ensure.bind ensures_ensure)))

/-- All that `EnsureBaseCalltargetTokens` defines is there. -/
def Based (s : CallTargetTokens) : Prop :=
  ∀ field ∈ corLibTokens ++ profilerTokens, s field ≠ field.nil

/-- The reference to the assembly of the managed profiler, once it is there. -/
def profilerScope (metadata : ModuleMetadata) (s : CallTargetTokens) : Option Token :=
  if s profilerAssemblyRef = profilerAssemblyRef.nil then
    metadata.defineProfilerAssemblyRef.toOption.map (·.1)
  else some (s profilerAssemblyRef)

/-- `CallTargetReturn` can be referred to: the reference is there, or can be defined. -/
def CanReferToCallTargetReturn (metadata : ModuleMetadata) (s : CallTargetTokens) : Prop :=
  s callTargetReturnVoidTypeRef ≠ callTargetReturnVoidTypeRef.nil ∨ ∃ scope token,
    profilerScope metadata s = some scope ∧
      metadata.defineTypeRefByName scope managed_profiler_calltarget_returntype = .ok token

theorem profilerScope_of_based (h : Based s) :
    profilerScope metadata s = some (s profilerAssemblyRef) :=
  if_neg (h profilerAssemblyRef (by decide))

/-- Defining the base tokens changes nothing about `CallTargetReturn`. -/
theorem canRefer_ensureBaseCalltargetTokens
    (h : runWith (ensureBaseCalltargetTokens metadata) s = (.ok (), s')) :
    CanReferToCallTargetReturn metadata s' ↔ CanReferToCallTargetReturn metadata s := by
  have hbased : Based s' := ensures_ensureBaseCalltargetTokens.ok h
  have hvoid : s' callTargetReturnVoidTypeRef = s callTargetReturnVoidTypeRef :=
    ensures_ensureBaseCalltargetTokens.others_of_run h (by decide)
  have hscope : profilerScope metadata s = some (s' profilerAssemblyRef) := by
    obtain ⟨⟨⟩, s₁, hcorLib, h⟩ := runWith_bind_eq_ok.1 h
    obtain ⟨⟨⟩, s₂, hprofiler, h⟩ := runWith_bind_eq_ok.1 h
    have h01 : s₁ profilerAssemblyRef = s profilerAssemblyRef :=
      ensures_ensureCorLibTokens.others_of_run hcorLib (by decide)
    have h25 : s' profilerAssemblyRef = s₂ profilerAssemblyRef :=
      (ensures_ensure.bind (ensures_ensure.bind ensures_ensure)).others_of_run h (by decide)
    rw [h25, profilerScope, ← h01]
    rcases ensure_cases profilerAssemblyRef (fun _ => metadata.defineProfilerAssemblyRef) s₁ with
      ⟨hne, hrun⟩ | ⟨hnil, hr, -, hrun⟩ | ⟨hnil, token, hdefine, hrun⟩
    · obtain rfl : s₁ = s₂ := congrArg Prod.snd (hrun.symm.trans hprofiler)
      exact if_neg hne
    · cases hrun.symm.trans hprofiler
    · obtain rfl : Function.update s₁ profilerAssemblyRef token = s₂ :=
        congrArg Prod.snd (hrun.symm.trans hprofiler)
      rw [if_pos hnil, hdefine, Function.update_self]
      rfl
  rw [CanReferToCallTargetReturn, CanReferToCallTargetReturn, hvoid, hscope,
    profilerScope_of_based hbased]

/-! ## The return type -/

theorem orNil_cases {nil token : Token} {m : M Token}
    (h : runWith (orNil nil m) s = (.ok token, s')) :
    runWith m s = (.ok token, s') ∨ token = nil ∧ ∃ hr, runWith m s = (.error (.failed hr), s') := by
  rw [orNil, runWith_tryCatch] at h
  rcases hm : runWith m s with ⟨e | a, s₁⟩
  · rw [hm] at h
    rcases e with hr | _
    · obtain ⟨hok, rfl⟩ := Prod.mk.inj h
      exact .inr ⟨(Except.ok.inj hok).symm, hr, rfl⟩
    · cases (Prod.mk.inj h).1
  · rw [hm] at h
    exact .inl h

/-- From the base tokens on, `CallTargetReturn` is returned exactly when it can be referred
to. -/
theorem getTargetVoidReturnTypeRef_spec {token : Token} (hbased : Based s)
    (h : runWith (getTargetVoidReturnTypeRef metadata) s = (.ok token, s')) :
    token = s' callTargetReturnVoidTypeRef ∧ Extends s s' ∧
      (s' callTargetReturnVoidTypeRef ≠ mdTypeRefNil ↔ CanReferToCallTargetReturn metadata s) := by
  have hbase : runWith (ensureBaseCalltargetTokens metadata) s = (.ok (), s) :=
    ensures_ensureBaseCalltargetTokens.idle hbased
  have hcan : CanReferToCallTargetReturn metadata s ↔
      s callTargetReturnVoidTypeRef ≠ callTargetReturnVoidTypeRef.nil ∨ ∃ token,
        typeRefIn metadata profilerAssemblyRef managed_profiler_calltarget_returntype s = .ok token := by
    rw [CanReferToCallTargetReturn, profilerScope_of_based hbased]
    simp [typeRefIn]
  rw [hcan]
  simp only [getTargetVoidReturnTypeRef, orNil, runWith_tryCatch, runWith_bind, hbase] at h
  rcases ensure_cases callTargetReturnVoidTypeRef
      (typeRefIn metadata profilerAssemblyRef managed_profiler_calltarget_returntype) s with
    ⟨hne, hrun⟩ | ⟨hnil, hr, hdefine, hrun⟩ | ⟨hnil, defined, hdefine, hrun⟩
  · simp only [hrun, runWith_get, runWith_pure] at h
    obtain ⟨htoken, rfl⟩ := Prod.mk.inj h
    exact ⟨(Except.ok.inj htoken).symm, Extends.refl s, fun _ => .inl hne, fun _ => hne⟩
  · simp only [hrun, runWith_pure] at h
    obtain ⟨htoken, rfl⟩ := Prod.mk.inj h
    refine ⟨(Except.ok.inj htoken).symm.trans hnil.symm, Extends.refl s, ?_⟩
    constructor
    · exact fun hne => absurd hnil hne
    · rintro (hne | ⟨token, hok⟩)
      · exact hne
      · cases hdefine.symm.trans hok
  · simp only [hrun, runWith_get, runWith_pure] at h
    obtain ⟨htoken, rfl⟩ := Prod.mk.inj h
    refine ⟨(Except.ok.inj htoken).symm, ?_, ?_⟩
    · intro other hother
      exact Function.update_of_ne (by rintro rfl; exact hother hnil) _ _
    · constructor
      · exact fun _ => .inr ⟨defined, hdefine⟩
      · intro _
        rw [Function.update_self]
        exact defined_ne_nil defined callTargetReturnVoidTypeRef

theorem ofResult_ok {α : Type} {result : Except HRESULT α} {a : α}
    (h : runWith (ofResult result) s = (.ok a, s')) : result = .ok a ∧ s' = s := by
  rcases result with hr | b
  · cases (Prod.mk.inj h).1
  · obtain ⟨hok, rfl⟩ := Prod.mk.inj h
    exact ⟨congrArg _ (Except.ok.inj hok), rfl⟩

/-- A failure would be noticed by `GetTypeSpecFromToken`. -/
theorem getTargetReturnValueTypeRef_spec {token : Token} {ret signature : List UInt8}
    (hlaw : metadata.Lawful) (hbased : Based s)
    (h : runWith (getTargetReturnValueTypeRef metadata ret) s = (.ok token, s'))
    (hsignature : metadata.getTypeSpecFromToken token = .ok signature) :
    signature = callTargetReturnSignature s' ret ∧ Extends s s' ∧
      s' callTargetReturnTypeRef ≠ mdTypeRefNil := by
  rcases orNil_cases h with h | ⟨rfl, -⟩
  · obtain ⟨⟨⟩, s₁, hbase, h1⟩ := runWith_bind_eq_ok.1 h
    obtain ⟨⟨⟩, s₂, hensure, h2⟩ := runWith_bind_eq_ok.1 h1
    obtain ⟨tokens, s₃, hget, h3⟩ := runWith_bind_eq_ok.1 h2
    obtain rfl : s = s₁ :=
      congrArg Prod.snd ((ensures_ensureBaseCalltargetTokens.idle hbased).symm.trans hbase)
    obtain ⟨htokens, rfl⟩ := Prod.mk.inj hget
    obtain rfl := Except.ok.inj htokens
    dsimp only at h3
    split at h3
    · cases (Prod.mk.inj h3).1
    obtain ⟨defined, s₄, hresult, h4⟩ := runWith_bind_eq_ok.1 h3
    obtain ⟨hspec, rfl⟩ := ofResult_ok hresult
    obtain ⟨htoken, rfl⟩ := Prod.mk.inj h4
    obtain rfl := Except.ok.inj htoken
    rw [hlaw.getTypeSpec hspec] at hsignature
    exact ⟨(Except.ok.inj hsignature).symm, ensures_ensure.extends_of_run hensure,
      ensures_ensure.ok hensure callTargetReturnTypeRef List.mem_cons_self⟩
  · exact absurd hsignature (hlaw.getTypeSpec_nil signature)

/-! ## The locals -/

/-- The type of the `CallTargetReturn` local. -/
def callTargetReturnType (tokens : CallTargetTokens) (ret : List UInt8) : List UInt8 :=
  if isVoid ret then ELEMENT_TYPE_VALUETYPE :: corSigCompressToken (tokens callTargetReturnVoidTypeRef)
  else callTargetReturnSignature tokens ret

def returnLocals (ret : List UInt8) : List (List UInt8) := if isVoid ret then [] else [ret]

/-- The locals to be there behind those of the method. -/
def addedLocals (tokens : CallTargetTokens) (ret : List UInt8) : List (List UInt8) :=
  returnLocals ret ++ [ELEMENT_TYPE_CLASS :: corSigCompressToken (tokens exTypeRef),
    callTargetReturnType tokens ret,
    ELEMENT_TYPE_VALUETYPE :: corSigCompressToken (tokens callTargetStateTypeRef)]

/-- The new signature declares `locals` and the added ones, in the one way to read it, under
the indices returned. -/
structure Rewritten (locals : List (List UInt8)) (ret : List UInt8) (tokens : CallTargetTokens)
    (new : ModifiedLocalSig) : Prop where
  size_eq : new.newSignatureSize.toNat = new.newSignature.length
  signature : ∀ types, LocalVarSig new.newSignature types ↔ types = locals ++ addedLocals tokens ret
  exception : tokens exTypeRef ≠ mdTypeRefNil
  callTargetReturn : (if isVoid ret then tokens callTargetReturnVoidTypeRef
    else tokens callTargetReturnTypeRef) ≠ mdTypeRefNil
  callTargetState : tokens callTargetStateTypeRef ≠ mdTypeRefNil
  returnValueIndex : if isVoid ret then new.returnValueIndex = -1
    else new.returnValueIndex.toNat = locals.length
  exceptionIndex : new.exceptionIndex.toNat = locals.length + (returnLocals ret).length
  callTargetReturnIndex :
    new.callTargetReturnIndex.toNat = locals.length + (returnLocals ret).length + 1
  callTargetStateIndex :
    new.callTargetStateIndex.toNat = locals.length + (returnLocals ret).length + 2

/-- The locals of the method, none without a signature. -/
def OriginalLocals (metadata : ModuleMetadata) (localVarSig : Token) (locals : List (List UInt8)) :
    Prop :=
  if localVarSig = mdTokenNil then locals = []
  else ∀ blob : Blob, metadata.getSigFromToken localVarSig = .ok blob → LocalVarSig blob locals

/-- `void`, or a type. -/
def ReturnType (ret : List UInt8) : Prop :=
  ret = [ELEMENT_TYPE_VOID] ∨ TypeSig ret ∧ ¬ isVoid ret

theorem encodedToken_lt (tk : Token) : (encodedToken tk).toNat < 2 ^ 26 := by
  have hrid : (ridFromToken tk <<< 2).toNat < 2 ^ 26 := by
    have hle : (ridFromToken tk).toNat ≤ 0x00FFFFFF := by
      rw [ridFromToken, UInt32.toNat_and]
      exact Nat.and_le_right
    rw [UInt32.toNat_shiftLeft, Nat.shiftLeft_eq]
    have : (2 : UInt32).toNat % 32 = 2 := rfl
    rw [this]
    omega
  unfold encodedToken
  dsimp only
  split_ifs
  · rw [UInt32.toNat_or]
    exact Nat.or_lt_two_pow hrid (by decide)
  · rw [UInt32.toNat_or]
    exact Nat.or_lt_two_pow hrid (by decide)
  · rw [UInt32.toNat_or]
    exact Nat.or_lt_two_pow hrid (by decide)
  · exact hrid

theorem number_corSigCompressToken (tk : Token) : ∃ n, Number (corSigCompressToken tk) n := by
  obtain ⟨bytes, h⟩ := compress_of_lt ((encodedToken_lt tk).trans (by decide))
  refine ⟨(encodedToken tk).toNat, ?_⟩
  rw [corSigCompressToken, h]
  exact number_of_compress h

theorem typeSig_token {b : UInt8} (hb : shape b = .number) (tk : Token) :
    TypeSig (b :: corSigCompressToken tk) := by
  obtain ⟨n, hn⟩ := number_corSigCompressToken tk
  exact .numbered hb hn

theorem isVoid_void : isVoid [ELEMENT_TYPE_VOID] := rfl

theorem typeSig_callTargetReturnType {tokens : CallTargetTokens} {ret : List UInt8}
    (hret : ReturnType ret) : TypeSig (callTargetReturnType tokens ret) := by
  rw [callTargetReturnType]
  split
  · exact typeSig_token (by decide) _
  · rcases hret with rfl | ⟨htype, -⟩
    · exact absurd isVoid_void ‹_›
    · obtain ⟨n, hn⟩ := number_corSigCompressToken (tokens callTargetReturnTypeRef)
      have harg : ret = [ret].flatten := by simp
      rw [callTargetReturnSignature, harg]
      exact .genericInst (by decide) (by decide) hn (show Number [0x01] 1 from rfl)
        (List.forall_mem_singleton.2 (harg ▸ htype))

theorem typeSig_addedLocals {tokens : CallTargetTokens} {ret : List UInt8} (hret : ReturnType ret) :
    ∀ type ∈ addedLocals tokens ret, TypeSig type := by
  intro type htype
  rw [addedLocals, List.mem_append] at htype
  rcases htype with htype | htype
  · rw [returnLocals] at htype
    split at htype
    · cases htype
    · obtain rfl := List.mem_singleton.1 htype
      rcases hret with rfl | ⟨hsig, -⟩
      · exact absurd isVoid_void ‹_›
      · exact hsig
  · simp only [List.mem_cons, List.not_mem_nil, or_false] at htype
    rcases htype with rfl | rfl | rfl
    · exact typeSig_token (by decide) _
    · exact typeSig_callTargetReturnType hret
    · exact typeSig_token (by decide) _

theorem getOriginalSignature_spec {outside : ℕ → UInt8} {localVarSig : Token}
    {locals : List (List UInt8)} {original : ℕ → UInt8} {originalSize : UInt32}
    (hlocals : OriginalLocals metadata localVarSig locals)
    (h : runWith (getOriginalSignature metadata outside localVarSig) s =
      (.ok (original, originalSize), s')) :
    s' = s ∧ ∃ bytes : List UInt8, (bytes = [] ∧ locals = [] ∨ LocalVarSig bytes locals) ∧
      originalSize = size bytes ∧ bytes.length < 2 ^ 32 ∧
      ∀ i < bytes.length, original i = bytes.getD i 0 := by
  unfold getOriginalSignature at h
  unfold OriginalLocals at hlocals
  split at h
  · rw [if_neg ‹_›] at hlocals
    obtain ⟨blob, s₁, hresult, h1⟩ := runWith_bind_eq_ok.1 h
    obtain ⟨hsig, rfl⟩ := ofResult_ok hresult
    obtain ⟨tokens, s₂, hget, h2⟩ := runWith_bind_eq_ok.1 h1
    obtain ⟨-, rfl⟩ := Prod.mk.inj hget
    split at h2
    · cases (Prod.mk.inj h2).1
    obtain ⟨hok, rfl⟩ := Prod.mk.inj h2
    obtain ⟨rfl, rfl⟩ := Prod.mk.inj (Except.ok.inj hok)
    refine ⟨rfl, blob, .inr (hlocals blob hsig), rfl, blob.2, fun i hi => ?_⟩
    exact (List.getD_eq_getElem _ _ hi).trans (List.getD_eq_getElem _ _ hi).symm
  · rw [if_pos (not_not.1 ‹_›)] at hlocals
    obtain ⟨hok, rfl⟩ := Prod.mk.inj h
    obtain ⟨rfl, rfl⟩ := Prod.mk.inj (Except.ok.inj hok)
    exact ⟨rfl, [], .inl ⟨rfl, hlocals⟩, rfl, by decide, fun i hi => absurd hi (Nat.not_lt_zero i)⟩

theorem getReturnParts_spec {ret : List UInt8} {token : Token} {parts : ReturnParts}
    (hlaw : metadata.Lawful) (hbased : Based s)
    (h : runWith (getReturnParts metadata ret) s = (.ok (token, parts), s')) :
    Extends s s' ∧
      (∀ ex state, newLocals parts ex state = returnLocals ret ++ [ELEMENT_TYPE_CLASS :: ex,
        callTargetReturnType s' ret, ELEMENT_TYPE_VALUETYPE :: state]) ∧
      ((if isVoid ret then s' callTargetReturnVoidTypeRef else s' callTargetReturnTypeRef) ≠
        mdTypeRefNil ↔ ¬ isVoid ret ∨ CanReferToCallTargetReturn metadata s) := by
  unfold getReturnParts at h
  unfold returnLocals callTargetReturnType
  split at h
  · rename_i hisVoid
    obtain ⟨void, s₁, hvoid, h1⟩ := runWith_bind_eq_ok.1 h
    obtain ⟨hok, rfl⟩ := Prod.mk.inj h1
    obtain ⟨rfl, rfl⟩ := Prod.mk.inj (Except.ok.inj hok)
    obtain ⟨rfl, hext, hcan⟩ := getTargetVoidReturnTypeRef_spec hbased hvoid
    simp only [hisVoid, not_true, false_or]
    exact ⟨hext, fun _ _ => rfl, hcan⟩
  · rename_i hisVoid
    obtain ⟨value, s₁, hvalue, h1⟩ := runWith_bind_eq_ok.1 h
    split at h1
    · obtain ⟨hok, rfl⟩ := Prod.mk.inj h1
      obtain ⟨rfl, rfl⟩ := Prod.mk.inj (Except.ok.inj hok)
      obtain ⟨rfl, hext, hne⟩ := getTargetReturnValueTypeRef_spec hlaw hbased hvalue ‹_›
      simp only [if_neg hisVoid]
      exact ⟨hext, fun _ _ => rfl, fun _ => .inl hisVoid, fun _ => hne⟩
    · cases (Prod.mk.inj h1).1

/-! ## A module -/

/-- A token, if it is one. -/
def definedToken (token : Token) : Except HRESULT DefinedToken :=
  if h : ridFromToken token ≠ 0 then .ok ⟨token, h⟩ else .error E_FAIL

/-- `CallTargetReturn<int>`. -/
def intCallTargetReturn : List UInt8 :=
  [ELEMENT_TYPE_GENERICINST, ELEMENT_TYPE_VALUETYPE, 0x21, 0x01, ELEMENT_TYPE_I4]

/-- A module with one method, that has an `int` for its only local. It has room for the type
references with these names. -/
def oneLocal (names : List String) : ModuleMetadata where
  defineCorLibAssemblyRef := definedToken 0x23000001
  defineProfilerAssemblyRef := definedToken 0x23000002
  defineTypeRefByName _ name :=
    if name ∈ names then definedToken (0x01000001 + UInt32.ofNat (names.idxOf name)) else .error E_FAIL
  defineMemberRef type _ _ := definedToken (0x0A000000 + ridFromToken type)
  getTokenFromTypeSpec signature :=
    if signature = intCallTargetReturn then definedToken 0x1B000001 else .error E_FAIL
  getTypeSpecFromToken token :=
    if token = 0x1B000001 then .ok intCallTargetReturn else .error E_FAIL
  getSigFromToken token :=
    if token = 0x11000001 then
      .ok ⟨[IMAGE_CEE_CS_CALLCONV_LOCAL_SIG, 0x01, ELEMENT_TYPE_I4], by decide⟩
    else .error E_FAIL
  getTokenFromSig _ _ := definedToken 0x11000002

theorem lawful_oneLocal (names : List String) : (oneLocal names).Lawful where
  getTypeSpec {signature token} h := by
    simp only [oneLocal] at h ⊢
    split at h
    · obtain rfl := ‹signature = _›
      obtain rfl : (⟨0x1B000001, by decide⟩ : DefinedToken) = token := Except.ok.inj h
      rfl
    · cases h
  getTypeSpec_nil signature h := by cases h

def baseNames : List String :=
  ["System.Object", "System.Exception", "System.Type", "System.RuntimeTypeHandle",
    "System.RuntimeMethodHandle", managed_profiler_calltarget_type,
    managed_profiler_calltarget_statetype]

theorem originalLocals_oneLocal (names : List String) :
    OriginalLocals (oneLocal names) 0x11000001 [[ELEMENT_TYPE_I4]] := by
  rw [OriginalLocals, if_neg (by decide)]
  intro blob h
  obtain rfl := Except.ok.inj h
  exact ⟨[0x01], rfl, rfl, List.forall_mem_singleton.2 (.alone (by decide))⟩

/-! ## The result -/

/-- The signature is rewritten as it should be exactly when the method returns a value or
`CallTargetReturn` can be referred to. -/
theorem modifyLocalSig_iff (hlaw : metadata.Lawful) (outside : ℕ → UInt8) (localVarSig : Token)
    {locals : List (List UInt8)} {ret : List UInt8} {new : ModifiedLocalSig}
    (hlocals : OriginalLocals metadata localVarSig locals) (hret : ReturnType ret)
    (h : runWith (modifyLocalSig metadata outside localVarSig ret) s = (.ok new, s')) :
    Rewritten locals ret s' new ↔ ¬ isVoid ret ∨ CanReferToCallTargetReturn metadata s := by
  obtain ⟨⟨⟩, s₁, hbase, h1⟩ := runWith_bind_eq_ok.1 h
  obtain ⟨⟨original, originalSize⟩, s₂, horiginal, h2⟩ := runWith_bind_eq_ok.1 h1
  obtain ⟨rfl, bytes, hsig, rfl, hlen, hread⟩ := getOriginalSignature_spec hlocals horiginal
  obtain ⟨tokens, s₃, hget, h3⟩ := runWith_bind_eq_ok.1 h2
  obtain ⟨htokens, rfl⟩ := Prod.mk.inj hget
  obtain rfl := Except.ok.inj htokens
  obtain ⟨⟨token, parts⟩, s₄, hparts, h4⟩ := runWith_bind_eq_ok.1 h3
  have hbased : Based s₂ := ensures_ensureBaseCalltargetTokens.ok hbase
  obtain ⟨hext, hadded, hcan⟩ := getReturnParts_spec hlaw hbased hparts
  have hex : s₄ exTypeRef = s₂ exTypeRef := hext _ (hbased exTypeRef (by decide))
  have hstate : s₄ callTargetStateTypeRef = s₂ callTargetStateTypeRef :=
    hext _ (hbased callTargetStateTypeRef (by decide))
  dsimp only at h4
  split at h4
  · cases (Prod.mk.inj h4).1
  rename_i signature hnew
  obtain ⟨localVarSig, s₅, hresult, h5⟩ := runWith_bind_eq_ok.1 h4
  obtain ⟨-, rfl⟩ := ofResult_ok hresult
  obtain ⟨tokens, s₆, hget', h6⟩ := runWith_bind_eq_ok.1 h5
  obtain ⟨htokens', rfl⟩ := Prod.mk.inj hget'
  obtain rfl := Except.ok.inj htokens'
  obtain ⟨hok, rfl⟩ := Prod.mk.inj h6
  obtain rfl := Except.ok.inj hok
  have hlocals' : newLocals parts (corSigCompressToken (s₂ exTypeRef))
      (corSigCompressToken (s₂ callTargetStateTypeRef)) = addedLocals s₅ ret := by
    rw [hadded, ← hex, ← hstate]
    rfl
  have htypes : ∀ type ∈ addedLocals s₅ ret, TypeSig type := typeSig_addedLocals hret
  rw [← hlocals'] at htypes
  obtain ⟨hsize, hsigNew, hcount⟩ := newSignature_spec hsig hlen hread htypes hnew
  rw [hlocals'] at hsigNew hcount
  have hcanRefer := canRefer_ensureBaseCalltargetTokens hbase
  rw [← hcanRefer, ← hcan]
  constructor
  · exact fun hrewritten => hrewritten.callTargetReturn
  · intro hne
    have hthree : (addedLocals s₅ ret).length = (returnLocals ret).length + 3 := by
      rw [addedLocals, List.length_append]
      rfl
    rw [hthree] at hcount
    have hindex : ∀ k : UInt32, k.toNat ≤ signature.newLocalsCount.toNat →
        (signature.newLocalsCount - k).toNat = signature.newLocalsCount.toNat - k.toNat :=
      fun k hk => UInt32.toNat_sub_of_le _ _ (UInt32.le_iff_toNat_le.2 hk)
    have h1 : (1 : UInt32).toNat = 1 := rfl
    have h2 : (2 : UInt32).toNat = 2 := rfl
    have h3 : (3 : UInt32).toNat = 3 := rfl
    have h4 : (4 : UInt32).toNat = 4 := rfl
    refine ⟨hsize, fun types => ⟨fun h => h.unique hsigNew, fun h => h ▸ hsigNew⟩, ?_, hne, ?_, ?_,
      ?_, ?_, ?_⟩
    · rw [hex]
      exact hbased exTypeRef (by decide)
    · rw [hstate]
      exact hbased callTargetStateTypeRef (by decide)
    · by_cases hvoid : isVoid ret
      · rw [if_pos hvoid]
        exact if_pos hvoid
      · have hone : (returnLocals ret).length = 1 := by rw [returnLocals, if_neg hvoid]; rfl
        rw [if_neg hvoid]
        dsimp only
        rw [if_neg hvoid, hindex 4 (by omega)]
        omega
    · rw [hindex 3 (by omega)]
      omega
    · rw [hindex 2 (by omega)]
      omega
    · rw [hindex 1 (by omega)]
      omega

/-- `int M()` in a module with room for `CallTargetReturn<T>`. -/
theorem modifyLocalSig_int : ∃ new tokens,
    runWith (modifyLocalSig (oneLocal (baseNames ++ [managed_profiler_calltarget_returntype_generics]))
      (fun _ => 0) 0x11000001 [ELEMENT_TYPE_I4]) CachedToken.nil = (.ok new, tokens) ∧
    Rewritten [[ELEMENT_TYPE_I4]] [ELEMENT_TYPE_I4] tokens new := by
  have hok : (runWith (modifyLocalSig
      (oneLocal (baseNames ++ [managed_profiler_calltarget_returntype_generics])) (fun _ => 0)
      0x11000001 [ELEMENT_TYPE_I4]) CachedToken.nil).1.isOk = true := by decide
  rcases hrun : runWith (modifyLocalSig
      (oneLocal (baseNames ++ [managed_profiler_calltarget_returntype_generics])) (fun _ => 0)
      0x11000001 [ELEMENT_TYPE_I4]) CachedToken.nil with ⟨stop | new, tokens⟩
  · rw [hrun] at hok
    cases hok
  · exact ⟨new, tokens, rfl, (modifyLocalSig_iff (lawful_oneLocal _) _ _
      (originalLocals_oneLocal _) (.inr ⟨.alone (by decide), by decide⟩) hrun).2 (.inl (by decide))⟩

/-- `void M()` in a module without room for `CallTargetReturn`. -/
theorem modifyLocalSig_nil : ¬ ∀ (metadata : ModuleMetadata) (s s' : CallTargetTokens)
    (outside : ℕ → UInt8) (localVarSig : Token) (locals : List (List UInt8)) (ret : List UInt8)
    (new : ModifiedLocalSig), metadata.Lawful → OriginalLocals metadata localVarSig locals →
    ReturnType ret → runWith (modifyLocalSig metadata outside localVarSig ret) s = (.ok new, s') →
    Rewritten locals ret s' new := by
  intro h
  have hok : (runWith (modifyLocalSig (oneLocal baseNames) (fun _ => 0) 0x11000001
      [ELEMENT_TYPE_VOID]) CachedToken.nil).1.isOk = true := by decide
  have hnil : (runWith (modifyLocalSig (oneLocal baseNames) (fun _ => 0) 0x11000001
      [ELEMENT_TYPE_VOID]) CachedToken.nil).2 callTargetReturnVoidTypeRef = mdTypeRefNil := by
    decide
  rcases hrun : runWith (modifyLocalSig (oneLocal baseNames) (fun _ => 0) 0x11000001
      [ELEMENT_TYPE_VOID]) CachedToken.nil with ⟨stop | new, tokens⟩
  · rw [hrun] at hok
    cases hok
  · rw [hrun] at hnil
    exact (h _ _ _ _ _ _ _ _ (lawful_oneLocal _) (originalLocals_oneLocal _) (.inl rfl)
      hrun).callTargetReturn hnil

end DdTrace.Tokens
