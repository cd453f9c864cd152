import DdTrace.SigHelpers.LastArgument

/-!
# Where the last argument is boxed

The loop over the arguments steps over what `ParseType` takes alone; `isStepped` says where it
steps over all that stands before the last parameter, `found` what it takes for the type of that
one.
-/

namespace DdTrace.SigHelpers

open Lib Lib.Reader Signature
open Tokens (Token uncompressedToken)
open SignatureTypes (numberOfArguments callingConvention)

/-! ## Where the cursor stands -/

/-- The type, if it starts with the first byte: no modifier and no `BYREF` in front of it. -/
def ParamSig.bare : ParamSig → Option TypeSig
  | .type [] false t => some t
  | _ => none

def RetSig.bare : RetSig → Option TypeSig
  | .void _ => none
  | .value param => param.bare

/-- `ParseType` steps over it. -/
def ParamSig.isStepped (param : ParamSig) : Bool := param.bare.any fun t => !t.hasNative

def RetSig.isStepped : RetSig → Bool
  | .void mods => mods.isEmpty
  | .value param => param.isStepped

/-- All that stands before the last parameter is stepped over. -/
def MethodSig.isStepped (sig : MethodSig) : Bool :=
  sig.varArgs.isEmpty && (sig.params.isEmpty ||
    sig.ret.isStepped && sig.params.dropLast.all ParamSig.isStepped)

/-- What the code takes for the type of the last parameter. -/
def MethodSig.found (sig : MethodSig) : Option TypeSig :=
  match sig.params.getLast? with
  | some param => param.bare
  | none => sig.ret.bare

/-- The cursor gets to a last parameter that has to be boxed; without parameters it does not
stand at a type to box; and behind a value type nothing is taken for `ReadOnlyMemory`. -/
structure FindsLast (metadata : BoxMetadata) (sig : MethodSig) (data behind : List UInt8) :
    Prop where
  stepped : sig.boxToken metadata ≠ none →
    sig.isStepped = true ∧ ∃ t, sig.found = some t ∧ t.hasNative = false
  noReturn : sig.params = [] → sig.varArgs = [] → ∀ t, sig.ret.bare = some t →
    t.boxToken metadata ≠ none → t.hasNative = true
  noneBehind : sig.isStepped = true → ∀ tk, sig.found = some (.token .valueType tk) →
    ¬ StartsReadOnlyMemory metadata (memoryOf (data ++ behind)) data.length

/-- Every function pointer before the last parameter is `GENERIC` and nothing else. -/
def MethodSig.frontPointers (sig : MethodSig) : Bool :=
  if sig.varArgs.isEmpty then
    sig.params.isEmpty || sig.ret.genericPointers && paramsGenericPointers sig.params.dropLast
  else sig.ret.genericPointers && paramsGenericPointers sig.params

/-- The two numbers before the return type take a byte each, and the function pointers that are
parsed are `GENERIC` and nothing else: those before the last parameter, and those in an
instantiation where the cursor stands. -/
structure MethodSig.Plain (sig : MethodSig) : Prop where
  genParamCount : ∀ n, sig.conv.kind = .generic n → n < 128
  paramCount : sig.params.length + sig.varArgs.length < 128
  front : sig.frontPointers = true
  found : ∀ t, sig.found = some t → ∀ kind tk args, t = .genericInst kind tk args →
    t.genericPointers = true

/-- So many types of the grammar that `ParseType` has stand there, up to `stop`. -/
def StandTypes (mem : ℕ → UInt8) (n cur stop : ℕ) : Prop :=
  cur ≤ stop ∧ TypesBytes n (seg mem cur stop)

/-- What there is to box for an instantiation of `ReadOnlyMemory`, if one stands there. -/
inductive MemoryBoxes (metadata : BoxMetadata) (mem : ℕ → UInt8) (cur : ℕ) : List Token → Prop
  | some {stop : ℕ} : StandsReadOnlyMemory metadata mem cur stop →
    MemoryBoxes metadata mem cur [metadata.getTokenFromTypeSpec (seg mem cur stop)]
  | none : ¬ StartsReadOnlyMemory metadata mem cur → MemoryBoxes metadata mem cur []

/-- What there is to box for the type that stands there. A value type is looked at with what is
behind it. -/
inductive StandingBoxes (metadata : BoxMetadata) (mem : ℕ → UInt8) (cur : ℕ) : List Token → Prop
  | cancellationToken {token : Token} {stop : ℕ} {boxes : List Token} :
    mem cur = ELEMENT_TYPE_VALUETYPE → Ok uncompressTokenRef mem (cur + 1) token stop →
    metadata.typeInfoName token = SystemThreadingCancellationToken →
    MemoryBoxes metadata mem stop boxes → StandingBoxes metadata mem cur (token :: boxes)
  | valueType {token : Token} {stop : ℕ} {boxes : List Token} :
    mem cur = ELEMENT_TYPE_VALUETYPE → Ok uncompressTokenRef mem (cur + 1) token stop →
    metadata.typeInfoName token ≠ SystemThreadingCancellationToken →
    MemoryBoxes metadata mem stop boxes → StandingBoxes metadata mem cur boxes
  | other {boxes : List Token} : mem cur ≠ ELEMENT_TYPE_VALUETYPE →
    MemoryBoxes metadata mem cur boxes → StandingBoxes metadata mem cur boxes

/-- From the place of the return type on there are as many types as the number of arguments says,
if the last argument has to be boxed; and wherever there are, what stands behind them is exactly
what has to be boxed. -/
structure StandsLast (metadata : BoxMetadata) (sig : MethodSig) (data behind : List UInt8) :
    Prop where
  reached : sig.boxToken metadata ≠ none → ∃ stop, StandTypes (memoryOf (data ++ behind))
    (numberOfArguments data) (indexOfReturnType data) stop
  boxes : ∀ stop, StandTypes (memoryOf (data ++ behind)) (numberOfArguments data)
    (indexOfReturnType data) stop →
    StandingBoxes metadata (memoryOf (data ++ behind)) stop (sig.boxToken metadata).toList

variable {metadata : BoxMetadata} {mem : ℕ → UInt8} {cur cur' limit fuel n : ℕ}
  {bytes : List UInt8}

/-! ## Stepping over types -/

theorem failed_parseType_head {b : UInt8} {rest : List UInt8} (hb : ¬ Begins b)
    (hmem : EndsAt mem limit) (hfuel : limit < fuel) : Fails (parseType fuel) mem (b :: rest) := by
  intro cur hseg
  obtain ⟨rfl, -⟩ := seg_cons_split hseg
  refine failed_parseType hmem hfuel fun stop ht => ?_
  obtain ⟨b', rest', hbytes, hb'⟩ := ht.begins
  have hlt : cur < stop := by
    have := ht.length_pos
    rw [length_seg] at this
    omega
  rw [seg_cons hlt] at hbytes
  obtain ⟨rfl, -⟩ := List.cons.inj hbytes
  exact hb hb'

/-- A modifier begins no type. -/
theorem head_encodeMods {mods : List CustomMod} {piece rest : List UInt8} (hne : mods ≠ [])
    (h : encodeMods mods = some piece) : ∃ b rest', piece ++ rest = b :: rest' ∧ ¬ Begins b := by
  obtain ⟨mod, mods, rfl⟩ := List.exists_cons_of_ne_nil hne
  simp only [encodeMods, List.mapM_cons, CustomMod.encode, Option.bind_eq_bind,
    Option.bind_eq_some_iff] at h
  obtain ⟨_, ⟨_, ⟨_, -, ⟨⟩⟩, _, -, ⟨⟩⟩, ⟨⟩⟩ := h
  refine ⟨_, _, rfl, ?_⟩
  cases mod.required <;> decide

/-- `BYREF` and `TYPEDBYREF` begin none either. -/
theorem ParamSig.head_of_not_bare {param : ParamSig} (h : param.encode = some bytes)
    (hbare : param.bare = none) : ∃ b rest, bytes = b :: rest ∧ ¬ Begins b := by
  cases param with
  | typedByRef mods =>
    simp only [ParamSig.encode, Option.bind_eq_bind, Option.bind_eq_some_iff] at h
    obtain ⟨piece, hpiece, ⟨⟩⟩ := h
    by_cases hnil : mods = []
    · subst hnil
      obtain rfl := Option.some.inj hpiece
      exact ⟨_, _, rfl, by decide⟩
    · exact head_encodeMods hnil hpiece
  | type mods byRef t =>
    simp only [ParamSig.encode, Option.bind_eq_bind, Option.bind_eq_some_iff] at h
    obtain ⟨piece, hpiece, _, -, ⟨⟩⟩ := h
    by_cases hnil : mods = []
    · subst hnil
      obtain rfl := Option.some.inj hpiece
      cases byRef with
      | true => exact ⟨_, _, rfl, by decide⟩
      | false => cases hbare
    · exact head_encodeMods hnil hpiece

theorem ParamSig.encode_of_bare {param : ParamSig} {t : TypeSig} (hbare : param.bare = some t) :
    param.encode = t.encode := by
  match param, hbare with
  | .type [] false t, rfl => cases h : t.encode <;> simp [ParamSig.encode, encodeMods, byRefOf, h]

theorem ParamSig.genericPointers_of_bare {param : ParamSig} {t : TypeSig}
    (hbare : param.bare = some t) : param.genericPointers = t.genericPointers := by
  match param, hbare with
  | .type [] false t, rfl => rfl

/-- `ParseType` steps over a parameter, or fails on it. -/
theorem ParamSig.stepped {param : ParamSig} (h : param.encode = some bytes)
    (hg : param.genericPointers = true) (hle : bytes.length ≤ fuel) (hmem : EndsAt mem limit)
    (hfuel : limit < fuel) :
    (param.isStepped = true → Takes True (parseType fuel) bytes ()) ∧
      (param.isStepped = false → Fails (parseType fuel) mem bytes) := by
  cases hbare : param.bare with
  | none =>
    obtain ⟨b, rest, rfl, hb⟩ := head_of_not_bare h hbare
    unfold ParamSig.isStepped
    rw [hbare]
    exact ⟨fun h => absurd h Bool.false_ne_true, fun _ => failed_parseType_head hb hmem hfuel⟩
  | some t =>
    rw [encode_of_bare hbare] at h
    rw [genericPointers_of_bare hbare] at hg
    obtain ⟨k, rfl⟩ := Nat.exists_eq_add_of_lt hfuel
    have htakes := @takes_encode _ _ (limit + k) hg h (by omega)
    unfold ParamSig.isStepped
    rw [hbare]
    simp only [Option.any_some, Bool.not_eq_true', Bool.not_eq_false']
    refine ⟨fun hnative => htakes.congr (iff_true_intro hnative), fun hnative cur hseg => ?_⟩
    rw [failed_iff]
    refine ⟨fun u stop hok => ?_, not_stuck_parseType hmem ?_⟩
    · exact Bool.noConfusion (hnative.symm.trans ((htakes mem cur hseg u stop).1 hok).1)
    · exact Nat.lt_of_le_of_lt (Nat.sub_le ..) hfuel

theorem RetSig.stepped {ret : RetSig} (h : ret.encode = some bytes)
    (hg : ret.genericPointers = true) (hle : bytes.length ≤ fuel) (hmem : EndsAt mem limit)
    (hfuel : limit < fuel) :
    (ret.isStepped = true → Takes True (parseType fuel) bytes ()) ∧
      (ret.isStepped = false → Fails (parseType fuel) mem bytes) := by
  cases ret with
  | value param => exact ParamSig.stepped h hg hle hmem hfuel
  | void mods =>
    simp only [RetSig.encode, Option.bind_eq_bind, Option.bind_eq_some_iff] at h
    obtain ⟨piece, hpiece, ⟨⟩⟩ := h
    cases mods with
    | nil =>
      obtain rfl := Option.some.inj hpiece
      obtain ⟨k, rfl⟩ := Nat.exists_eq_add_of_lt hfuel
      exact ⟨fun _ => takes_simple (by decide), fun h => absurd h (Bool.noConfusion ·)⟩
    | cons mod mods =>
      obtain ⟨b, rest, hhead, hb⟩ :=
        @head_encodeMods _ _ [ELEMENT_TYPE_VOID] (List.cons_ne_nil _ _) hpiece
      rw [hhead]
      exact ⟨fun h => absurd h (Bool.noConfusion ·), fun _ => failed_parseType_head hb hmem hfuel⟩

/-- The bytes of a type that is looked at, or bytes that are left alone. -/
def LooksAt (found : Option TypeSig) (bytes : List UInt8) : Prop :=
  match found with
  | some t => t.encode = some bytes
  | none => ∃ b rest, bytes = b :: rest ∧ b ≠ ELEMENT_TYPE_VALUETYPE ∧ b ≠ ELEMENT_TYPE_GENERICINST

theorem ne_of_not_begins {b : UInt8} (hb : ¬ Begins b) :
    b ≠ ELEMENT_TYPE_VALUETYPE ∧ b ≠ ELEMENT_TYPE_GENERICINST := by
  constructor
  · rintro rfl
    exact hb (by decide)
  · rintro rfl
    exact hb (by decide)

theorem ParamSig.looksAt {param : ParamSig} (h : param.encode = some bytes) :
    LooksAt param.bare bytes := by
  cases hbare : param.bare with
  | none =>
    obtain ⟨b, rest, rfl, hb⟩ := head_of_not_bare h hbare
    exact ⟨b, rest, rfl, ne_of_not_begins hb⟩
  | some t =>
    rw [encode_of_bare hbare] at h
    exact h

theorem RetSig.looksAt {ret : RetSig} (h : ret.encode = some bytes) : LooksAt ret.bare bytes := by
  cases ret with
  | value param => exact ParamSig.looksAt h
  | void mods =>
    simp only [RetSig.encode, Option.bind_eq_bind, Option.bind_eq_some_iff] at h
    obtain ⟨piece, hpiece, ⟨⟩⟩ := h
    by_cases hnil : mods = []
    · subst hnil
      obtain rfl := Option.some.inj hpiece
      exact ⟨_, _, rfl, by decide, by decide⟩
    · obtain ⟨b, rest, hhead, hb⟩ := @head_encodeMods _ _ [ELEMENT_TYPE_VOID] hnil hpiece
      exact ⟨b, rest, hhead, ne_of_not_begins hb⟩

/-! ## The signature -/

theorem pieces_of_encodeParams {params : List ParamSig} (h : encodeParams params = some bytes) :
    ∃ pieces : List (List UInt8), bytes = pieces.flatten ∧
      List.Forall₂ (fun param piece => ParamSig.encode param = some piece) params pieces := by
  induction params generalizing bytes with
  | nil =>
    obtain rfl := Option.some.inj h
    exact ⟨[], rfl, .nil⟩
  | cons param params ih =>
    simp only [encodeParams, Option.bind_eq_bind, Option.bind_eq_some_iff] at h
    obtain ⟨piece, hparam, rest, hrest, ⟨⟩⟩ := h
    obtain ⟨pieces, rfl, hpieces⟩ := ih hrest
    exact ⟨piece :: pieces, rfl, .cons hparam hpieces⟩

theorem compress_of_lt (h : n < 128) : compress n = some [UInt8.ofNat n] := by
  have hlt : n < 2 ^ 7 := h
  rw [compress, if_pos hlt]
  simp [bigEndian]

theorem toNat_ofNat_of_lt (h : n < 128) : (UInt8.ofNat n).toNat = n :=
  UInt8.toNat_ofNat_of_lt' (h.trans (by decide))

/-- The flag of the first byte tells whether a number of generic parameters follows. -/
theorem CallConv.flag {conv : CallConv} (h : conv.encode = some bytes) :
    (∃ b, bytes = [b] ∧ b &&& IMAGE_CEE_CS_CALLCONV_GENERIC = 0) ∨
      ∃ b n rest, bytes = b :: rest ∧ b &&& IMAGE_CEE_CS_CALLCONV_GENERIC ≠ 0 ∧
        conv.kind = .generic n ∧ compress n = some rest := by
  obtain ⟨hasThis, explicitThis, kind⟩ := conv
  cases kind with
  | default | vararg =>
    obtain rfl := Option.some.inj h
    refine .inl ⟨_, rfl, ?_⟩
    revert hasThis explicitThis
    decide
  | generic n =>
    simp only [CallConv.encode, Option.bind_eq_bind, Option.bind_eq_some_iff] at h
    obtain ⟨rest, hrest, ⟨⟩⟩ := h
    have hflag : ∀ this explicit : Bool, (IMAGE_CEE_CS_CALLCONV_GENERIC |||
        (if this then 0x20 else 0) ||| (if explicit then 0x40 else 0)) &&&
          IMAGE_CEE_CS_CALLCONV_GENERIC ≠ 0 := by decide
    exact .inr ⟨_, n, rest, rfl, hflag hasThis explicitThis, rfl, hrest⟩

/-- The header of a plain signature, and what is behind it. -/
theorem MethodSig.Plain.header {sig : MethodSig} {data : List UInt8} (hplain : sig.Plain)
    (h : sig.encode = some data) :
    numberOfArguments data = sig.params.length + sig.varArgs.length ∧
    ∃ header ret pieces more, data = header ++ (ret ++ (List.flatten pieces ++
      (sentinelOf sig.varArgs ++ more))) ∧ header.length = indexOfReturnType data ∧
      sig.ret.encode = some ret ∧ encodeParams sig.varArgs = some more ∧
      List.Forall₂ (fun param piece => ParamSig.encode param = some piece) sig.params pieces := by
  simp only [MethodSig.encode, Option.bind_eq_bind, Option.bind_eq_some_iff] at h
  obtain ⟨conv, hconv, count, hcount, ret, hret, ps, hps, more, hmore, ⟨⟩⟩ := h
  obtain ⟨pieces, rfl, hpieces⟩ := pieces_of_encodeParams hps
  rw [compress_of_lt hplain.paramCount] at hcount
  obtain rfl := Option.some.inj hcount
  have hvalue := toNat_ofNat_of_lt hplain.paramCount
  unfold numberOfArguments indexOfReturnType
  rcases CallConv.flag hconv with ⟨b, rfl, hzero⟩ | ⟨b, k, rest, rfl, hflag, hkind, hrest⟩
  · refine ⟨?_, [b, _], ret, pieces, more, rfl, ?_, hret, hmore, hpieces⟩
    · rw [if_neg fun hand => hand.2 hzero, if_pos (by simp)]
      exact hvalue
    · rw [if_neg fun hand => hand.2 hzero, if_pos (by simp)]
      rfl
  · rw [compress_of_lt (hplain.genParamCount k hkind)] at hrest
    obtain rfl := Option.some.inj hrest
    refine ⟨?_, [b, _, _], ret, pieces, more, rfl, ?_, hret, hmore, hpieces⟩
    · rw [if_pos ⟨by simp, hflag⟩]
      exact hvalue
    · rw [if_pos ⟨by simp, hflag⟩]
      rfl

/-! ## The boxes of a signature -/

theorem ok_lastArgumentBoxes_nil (h : Failed (times (parseType fuel) n) mem cur) :
    Ok (lastArgumentBoxes metadata fuel n) mem cur [] cur := by
  simp only [lastArgumentBoxes, ok_bind]
  exact ⟨none, cur, ok_attempt_none.2 ⟨h, rfl⟩, ok_pure.2 ⟨rfl, rfl⟩⟩

theorem ok_lastArgumentBoxes {stop : ℕ} {boxes : List Token}
    (h : Ok (times (parseType fuel) n) mem cur () stop)
    (hboxes : Ok (boxType metadata fuel) mem stop boxes cur') :
    Ok (lastArgumentBoxes metadata fuel n) mem cur boxes cur' := by
  simp only [lastArgumentBoxes, ok_bind]
  refine ⟨some stop, cur, ok_attempt_some.2 ⟨h, rfl⟩, ?_⟩
  simp only [ok_bind, ok_seek]
  exact ⟨(), stop, rfl, hboxes⟩

theorem endsAt_memoryOf : EndsAt (memoryOf bytes) bytes.length :=
  fun _ hi => List.getD_eq_default _ _ hi

theorem seg_memoryOf {front l rest : List UInt8} (h : bytes = front ++ (l ++ rest)) :
    seg (memoryOf bytes) front.length (front.length + l.length) = l := by
  refine List.ext_getElem (by simp) fun i hi hi' => ?_
  simp [seg, memoryOf, h, List.getElem?_append_right, List.getElem?_append_left, hi']

/-- Each of the pieces is stepped over, or fails. -/
theorem steps_of_forall {params : List ParamSig} {pieces : List (List UInt8)}
    (h : List.Forall₂ (fun param piece => ParamSig.encode param = some piece) params pieces)
    (hg : paramsGenericPointers params = true) (hle : pieces.flatten.length ≤ fuel)
    (hmem : EndsAt mem limit) (hfuel : limit < fuel) :
    (params.all ParamSig.isStepped = true → ∀ l ∈ pieces, Takes True (parseType fuel) l ()) ∧
      (∀ l ∈ pieces, Takes True (parseType fuel) l () ∨ Fails (parseType fuel) mem l) ∧
      (params.all ParamSig.isStepped = false → ∃ l ∈ pieces, Fails (parseType fuel) mem l) := by
  induction h with
  | nil => simp
  | @cons param piece params pieces hparam hparams ih =>
    rw [paramsGenericPointers, Bool.and_eq_true] at hg
    rw [List.flatten_cons, List.length_append] at hle
    have hstep := ParamSig.stepped hparam hg.1 (by omega) hmem hfuel
    obtain ⟨ih1, ih2, ih3⟩ := ih hg.2 (by omega)
    simp only [List.all_cons, List.forall_mem_cons, List.exists_mem_cons_iff, Bool.and_eq_true,
      Bool.and_eq_false_iff]
    refine ⟨fun h => ⟨hstep.1 h.1, ih1 h.2⟩, ⟨?_, ih2⟩, fun h => h.imp hstep.2 ih3⟩
    cases hs : param.isStepped with
    | true => exact .inl (hstep.1 hs)
    | false => exact .inr (hstep.2 hs)

/-- The return type in front of them. -/
theorem steps_of_front {retSig : RetSig} {params : List ParamSig} {ret : List UInt8}
    {pieces : List (List UInt8)} (hret : retSig.encode = some ret)
    (h : List.Forall₂ (fun param piece => ParamSig.encode param = some piece) params pieces)
    (hgret : retSig.genericPointers = true) (hg : paramsGenericPointers params = true)
    (hle : (ret :: pieces).flatten.length ≤ fuel) (hmem : EndsAt mem limit) (hfuel : limit < fuel) :
    ((retSig.isStepped && params.all ParamSig.isStepped) = true →
        ∀ l ∈ ret :: pieces, Takes True (parseType fuel) l ()) ∧
      (∀ l ∈ ret :: pieces, Takes True (parseType fuel) l () ∨ Fails (parseType fuel) mem l) ∧
      ((retSig.isStepped && params.all ParamSig.isStepped) = false →
        ∃ l ∈ ret :: pieces, Fails (parseType fuel) mem l) := by
  rw [List.flatten_cons, List.length_append] at hle
  have hstep := RetSig.stepped hret hgret (by omega) hmem hfuel
  obtain ⟨h1, h2, h3⟩ := steps_of_forall h hg (by omega) hmem hfuel
  simp only [List.forall_mem_cons, List.exists_mem_cons_iff, Bool.and_eq_true,
    Bool.and_eq_false_iff]
  refine ⟨fun h => ⟨hstep.1 h.1, h1 h.2⟩, ⟨?_, h2⟩, fun h => h.imp hstep.2 h3⟩
  cases hs : retSig.isStepped with
  | true => exact .inl (hstep.1 hs)
  | false => exact .inr (hstep.2 hs)

theorem forall₂_concat {α β : Type} {R : α → β → Prop} {l : List α} {x : α} {m : List β}
    (h : List.Forall₂ R (l ++ [x]) m) : ∃ m' y, m = m' ++ [y] ∧ List.Forall₂ R l m' ∧ R x y := by
  induction l generalizing m with
  | nil =>
    obtain ⟨y, _, hy, hnil, rfl⟩ := List.forall₂_cons_left_iff.1 h
    rw [List.forall₂_nil_left_iff.1 hnil]
    exact ⟨[], y, rfl, .nil, hy⟩
  | cons a l ih =>
    obtain ⟨b, m, hab, hl, rfl⟩ := List.forall₂_cons_left_iff.1 h
    obtain ⟨m', y, rfl, hm', hy⟩ := ih hl
    exact ⟨b :: m', y, rfl, .cons hab hm', hy⟩

theorem MethodSig.frontPointers_concat {conv : CallConv} {ret : RetSig} {init : List ParamSig}
    {param : ParamSig} (h : (MethodSig.mk conv ret (init ++ [param]) []).frontPointers = true) :
    ret.genericPointers = true ∧ paramsGenericPointers init = true := by
  simpa [frontPointers] using h

theorem MethodSig.frontPointers_varArgs {conv : CallConv} {ret : RetSig}
    {params varArgs : List ParamSig} {varArg : ParamSig}
    (h : (MethodSig.mk conv ret params (varArg :: varArgs)).frontPointers = true) :
    ret.genericPointers = true ∧ paramsGenericPointers params = true := by
  simpa [frontPointers] using h

/-- What the cursor gets to, where it gets that far. -/
theorem MethodSig.Plain.stands {sig : MethodSig} {data : List UInt8} (hplain : sig.Plain)
    (h : sig.encode = some data) (behind : List UInt8) (hstepped : sig.isStepped = true) :
    ∃ stop bytes, LooksAt sig.found bytes ∧ stop + bytes.length = data.length ∧
      seg (memoryOf (data ++ behind)) stop (stop + bytes.length) = bytes ∧
      ∀ fuel, (data ++ behind).length < fuel → Ok (times (parseType fuel) (numberOfArguments data))
        (memoryOf (data ++ behind)) (indexOfReturnType data) () stop := by
  obtain ⟨hcount, header, ret, pieces, more, rfl, hindex, hret, hmore, hpieces⟩ := hplain.header h
  rw [hcount, ← hindex]
  obtain ⟨conv, retSig, params, varArgs⟩ := sig
  simp only [isStepped, Bool.and_eq_true, List.isEmpty_iff, Bool.or_eq_true] at hstepped
  obtain ⟨rfl, hstepped⟩ := hstepped
  obtain rfl := Option.some.inj hmore
  have hnone : sentinelOf [] ++ [] = ([] : List UInt8) := rfl
  simp only [hnone, List.append_nil] at *
  rcases List.eq_nil_or_concat params with rfl | ⟨init, param, rfl⟩
  · obtain rfl := List.forall₂_nil_left_iff.1 hpieces
    refine ⟨header.length, ret, RetSig.looksAt hret, by simp, ?_, ?_⟩
    · exact @seg_memoryOf _ _ _ behind (by simp)
    · exact fun fuel _ => ok_pure.2 ⟨rfl, rfl⟩
  · rw [List.concat_eq_append] at *
    obtain ⟨ps, last, rfl, hps, hlast⟩ := forall₂_concat hpieces
    obtain ⟨hgret, hg⟩ := frontPointers_concat hplain.front
    simp only [List.append_eq_nil_iff, List.cons_ne_self, and_false, false_or,
      List.dropLast_concat] at hstepped
    have hbytes : header ++ (ret ++ (ps ++ [last]).flatten) =
        (header ++ (ret :: ps).flatten) ++ last := by simp
    refine ⟨(header ++ (ret :: ps).flatten).length, last, ?_, ?_, ?_, fun fuel hfuel => ?_⟩
    · simp only [MethodSig.found, List.getLast?_concat]
      exact ParamSig.looksAt hlast
    · rw [hbytes, ← List.length_append]
    · exact @seg_memoryOf _ _ _ behind (by rw [hbytes, List.append_assoc])
    · have hmem := @endsAt_memoryOf (header ++ (ret ++ (ps ++ [last]).flatten) ++ behind)
      have hlen : (ret :: ps).flatten.length ≤ fuel := by
        simp only [List.length_append, List.flatten_append, List.flatten_cons] at hfuel ⊢
        omega
      have hfront := steps_of_front hret hps hgret hg hlen hmem hfuel
      have htakes := takes_times (hfront.1 (Bool.and_eq_true _ _ ▸ hstepped))
      have hcount : (init ++ [param]).length + ([] : List ParamSig).length =
          (ret :: ps).length := by
        simp [hps.length_eq]
      rw [hcount, List.length_append]
      exact htakes.ok (@seg_memoryOf _ _ _ (last ++ behind) (by simp))

/-- The sentinel is no type: either the cursor stands at it, or the loop ends there. -/
theorem ok_boxes_sentinel {pieces : List (List UInt8)}
    (hpieces : ∀ l ∈ pieces, Takes True (parseType fuel) l ()) (hn : pieces.length ≤ n)
    (hseg : seg mem cur (cur + (pieces.flatten ++ [ELEMENT_TYPE_SENTINEL]).length) =
      pieces.flatten ++ [ELEMENT_TYPE_SENTINEL]) (hmem : EndsAt mem limit) (hfuel : limit < fuel) :
    ∃ c, Ok (lastArgumentBoxes metadata fuel n) mem cur [] c := by
  obtain ⟨h1, h2⟩ := seg_append_split hseg
  rcases hn.eq_or_lt with rfl | hlt
  · have hok := (takes_times hpieces).ok h1
    exact ⟨_, ok_lastArgumentBoxes hok (ok_boxType_head h2 (by decide) (by decide))⟩
  · have hbad : Fails (parseType fuel) mem [ELEMENT_TYPE_SENTINEL] :=
      failed_parseType_head (by decide) hmem hfuel
    have hall : ∀ l ∈ pieces ++ [[ELEMENT_TYPE_SENTINEL]],
        Takes True (parseType fuel) l () ∨ Fails (parseType fuel) mem l := by
      intro l hl
      rcases List.mem_append.1 hl with hl | hl
      · exact .inl (hpieces l hl)
      · exact .inr (List.mem_singleton.1 hl ▸ hbad)
    refine ⟨cur, ok_lastArgumentBoxes_nil (failed_times hall ⟨_, by simp, hbad⟩ ?_ ?_)⟩
    · rw [List.length_append, List.length_singleton]
      exact hlt
    · rw [List.flatten_append, List.flatten_singleton]
      exact hseg

/-- Where something in front cannot be stepped over, or variable arguments follow, nothing is
boxed. -/
theorem MethodSig.Plain.emits_nil {sig : MethodSig} {data : List UInt8} (hplain : sig.Plain)
    (h : sig.encode = some data) (behind : List UInt8) (hstepped : sig.isStepped = false) :
    EmitsBoxes metadata data behind [] := by
  refine ⟨(data ++ behind).length + 1, fun fuel hfuel => ?_⟩
  obtain ⟨hcount, header, ret, pieces, more, rfl, hindex, hret, hmore, hpieces⟩ := hplain.header h
  have hmem := @endsAt_memoryOf
    (header ++ (ret ++ (pieces.flatten ++ (sentinelOf sig.varArgs ++ more))) ++ behind)
  rw [hcount, ← hindex]
  obtain ⟨conv, retSig, params, varArgs⟩ := sig
  -- a front that is not stepped over ends the loop
  have hfail : ∀ {init : List ParamSig} {ps : List (List UInt8)} {rest : List UInt8} {n : ℕ},
      List.Forall₂ (fun param piece => ParamSig.encode param = some piece) init ps →
      retSig.genericPointers = true ∧ paramsGenericPointers init = true →
      header ++ (ret ++ (pieces.flatten ++ (sentinelOf varArgs ++ more))) =
        header ++ ((ret :: ps).flatten ++ rest) → (ret :: ps).length ≤ n →
      (retSig.isStepped && init.all ParamSig.isStepped) = false →
      ∃ c, Ok (lastArgumentBoxes metadata fuel n) (memoryOf
        (header ++ (ret ++ (pieces.flatten ++ (sentinelOf varArgs ++ more))) ++ behind))
        header.length [] c := by
    intro init ps rest n hps hg hdata hn hno
    have hlen : (ret :: ps).flatten.length ≤ fuel := by
      rw [hdata] at hfuel
      simp only [List.length_append] at hfuel
      omega
    obtain ⟨-, hall, hbad⟩ := steps_of_front hret hps hg.1 hg.2 hlen hmem hfuel
    refine ⟨_, ok_lastArgumentBoxes_nil (failed_times hall (hbad hno) hn ?_)⟩
    exact @seg_memoryOf _ _ _ (rest ++ behind) (by rw [hdata]; simp)
  simp only [MethodSig.isStepped] at hstepped
  cases varArgs with
  | nil =>
    obtain rfl := Option.some.inj hmore
    rcases List.eq_nil_or_concat params with rfl | ⟨init, param, rfl⟩
    · cases hstepped
    · rw [List.concat_eq_append] at *
      obtain ⟨ps, last, rfl, hps, -⟩ := forall₂_concat hpieces
      refine @hfail init ps last _ hps (frontPointers_concat hplain.front) ?_ ?_ ?_
      · simp [sentinelOf]
      · simp [hps.length_eq]
      · simpa using hstepped
  | cons varArg varArgs =>
    have hn : (ret :: pieces).length ≤ params.length + (varArg :: varArgs).length := by
      simp [hpieces.length_eq]
    have hg := frontPointers_varArgs hplain.front
    cases hfront : retSig.isStepped && params.all ParamSig.isStepped with
    | false =>
      exact @hfail params pieces (sentinelOf (varArg :: varArgs) ++ more) _ hpieces hg (by simp) hn
        hfront
    | true =>
      have hlen : (ret :: pieces).flatten.length ≤ fuel := by
        simp only [List.length_append, List.flatten_cons] at hfuel ⊢
        omega
      have hall := (steps_of_front hret hpieces hg.1 hg.2 hlen hmem hfuel).1 hfront
      refine ok_boxes_sentinel hall hn ?_ hmem hfuel
      exact @seg_memoryOf _ header _ (more ++ behind) (by simp [sentinelOf])

theorem EmitsBoxes.unique {data behind : List UInt8} {boxes boxes' : List Token}
    (h : EmitsBoxes metadata data behind boxes) (h' : EmitsBoxes metadata data behind boxes') :
    boxes = boxes' := by
  obtain ⟨enough, h⟩ := h
  obtain ⟨enough', h'⟩ := h'
  obtain ⟨_, hok⟩ := h _ (Nat.le_max_left enough enough')
  obtain ⟨_, hok'⟩ := h' _ (Nat.le_max_right enough enough')
  exact (hok.unique hok').1

section Emits

variable {sig : MethodSig} {data behind : List UInt8}

theorem MethodSig.Plain.emits_none (hplain : sig.Plain) (h : sig.encode = some data)
    (hstepped : sig.isStepped = true) (hfound : sig.found = none) :
    EmitsBoxes metadata data behind [] := by
  obtain ⟨stop, bytes, hlooks, -, hseg, hok⟩ := hplain.stands h behind hstepped
  rw [hfound] at hlooks
  obtain ⟨b, rest, rfl, h1, h2⟩ := hlooks
  refine ⟨(data ++ behind).length + 1, fun fuel hfuel => ?_⟩
  exact ⟨_, ok_lastArgumentBoxes (hok fuel hfuel) (ok_boxType_head hseg h1 h2)⟩

/-- The type that the cursor stands at is boxed, and nothing behind it. -/
theorem MethodSig.Plain.emits_found {t : TypeSig} (hplain : sig.Plain) (h : sig.encode = some data)
    (hstepped : sig.isStepped = true) (hfound : sig.found = some t)
    (hbehind : ∀ tk, t = .token .valueType tk →
      ¬ StartsReadOnlyMemory metadata (memoryOf (data ++ behind)) data.length) :
    EmitsBoxes metadata data behind (foundBoxes metadata t) := by
  obtain ⟨stop, bytes, hlooks, hstop, hseg, hok⟩ := hplain.stands h behind hstepped
  rw [hfound] at hlooks
  have henc : t.encode = some bytes := hlooks
  have hg := hplain.found t hfound
  have hmem := @endsAt_memoryOf (data ++ behind)
  refine ⟨(data ++ behind).length + 1, fun fuel hfuel => ?_⟩
  have hle : bytes.length ≤ fuel := by
    rw [List.length_append] at hfuel
    omega
  by_cases hvalue : ∃ tk, t = .token .valueType tk
  · obtain ⟨tk, rfl⟩ := hvalue
    obtain ⟨c, hnone⟩ := ok_boxGenericInst_none hmem hfuel (hbehind tk rfl)
    rw [← hstop] at hnone
    have hbox := ok_boxType_valueType henc hseg hnone
    rw [List.append_nil] at hbox
    exact ⟨c, ok_lastArgumentBoxes (hok fuel hfuel) hbox⟩
  · obtain ⟨c, hbox⟩ := ok_boxType henc hseg hg hle hmem hfuel fun tk htk => hvalue ⟨tk, htk⟩
    exact ⟨c, ok_lastArgumentBoxes (hok fuel hfuel) hbox⟩

/-- What is read behind a value type gets a box of its own. -/
theorem MethodSig.Plain.emits_behind {tk : TypeDefOrRef} (hplain : sig.Plain)
    (h : sig.encode = some data) (hstepped : sig.isStepped = true)
    (hfound : sig.found = some (.token .valueType tk))
    (hbehind : StartsReadOnlyMemory metadata (memoryOf (data ++ behind)) data.length) :
    ∃ box, EmitsBoxes metadata data behind
      (foundBoxes metadata (.token .valueType tk) ++ [box]) := by
  obtain ⟨stop, bytes, hlooks, hstop, hseg, hok⟩ := hplain.stands h behind hstepped
  rw [hfound] at hlooks
  rw [← hstop] at hbehind
  obtain ⟨after, hmemory⟩ := hbehind
  refine ⟨metadata.getTokenFromTypeSpec
      (seg (memoryOf (data ++ behind)) (stop + bytes.length) after),
    max (after - (stop + bytes.length)) ((data ++ behind).length + 1), fun fuel hfuel => ?_⟩
  have hbox := ok_boxGenericInst_some hmemory ((Nat.le_max_left ..).trans hfuel)
  exact ⟨_, ok_lastArgumentBoxes (hok fuel ((Nat.le_max_right ..).trans hfuel))
    (ok_boxType_valueType hlooks hseg hbox)⟩

/-! ## What stands in memory -/

theorem ok_boxGenericInst_of_boxes {boxes : List Token} (hmem : EndsAt mem limit)
    (h : MemoryBoxes metadata mem cur boxes) :
    ∃ enough, ∀ fuel, enough ≤ fuel → ∃ c, Ok (boxGenericInst metadata fuel) mem cur boxes c := by
  cases h with
  | @some stop hstands =>
    exact ⟨stop - cur, fun fuel hfuel => ⟨cur, ok_boxGenericInst_some hstands hfuel⟩⟩
  | none hnone => exact ⟨limit + 1, fun fuel hfuel => ok_boxGenericInst_none hmem hfuel hnone⟩

/-- The first of the two boxes, and what the second one is looked for behind. -/
theorem exists_ok_boxValueType {boxes : List Token} (h : StandingBoxes metadata mem cur boxes) :
    ∃ first second stop, boxes = first ++ second ∧ Ok (boxValueType metadata) mem cur first stop ∧
      MemoryBoxes metadata mem stop second := by
  have hvalue : ∀ {token stop first}, mem cur = ELEMENT_TYPE_VALUETYPE →
      Ok uncompressTokenRef mem (cur + 1) token stop →
      (if metadata.typeInfoName token = SystemThreadingCancellationToken then [token] else []) =
        first → Ok (boxValueType metadata) mem cur first stop := by
    rintro token stop _ htype htoken rfl
    simp only [boxValueType, ok_bind, ok_deref]
    refine ⟨_, _, ⟨rfl, rfl⟩, ?_⟩
    rw [if_pos htype]
    simp only [ok_bind, ok_skip]
    refine ⟨(), _, rfl, _, _, htoken, ?_⟩
    split
    · exact ok_pure.2 ⟨rfl, rfl⟩
    · exact ok_pure.2 ⟨rfl, rfl⟩
  cases h with
  | @cancellationToken token stop second htype htoken hname hmemory =>
    exact ⟨[token], second, stop, rfl, hvalue htype htoken (if_pos hname), hmemory⟩
  | valueType htype htoken hname hmemory =>
    exact ⟨[], boxes, _, rfl, hvalue htype htoken (if_neg hname), hmemory⟩
  | other htype hmemory => exact ⟨[], boxes, cur, rfl, ok_boxValueType_other htype, hmemory⟩

theorem ok_boxType_of_boxes {boxes : List Token} (hmem : EndsAt mem limit)
    (h : StandingBoxes metadata mem cur boxes) :
    ∃ enough, ∀ fuel, enough ≤ fuel → ∃ c, Ok (boxType metadata fuel) mem cur boxes c := by
  obtain ⟨first, second, stop, rfl, hfirst, hmemory⟩ := exists_ok_boxValueType h
  obtain ⟨enough, hok⟩ := ok_boxGenericInst_of_boxes hmem hmemory
  refine ⟨enough, fun fuel hfuel => ?_⟩
  obtain ⟨c, hsecond⟩ := hok fuel hfuel
  refine ⟨c, ?_⟩
  simp only [boxType, ok_bind, ok_pure]
  exact ⟨_, _, hfirst, _, _, hsecond, rfl, rfl⟩

theorem exists_memoryBoxes : ∃ boxes, MemoryBoxes metadata mem cur boxes := by
  by_cases h : StartsReadOnlyMemory metadata mem cur
  · obtain ⟨stop, hstands⟩ := h
    exact ⟨_, .some hstands⟩
  · exact ⟨[], .none h⟩

theorem exists_standingBoxes : ∃ boxes, StandingBoxes metadata mem cur boxes := by
  by_cases htype : mem cur = ELEMENT_TYPE_VALUETYPE
  · obtain ⟨token, stop, htoken⟩ := @exists_ok_uncompressTokenRef mem (cur + 1)
    obtain ⟨boxes, hmemory⟩ := @exists_memoryBoxes metadata mem stop
    by_cases hname : metadata.typeInfoName token = SystemThreadingCancellationToken
    · exact ⟨_, .cancellationToken htype htoken hname hmemory⟩
    · exact ⟨_, .valueType htype htoken hname hmemory⟩
  · obtain ⟨boxes, hmemory⟩ := @exists_memoryBoxes metadata mem cur
    exact ⟨boxes, .other htype hmemory⟩

/-- The loop steps over the types that stand there, whatever they are the bytes of. -/
theorem ok_times_of_standTypes {stop : ℕ} (h : StandTypes mem n cur stop) :
    ∃ enough, ∀ fuel, enough ≤ fuel → Ok (times (parseType fuel) n) mem cur () stop := by
  obtain ⟨hle, htypes⟩ := h
  refine ⟨stop - cur, fun fuel hfuel => ?_⟩
  have hstop : cur + (seg mem cur stop).length = stop := by
    rw [length_seg]
    omega
  have hok := (@takes_types _ n fuel htypes (by rwa [length_seg])).ok (by rw [hstop])
  rwa [hstop] at hok

theorem failed_times_of_not_standTypes (hmem : EndsAt mem limit) (hfuel : limit < fuel)
    (h : ∀ stop, ¬ StandTypes mem n cur stop) : Failed (times (parseType fuel) n) mem cur := by
  rw [failed_iff]
  constructor
  · intro u stop hok
    exact h stop (typesBytes_of_ok (typeBytes_of_ok fuel) hok)
  · refine not_stuck_times (fun _ henough => not_stuck_parseType hmem henough) ?_
    exact Nat.lt_of_le_of_lt (Nat.sub_le ..) hfuel

/-! ## The law -/

theorem MethodSig.boxToken_nil (hparams : sig.params = []) (hvar : sig.varArgs = []) :
    sig.boxToken metadata = none := by
  simp [MethodSig.boxToken, MethodSig.lastParam, hparams, hvar]

theorem ParamSig.boxToken_of_bare {param : ParamSig} {t : TypeSig} (h : param.bare = some t) :
    param.boxToken metadata = t.boxToken metadata := by
  match param, h with
  | .type [] false t, rfl => rfl

/-- With parameters, what the cursor gets to is the last one. -/
theorem MethodSig.boxToken_of_found {t : TypeSig} (hparams : sig.params ≠ [])
    (hstepped : sig.isStepped = true) (hfound : sig.found = some t) :
    sig.boxToken metadata = t.boxToken metadata := by
  rw [isStepped, Bool.and_eq_true, List.isEmpty_iff] at hstepped
  unfold MethodSig.found at hfound
  unfold MethodSig.boxToken lastParam
  rw [hstepped.1, List.append_nil]
  rw [List.getLast?_eq_some_getLast hparams] at hfound ⊢
  exact ParamSig.boxToken_of_bare hfound

theorem MethodSig.found_of_nil (hparams : sig.params = []) : sig.found = sig.ret.bare := by
  unfold MethodSig.found
  rw [hparams]
  rfl

theorem MethodSig.isStepped_of_nil (hparams : sig.params = []) (hvar : sig.varArgs = []) :
    sig.isStepped = true := by
  simp [isStepped, hparams, hvar]

theorem foundBoxes_eq_nil {t : TypeSig} :
    foundBoxes metadata t = [] ↔ (t.boxToken metadata ≠ none → t.hasNative = true) := by
  unfold foundBoxes
  cases t.hasNative <;> cases t.boxToken metadata <;> simp

theorem MethodSig.Plain.boxesLastArgument (hplain : sig.Plain) (h : sig.encode = some data)
    (hfinds : FindsLast metadata sig data behind) : BoxesLastArgument metadata sig data behind := by
  have hnil : (sig.isStepped = true → sig.found = none) → (sig.boxToken metadata).toList = [] := by
    intro hnone
    by_contra hne
    have hdue : sig.boxToken metadata ≠ none := fun heq => hne (by rw [heq]; rfl)
    obtain ⟨hstepped, t, hfound, -⟩ := hfinds.stepped hdue
    cases (hnone hstepped).symm.trans hfound
  unfold BoxesLastArgument
  cases hstepped : sig.isStepped with
  | false =>
    rw [hnil fun h => Bool.noConfusion (hstepped.symm.trans h)]
    exact hplain.emits_nil h behind hstepped
  | true =>
    cases hfound : sig.found with
    | none =>
      rw [hnil fun _ => hfound]
      exact hplain.emits_none h hstepped hfound
    | some t =>
      have hbehind := fun tk (htk : t = .token .valueType tk) =>
        hfinds.noneBehind hstepped tk (htk ▸ hfound)
      have hemits := hplain.emits_found h hstepped hfound hbehind
      have hboxes : foundBoxes metadata t = (sig.boxToken metadata).toList := by
        by_cases hparams : sig.params = []
        · have hvar : sig.varArgs = [] := by
            rw [MethodSig.isStepped, Bool.and_eq_true, List.isEmpty_iff] at hstepped
            exact hstepped.1
          rw [MethodSig.boxToken_nil hparams hvar]
          refine foundBoxes_eq_nil.2 fun hbox => ?_
          exact hfinds.noReturn hparams hvar t (MethodSig.found_of_nil hparams ▸ hfound) hbox
        · have hdue : sig.boxToken metadata = t.boxToken metadata :=
            MethodSig.boxToken_of_found hparams hstepped hfound
          rw [hdue]
          cases hbox : t.boxToken metadata with
          | none => exact foundBoxes_of_none hbox
          | some token =>
            obtain ⟨-, t', hfound', hnative⟩ := hfinds.stepped (by rw [hdue, hbox]; nofun)
            obtain rfl := Option.some.inj (hfound.symm.trans hfound')
            rw [foundBoxes_of_false hnative, hbox]
      rwa [hboxes] at hemits

theorem MethodSig.Plain.findsLast (hplain : sig.Plain) (h : sig.encode = some data)
    (hboxes : BoxesLastArgument metadata sig data behind) : FindsLast metadata sig data behind := by
  have hbehind : sig.isStepped = true → ∀ tk, sig.found = some (.token .valueType tk) →
      ¬ StartsReadOnlyMemory metadata (memoryOf (data ++ behind)) data.length := by
    intro hstepped tk hfound hstarts
    obtain ⟨box, hemits⟩ := hplain.emits_behind h hstepped hfound hstarts
    have hlist := hboxes.unique hemits
    by_cases hparams : sig.params = []
    · have hvar : sig.varArgs = [] := by
        rw [MethodSig.isStepped, Bool.and_eq_true, List.isEmpty_iff] at hstepped
        exact hstepped.1
      rw [MethodSig.boxToken_nil hparams hvar] at hlist
      exact List.append_ne_nil_of_right_ne_nil _ (List.cons_ne_nil box []) hlist.symm
    · rw [MethodSig.boxToken_of_found hparams hstepped hfound] at hlist
      have hlen := congrArg List.length hlist
      rw [foundBoxes_of_false rfl, List.length_append, List.length_singleton] at hlen
      omega
  refine ⟨fun hdue => ?_, fun hparams hvar t hret hbox => ?_, hbehind⟩
  · have hne : (sig.boxToken metadata).toList ≠ [] := fun hnil =>
      hdue (Option.toList_eq_nil_iff.1 hnil)
    cases hstepped : sig.isStepped with
    | false => exact absurd (hboxes.unique (hplain.emits_nil h behind hstepped)) hne
    | true =>
      cases hfound : sig.found with
      | none => exact absurd (hboxes.unique (hplain.emits_none h hstepped hfound)) hne
      | some t =>
        have hemits := hplain.emits_found h hstepped hfound fun tk htk =>
          hbehind hstepped tk (htk ▸ hfound)
        rw [hboxes.unique hemits] at hne
        refine ⟨rfl, t, rfl, ?_⟩
        by_contra hnative
        exact hne (foundBoxes_eq_nil.2 fun _ => by simpa using hnative)
  · have hstepped := MethodSig.isStepped_of_nil hparams hvar
    have hfound : sig.found = some t := by rw [MethodSig.found_of_nil hparams, hret]
    have hemits := hplain.emits_found h hstepped hfound fun tk htk =>
      hbehind hstepped tk (htk ▸ hfound)
    have hlist := hboxes.unique hemits
    rw [MethodSig.boxToken_nil hparams hvar] at hlist
    exact foundBoxes_eq_nil.1 hlist.symm hbox

/-- Where the types stand, what stands behind them is boxed. -/
theorem emitsBoxes_of_standTypes {stop : ℕ} {boxes : List Token}
    (h : StandTypes (memoryOf (data ++ behind)) (numberOfArguments data) (indexOfReturnType data)
      stop) (hboxes : StandingBoxes metadata (memoryOf (data ++ behind)) stop boxes) :
    EmitsBoxes metadata data behind boxes := by
  obtain ⟨enough, hloop⟩ := ok_times_of_standTypes h
  obtain ⟨enough', hok⟩ := ok_boxType_of_boxes (@endsAt_memoryOf (data ++ behind)) hboxes
  refine ⟨max enough enough', fun fuel hfuel => ?_⟩
  obtain ⟨c, hbox⟩ := hok fuel ((Nat.le_max_right ..).trans hfuel)
  exact ⟨c, ok_lastArgumentBoxes (hloop fuel ((Nat.le_max_left ..).trans hfuel)) hbox⟩

/-- Where they do not, nothing is. -/
theorem emitsBoxes_of_not_standTypes
    (h : ∀ stop, ¬ StandTypes (memoryOf (data ++ behind)) (numberOfArguments data)
      (indexOfReturnType data) stop) : EmitsBoxes metadata data behind [] := by
  refine ⟨(data ++ behind).length + 1, fun fuel hfuel => ⟨_, ok_lastArgumentBoxes_nil ?_⟩⟩
  exact failed_times_of_not_standTypes endsAt_memoryOf hfuel h

theorem boxesLastArgument_iff_standsLast :
    BoxesLastArgument metadata sig data behind ↔ StandsLast metadata sig data behind := by
  constructor
  · intro h
    constructor
    · intro hdue
      by_contra hnone
      rw [not_exists] at hnone
      exact hdue (Option.toList_eq_nil_iff.1 (h.unique (emitsBoxes_of_not_standTypes hnone)))
    · intro stop hstand
      obtain ⟨boxes, hboxes⟩ := @exists_standingBoxes metadata (memoryOf (data ++ behind)) stop
      rwa [h.unique (emitsBoxes_of_standTypes hstand hboxes)]
  · rintro ⟨hreached, hboxes⟩
    by_cases hstand : ∃ stop, StandTypes (memoryOf (data ++ behind)) (numberOfArguments data)
        (indexOfReturnType data) stop
    · obtain ⟨stop, hstand⟩ := hstand
      exact emitsBoxes_of_standTypes hstand (hboxes stop hstand)
    · have hnil : sig.boxToken metadata = none := by
        by_contra hdue
        exact hstand (hreached hdue)
      unfold BoxesLastArgument
      rw [hnil]
      exact emitsBoxes_of_not_standTypes (not_exists.1 hstand)

/-- The last argument is boxed as it should be exactly where, from the place of the return type
on, the types stand and the box behind them is the one that is due. Of the signatures whose
numbers take a byte each and whose function pointers, where they are parsed, are all `GENERIC`,
that is exactly where `FindsLast` says. -/
theorem boxesLastArgument_iff (h : sig.encode = some data) :
    (BoxesLastArgument metadata sig data behind ↔ StandsLast metadata sig data behind) ∧
      (sig.Plain → (BoxesLastArgument metadata sig data behind ↔
        FindsLast metadata sig data behind)) :=
  ⟨boxesLastArgument_iff_standsLast,
    fun hplain => ⟨hplain.findsLast h, hplain.boxesLastArgument h⟩⟩

end Emits

/-! ## Signatures -/

/-- `CancellationToken` is the type reference 18 and ``ReadOnlyMemory`1`` the type reference 19. -/
def systemMetadata : BoxMetadata where
  typeInfoName token :=
    if token = 0x01000012 then SystemThreadingCancellationToken
    else if token = 0x01000013 then SystemReadOnlyMemory
    else ""
  getTokenFromTypeSpec _ := 0x1B000001

def cancellationToken : TypeSig := .token .valueType ⟨.typeRef, 18⟩

/-- `Task ReadAsync(byte[], CancellationToken)`, of an instance. -/
def readAsync : MethodSig where
  conv := ⟨true, false, .default⟩
  ret := .value (.type [] false (.token .class ⟨.typeRef, 5⟩))
  params := [.type [] false (.szArray [] (.simple .u1)), .type [] false cancellationToken]
  varArgs := []

/-- Without instantiations the last parameter is no matter. -/
theorem plain_of_found {sig : MethodSig} (hkind : sig.conv.kind = .default)
    (hcount : sig.params.length + sig.varArgs.length < 128) (hfront : sig.frontPointers = true)
    (hfound : ∀ kind tk args, sig.found ≠ some (.genericInst kind tk args)) : sig.Plain where
  genParamCount n h := by
    rw [hkind] at h
    cases h
  paramCount := hcount
  front := hfront
  found t ht kind tk args hinst := absurd (hinst ▸ ht) (hfound kind tk args)

theorem boxesLastArgument_readAsync :
    readAsync.encode = some [0x20, 2, 0x12, 21, 0x1D, 5, 0x11, 73] ∧
      BoxesLastArgument systemMetadata readAsync [0x20, 2, 0x12, 21, 0x1D, 5, 0x11, 73] [] := by
  have hencode : readAsync.encode = some [0x20, 2, 0x12, 21, 0x1D, 5, 0x11, 73] := by decide
  refine ⟨hencode, ((boxesLastArgument_iff hencode).2 ?_).2 ⟨?_, ?_, ?_⟩⟩
  · exact plain_of_found rfl (by decide) rfl fun _ _ _ h => by cases h
  · exact fun _ => ⟨by decide, cancellationToken, rfl, rfl⟩
  · intro hnil
    cases hnil
  · rintro - - - ⟨_, hstarts, -⟩
    exact absurd hstarts (by decide)

/-- `static void Run(delegate*<void>)`: a function pointer behind everything is not parsed. -/
example : BoxesLastArgument systemMetadata
    ⟨⟨false, false, .default⟩, .void [], [.type [] false defaultPointer], []⟩
    [0, 1, 1, 0x1B, 0, 0, 1] [] := by
  have hplain : MethodSig.Plain
      ⟨⟨false, false, .default⟩, .void [], [.type [] false defaultPointer], []⟩ :=
    plain_of_found rfl (by decide) rfl fun _ _ _ h => by cases h
  refine hplain.boxesLastArgument (by decide) ⟨fun h => absurd rfl h, ?_, ?_⟩
  · intro hnil
    cases hnil
  · intro _ tk hfound
    cases hfound

/-- `CancellationToken Token()`, of an instance. -/
def returnsToken : MethodSig :=
  ⟨⟨true, false, .default⟩, .value (.type [] false cancellationToken), [], []⟩

/-- `static void Wait(IntPtr, CancellationToken)` -/
def waitsForHandle : MethodSig where
  conv := ⟨false, false, .default⟩
  ret := .void []
  params := [.type [] false (.simple .i), .type [] false cancellationToken]
  varArgs := []

/-- Without an argument to box the return type is taken for one; and behind an `IntPtr` the token
is not boxed. -/
theorem not_boxesLastArgument :
    (returnsToken.encode = some [0x20, 0, 0x11, 73] ∧
      ¬ BoxesLastArgument systemMetadata returnsToken [0x20, 0, 0x11, 73] []) ∧
    waitsForHandle.encode = some [0, 2, 1, 0x18, 0x11, 73] ∧
      ¬ BoxesLastArgument systemMetadata waitsForHandle [0, 2, 1, 0x18, 0x11, 73] [] := by
  have hreturns : returnsToken.encode = some [0x20, 0, 0x11, 73] := by decide
  have hwaits : waitsForHandle.encode = some [0, 2, 1, 0x18, 0x11, 73] := by decide
  refine ⟨⟨hreturns, fun h => ?_⟩, hwaits, fun h => ?_⟩
  · have hplain : returnsToken.Plain :=
      plain_of_found rfl (by decide) rfl fun _ _ _ h => by cases h
    have hfinds := hplain.findsLast hreturns h
    exact absurd (hfinds.noReturn rfl rfl cancellationToken rfl (by decide)) Bool.false_ne_true
  · have hplain : waitsForHandle.Plain :=
      plain_of_found rfl (by decide) rfl fun _ _ _ h => by cases h
    have hfinds := hplain.findsLast hwaits h
    exact absurd (hfinds.stepped (by decide)).1 (by decide)

end DdTrace.SigHelpers
