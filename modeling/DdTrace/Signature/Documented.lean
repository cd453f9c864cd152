import DdTrace.Signature.Grammar
import DdTrace.Tokens.LocalVarSig

/-!
# The parser and its grammar

`DocumentedSignature` is the grammar in the comments of the parser, less what they say is
not supported. The `switch` of `ParseType` has no `default`: a byte that it has no case for
is a type for it. `UnlistedSignature` are the signatures with such a type.
-/

namespace DdTrace.Signature

open Lib Lib.Reader Tokens

variable {mem : ℕ → UInt8} {len n : ℕ} {b : UInt8} {bytes l l' r r' : List UInt8} {e : Bool}
  {ps ps' : List (List UInt8)}

/-! ## The grammar -/

/-- `BOOLEAN` to `OBJECT` in the comment of `ParseType`. -/
def simpleTypes : List UInt8 :=
  [ELEMENT_TYPE_BOOLEAN, ELEMENT_TYPE_CHAR, ELEMENT_TYPE_I1, ELEMENT_TYPE_U1, ELEMENT_TYPE_I2,
    ELEMENT_TYPE_U2, ELEMENT_TYPE_I4, ELEMENT_TYPE_U4, ELEMENT_TYPE_I8, ELEMENT_TYPE_U8,
    ELEMENT_TYPE_R4, ELEMENT_TYPE_R8, ELEMENT_TYPE_I, ELEMENT_TYPE_U, ELEMENT_TYPE_STRING,
    ELEMENT_TYPE_OBJECT]

/-- `Type`. -/
inductive DocumentedType : List UInt8 → Prop
  | simple {b : UInt8} : b ∈ simpleTypes → DocumentedType [b]
  | token {b : UInt8} {bytes : List UInt8} {n : ℕ} :
    IsClassOrValueType b → Number bytes n → DocumentedType (b :: bytes)
  | variable {b : UInt8} {bytes : List UInt8} {n : ℕ} :
    IsVariable b → Number bytes n → DocumentedType (b :: bytes)
  | szArray {bytes : List UInt8} :
    DocumentedType bytes → DocumentedType (ELEMENT_TYPE_SZARRAY :: bytes)
  | genericInst {b : UInt8} {token number : List UInt8} {n : ℕ} {args : List (List UInt8)} :
    IsClassOrValueType b → Number token n → Number number args.length →
    (∀ arg ∈ args, DocumentedType arg) →
    DocumentedType (ELEMENT_TYPE_GENERICINST :: b :: (token ++ (number ++ args.flatten)))

/-- A type that is, or has in it, a byte without a case. -/
inductive UnlistedType : List UInt8 → Prop
  | here {b : UInt8} : Alone b → b ∉ simpleTypes → UnlistedType [b]
  | szArray {b : UInt8} {bytes : List UInt8} :
    ¬ isCustomMod b → UnlistedType (b :: bytes) → UnlistedType (ELEMENT_TYPE_SZARRAY :: b :: bytes)
  | genericInst {b : UInt8} {token number arg : List UInt8} {n : ℕ} {args : List (List UInt8)} :
    IsClassOrValueType b → Number token n → Number number args.length →
    (∀ arg ∈ args, TypeBytes arg) → arg ∈ args → UnlistedType arg →
    UnlistedType (ELEMENT_TYPE_GENERICINST :: b :: (token ++ (number ++ args.flatten)))

/-- `[BYREF] Type`. -/
def ByRefOf (Type_ : List UInt8 → Prop) : List UInt8 → Prop
  | [] => False
  | b :: bytes => if b = ELEMENT_TYPE_BYREF then Type_ bytes else Type_ (b :: bytes)

/-- `Param`. -/
def DocumentedParam (bytes : List UInt8) : Prop := ByRefOf DocumentedType bytes

/-- `RetType`. -/
def DocumentedRet (bytes : List UInt8) : Prop :=
  bytes = [ELEMENT_TYPE_VOID] ∨ DocumentedParam bytes

def UnlistedParam (bytes : List UInt8) : Prop := ParamBytes bytes ∧ ByRefOf UnlistedType bytes

def UnlistedRet (bytes : List UInt8) : Prop :=
  bytes.head? ≠ some ELEMENT_TYPE_VOID ∧ UnlistedParam bytes

/-- Parameters one behind the other, with a `SENTINEL` in front of one at most. -/
inductive Params : Bool → List (List UInt8) → List UInt8 → Prop
  | nil {encountered : Bool} : Params encountered [] []
  | param {encountered : Bool} {param rest : List UInt8} {params : List (List UInt8)} :
    param.head? ≠ some ELEMENT_TYPE_SENTINEL → Params encountered params rest →
    Params encountered (param :: params) (param ++ rest)
  | sentinel {param rest : List UInt8} {params : List (List UInt8)} : Params true params rest →
    Params false (param :: params) (ELEMENT_TYPE_SENTINEL :: (param ++ rest))

/-- A signature whose return type and parameters are `P`. -/
def SignatureOf (P : List UInt8 → List (List UInt8) → Prop) (bytes : List UInt8) : Prop :=
  ∃ (convention : UInt8) (typeArguments count ret params : List UInt8) (g : ℕ)
    (ps : List (List UInt8)),
    bytes = convention :: (typeArguments ++ (count ++ (ret ++ params))) ∧
    TypeArguments convention typeArguments g ∧ Number count ps.length ∧ Params false ps params ∧
    P ret ps

def DocumentedSignature : List UInt8 → Prop :=
  SignatureOf fun ret params => DocumentedRet ret ∧ ∀ param ∈ params, DocumentedParam param

/-- What the parser takes. -/
def ParsedSignature : List UInt8 → Prop :=
  SignatureOf fun ret params => RetBytes ret ∧ ∀ param ∈ params, ParamBytes param

def UnlistedSignature : List UInt8 → Prop :=
  SignatureOf fun ret params => (RetBytes ret ∧ ∀ param ∈ params, ParamBytes param) ∧
    (UnlistedRet ret ∨ ∃ param ∈ params, UnlistedParam param)

/-! ## Types -/

theorem simple_cases : ∀ b ∈ simpleTypes, Alone b ∧ ¬ isCustomMod b ∧ b ≠ ELEMENT_TYPE_BYREF ∧
    b ≠ ELEMENT_TYPE_TYPEDBYREF ∧ b ≠ ELEMENT_TYPE_VOID := by
  have hall : (simpleTypes.all fun b => decide (Alone b ∧ ¬ isCustomMod b ∧ b ≠ ELEMENT_TYPE_BYREF ∧
      b ≠ ELEMENT_TYPE_TYPEDBYREF ∧ b ≠ ELEMENT_TYPE_VOID)) = true := by decide
  exact fun b hb => of_decide_eq_true (List.all_eq_true.1 hall b hb)

theorem alone_of_simple : ∀ b ∈ simpleTypes, Alone b := fun b hb => (simple_cases b hb).1

theorem not_custom_of_simple : ∀ b ∈ simpleTypes, ¬ isCustomMod b :=
  fun b hb => (simple_cases b hb).2.1

theorem simple_ne : ∀ b ∈ simpleTypes, b ≠ ELEMENT_TYPE_BYREF ∧ b ≠ ELEMENT_TYPE_TYPEDBYREF ∧
    b ≠ ELEMENT_TYPE_VOID := fun b hb => (simple_cases b hb).2.2

theorem classOrValueType_ne (h : IsClassOrValueType b) : ¬ isCustomMod b ∧
    b ≠ ELEMENT_TYPE_BYREF ∧ b ≠ ELEMENT_TYPE_TYPEDBYREF ∧ b ≠ ELEMENT_TYPE_VOID := by
  rcases h with rfl | rfl
  · decide
  · decide

theorem variable_ne (h : IsVariable b) : ¬ isCustomMod b ∧
    b ≠ ELEMENT_TYPE_BYREF ∧ b ≠ ELEMENT_TYPE_TYPEDBYREF ∧ b ≠ ELEMENT_TYPE_VOID := by
  rcases h with rfl | rfl
  · decide
  · decide

/-- No type of the grammar starts with a modifier, or like a parameter or a return type that
is not a type. -/
theorem DocumentedType.head (h : DocumentedType bytes) : ∃ b rest, bytes = b :: rest ∧
    ¬ isCustomMod b ∧ b ≠ ELEMENT_TYPE_BYREF ∧ b ≠ ELEMENT_TYPE_TYPEDBYREF ∧
    b ≠ ELEMENT_TYPE_VOID := by
  cases h with
  | simple hb => exact ⟨_, _, rfl, not_custom_of_simple _ hb, simple_ne _ hb⟩
  | token hb _ => exact ⟨_, _, rfl, classOrValueType_ne hb⟩
  | «variable» hb _ => exact ⟨_, _, rfl, variable_ne hb⟩
  | szArray _ => exact ⟨_, _, rfl, by decide⟩
  | genericInst _ _ _ _ => exact ⟨_, _, rfl, by decide⟩

theorem DocumentedType.typeBytes (h : DocumentedType bytes) : TypeBytes bytes := by
  induction h with
  | simple hb => exact .alone (alone_of_simple _ hb)
  | token hb hn => exact .token hb hn
  | «variable» hb hn => exact .variable hb hn
  | szArray h ih =>
    obtain ⟨b, rest, rfl, hb, -⟩ := h.head
    exact .szArray hb ih
  | genericInst hb hn hm _ ih => exact .genericInst hb hn hm ih

/-- What the parser takes for a type is one, or has a byte without a case. -/
theorem documented_or_unlisted (h : TypeBytes bytes) :
    DocumentedType bytes ∨ UnlistedType bytes := by
  induction h with
  | @alone b hb =>
    by_cases hlisted : b ∈ simpleTypes
    · exact .inl (.simple hlisted)
    · exact .inr (.here hb hlisted)
  | token hb hn => exact .inl (.token hb hn)
  | «variable» hb hn => exact .inl (.variable hb hn)
  | szArray hb _ ih =>
    rcases ih with h | h
    · exact .inl (.szArray h)
    · exact .inr (.szArray hb h)
  | @genericInst b token number n args hb hn hm hargs ih =>
    by_cases hall : ∀ arg ∈ args, DocumentedType arg
    · exact .inl (.genericInst hb hn hm hall)
    · push Not at hall
      obtain ⟨arg, harg, hnot⟩ := hall
      exact .inr (.genericInst hb hn hm hargs harg ((ih arg harg).resolve_left hnot))

/-- A parser that takes exactly the words of `P` finds one of them only. -/
theorem selfDelimiting_of_ok {P : List UInt8 → Prop} {p : ℕ → Parser Unit}
    (hp : ∀ {mem len n}, Ok (p len) mem 0 () n ↔ 0 < n ∧ n ≤ len ∧ P (seg mem 0 n))
    (hnil : ¬ P []) (h : P l) : SelfDelimiting P l := by
  intro l' r r' h' heq
  have hok : ∀ {l r : List UInt8}, P l → Ok (p (l ++ r).length)
      (fun i => (l ++ r).getD i 0) 0 () l.length := by
    intro l r hl
    have hseg : seg (fun i => (l ++ r).getD i 0) 0 l.length = l :=
      seg_eq_of_getD fun i hi => List.getD_append _ _ _ _ hi
    refine hp.2 ⟨List.length_pos_iff.2 fun h => hnil (h ▸ hl), by simp, ?_⟩
    rwa [hseg]
  have h1 := hok (r := r) h
  have h2 := hok (r := r') h'
  rw [← heq] at h2
  exact List.append_inj heq (Ok.unique h1 h2).2

theorem TypeBytes.selfDelimiting (h : TypeBytes l) : SelfDelimiting TypeBytes l :=
  selfDelimiting_of_ok (p := fun len => parseType len (len + 1))
    (ok_parseType (by omega)) (fun h => h.ne_nil rfl) h

theorem ParamBytes.selfDelimiting (h : ParamBytes l) : SelfDelimiting ParamBytes l :=
  selfDelimiting_of_ok (p := fun len => parseParam len (len + 1))
    (ok_parseParam (by omega)) (fun h => h.ne_nil rfl) h

theorem RetBytes.selfDelimiting (h : RetBytes l) : SelfDelimiting RetBytes l :=
  selfDelimiting_of_ok (p := fun len => parseRetType len (len + 1))
    (ok_parseRetType (by omega)) (fun h => h.ne_nil rfl) h

/-- A type is of the grammar, or has a byte without a case, but not both. -/
theorem DocumentedType.not_unlisted (h : DocumentedType bytes) : ¬ UnlistedType bytes := by
  induction h with
  | simple hb =>
    intro h
    cases h with
    | here _ hnot => exact hnot hb
  | token hb _ =>
    intro h
    cases h with
    | here halone _ => exact (alone_iff.1 halone).2.1 hb
    | szArray _ _ => exact absurd hb (by decide)
    | genericInst _ _ _ _ _ _ => exact absurd hb (by decide)
  | «variable» hb _ =>
    intro h
    cases h with
    | here halone _ => exact (alone_iff.1 halone).2.2.2.2 hb
    | szArray _ _ => exact absurd hb (by decide)
    | genericInst _ _ _ _ _ _ => exact absurd hb (by decide)
  | szArray _ ih =>
    intro h
    cases h with
    | here halone _ => exact absurd halone (by decide)
    | szArray _ h => exact ih h
  | @genericInst b token number n args _ hn hm hargs ih =>
    intro h
    generalize hbytes : ELEMENT_TYPE_GENERICINST :: b :: (token ++ (number ++ args.flatten)) =
      bytes at h
    cases h with
    | here halone _ => simp at hbytes
    | szArray _ _ => exact absurd (List.cons.inj hbytes).1 (by decide)
    | @genericInst _ token' number' arg n' args' _ hn' hm' hargs' harg h =>
      -- the arguments are the same, so one of them is both
      obtain ⟨-, hbytes⟩ := List.cons.inj hbytes
      obtain ⟨-, hbytes⟩ := List.cons.inj hbytes
      obtain ⟨rfl, hbytes, -⟩ := number_unique hn hn' hbytes
      obtain ⟨rfl, hbytes, hlen⟩ := number_unique hm hm' hbytes
      rw [← List.append_nil args.flatten, ← List.append_nil args'.flatten] at hbytes
      obtain ⟨rfl, -⟩ := flatten_unique (fun arg h => (hargs arg h).typeBytes.selfDelimiting) hargs'
        hlen hbytes
      exact ih arg harg h

/-! ## Parameters and return types -/

theorem DocumentedParam.paramBytes (h : DocumentedParam bytes) : ParamBytes bytes := by
  cases bytes with
  | nil => exact h
  | cons b bytes =>
    rw [DocumentedParam, ByRefOf] at h
    split at h
    · rename_i hbyRef
      subst hbyRef
      refine ⟨by decide, by decide, ?_⟩
      rw [ByRefBytes, if_pos rfl]
      exact h.typeBytes
    · rename_i hbyRef
      obtain ⟨b', rest, heq, hmod, -, htyped, -⟩ := h.head
      obtain ⟨rfl, -⟩ := List.cons.inj heq
      refine ⟨hmod, htyped, ?_⟩
      rw [ByRefBytes, if_neg hbyRef]
      exact h.typeBytes

theorem DocumentedParam.head_ne_void (h : DocumentedParam bytes) :
    bytes.head? ≠ some ELEMENT_TYPE_VOID := by
  cases bytes with
  | nil => simp
  | cons b bytes =>
    rw [DocumentedParam, ByRefOf] at h
    split at h
    · rename_i hbyRef
      rw [hbyRef, List.head?_cons]
      decide
    · obtain ⟨b', rest, heq, -, -, -, hvoid⟩ := h.head
      obtain ⟨rfl, -⟩ := List.cons.inj heq
      simpa using hvoid

theorem DocumentedRet.retBytes (h : DocumentedRet bytes) : RetBytes bytes := by
  rcases h with rfl | h
  · rw [RetBytes, if_pos rfl]
  · have hvoid := h.head_ne_void
    cases bytes with
    | nil => exact h.paramBytes
    | cons b bytes =>
      rw [RetBytes, if_neg (by simpa using hvoid)]
      exact h.paramBytes

theorem documentedParam_or_unlisted (h : ParamBytes bytes) :
    DocumentedParam bytes ∨ UnlistedParam bytes := by
  cases bytes with
  | nil => exact absurd h id
  | cons b bytes =>
    have htype := h.2.2
    rw [ByRefBytes] at htype
    rw [DocumentedParam, UnlistedParam, ByRefOf, ByRefOf]
    split at htype
    · rw [if_pos ‹_›, if_pos ‹_›]
      exact (documented_or_unlisted htype).imp_right fun hu => ⟨h, hu⟩
    · rw [if_neg ‹_›, if_neg ‹_›]
      exact (documented_or_unlisted htype).imp_right fun hu => ⟨h, hu⟩

theorem documentedRet_or_unlisted (h : RetBytes bytes) :
    DocumentedRet bytes ∨ UnlistedRet bytes := by
  cases bytes with
  | nil => exact absurd h id
  | cons b bytes =>
    rw [RetBytes] at h
    split at h
    · rename_i hvoid
      exact .inl (.inl (by rw [hvoid, h]))
    · rename_i hvoid
      exact (documentedParam_or_unlisted h).imp .inr fun hu => ⟨by simpa using hvoid, hu⟩

theorem DocumentedParam.not_unlisted (h : DocumentedParam bytes) : ¬ UnlistedParam bytes := by
  rintro ⟨-, hu⟩
  cases bytes with
  | nil => exact h
  | cons b bytes =>
    rw [DocumentedParam, ByRefOf] at h
    rw [ByRefOf] at hu
    split at h
    · rw [if_pos ‹_›] at hu
      exact h.not_unlisted hu
    · rw [if_neg ‹_›] at hu
      exact h.not_unlisted hu

theorem DocumentedRet.not_unlisted (h : DocumentedRet bytes) : ¬ UnlistedRet bytes := by
  rintro ⟨hvoid, hu⟩
  rcases h with rfl | h
  · exact hvoid rfl
  · exact h.not_unlisted hu

/-! ## Signatures -/

theorem params_of_paramsBytes {offset : ℕ} {args : List FunctionMethodArgument}
    (h : ParamsBytes e n offset bytes args) :
    ∃ ps, ps.length = n ∧ (∀ param ∈ ps, ParamBytes param) ∧ Params e ps bytes := by
  induction h with
  | done => exact ⟨[], rfl, by simp, .nil⟩
  | @param _ _ _ bytes _ _ hhead hparam _ ih =>
    obtain ⟨ps, rfl, hall, hps⟩ := ih
    exact ⟨bytes :: ps, rfl, List.forall_mem_cons.2 ⟨hparam, hall⟩, .param hhead hps⟩
  | @sentinel _ _ bytes _ _ hparam _ ih =>
    obtain ⟨ps, rfl, hall, hps⟩ := ih
    exact ⟨bytes :: ps, rfl, List.forall_mem_cons.2 ⟨hparam, hall⟩, .sentinel hps⟩

theorem exists_paramsBytes (h : Params e ps bytes) (hps : ∀ param ∈ ps, ParamBytes param)
    (offset : ℕ) : ∃ args, ParamsBytes e ps.length offset bytes args := by
  induction h generalizing offset with
  | nil => exact ⟨[], .done⟩
  | @param _ param _ _ hhead _ ih =>
    obtain ⟨hparam, hrest⟩ := List.forall_mem_cons.1 hps
    obtain ⟨args, h⟩ := ih hrest (offset + param.length)
    exact ⟨_, .param hhead hparam h⟩
  | @sentinel param _ _ _ ih =>
    obtain ⟨hparam, hrest⟩ := List.forall_mem_cons.1 hps
    obtain ⟨args, h⟩ := ih hrest (offset + 1 + param.length)
    exact ⟨_, .sentinel hparam h⟩

theorem parsedSignature_iff : ParsedSignature bytes ↔ ∃ sig, SignatureBytes bytes sig := by
  constructor
  · rintro ⟨convention, typeArguments, count, ret, params, g, ps, rfl, hg, hn, hparams, hret, hps⟩
    obtain ⟨args, hargs⟩ := exists_paramsBytes hparams hps
      (1 + typeArguments.length + count.length + ret.length)
    exact ⟨_, .mk hg hn hret hargs⟩
  · rintro ⟨sig, h⟩
    cases h with
    | mk hg hn hret hargs =>
      obtain ⟨ps, rfl, hps, hparams⟩ := params_of_paramsBytes hargs
      exact ⟨_, _, _, _, _, _, ps, rfl, hg, hn, hparams, hret, hps⟩

theorem SignatureOf.mono {P Q : List UInt8 → List (List UInt8) → Prop}
    (hPQ : ∀ ret ps, P ret ps → Q ret ps) (h : SignatureOf P bytes) : SignatureOf Q bytes := by
  obtain ⟨convention, typeArguments, count, ret, params, g, ps, rfl, hg, hn, hparams, hP⟩ := h
  exact ⟨convention, typeArguments, count, ret, params, g, ps, rfl, hg, hn, hparams, hPQ _ _ hP⟩

theorem DocumentedSignature.parsed (h : DocumentedSignature bytes) : ParsedSignature bytes :=
  SignatureOf.mono (fun _ _ hP => ⟨hP.1.retBytes, fun p hp => (hP.2 p hp).paramBytes⟩) h

theorem UnlistedSignature.parsed (h : UnlistedSignature bytes) : ParsedSignature bytes :=
  SignatureOf.mono (fun _ _ hP => hP.1) h

theorem ParsedSignature.documented_or_unlisted (h : ParsedSignature bytes) :
    DocumentedSignature bytes ∨ UnlistedSignature bytes := by
  obtain ⟨convention, typeArguments, count, ret, params, g, ps, rfl, hg, hn, hparams, hret, hps⟩ := h
  by_cases hdoc : DocumentedRet ret ∧ ∀ param ∈ ps, DocumentedParam param
  · exact .inl ⟨_, _, _, _, _, _, _, rfl, hg, hn, hparams, hdoc⟩
  · refine .inr ⟨_, _, _, _, _, _, _, rfl, hg, hn, hparams, ⟨hret, hps⟩, ?_⟩
    by_cases hdocRet : DocumentedRet ret
    · push Not at hdoc
      obtain ⟨param, hparam, hnot⟩ := hdoc hdocRet
      exact .inr ⟨param, hparam, (documentedParam_or_unlisted (hps param hparam)).resolve_left hnot⟩
    · exact .inl ((documentedRet_or_unlisted hret).resolve_left hdocRet)

/-- Bytes are parameters in one way. -/
theorem Params.unique (h : Params e ps l) (h' : Params e ps' l')
    (hps : ∀ param ∈ ps, ParamBytes param) (hps' : ∀ param ∈ ps', ParamBytes param)
    (hlen : ps.length = ps'.length) (heq : l = l') : ps = ps' := by
  induction h generalizing ps' l' with
  | nil => exact (List.length_eq_zero_iff.1 hlen.symm).symm
  | @param e p rest ps hhead _ ih =>
    obtain ⟨hp, hps⟩ := List.forall_mem_cons.1 hps
    cases h' with
    | nil => cases hlen
    | @param _ p' rest' ps' hhead' h' =>
      obtain ⟨hp', hall'⟩ := List.forall_mem_cons.1 hps'
      obtain ⟨rfl, hrest⟩ := hp.selfDelimiting rest rest' hp' heq
      rw [ih h' hps hall' (Nat.succ_injective hlen) hrest]
    | sentinel _ =>
      obtain ⟨b, p, rfl⟩ := List.exists_cons_of_ne_nil hp.ne_nil
      obtain ⟨rfl, -⟩ := List.cons.inj heq
      exact absurd rfl hhead
  | @sentinel p rest ps _ ih =>
    obtain ⟨hp, hps⟩ := List.forall_mem_cons.1 hps
    cases h' with
    | nil => cases hlen
    | @param _ p' rest' ps' hhead' h' =>
      obtain ⟨hp', -⟩ := List.forall_mem_cons.1 hps'
      obtain ⟨b, p', rfl⟩ := List.exists_cons_of_ne_nil hp'.ne_nil
      obtain ⟨rfl, -⟩ := List.cons.inj heq
      exact absurd rfl hhead'
    | @sentinel p' rest' ps' h' =>
      obtain ⟨hp', hall'⟩ := List.forall_mem_cons.1 hps'
      obtain ⟨rfl, hrest⟩ := hp.selfDelimiting rest rest' hp' (List.cons.inj heq).2
      rw [ih h' hps hall' (Nat.succ_injective hlen) hrest]

theorem DocumentedSignature.not_unlisted (h : DocumentedSignature bytes) :
    ¬ UnlistedSignature bytes := by
  obtain ⟨convention, typeArguments, count, ret, params, g, ps, rfl, hg, hn, hparams, hret, hps⟩ := h
  rintro ⟨convention', typeArguments', count', ret', params', g', ps', heq, hg', hn', hparams',
    ⟨hret', hps'⟩, hu⟩
  obtain ⟨rfl, heq1⟩ := List.cons.inj heq
  obtain ⟨rfl, heq2⟩ := typeArguments_unique hg hg' heq1
  obtain ⟨rfl, heq3, hlen⟩ := number_unique hn hn' heq2
  obtain ⟨rfl, heq4⟩ := hret.retBytes.selfDelimiting _ _ hret' heq3
  obtain rfl := hparams.unique hparams' (fun p hp => (hps p hp).paramBytes) hps' hlen heq4
  rcases hu with hu | ⟨param, hparam, hu⟩
  · exact hret.not_unlisted hu
  · exact (hps param hparam).not_unlisted hu

/-! ## The parser -/

/-- The buffer of `len` bytes begins with a word of `P`. -/
def BeginsWith (P : List UInt8 → Prop) (mem : ℕ → UInt8) (len : ℕ) : Prop :=
  ∃ n ≤ len, P (seg mem 0 n)

theorem exists_ok_tryParse (hn : n ≤ len) (h : ParsedSignature (seg mem 0 n)) :
    ∃ sig, Ok (tryParse len) mem 0 sig n := by
  obtain ⟨sig, hsig⟩ := parsedSignature_iff.1 h
  exact ⟨sig, ok_tryParse.2 ⟨hn, hsig⟩⟩

/-- One signature begins the buffer, so it cannot begin with one of each kind. -/
theorem not_beginsWith_documented (h : BeginsWith UnlistedSignature mem len) :
    ¬ BeginsWith DocumentedSignature mem len := by
  obtain ⟨n, hn, hu⟩ := h
  rintro ⟨n', hn', hd⟩
  obtain ⟨sig, hok⟩ := exists_ok_tryParse hn hu.parsed
  obtain ⟨sig', hok'⟩ := exists_ok_tryParse hn' hd.parsed
  obtain rfl := (Ok.unique hok hok').2
  exact hd.not_unlisted hu

/-- What the parser accepts begins with a signature of the grammar, exactly when the buffer
does not begin with one in which a byte without a case stands for a type. -/
theorem tryParse_documented_iff (mem : ℕ → UInt8) (len : ℕ) :
    (∀ sig cur, Ok (tryParse len) mem 0 sig cur → BeginsWith DocumentedSignature mem len) ↔
      ¬ BeginsWith UnlistedSignature mem len := by
  constructor
  · intro h hu
    obtain ⟨n, hn, hsig⟩ := hu
    obtain ⟨sig, hok⟩ := exists_ok_tryParse hn hsig.parsed
    exact not_beginsWith_documented ⟨n, hn, hsig⟩ (h sig n hok)
  · intro h sig cur hok
    obtain ⟨hle, hbytes⟩ := ok_tryParse.1 hok
    rcases (parsedSignature_iff.2 ⟨sig, hbytes⟩).documented_or_unlisted with hd | hu
    · exact ⟨cur, hle, hd⟩
    · exact absurd ⟨cur, hle, hu⟩ h

/-- One parameter of type `VOID`. -/
def voidParam : List UInt8 := [0x00, 0x01, ELEMENT_TYPE_VOID, ELEMENT_TYPE_VOID]

theorem unlisted_voidParam : UnlistedSignature voidParam := by
  have hret : RetBytes [ELEMENT_TYPE_VOID] := by rw [RetBytes, if_pos rfl]
  have hparam : ParamBytes [ELEMENT_TYPE_VOID] := by
    refine ⟨by decide, by decide, ?_⟩
    rw [ByRefBytes, if_neg (by decide)]
    exact .alone (by decide)
  have hunlisted : ByRefOf UnlistedType [ELEMENT_TYPE_VOID] := by
    rw [ByRefOf, if_neg (by decide)]
    exact .here (by decide) (by decide)
  exact ⟨0x00, [], [0x01], [ELEMENT_TYPE_VOID], [ELEMENT_TYPE_VOID], 0, [[ELEMENT_TYPE_VOID]], rfl,
    ⟨rfl, rfl⟩, rfl, .param (by decide) .nil, ⟨hret, List.forall_mem_singleton.2 hparam⟩,
    .inr ⟨_, List.mem_singleton_self _, hparam, hunlisted⟩⟩

/-- `void M(void)` is accepted. -/
theorem tryParse_accepts_void : ¬ ∀ (mem : ℕ → UInt8) (len : ℕ) (sig : FunctionMethodSignature)
    (cur : ℕ), Ok (tryParse len) mem 0 sig cur → BeginsWith DocumentedSignature mem len := by
  intro h
  have hu : UnlistedSignature (seg (fun i => voidParam.getD i 0) 0 4) := unlisted_voidParam
  obtain ⟨sig, hok⟩ := exists_ok_tryParse le_rfl hu.parsed
  exact not_beginsWith_documented ⟨4, le_rfl, hu⟩ (h _ _ sig 4 hok)

end DdTrace.Signature
