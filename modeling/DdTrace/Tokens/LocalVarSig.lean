import DdTrace.Signature.Grammar

/-!
# Signatures of local variables

`TypeSig` are the types of a signature in the shapes `corhdr.h` gives for the element
types, `LocalVarSig` the signatures of local variables. No type is the beginning of another
(`TypeSig.selfDelimiting`), so a signature has one list of locals (`LocalVarSig.unique`).
-/

namespace DdTrace.Tokens

open Lib Signature

def IMAGE_CEE_CS_CALLCONV_LOCAL_SIG : UInt8 := 0x07

def ELEMENT_TYPE_PINNED : UInt8 := 0x45

/-- What follows an element type. -/
inductive Shape
  | nothing | number | type | tokenAndType | array | genericInst | fnPtr | unknown
  deriving DecidableEq

/-- `TYPEDBYREF`, `PINNED` and `SENTINEL` are no types, but they stand where one does. -/
def shape (b : UInt8) : Shape :=
  if b ∈ [ELEMENT_TYPE_VOID, ELEMENT_TYPE_BOOLEAN, ELEMENT_TYPE_CHAR, ELEMENT_TYPE_I1,
    ELEMENT_TYPE_U1, ELEMENT_TYPE_I2, ELEMENT_TYPE_U2, ELEMENT_TYPE_I4, ELEMENT_TYPE_U4,
    ELEMENT_TYPE_I8, ELEMENT_TYPE_U8, ELEMENT_TYPE_R4, ELEMENT_TYPE_R8, ELEMENT_TYPE_STRING,
    ELEMENT_TYPE_TYPEDBYREF, ELEMENT_TYPE_I, ELEMENT_TYPE_U, ELEMENT_TYPE_OBJECT] then .nothing
  else if b ∈ [ELEMENT_TYPE_CLASS, ELEMENT_TYPE_VALUETYPE, ELEMENT_TYPE_VAR, ELEMENT_TYPE_MVAR] then
    .number
  else if b ∈ [ELEMENT_TYPE_PTR, ELEMENT_TYPE_BYREF, ELEMENT_TYPE_SZARRAY, ELEMENT_TYPE_PINNED,
    ELEMENT_TYPE_SENTINEL] then .type
  else if b ∈ [ELEMENT_TYPE_CMOD_REQD, ELEMENT_TYPE_CMOD_OPT] then .tokenAndType
  else if b = ELEMENT_TYPE_ARRAY then .array
  else if b = ELEMENT_TYPE_GENERICINST then .genericInst
  else if b = ELEMENT_TYPE_FNPTR then .fnPtr
  else .unknown

/-- A number of numbers, and the numbers. -/
def Numbers (bytes : List UInt8) : Prop :=
  ∃ (count : List UInt8) (numbers : List (List UInt8)), bytes = count ++ numbers.flatten ∧
    Number count numbers.length ∧ ∀ number ∈ numbers, ∃ n, Number number n

inductive TypeSig : List UInt8 → Prop
  | alone {b : UInt8} : shape b = .nothing → TypeSig [b]
  | numbered {b : UInt8} {number : List UInt8} {n : ℕ} :
    shape b = .number → Number number n → TypeSig (b :: number)
  | before {b : UInt8} {type : List UInt8} : shape b = .type → TypeSig type → TypeSig (b :: type)
  | modified {b : UInt8} {token type : List UInt8} {n : ℕ} :
    shape b = .tokenAndType → Number token n → TypeSig type → TypeSig (b :: (token ++ type))
  | array {b : UInt8} {type rank sizes loBounds : List UInt8} {n : ℕ} :
    shape b = .array → TypeSig type → Number rank n → Numbers sizes → Numbers loBounds →
    TypeSig (b :: (type ++ (rank ++ (sizes ++ loBounds))))
  | genericInst {b kind : UInt8} {token count : List UInt8} {n : ℕ} {args : List (List UInt8)} :
    shape b = .genericInst → IsClassOrValueType kind → Number token n → Number count args.length →
    (∀ arg ∈ args, TypeSig arg) →
    TypeSig (b :: kind :: (token ++ (count ++ args.flatten)))
  | fnPtr {b convention : UInt8} {typeArguments count ret : List UInt8} {g : ℕ}
    {params : List (List UInt8)} :
    shape b = .fnPtr → TypeArguments convention typeArguments g → Number count params.length →
    TypeSig ret → (∀ param ∈ params, TypeSig param) →
    TypeSig (b :: convention :: (typeArguments ++ (count ++ (ret ++ params.flatten))))

/-- `bytes` is the signature of `locals`. -/
def LocalVarSig (bytes : List UInt8) (locals : List (List UInt8)) : Prop :=
  ∃ count : List UInt8, bytes = IMAGE_CEE_CS_CALLCONV_LOCAL_SIG :: (count ++ locals.flatten) ∧
    Number count locals.length ∧ ∀ type ∈ locals, TypeSig type

/-! ## One reading -/

variable {l l' r r' : List UInt8} {n n' : ℕ}

/-- Whatever follows, `l` is the only word of `P` at the start. -/
def SelfDelimiting (P : List UInt8 → Prop) (l : List UInt8) : Prop :=
  ∀ {l' : List UInt8} (r r' : List UInt8), P l' → l ++ r = l' ++ r' → l = l' ∧ r = r'

theorem number_unique (h : Number l n) (h' : Number l' n') (heq : l ++ r = l' ++ r') :
    l = l' ∧ r = r' ∧ n = n' := by
  have h1 := uncompress_append h r
  have h2 := uncompress_append h' r'
  rw [heq, h2] at h1
  obtain ⟨rfl, rfl⟩ := Prod.mk.inj (Option.some.inj h1)
  exact ⟨List.append_cancel_right heq, rfl, rfl⟩

theorem flatten_unique {P : List UInt8 → Prop} {ls ls' : List (List UInt8)}
    (h : ∀ l ∈ ls, SelfDelimiting P l) (h' : ∀ l ∈ ls', P l) (hlen : ls.length = ls'.length)
    (heq : ls.flatten ++ r = ls'.flatten ++ r') : ls = ls' ∧ r = r' := by
  induction ls generalizing ls' with
  | nil =>
    obtain rfl := List.length_eq_zero_iff.1 hlen.symm
    exact ⟨rfl, heq⟩
  | cons l ls ih =>
    obtain ⟨l', ls', rfl⟩ := List.exists_cons_of_length_eq_add_one hlen.symm
    rw [List.flatten_cons, List.flatten_cons, List.append_assoc, List.append_assoc] at heq
    obtain ⟨rfl, hrest⟩ := h l List.mem_cons_self _ _ (h' l' List.mem_cons_self) heq
    obtain ⟨rfl, rfl⟩ := ih (fun l hl => h l (List.mem_cons_of_mem _ hl))
      (fun l hl => h' l (List.mem_cons_of_mem _ hl)) (Nat.succ_injective hlen) hrest
    exact ⟨rfl, rfl⟩

theorem numbers_unique (h : Numbers l) (h' : Numbers l') (heq : l ++ r = l' ++ r') :
    l = l' ∧ r = r' := by
  obtain ⟨count, numbers, rfl, hcount, hnumbers⟩ := h
  obtain ⟨count', numbers', rfl, hcount', hnumbers'⟩ := h'
  rw [List.append_assoc, List.append_assoc] at heq
  obtain ⟨rfl, hrest, hlen⟩ := number_unique hcount hcount' heq
  have hself : ∀ l ∈ numbers, SelfDelimiting (fun l => ∃ n, Number l n) l := by
    intro l hl l' r r' hl' heq
    obtain ⟨n, hn⟩ := hnumbers l hl
    obtain ⟨n', hn'⟩ := hl'
    exact ⟨(number_unique hn hn' heq).1, (number_unique hn hn' heq).2.1⟩
  obtain ⟨rfl, rfl⟩ := flatten_unique hself hnumbers' hlen hrest
  exact ⟨rfl, rfl⟩

theorem typeArguments_unique {b : UInt8} (h : TypeArguments b l n) (h' : TypeArguments b l' n')
    (heq : l ++ r = l' ++ r') : l = l' ∧ r = r' := by
  unfold TypeArguments at h h'
  split at h
  · rw [if_pos ‹_›] at h'
    exact ⟨(number_unique h h' heq).1, (number_unique h h' heq).2.1⟩
  · rw [if_neg ‹_›] at h'
    obtain ⟨rfl, -⟩ := h
    obtain ⟨rfl, -⟩ := h'
    exact ⟨rfl, heq⟩

/-- What can stand behind an element type. -/
def Follows : Shape → List UInt8 → Prop
  | .nothing, l => l = []
  | .number, l => ∃ n, Number l n
  | .type, l => TypeSig l
  | .tokenAndType, l => ∃ token type n, l = token ++ type ∧ Number token n ∧ TypeSig type
  | .array, l => ∃ type rank sizes loBounds n, l = type ++ (rank ++ (sizes ++ loBounds)) ∧
    TypeSig type ∧ Number rank n ∧ Numbers sizes ∧ Numbers loBounds
  | .genericInst, l => ∃ (kind : UInt8) (token count : List UInt8) (n : ℕ)
    (args : List (List UInt8)), l = kind :: (token ++ (count ++ args.flatten)) ∧ Number token n ∧
    Number count args.length ∧ ∀ arg ∈ args, TypeSig arg
  | .fnPtr, l => ∃ (convention : UInt8) (typeArguments count ret : List UInt8) (g : ℕ)
    (params : List (List UInt8)),
    l = convention :: (typeArguments ++ (count ++ (ret ++ params.flatten))) ∧
    TypeArguments convention typeArguments g ∧ Number count params.length ∧ TypeSig ret ∧
    ∀ param ∈ params, TypeSig param
  | .unknown, _ => False

theorem TypeSig.follows (h : TypeSig l) : ∃ b rest, l = b :: rest ∧ Follows (shape b) rest := by
  cases h with
  | alone hb => exact ⟨_, _, rfl, hb ▸ rfl⟩
  | numbered hb hn => exact ⟨_, _, rfl, hb ▸ ⟨_, hn⟩⟩
  | before hb ht => exact ⟨_, _, rfl, hb ▸ ht⟩
  | modified hb hn ht => exact ⟨_, _, rfl, hb ▸ ⟨_, _, _, rfl, hn, ht⟩⟩
  | array hb ht hn hs hl => exact ⟨_, _, rfl, hb ▸ ⟨_, _, _, _, _, rfl, ht, hn, hs, hl⟩⟩
  | genericInst hb _ hn hm hargs => exact ⟨_, _, rfl, hb ▸ ⟨_, _, _, _, _, rfl, hn, hm, hargs⟩⟩
  | fnPtr hb hg hn hret hps => exact ⟨_, _, rfl, hb ▸ ⟨_, _, _, _, _, _, rfl, hg, hn, hret, hps⟩⟩

theorem TypeSig.read {b : UInt8} {s : Shape} (h : TypeSig l') (hb : shape b = s)
    (heq : b :: l ++ r = l' ++ r') : ∃ rest, l' = b :: rest ∧ Follows s rest ∧ l ++ r = rest ++ r' := by
  obtain ⟨b', rest, rfl, hrest⟩ := h.follows
  rw [List.cons_append, List.cons_append] at heq
  obtain ⟨rfl, heq'⟩ := List.cons.inj heq
  exact ⟨rest, rfl, hb ▸ hrest, heq'⟩

/-- No type is the beginning of another. -/
theorem TypeSig.selfDelimiting (h : TypeSig l) : SelfDelimiting TypeSig l := by
  induction h with
  | alone hb =>
    intro l' r r' hl' heq
    obtain ⟨rest, rfl, hrest, heq1⟩ := hl'.read hb heq
    obtain rfl := hrest
    exact ⟨rfl, heq1⟩
  | numbered hb hn =>
    intro l' r r' hl' heq
    obtain ⟨rest, rfl, hrest, heq1⟩ := hl'.read hb heq
    obtain ⟨n', hn'⟩ := hrest
    obtain ⟨rfl, rfl, -⟩ := number_unique hn hn' heq1
    exact ⟨rfl, rfl⟩
  | before hb _ ih =>
    intro l' r r' hl' heq
    obtain ⟨rest, rfl, hrest, heq1⟩ := hl'.read hb heq
    obtain ⟨rfl, rfl⟩ := ih r r' hrest heq1
    exact ⟨rfl, rfl⟩
  | modified hb hn _ ih =>
    intro l' r r' hl' heq
    obtain ⟨rest, rfl, hrest, heq1⟩ := hl'.read hb heq
    obtain ⟨token', type', n', rfl, hn', htype'⟩ := hrest
    rw [List.append_assoc, List.append_assoc] at heq1
    obtain ⟨rfl, heq2, -⟩ := number_unique hn hn' heq1
    obtain ⟨rfl, rfl⟩ := ih r r' htype' heq2
    exact ⟨rfl, rfl⟩
  | array hb _ hn hsizes hlo ih =>
    intro l' r r' hl' heq
    obtain ⟨rest, rfl, hrest, heq1⟩ := hl'.read hb heq
    obtain ⟨type', rank', sizes', lo', n', rfl, htype', hn', hsizes', hlo'⟩ := hrest
    simp only [List.append_assoc] at heq1
    obtain ⟨rfl, heq2⟩ := ih _ _ htype' heq1
    obtain ⟨rfl, heq3, -⟩ := number_unique hn hn' heq2
    obtain ⟨rfl, heq4⟩ := numbers_unique hsizes hsizes' heq3
    obtain ⟨rfl, rfl⟩ := numbers_unique hlo hlo' heq4
    exact ⟨rfl, rfl⟩
  | genericInst hb _ hn hm _ ih =>
    intro l' r r' hl' heq
    obtain ⟨rest, rfl, hrest, heq1⟩ := hl'.read hb heq
    obtain ⟨kind', token', count', n', args', rfl, hn', hm', hargs'⟩ := hrest
    simp only [List.cons_append, List.append_assoc, List.cons.injEq] at heq1
    obtain ⟨rfl, heq2⟩ := heq1
    obtain ⟨rfl, heq3, -⟩ := number_unique hn hn' heq2
    obtain ⟨rfl, heq4, hlen⟩ := number_unique hm hm' heq3
    obtain ⟨rfl, rfl⟩ := flatten_unique ih hargs' hlen heq4
    exact ⟨rfl, rfl⟩
  | fnPtr hb hg hn _ _ ih ihs =>
    intro l' r r' hl' heq
    obtain ⟨rest, rfl, hrest, heq1⟩ := hl'.read hb heq
    obtain ⟨convention', g', count', ret', n', params', rfl, hg', hn', hret', hparams'⟩ := hrest
    simp only [List.cons_append, List.append_assoc, List.cons.injEq] at heq1
    obtain ⟨rfl, heq2⟩ := heq1
    obtain ⟨rfl, heq3⟩ := typeArguments_unique hg hg' heq2
    obtain ⟨rfl, heq4, hlen⟩ := number_unique hn hn' heq3
    obtain ⟨rfl, heq5⟩ := ih _ _ hret' heq4
    obtain ⟨rfl, rfl⟩ := flatten_unique ihs hparams' hlen heq5
    exact ⟨rfl, rfl⟩

/-- A signature has one list of locals. -/
theorem LocalVarSig.unique {bytes : List UInt8} {locals locals' : List (List UInt8)}
    (h : LocalVarSig bytes locals) (h' : LocalVarSig bytes locals') : locals = locals' := by
  obtain ⟨count, rfl, hcount, hlocals⟩ := h
  obtain ⟨count', heq, hcount', hlocals'⟩ := h'
  obtain ⟨rfl, hrest, hlen⟩ := number_unique hcount hcount' (List.cons.inj heq).2
  rw [← List.append_nil locals.flatten, ← List.append_nil locals'.flatten] at hrest
  exact (flatten_unique (fun l hl => (hlocals l hl).selfDelimiting) hlocals' hlen hrest).1

end DdTrace.Tokens
