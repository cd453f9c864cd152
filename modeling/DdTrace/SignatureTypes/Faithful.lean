import DdTrace.SignatureTypes.Shape

/-!
# Where the loop renders every type

A type that is not sound spoils its name: the text leaves the reference at some character, or
the innermost generic type never closes. Nothing that comes behind repairs it.
-/

namespace DdTrace.SignatureTypes

open Lib Signature Tokens

variable {metadata : TypeMetadata} {expected i j k : ℕ} {s : State} {text more ref q : String}

/-! ## Texts that part -/

/-- The text is not the start of the reference. -/
def Diverges (text ref : String) : Prop := ∀ more, text ++ more ≠ ref

theorem Diverges.append (h : Diverges text ref) : Diverges (text ++ more) ref := by
  intro rest heq
  apply h (more ++ rest)
  rw [← heq, String.append_assoc]

theorem Diverges.ne (h : Diverges text ref) : text ≠ ref := by
  intro heq
  apply h ""
  rw [heq, String.append_empty]

theorem Diverges.left (h : Diverges text ref) : Diverges (more ++ text) (more ++ ref) := by
  intro rest heq
  rw [String.append_assoc, String.append_right_inj] at heq
  exact h rest heq

theorem diverges_of_head {c : Char} (htext : text.toList.head? = some c)
    (href : ref.toList.head? ≠ some c) : Diverges text ref := by
  intro rest heq
  apply href
  rw [← heq]
  exact head_append htext

theorem diverges_brackets (hlt : i < k) (hq : Delimits q) :
    Diverges (brackets k) (brackets i ++ q) := by
  induction i generalizing k with
  | zero =>
    obtain ⟨k, rfl⟩ := Nat.exists_eq_add_of_lt hlt
    rw [brackets_succ, brackets, String.empty_append]
    apply diverges_of_head (c := '[')
    · exact head_append rfl
    · exact hq.head_ne (by decide) (by decide)
  | succ i ih =>
    obtain ⟨k, rfl⟩ := Nat.exists_eq_add_of_lt hlt
    rw [brackets_succ, brackets_succ, String.append_assoc]
    apply Diverges.left
    apply ih
    omega

theorem diverges_char (hq : Delimits q) :
    Diverges "System.Char16" ("System.Char" ++ (brackets i ++ q)) := by
  have hsplit : "System.Char16" = "System.Char" ++ "16" := rfl
  rw [hsplit]
  apply Diverges.left
  apply diverges_of_head (c := '1') rfl
  cases i with
  | zero =>
    rw [brackets, String.empty_append]
    exact hq.head_ne (by decide) (by decide)
  | succ i =>
    rw [brackets_succ, String.append_assoc, head_append (c := '[') rfl]
    decide

theorem diverges_close : Diverges ">" (", " ++ ref) := by
  apply diverges_of_head (c := '>') rfl
  rw [head_append (c := ',') rfl]
  decide

theorem diverges_comma : Diverges ", " (">" ++ ref) := by
  apply diverges_of_head (c := ',') rfl
  rw [head_append (c := '>') rfl]
  decide

/-- The angle bracket comes too early where the types around are left out. -/
theorem ne_enclosed {around : List Char} (hne : around ≠ []) (hplain : '<' ∉ around) :
    ∀ {n : ℕ} {name rest rest' : List Char}, name.length ≤ n →
    name ++ '<' :: rest ≠ around ++ (name ++ '<' :: rest')
  | n, name, rest, rest', hn => by
    intro heq
    rcases List.append_eq_append_iff.1 heq with ⟨tail, haround, htail⟩ | ⟨name', hname, htail⟩
    · cases tail with
      | nil =>
        rw [List.append_nil] at haround
        subst haround
        obtain ⟨c, tail, rfl⟩ := List.exists_cons_of_ne_nil hne
        obtain ⟨rfl, -⟩ := List.cons.inj htail
        exact hplain List.mem_cons_self
      | cons c tail =>
        obtain ⟨rfl, -⟩ := List.cons.inj htail
        apply hplain
        rw [haround]
        exact List.mem_append_right _ List.mem_cons_self
    · have hlt : name'.length < name.length := by
        have := List.length_pos_iff.2 hne
        rw [hname, List.length_append]
        omega
      match n with
      | 0 => omega
      | n + 1 =>
        have hle : name'.length ≤ n := by omega
        have hshorter : name' ++ '<' :: rest = around ++ (name' ++ '<' :: rest') := by
          rw [← htail, hname, List.append_assoc]
        exact ne_enclosed hne hplain hle hshorter

/-! ## Spoiled names -/

/-- The name of type `j` is not the reference and does not become it. -/
structure Spoiled (j : ℕ) (ref : String) (s : State) : Prop where
  wrong : s.typeNames[j]? ≠ some ref
  lost : j < s.currentTypeIndex ∨ s.currentTypeIndex = j ∧
    (Diverges s.currentTypeName ref ∨ ∃ count ∈ s.genericArgStack, count < 0)

def Spoils (j : ℕ) (ref : String) (result : Except Stop State) : Prop :=
  ∀ s, result = .ok s → Spoiled j ref s

theorem Spoils.ok (h : Spoiled j ref s) : Spoils j ref (.ok s) := by
  rintro _ ⟨⟩
  exact h

theorem Spoils.bind {m : Except Stop State} {f : State → Except Stop State} (hm : Spoils j ref m)
    (hf : ∀ s, Spoiled j ref s → Spoils j ref (f s)) : Spoils j ref (m >>= f) := by
  cases m with
  | error stop =>
    rintro _ ⟨⟩
  | ok s => exact hf s (hm s rfl)

theorem Spoiled.append (h : Spoiled j ref s) : Spoiled j ref (s.append text) := by
  refine ⟨h.wrong, ?_⟩
  rcases h.lost with hlt | ⟨heq, hdiverges | hneg⟩
  · exact .inl hlt
  · exact .inr ⟨heq, .inl hdiverges.append⟩
  · exact .inr ⟨heq, .inr hneg⟩

theorem Spoiled.wait (h : Spoiled j ref s) : Spoiled j ref { s with appendToType := text } :=
  ⟨h.wrong, h.lost⟩

theorem negative_decrement {stack : List ℤ} (h : ∃ count ∈ stack, count < 0) :
    ∃ count ∈ decrement stack, count < 0 := by
  obtain ⟨count, hmem, hneg⟩ := h
  cases stack with
  | nil => cases hmem
  | cons top stack =>
    rcases List.mem_cons.1 hmem with rfl | hmem
    · exact ⟨count - 1, List.mem_cons_self, by omega⟩
    · exact ⟨count, List.mem_cons_of_mem _ hmem, hneg⟩

theorem Spoiled.within (h : Spoiled j ref s) : Spoiled j ref (s.within (decrement s.genericArgStack)) := by
  refine ⟨h.wrong, ?_⟩
  rcases h.lost with hlt | ⟨heq, hdiverges | hneg⟩
  · exact .inl hlt
  · exact .inr ⟨heq, .inl hdiverges⟩
  · exact .inr ⟨heq, .inr (negative_decrement hneg)⟩

theorem unwind_append (stack : List ℤ) :
    ∃ more, (unwind text stack).1 = text ++ more := by
  induction stack generalizing text with
  | nil => exact ⟨"", String.append_empty.symm⟩
  | cons top stack ih =>
    unfold unwind
    split
    · obtain ⟨more, hmore⟩ := @ih (text ++ ">" ++ separator stack)
      refine ⟨">" ++ separator stack ++ more, ?_⟩
      rw [hmore]
      simp only [String.append_assoc]
    · exact ⟨"", String.append_empty.symm⟩

/-- Only zeros leave the stack. -/
theorem unwind_negative {stack : List ℤ} (h : ∃ count ∈ stack, count < 0) :
    ∃ count ∈ (unwind text stack).2, count < 0 := by
  induction stack generalizing text with
  | nil => exact h
  | cons top stack ih =>
    obtain ⟨count, hmem, hneg⟩ := h
    unfold unwind
    split
    · rename_i htop
      rcases List.mem_cons.1 hmem with rfl | hmem
      · omega
      · exact ih ⟨count, hmem, hneg⟩
    · exact ⟨count, hmem, hneg⟩

theorem spoils_settle (h : Spoiled j ref s) : Spoils j ref (settle expected s) := by
  obtain ⟨more, hmore⟩ := @unwind_append s.currentTypeName s.genericArgStack
  unfold settle
  simp only
  split
  · apply Spoils.ok
    refine ⟨h.wrong, ?_⟩
    rcases h.lost with hlt | ⟨heq, hdiverges | hneg⟩
    · exact .inl hlt
    · refine .inr ⟨heq, .inl ?_⟩
      simp only [hmore]
      exact hdiverges.append
    · exact .inr ⟨heq, .inr (unwind_negative hneg)⟩
  · rename_i hempty
    split
    · rintro _ ⟨⟩
    apply Spoils.ok
    rcases h.lost with hlt | ⟨heq, hlost⟩
    · refine ⟨?_, .inl (Nat.lt_succ_of_lt hlt)⟩
      simp only
      rw [List.getElem?_set_ne (by omega)]
      exact h.wrong
    · have hdiverges : Diverges s.currentTypeName ref := by
        rcases hlost with hdiverges | hneg
        · exact hdiverges
        · obtain ⟨count, hmem, -⟩ := @unwind_negative s.currentTypeName _ hneg
          rw [not_not.1 hempty] at hmem
          cases hmem
      refine ⟨?_, .inl (by simp only; omega)⟩
      simp only [heq, hmore, List.getElem?_set_self']
      intro hset
      obtain ⟨_, -, hset⟩ := Option.map_eq_some_iff.1 hset
      exact hdiverges.append.ne hset

theorem spoils_complete (h : Spoiled j ref s) : Spoils j ref (complete expected s) := by
  have hstate : Spoiled j ref ((s.append (s.appendToType ++
      separator (decrement s.genericArgStack))).within (decrement s.genericArgStack)) :=
    h.append.within
  have hcomplete : complete expected s = settle expected ((s.append (s.appendToType ++
      separator (decrement s.genericArgStack))).within (decrement s.genericArgStack)) := by
    simp only [complete, State.append, State.within, String.append_assoc]
  rw [hcomplete]
  exact spoils_settle hstate

theorem spoils_openGeneric {name : String} (h : Spoiled j ref s) :
    Spoils j ref (openGeneric name s) := by
  unfold openGeneric
  split
  · rintro _ ⟨⟩
  · rename_i count _
    apply Spoils.ok
    have hname : Spoiled j ref (s.append (name ++ "<")) := h.append
    have hopen := hname.within
    refine ⟨hopen.wrong, ?_⟩
    rcases hopen.lost with hlt | ⟨heq, hdiverges | ⟨count', hmem, hneg⟩⟩
    · exact .inl hlt
    · exact .inr ⟨heq, .inl hdiverges⟩
    · exact .inr ⟨heq, .inr ⟨count', List.mem_cons_of_mem _ hmem, hneg⟩⟩

mutual

theorem spoils_walk : ∀ {type : SigType} {s : State}, Spoiled j ref s →
    Spoils j ref (walk metadata expected type s)
  | .simple _, _, h | .token _ _, _, h | .var _, _, h | .mvar _, _, h => by
    rw [walk]
    exact spoils_complete h.append
  | .szArray elem, _, h => by
    rw [walk]
    exact spoils_walk h.wait
  | .array _ _, _, h => by
    rw [walk]
    exact Spoils.ok h
  | .genericInst _ token args, _, h => by
    rw [walk]
    exact (spoils_openGeneric h).bind fun _ hs => spoils_walkArgs hs

theorem spoils_walkArgs : ∀ {types : List SigType} {s : State}, Spoiled j ref s →
    Spoils j ref (walkArgs metadata expected types s)
  | [], _, h => by
    rw [walkArgs]
    exact Spoils.ok h
  | type :: types, _, h => by
    rw [walkArgs]
    exact (spoils_walk h).bind fun _ hs => spoils_walkArgs hs

end

section Plain

variable (metadata : TypeMetadata)

mutual

/-- No generic type is within a type with an angle bracket in its name. -/
def SigTypePlain : SigType → Prop
  | .simple _ | .token _ _ | .var _ | .mvar _ => True
  | .szArray elem | .array elem _ => SigTypePlain elem
  | .genericInst _ token args =>
    '<' ∉ (enclosingTypes metadata token).toList ∧ SigTypesPlain args

def SigTypesPlain : List SigType → Prop
  | [] => True
  | type :: types => SigTypePlain type ∧ SigTypesPlain types

end

def RetSig.Plain : RetSig → Prop
  | .void => True
  | .value param => SigTypePlain metadata param.type

structure Plain (sig : MethodSig) : Prop where
  ret : RetSig.Plain metadata sig.ret
  params : ∀ param ∈ sig.params, SigTypePlain metadata param.type

end Plain

/-- So far the text agrees with the reference, of which `rest` is still to come. -/
structure InStep (j : ℕ) (ref rest : String) (s : State) : Prop where
  index : s.currentTypeIndex = j
  unnamed : s.typeNames[j]? ≠ some ref
  text : s.currentTypeName ++ rest = ref

theorem State.append_append : (s.append text).append more = s.append (text ++ more) := by
  simp only [State.append, String.append_assoc]

theorem InStep.append (h : InStep j ref (text ++ more) s) : InStep j ref more (s.append text) := by
  refine ⟨h.index, h.unnamed, ?_⟩
  rw [← h.text]
  simp only [State.append, String.append_assoc]

theorem InStep.spoiled (h : InStep j ref more s) (hdiverges : Diverges text more)
    {stack : List ℤ} {wait : String} :
    Spoiled j ref { s.append text with genericArgStack := stack, appendToType := wait } := by
  refine ⟨h.unnamed, .inr ⟨h.index, .inl ?_⟩⟩
  rw [← h.text]
  exact hdiverges.left

/-- A name with more brackets than the reference has behind it. -/
theorem InStep.spoils_brackets (h : InStep j ref (text ++ (brackets i ++ q)) s)
    (hwait : s.appendToType = brackets k) (hlt : i < k) (hq : Delimits q) :
    Spoils j ref (complete expected (s.append text)) := by
  have hstate : complete expected (s.append text) = complete expected
      { (s.append text).append (brackets k) with appendToType := "" } := by
    apply complete_congr
    · rfl
    · rfl
    · rfl
    · simp only [State.append, hwait, String.append_empty]
  rw [hstate]
  exact spoils_complete (h.append.spoiled (diverges_brackets hlt hq))

theorem argsText_append {type : SigType} {types : List SigType} :
    argsText metadata (type :: types) ++ (">" ++ more) =
      typeText metadata type ++ afterArg types.length (argsText metadata types) more := by
  rw [argsText, append_afterArg]
  intro hnil
  rw [List.length_eq_zero_iff.1 hnil, argsText]

mutual

/-- A type that is not sound, or that waits for more brackets than the reference still has. -/
theorem walk_spoils : ∀ {type : SigType} {s : State} {k i : ℕ} {q : String},
    SigTypeSupported type → SigTypePlain metadata type → s.appendToType = brackets k →
    InStep j ref (typeText metadata type ++ (brackets i ++ q)) s → Delimits q → i ≤ k →
    (i < k ∨ ¬ SigTypeSound metadata type ∨ (0 < k ∧ IsGeneric type)) →
    Spoils j ref (walk metadata expected type s)
  | .simple type, s, k, i, q, hsupported, _, hwait, hstep, hq, _, hunsound => by
    rw [walk]
    by_cases hchar : type = .char
    · subst hchar
      exact spoils_complete (hstep.spoiled (@diverges_char i q hq))
    · rw [simpleText_eq hsupported.1 hsupported.2 hchar]
      rw [typeText] at hstep
      rcases hunsound with hlt | hunsound | ⟨-, hgeneric⟩
      · exact hstep.spoils_brackets hwait hlt hq
      · exact absurd hchar hunsound
      · exact hgeneric.elim
  | .token _ token, s, k, i, q, _, _, hwait, hstep, hq, _, hunsound => by
    rw [walk, classText_eq]
    rw [typeText] at hstep
    rcases hunsound with hlt | hunsound | ⟨-, hgeneric⟩
    · exact hstep.spoils_brackets hwait hlt hq
    · exact absurd trivial hunsound
    · exact hgeneric.elim
  | .var _, s, k, i, q, _, _, hwait, hstep, hq, _, hunsound
  | .mvar _, s, k, i, q, _, _, hwait, hstep, hq, _, hunsound => by
    rw [walk]
    rw [typeText] at hstep
    rcases hunsound with hlt | hunsound | ⟨-, hgeneric⟩
    · exact hstep.spoils_brackets hwait hlt hq
    · exact absurd trivial hunsound
    · exact hgeneric.elim
  | .array _ _, _, _, _, _, hsupported, _, _, _, _, _, _ => hsupported.elim
  | .szArray elem, s, k, i, q, hsupported, hplain, hwait, hstep, hq, hle, hunsound => by
    have helem : SigTypeSupported elem := hsupported
    have hwait' : s.appendToType ++ "[]" = brackets (k + 1) := by rw [hwait, brackets]
    have hstep' : InStep j ref (typeText metadata elem ++ (brackets (i + 1) ++ q))
        { s with appendToType := s.appendToType ++ "[]" } := by
      refine ⟨hstep.index, hstep.unnamed, ?_⟩
      rw [← hstep.text, typeText, brackets_succ]
      simp only [String.append_assoc]
    rw [walk]
    apply walk_spoils helem hplain hwait' hstep' hq (Nat.succ_le_succ hle)
    rcases hunsound with hlt | hunsound | ⟨-, hgeneric⟩
    · exact .inl (Nat.succ_lt_succ hlt)
    · by_cases hgeneric : IsGeneric elem
      · exact .inr (.inr ⟨Nat.succ_pos k, hgeneric⟩)
      · exact .inr (.inl fun hsound => hunsound ⟨hgeneric, hsound⟩)
    · exact hgeneric.elim
  | .genericInst kind token args, s, k, i, q, hsupported, hplain, hwait, hstep, hq, hle,
      hunsound => by
    rw [walk, openGeneric]
    cases hcount : actualArgCount (tokenInfo metadata token).name with
    | none =>
      rintro _ ⟨⟩
    | some count =>
      rw [typeText, tokenText] at hstep
      by_cases hnested : enclosingTypes metadata token = ""
      · have hcondition : 0 < k ∨ count ≠ (args.length : ℤ) ∨ ¬ SigTypesSound metadata args := by
          rcases hunsound with hlt | hunsound | ⟨hpos, -⟩
          · exact .inl (Nat.zero_lt_of_lt hlt)
          · by_cases hargs : count = (args.length : ℤ)
            · subst hargs
              exact .inr (.inr fun hsound => hunsound ⟨hnested, hcount, hsound⟩)
            · exact .inr (.inl hargs)
          · exact .inl hpos
        have hargs : ∀ {stack : List ℤ} (s : State), s.appendToType = brackets k →
            s.genericArgStack = count :: decrement stack →
            InStep j ref (argsText metadata args ++ (">" ++ (brackets i ++ q))) s →
            Spoils j ref (walkArgs metadata expected args s) := fun _ hwait hstack hstep =>
          walkArgs_spoils hsupported.1 hsupported.2 hplain.2 hwait hstack hstep hcondition
        have happend : InStep j ref (argsText metadata args ++ (">" ++ (brackets i ++ q)))
            (s.append ((tokenInfo metadata token).name ++ "<")) := by
          apply InStep.append
          simp only [hnested, String.empty_append, String.append_assoc] at hstep ⊢
          exact hstep
        exact hargs _ hwait rfl ⟨happend.index, happend.unnamed, happend.text⟩
      · apply spoils_walkArgs
        apply hstep.spoiled
        intro rest heq
        have hlist := congrArg String.toList heq
        simp only [String.toList_append, List.append_assoc] at hlist
        have hne : (enclosingTypes metadata token).toList ≠ [] := by
          intro hnil
          exact hnested (String.toList_eq_nil_iff.1 hnil)
        exact ne_enclosed hne hplain.1 (Nat.le_refl _) hlist

theorem walkArgs_spoils : ∀ {args : List SigType} {s : State} {k : ℕ} {count : ℤ}
    {stack : List ℤ} {q : String}, args ≠ [] → SigTypesSupported args →
    SigTypesPlain metadata args → s.appendToType = brackets k →
    s.genericArgStack = count :: decrement stack →
    InStep j ref (argsText metadata args ++ (">" ++ q)) s →
    (0 < k ∨ count ≠ (args.length : ℤ) ∨ ¬ SigTypesSound metadata args) →
    Spoils j ref (walkArgs metadata expected args s)
  | [], _, _, _, _, _, hne, _, _, _, _, _, _ => absurd rfl hne
  | type :: types, s, k, count, stack, q, _, hsupported, hplain, hwait, hstack, hstep,
      hunsound => by
    rw [argsText_append] at hstep
    rw [walkArgs]
    by_cases hfirst : 0 < k ∨ ¬ SigTypeSound metadata type
    · have hstep' : InStep j ref (typeText metadata type ++
          (brackets 0 ++ afterArg types.length (argsText metadata types) q)) s := by
        rw [brackets, String.empty_append]
        exact hstep
      have hspoils : Spoils j ref (walk metadata expected type s) := by
        apply walk_spoils hsupported.1 hplain.1 hwait hstep' delimits_afterArg (Nat.zero_le _)
        rcases hfirst with hpos | hunsound
        · exact .inl hpos
        · exact .inr (.inl hunsound)
      exact hspoils.bind fun _ hs => spoils_walkArgs hs
    rw [not_or, not_not] at hfirst
    obtain ⟨hk, hsound⟩ := hfirst
    obtain rfl : k = 0 := by omega
    have hafter : InStep j ref (afterArg types.length (argsText metadata types) q) (s.append (typeText metadata type)) :=
      hstep.append
    rw [walk_sound hsupported.1 hsound hwait fun _ => rfl, complete_arg hwait hstack]
    rcases lt_trichotomy (count - 1) 0 with hneg | hzero | hpos
    · -- below zero it is never zero again, and the type stays open
      have hspoiled : Spoiled j ref
          ((s.append (typeText metadata type ++ separator ((count - 1) :: decrement stack))).within
            ((count - 1) :: decrement stack)) :=
        ⟨hstep.unnamed, .inr ⟨hstep.index, .inr ⟨count - 1, List.mem_cons_self, hneg⟩⟩⟩
      exact (spoils_settle hspoiled).bind fun _ hs => spoils_walkArgs hs
    · cases types with
      | nil =>
        have hone : count = (([type] : List SigType).length : ℤ) := by
          rw [List.length_singleton]
          omega
        rcases hunsound with hpos | hcount | hunsound
        · exact absurd hpos hk
        · exact absurd hone hcount
        · exact absurd ⟨hsound, trivial⟩ hunsound
      | cons next types =>
        have hclose : Spoiled j ref (((s.append (typeText metadata type)).append ">").within stack) :=
          hafter.spoiled diverges_close
        rw [hzero, separator, if_neg (by decide), String.append_empty, settle_close]
        exact (spoils_complete hclose).bind fun _ hs => spoils_walkArgs hs
    · rw [settle_pos (by omega), separator, if_pos hpos]
      cases types with
      | nil =>
        have hcomma : Spoiled j ref (((s.append (typeText metadata type)).append ", ").within
            ((count - 1) :: decrement stack)) :=
          hafter.spoiled diverges_comma
        rw [State.append_append] at hcomma
        apply Spoils.ok hcomma
      | cons next types =>
        have hnext : InStep j ref (argsText metadata (next :: types) ++ (">" ++ q))
            (((s.append (typeText metadata type)).append ", ").within
              ((count - 1) :: decrement stack)) :=
          ⟨hafter.append.index, hafter.append.unnamed, hafter.append.text⟩
        rw [State.append_append] at hnext
        apply walkArgs_spoils (List.cons_ne_nil _ _) hsupported.2 hplain.2 (k := 0) rfl rfl hnext
        rcases hunsound with hpos | hcount | hunsound
        · exact absurd hpos hk
        · refine .inr (.inl fun h => hcount ?_)
          rw [List.length_cons]
          push_cast
          omega
        · exact .inr (.inr fun h => hunsound ⟨hsound, h⟩)

end

/-! ## Signatures that are not sound -/

end DdTrace.SignatureTypes
