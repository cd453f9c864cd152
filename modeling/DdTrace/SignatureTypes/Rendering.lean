import DdTrace.SignatureTypes.Walk

/-!
# The rendering of types

`typeText` renders a type by its structure: the name of a token with the types it is nested in,
the element type before its brackets, the arguments of a generic type in its angle brackets.
`walk` appends the rendering of a type to the text so far where the type is sound.
-/

namespace DdTrace.SignatureTypes

open Lib Signature Tokens

variable {metadata : TypeMetadata} {expected k : ℕ} {s : State} {text : String}

/-! ## The reference -/

section Reference

variable (metadata : TypeMetadata)

/-- The types that a type is nested in, up to one with a namespace. -/
def enclosingText : ℕ → TypeInfo → String
  | 0, _ => ""
  | depth + 1, type =>
    if '.' ∈ type.name.toList ∨ metadata.getNestedClassProps type.id = mdTokenNil then ""
    else
      let enclosing := metadata.getTypeInfo (metadata.getNestedClassProps type.id)
      enclosingText depth enclosing ++ enclosing.name ++ "+"

def enclosingTypes (token : TypeDefOrRef) : String :=
  enclosingText metadata (metadata.depth (tokenInfo metadata token).id) (tokenInfo metadata token)

def tokenText (token : TypeDefOrRef) : String :=
  enclosingTypes metadata token ++ (tokenInfo metadata token).name

mutual

/-- Variables are not told apart. -/
def typeText : SigType → String
  | .simple type => simpleName type
  | .token _ token => tokenText metadata token
  | .szArray elem => typeText elem ++ "[]"
  | .array elem _ => typeText elem
  | .genericInst _ token args => tokenText metadata token ++ "<" ++ argsText args ++ ">"
  | .var _ | .mvar _ => "T"

def argsText : List SigType → String
  | [] => ""
  | type :: types =>
    typeText type ++ (if types.length = 0 then "" else ", ") ++ argsText types

end

end Reference

/-! ## The types the loop knows -/

mutual

/-- The element types of the `switch`; a generic type has arguments. -/
def SigTypeSupported : SigType → Prop
  | .simple type => type ≠ .i ∧ type ≠ .u
  | .token _ _ | .var _ | .mvar _ => True
  | .szArray elem => SigTypeSupported elem
  | .array _ _ => False
  | .genericInst _ _ args => args ≠ [] ∧ SigTypesSupported args

def SigTypesSupported : List SigType → Prop
  | [] => True
  | type :: types => SigTypeSupported type ∧ SigTypesSupported types

end

def RetSig.Supported : RetSig → Prop
  | .void => True
  | .value param => SigTypeSupported param.type

/-- A generic method has at least one type parameter. -/
structure Supported (sig : MethodSig) : Prop where
  typeArguments : sig.typeArguments ≠ some 0
  ret : RetSig.Supported sig.ret
  params : ∀ param ∈ sig.params, SigTypeSupported param.type

mutual

theorem hasArray_of_supported : ∀ {type : SigType}, SigTypeSupported type → type.hasArray = false
  | .simple _, _ | .token _ _, _ | .var _, _ | .mvar _, _ => by rw [SigType.hasArray]
  | .szArray elem, h => by
    rw [SigType.hasArray]
    exact hasArray_of_supported h
  | .array _ _, h => h.elim
  | .genericInst _ _ args, h => by
    rw [SigType.hasArray]
    exact haveArray_of_supported h.2

theorem haveArray_of_supported : ∀ {types : List SigType}, SigTypesSupported types →
    haveArray types = false
  | [], _ => by rw [haveArray]
  | type :: types, h => by
    rw [haveArray, hasArray_of_supported h.1, haveArray_of_supported h.2]
    rfl

end

theorem Supported.hasArray {sig : MethodSig} (h : Supported sig) : sig.hasArray = false := by
  unfold MethodSig.hasArray
  rw [Bool.or_eq_false_iff, List.any_eq_false]
  constructor
  · have hret := h.ret
    cases hsig : sig.ret with
    | void => rfl
    | value param =>
      rw [hsig] at hret
      exact hasArray_of_supported hret
  · intro param hmem
    rw [hasArray_of_supported (h.params param hmem)]
    exact Bool.false_ne_true

/-! ## Sound types -/

def IsGeneric : SigType → Prop
  | .genericInst _ _ _ => True
  | _ => False

section Sound

variable (metadata : TypeMetadata)

mutual

/-- The types that the loop renders: no `CHAR`, no array of a generic type, and the generic types
are not nested and end in the number of their arguments. -/
def SigTypeSound : SigType → Prop
  | .simple type => type ≠ .char
  | .token _ _ | .var _ | .mvar _ => True
  | .szArray elem => ¬ IsGeneric elem ∧ SigTypeSound elem
  | .array _ _ => False
  | .genericInst _ token args =>
    enclosingTypes metadata token = "" ∧
    actualArgCount (tokenInfo metadata token).name = some (args.length : ℤ) ∧ SigTypesSound args

def SigTypesSound : List SigType → Prop
  | [] => True
  | type :: types => SigTypeSound type ∧ SigTypesSound types

end

def ParamSound (param : ParamSig) : Prop := param.byRef = false ∧ SigTypeSound metadata param.type

def RetSig.Sound : RetSig → Prop
  | .void => True
  | .value param => ParamSound metadata param

structure Sound (sig : MethodSig) : Prop where
  header : HeaderOk sig
  ret : RetSig.Sound metadata sig.ret
  params : ∀ param ∈ sig.params, ParamSound metadata param

end Sound

/-! ## The text of the loop -/

theorem nestedTypeName_eq {fuel : ℕ} {type : TypeInfo} :
    nestedTypeName metadata fuel type text = enclosingText metadata fuel type ++ text := by
  induction fuel generalizing type text with
  | zero => rw [nestedTypeName, enclosingText, String.empty_append]
  | succ fuel ih =>
    unfold nestedTypeName enclosingText
    by_cases hdot : '.' ∈ type.name.toList
    · rw [if_pos hdot, if_pos (.inl hdot), String.empty_append]
    by_cases hnil : metadata.getNestedClassProps type.id = mdTokenNil
    · rw [if_neg hdot, if_pos (Or.inr hnil : _ ∨ _), String.empty_append]
      exact if_pos hnil
    rw [if_neg hdot, if_neg (not_or.2 ⟨hdot, hnil⟩)]
    simp only [if_neg hnil]
    rw [ih]
    simp only [String.append_assoc]

theorem classText_eq (token : TypeDefOrRef) :
    classText metadata (tokenInfo metadata token) = tokenText metadata token :=
  nestedTypeName_eq

theorem simpleText_eq {type : SimpleType} (hi : type ≠ .i) (hu : type ≠ .u) (hchar : type ≠ .char) :
    simpleText type = simpleName type := by
  cases type <;> first | contradiction | rfl

/-- The brackets of `k` arrays. -/
def brackets : ℕ → String
  | 0 => ""
  | k + 1 => brackets k ++ "[]"

theorem brackets_comm : "[]" ++ brackets k = brackets k ++ "[]" := by
  induction k with
  | zero => rfl
  | succ k ih => rw [brackets, ← String.append_assoc, ih]

/-- The state inside the generic types of a stack. -/
def State.within (s : State) (stack : List ℤ) : State :=
  { s with genericArgStack := stack, appendToType := "" }

/-- Only the text with its brackets counts. -/
theorem complete_congr {s s' : State} (hnames : s.typeNames = s'.typeNames)
    (hindex : s.currentTypeIndex = s'.currentTypeIndex)
    (hstack : s.genericArgStack = s'.genericArgStack)
    (htext : s.currentTypeName ++ s.appendToType = s'.currentTypeName ++ s'.appendToType) :
    complete expected s = complete expected s' := by
  simp only [complete, hnames, hindex, hstack, htext]

theorem complete_arg {count : ℤ} {stack : List ℤ} (hwait : s.appendToType = "")
    (hstack : s.genericArgStack = count :: stack) :
    complete expected (s.append text) =
      settle expected
        ((s.append (text ++ separator ((count - 1) :: stack))).within ((count - 1) :: stack)) := by
  simp only [complete, State.append, State.within, hwait, hstack, decrement, String.append_empty,
    String.append_assoc]

theorem settle_pos {top : ℤ} {stack : List ℤ} (htop : top ≠ 0) :
    settle expected (s.within (top :: stack)) = .ok (s.within (top :: stack)) := by
  unfold settle
  simp only [State.within, unwind, if_neg htop]
  rfl

/-- A generic type with all its arguments is a type that is complete. -/
theorem settle_close {stack : List ℤ} :
    settle expected (s.within (0 :: decrement stack)) =
      complete expected ((s.append ">").within stack) := by
  unfold complete settle
  simp only [State.within, State.append, unwind, if_true, String.append_empty]

/-! ## Sound types are rendered -/

theorem argsText_singleton (type : SigType) :
    argsText metadata [type] = typeText metadata type := by
  simp only [argsText, List.length_nil, if_true, String.append_empty]

theorem argsText_cons (type next : SigType) (types : List SigType) :
    argsText metadata (type :: next :: types) =
      typeText metadata type ++ (", " ++ argsText metadata (next :: types)) := by
  rw [argsText, String.append_assoc]
  rfl

theorem openGeneric_of_count {name : String} {count : ℤ} (hcount : actualArgCount name = some count)
    (hwait : s.appendToType = "") :
    openGeneric name s = .ok ((s.append (name ++ "<")).within (count :: decrement s.genericArgStack)) := by
  rw [openGeneric, hcount]
  simp only [State.append, State.within, hwait]

mutual

/-- The walk completes the text of a sound type, before the brackets that wait for it. -/
theorem walk_sound : ∀ {type : SigType} {s : State} {k : ℕ}, SigTypeSupported type →
    SigTypeSound metadata type → s.appendToType = brackets k → (IsGeneric type → k = 0) →
    walk metadata expected type s = complete expected (s.append (typeText metadata type))
  | .simple type, _, _, hsupported, hsound, _, _ => by
    rw [walk, typeText, simpleText_eq hsupported.1 hsupported.2 hsound]
  | .token _ token, _, _, _, _, _, _ => by rw [walk, typeText, classText_eq]
  | .var _, _, _, _, _, _, _ | .mvar _, _, _, _, _, _, _ => by rw [walk, typeText]
  | .array _ _, _, _, hsupported, _, _, _ => hsupported.elim
  | .szArray elem, s, k, hsupported, hsound, hwait, _ => by
    have helem : SigTypeSupported elem := hsupported
    obtain ⟨hgeneric, hsound⟩ : ¬ IsGeneric elem ∧ SigTypeSound metadata elem := hsound
    have hwait' : s.appendToType ++ "[]" = brackets (k + 1) := by rw [hwait, brackets]
    rw [walk, typeText, walk_sound helem hsound hwait' fun h => absurd h hgeneric]
    apply complete_congr
    · rfl
    · rfl
    · rfl
    · simp only [State.append, String.append_assoc, hwait, brackets_comm]
  | .genericInst _ token args, s, k, hsupported, hsound, hwait, hgeneric => by
    obtain ⟨hnested, hcount, hargs⟩ := hsound
    obtain rfl := hgeneric trivial
    rw [walk, openGeneric_of_count hcount hwait, typeText, tokenText, hnested, String.empty_append]
    show walkArgs metadata expected args _ = _
    rw [walkArgs_sound hsupported.1 hsupported.2 hargs, settle_close]
    apply complete_congr
    · rfl
    · rfl
    · rfl
    · simp only [State.append, State.within, String.append_assoc, hwait, brackets]

/-- The walk over all the arguments that a generic type still lacks. -/
theorem walkArgs_sound : ∀ {args : List SigType} {s : State} {stack : List ℤ}, args ≠ [] →
    SigTypesSupported args → SigTypesSound metadata args →
    walkArgs metadata expected args (s.within ((args.length : ℤ) :: stack)) =
      settle expected ((s.append (argsText metadata args)).within (0 :: stack))
  | [], _, _, hne, _, _ => absurd rfl hne
  | [type], s, stack, _, hsupported, hsound => by
    have hwait : (s.within (([type].length : ℤ) :: stack)).appendToType = brackets 0 := rfl
    rw [walkArgs, walk_sound hsupported.1 hsound.1 hwait fun _ => rfl, complete_arg rfl rfl,
      argsText_singleton]
    show settle expected ((s.append (typeText metadata type ++ "")).within (0 :: stack)) >>= pure = _
    rw [String.append_empty, bind_pure]
  | type :: next :: types, s, stack, _, hsupported, hsound => by
    have hwait : (s.within (((type :: next :: types).length : ℤ) :: stack)).appendToType =
      brackets 0 := rfl
    have hmore : ((type :: next :: types).length : ℤ) - 1 = ((next :: types).length : ℤ) := by
      simp only [List.length_cons]
      omega
    have hpos : ((next :: types).length : ℤ) > 0 := by
      simp only [List.length_cons]
      omega
    rw [walkArgs, walk_sound hsupported.1 hsound.1 hwait fun _ => rfl, complete_arg rfl rfl, hmore,
      settle_pos (by omega), separator, if_pos hpos, argsText_cons]
    show walkArgs metadata expected (next :: types) _ = _
    rw [walkArgs_sound (List.cons_ne_nil _ _) hsupported.2 hsound.2]
    simp only [State.append, State.within, String.append_assoc]

end

/-! ## Sound signatures -/

/-- Between two types, with the names of those before. -/
def named (expected : ℕ) (texts : List String) : State where
  typeNames := texts ++ List.replicate (expected - texts.length) ""
  currentTypeIndex := texts.length
  genericArgStack := []
  appendToType := ""
  currentTypeName := ""

variable {texts : List String}

end DdTrace.SignatureTypes
