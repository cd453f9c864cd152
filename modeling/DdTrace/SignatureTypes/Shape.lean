import DdTrace.SignatureTypes.Rendering

/-!
# What a rendering tells

The shape of a type is what is left of it in its rendering: a name, T for a variable, the
arguments of a generic type and the number of brackets. Where the names are clean, types with the
same rendering have the same shape. Its structure also has the kinds and the numbers of the
variables: a type is told apart from those of another structure when it has no variable, and no
class with the name that stands for one.
-/

namespace DdTrace.SignatureTypes

open Lib Signature Tokens

variable {metadata : TypeMetadata} {k : ℕ} {text more q q' : String}

/-! ## Texts part by part -/

theorem head_append {c : Char} (h : text.toList.head? = some c) :
    (text ++ more).toList.head? = some c := by
  rw [String.toList_append, List.head?_append, h]
  rfl

/-- What stands behind a type in a rendering, after its brackets. -/
inductive Delimits : String → Prop
  | last : Delimits ""
  | comma (rest : String) : Delimits (", " ++ rest)
  | close (rest : String) : Delimits (">" ++ rest)

theorem Delimits.head (h : Delimits q) : q.toList.head? ∈ [none, some ',', some '>'] := by
  cases h with
  | last => decide
  | comma rest =>
    rw [head_append (c := ',') rfl]
    decide
  | close rest =>
    rw [head_append (c := '>') rfl]
    decide

theorem Delimits.head_ne (h : Delimits q) {c : Char} (hcomma : c ≠ ',') (hclose : c ≠ '>') :
    q.toList.head? ≠ some c := by
  intro hc
  have hmem := h.head
  rw [hc] at hmem
  simp [hcomma, hclose] at hmem

/-- What stands behind the first argument of a generic type, with `count` more to come. -/
def afterArg (count : ℕ) (args rest : String) : String :=
  if count = 0 then ">" ++ rest else ", " ++ (args ++ (">" ++ rest))

theorem append_afterArg {first args : String} {count : ℕ} (h : count = 0 → args = "") :
    first ++ (if count = 0 then "" else ", ") ++ args ++ (">" ++ more) =
      first ++ afterArg count args more := by
  unfold afterArg
  split
  · rw [h ‹_›, String.append_empty, String.append_empty]
  · simp only [String.append_assoc]

theorem delimits_afterArg {args : String} {count : ℕ} : Delimits (afterArg count args more) := by
  unfold afterArg
  split
  · exact .close _
  · exact .comma _

theorem brackets_succ : brackets (k + 1) = "[]" ++ brackets k := brackets_comm.symm

theorem brackets_inj {i : ℕ} (hq : Delimits q) (hq' : Delimits q')
    (h : brackets i ++ q = brackets k ++ q') : i = k ∧ q = q' := by
  have hmark : ∀ (n : ℕ) (q : String), (brackets (n + 1) ++ q).toList.head? = some '[' := by
    intro n q
    rw [brackets_succ, String.append_assoc]
    exact head_append rfl
  induction i generalizing k with
  | zero =>
    cases k with
    | zero => exact ⟨rfl, by simpa only [brackets, String.empty_append] using h⟩
    | succ k =>
      rw [brackets, String.empty_append] at h
      have hhead := hmark k q'
      rw [← h] at hhead
      exact absurd hhead (hq.head_ne (by decide) (by decide))
  | succ i ih =>
    cases k with
    | zero =>
      rw [@brackets.eq_1, String.empty_append] at h
      have hhead := hmark i q
      rw [h] at hhead
      exact absurd hhead (hq'.head_ne (by decide) (by decide))
    | succ k =>
      rw [brackets_succ, brackets_succ, String.append_assoc, String.append_assoc,
        String.append_right_inj] at h
      obtain ⟨rfl, hq⟩ := ih h
      exact ⟨rfl, hq⟩

/-- The characters that a rendering is put together with. -/
def marks : List Char := ['<', '>', ',', '[']

def CleanName (name : String) : Prop := ∀ c ∈ name.toList, c ∉ marks

def Marked (text : String) : Prop := ∀ c, text.toList.head? = some c → c ∈ marks

/-- A clean name ends where the first mark stands. -/
theorem cleanName_inj {name name' : String} (hname : CleanName name) (hname' : CleanName name')
    (hq : Marked q) (hq' : Marked q') (h : name ++ q = name' ++ q') : name = name' ∧ q = q' := by
  have hlist := congrArg String.toList h
  rw [String.toList_append, String.toList_append] at hlist
  have hparts : name.toList = name'.toList ∧ q.toList = q'.toList := by
    rcases List.append_eq_append_iff.1 hlist with ⟨rest, hrest, htail⟩ | ⟨rest, hrest, htail⟩
    · cases rest with
      | nil => exact ⟨by rw [hrest, List.append_nil], htail⟩
      | cons c rest =>
        have hc : c ∈ marks := hq c (by rw [htail]; rfl)
        exact absurd hc (hname' c (by rw [hrest]; exact List.mem_append_right _ List.mem_cons_self))
    · cases rest with
      | nil => exact ⟨by rw [hrest, List.append_nil], htail.symm⟩
      | cons c rest =>
        have hc : c ∈ marks := hq' c (by rw [htail]; rfl)
        exact absurd hc (hname c (by rw [hrest]; exact List.mem_append_right _ List.mem_cons_self))
  exact ⟨String.toList_inj.1 hparts.1, String.toList_inj.1 hparts.2⟩

/-! ## Shapes -/

inductive Shape
  | leaf (name : String) (rank : ℕ)
  | generic (name : String) (args : List Shape) (rank : ℕ)

mutual

def Shape.text : Shape → String
  | .leaf name rank => name ++ brackets rank
  | .generic name args rank => name ++ ("<" ++ (shapesText args ++ (">" ++ brackets rank)))

def shapesText : List Shape → String
  | [] => ""
  | shape :: shapes => shape.text ++ (if shapes.length = 0 then "" else ", ") ++ shapesText shapes

end

mutual

def Shape.Clean : Shape → Prop
  | .leaf name _ => CleanName name
  | .generic name args _ => CleanName name ∧ args ≠ [] ∧ ShapesClean args

def ShapesClean : List Shape → Prop
  | [] => True
  | shape :: shapes => shape.Clean ∧ ShapesClean shapes

end

def Shape.array : Shape → Shape
  | .leaf name rank => .leaf name (rank + 1)
  | .generic name args rank => .generic name args (rank + 1)

section Shape

variable (metadata : TypeMetadata)

mutual

def shape : SigType → Shape
  | .simple type => .leaf (simpleName type) 0
  | .token _ token => .leaf (tokenText metadata token) 0
  | .szArray elem => (shape elem).array
  | .array elem _ => shape elem
  | .genericInst _ token args => .generic (tokenText metadata token) (shapes args) 0
  | .var _ | .mvar _ => .leaf "T" 0

def shapes : List SigType → List Shape
  | [] => []
  | type :: types => shape type :: shapes types

end

end Shape

theorem Shape.array_text (shape : Shape) : shape.array.text = shape.text ++ "[]" := by
  cases shape <;> simp only [Shape.array, Shape.text, brackets, String.append_assoc]

theorem length_shapes (types : List SigType) : (shapes metadata types).length = types.length := by
  induction types with
  | nil => rfl
  | cons type types ih => rw [shapes, List.length_cons, ih, List.length_cons]

mutual

theorem typeText_eq_text : ∀ type : SigType, typeText metadata type = (shape metadata type).text
  | .simple _ | .token _ _ | .var _ | .mvar _ => by
    simp only [typeText, shape, Shape.text, brackets, String.append_empty]
  | .szArray elem => by rw [typeText, shape, Shape.array_text, typeText_eq_text elem]
  | .array elem _ => by rw [typeText, shape, typeText_eq_text elem]
  | .genericInst _ token args => by
    rw [typeText, shape, Shape.text, argsText_eq_shapesText args]
    simp only [brackets, String.append_empty, String.append_assoc]

theorem argsText_eq_shapesText : ∀ types : List SigType,
    argsText metadata types = shapesText (shapes metadata types)
  | [] => by rw [argsText, shapes, shapesText]
  | type :: types => by
    rw [argsText, shapes, shapesText, typeText_eq_text type, argsText_eq_shapesText types,
      length_shapes]

end

/-! ## The shape of a rendering -/

theorem marked_brackets (hq : Delimits q) : Marked (brackets k ++ q) := by
  intro c hc
  cases k with
  | zero =>
    rw [brackets, String.empty_append] at hc
    have hmem := hq.head
    rw [hc] at hmem
    simp only [List.mem_cons, List.not_mem_nil, or_false, Option.some.injEq, reduceCtorEq,
      false_or] at hmem
    rcases hmem with rfl | rfl <;> decide
  | succ k =>
    rw [brackets_succ, String.append_assoc, head_append (c := '[') rfl] at hc
    obtain rfl := Option.some.inj hc
    decide

theorem marked_open : Marked ("<" ++ more) := by
  intro c hc
  rw [head_append (c := '<') rfl] at hc
  obtain rfl := Option.some.inj hc
  decide

/-- Behind a name there is an angle bracket or there is none. -/
theorem open_ne (hq : Delimits q) : "<" ++ more ≠ brackets k ++ q := by
  intro h
  have hhead : (brackets k ++ q).toList.head? = some '<' := by
    rw [← h]
    exact head_append rfl
  cases k with
  | zero =>
    rw [brackets, String.empty_append] at hhead
    exact hq.head_ne (by decide) (by decide) hhead
  | succ k =>
    rw [brackets_succ, String.append_assoc, head_append (c := '[') rfl] at hhead
    exact absurd (Option.some.inj hhead) (by decide)

theorem shapesText_append {first : Shape} {shapes : List Shape} :
    shapesText (first :: shapes) ++ (">" ++ more) =
      first.text ++ afterArg shapes.length (shapesText shapes) more := by
  rw [shapesText, append_afterArg]
  intro hnil
  rw [List.length_eq_zero_iff.1 hnil, shapesText]

theorem close_ne_comma : ">" ++ q ≠ ", " ++ q' := by
  intro h
  have hhead : (", " ++ q').toList.head? = some '>' := by
    rw [← h]
    exact head_append rfl
  rw [head_append (c := ',') rfl] at hhead
  exact absurd (Option.some.inj hhead) (by decide)

mutual

theorem text_inj : ∀ {a b : Shape} {q q' : String}, a.Clean → b.Clean → Delimits q → Delimits q' →
    a.text ++ q = b.text ++ q' → a = b ∧ q = q'
  | .leaf name rank, .leaf name' rank', q, q', ha, hb, hq, hq', h => by
    simp only [Shape.text, String.append_assoc] at h
    obtain ⟨rfl, hranks⟩ := cleanName_inj ha hb (marked_brackets hq) (marked_brackets hq') h
    obtain ⟨rfl, rfl⟩ := brackets_inj hq hq' hranks
    exact ⟨rfl, rfl⟩
  | .leaf name rank, .generic name' args' rank', q, q', ha, hb, hq, hq', h => by
    simp only [Shape.text, String.append_assoc] at h
    obtain ⟨-, hrest⟩ := cleanName_inj ha hb.1 (marked_brackets hq) marked_open h
    exact absurd hrest.symm (open_ne hq)
  | .generic name args rank, .leaf name' rank', q, q', ha, hb, hq, hq', h => by
    simp only [Shape.text, String.append_assoc] at h
    obtain ⟨-, hrest⟩ := cleanName_inj ha.1 hb marked_open (marked_brackets hq') h
    exact absurd hrest (open_ne hq')
  | .generic name args rank, .generic name' args' rank', q, q', ha, hb, hq, hq', h => by
    simp only [Shape.text, String.append_assoc] at h
    obtain ⟨rfl, hopen⟩ := cleanName_inj ha.1 hb.1 marked_open marked_open h
    rw [String.append_right_inj] at hopen
    obtain ⟨rfl, hclose⟩ := texts_inj ha.2.1 hb.2.1 ha.2.2 hb.2.2 hopen
    obtain ⟨rfl, rfl⟩ := brackets_inj hq hq' hclose
    exact ⟨rfl, rfl⟩

theorem texts_inj : ∀ {as bs : List Shape} {q q' : String}, as ≠ [] → bs ≠ [] →
    ShapesClean as → ShapesClean bs → shapesText as ++ (">" ++ q) = shapesText bs ++ (">" ++ q') →
    as = bs ∧ q = q'
  | [], _, _, _, hne, _, _, _, _ => absurd rfl hne
  | a :: as, [], _, _, _, hne, _, _, _ => absurd rfl hne
  | a :: as, b :: bs, q, q', _, _, ha, hb, h => by
    rw [shapesText_append, shapesText_append] at h
    obtain ⟨rfl, hafter⟩ := text_inj ha.1 hb.1 delimits_afterArg delimits_afterArg h
    cases as with
    | nil =>
      cases bs with
      | nil =>
        simp only [afterArg, List.length_nil, if_true, String.append_right_inj] at hafter
        exact ⟨rfl, hafter⟩
      | cons b bs => exact absurd hafter close_ne_comma
    | cons a as =>
      cases bs with
      | nil => exact absurd hafter.symm close_ne_comma
      | cons b bs =>
        have hrest : ", " ++ (shapesText (a :: as) ++ (">" ++ q)) =
          ", " ++ (shapesText (b :: bs) ++ (">" ++ q')) := hafter
        rw [String.append_right_inj] at hrest
        obtain ⟨heq, hq⟩ := texts_inj (List.cons_ne_nil _ _) (List.cons_ne_nil _ _) ha.2 hb.2 hrest
        exact ⟨by rw [heq], hq⟩

end

/-- How a type is built: of names, of variables by their kind and number, of arrays and of generic
types with their arguments. -/
inductive Structure
  | named (name : String)
  | var (number : ℕ)
  | mvar (number : ℕ)
  | szArray (elem : Structure)
  | array (elem : Structure) (shape : ArrayShape)
  | generic (name : String) (args : List Structure)

section Structure

variable (metadata : TypeMetadata)

mutual

def structureOf : SigType → Structure
  | .simple type => .named (simpleName type)
  | .token _ token => .named (tokenText metadata token)
  | .szArray elem => .szArray (structureOf elem)
  | .array elem shape => .array (structureOf elem) shape
  | .genericInst _ token args => .generic (tokenText metadata token) (structuresOf args)
  | .var number => .var number
  | .mvar number => .mvar number

def structuresOf : List SigType → List Structure
  | [] => []
  | type :: types => structureOf type :: structuresOf types

end

mutual

/-- There is no variable in the type, and no class whose name is T. -/
def Concrete : SigType → Prop
  | .simple _ => True
  | .token _ token => tokenText metadata token ≠ "T"
  | .szArray elem => Concrete elem
  | .array elem _ => Concrete elem
  | .genericInst _ _ args => AllConcrete args
  | .var _ | .mvar _ => False

def AllConcrete : List SigType → Prop
  | [] => True
  | type :: types => Concrete type ∧ AllConcrete types

end

mutual

/-- The type with its variables exchanged for others. -/
def exchange : SigType → SigType
  | .simple type => .simple type
  | .token kind token => if tokenText metadata token = "T" then .var 0 else .token kind token
  | .szArray elem => .szArray (exchange elem)
  | .array elem shape => .array (exchange elem) shape
  | .genericInst kind token args => .genericInst kind token (exchangeAll args)
  | .var number => .mvar number
  | .mvar number => .var number

def exchangeAll : List SigType → List SigType
  | [] => []
  | type :: types => exchange type :: exchangeAll types

end

end Structure

theorem Shape.array_inj {a b : Shape} (h : a.array = b.array) : a = b := by
  cases a <;> cases b <;> simp [Shape.array] at h <;> simp [h]

theorem Shape.array_ne_leaf {a : Shape} {name : String} : a.array ≠ .leaf name 0 := by
  cases a <;> simp [Shape.array]

theorem Shape.array_ne_generic {a : Shape} {name : String} {args : List Shape} :
    a.array ≠ .generic name args 0 := by
  cases a <;> simp [Shape.array]

theorem simpleName_ne (type : SimpleType) : simpleName type ≠ "T" := by
  cases type <;> decide

section Told

variable {a b : SigType} {name : String}

theorem structureOf_of_leaf (hb : SigTypeSupported b) (hname : name ≠ "T")
    (h : shape metadata b = .leaf name 0) : structureOf metadata b = .named name := by
  cases b with
  | simple type =>
    rw [shape, Shape.leaf.injEq] at h
    rw [structureOf, h.1]
  | token kind token =>
    rw [shape, Shape.leaf.injEq] at h
    rw [structureOf, h.1]
  | szArray elem => exact absurd h Shape.array_ne_leaf
  | array elem shape => exact hb.elim
  | genericInst kind token args => cases h
  | var number | mvar number =>
    rw [shape, Shape.leaf.injEq] at h
    exact absurd h.1.symm hname

theorem eq_szArray_of_shape {elem : Shape} (hb : SigTypeSupported b)
    (h : shape metadata b = elem.array) :
    ∃ other, b = .szArray other ∧ SigTypeSupported other ∧ shape metadata other = elem := by
  cases b with
  | szArray other => exact ⟨other, rfl, hb, Shape.array_inj h⟩
  | array elem shape => exact hb.elim
  | genericInst kind token args => exact absurd h.symm Shape.array_ne_generic
  | simple _ | token _ _ | var _ | mvar _ => exact absurd h.symm Shape.array_ne_leaf

theorem eq_genericInst_of_shape {args : List Shape} (hb : SigTypeSupported b)
    (h : shape metadata b = .generic name args 0) :
    ∃ kind token others, b = .genericInst kind token others ∧ SigTypesSupported others ∧
      tokenText metadata token = name ∧ shapes metadata others = args := by
  cases b with
  | genericInst kind token others =>
    rw [shape, Shape.generic.injEq] at h
    exact ⟨kind, token, others, rfl, hb.2, h.1, h.2.1⟩
  | szArray elem => exact absurd h Shape.array_ne_generic
  | array elem shape => exact hb.elim
  | simple _ | token _ _ | var _ | mvar _ => cases h

mutual

/-- Without variables, a type has the structure of every other type of its shape. -/
theorem structureOf_of_shape : ∀ (a : SigType) {b : SigType}, SigTypeSupported a → SigTypeSupported b →
    Concrete metadata a → shape metadata b = shape metadata a →
    structureOf metadata b = structureOf metadata a
  | .simple type, b, _, hb, _, h => structureOf_of_leaf hb (simpleName_ne type) h
  | .token kind token, b, _, hb, ha, h => structureOf_of_leaf hb ha h
  | .szArray elem, b, hsupported, hb, ha, h => by
    obtain ⟨other, rfl, hother, hshape⟩ := eq_szArray_of_shape hb h
    rw [structureOf, structureOf, structureOf_of_shape elem hsupported hother ha hshape]
  | .array elem shape, b, hsupported, _, _, _ => hsupported.elim
  | .genericInst kind token args, b, hsupported, hb, ha, h => by
    obtain ⟨kind', token', others, rfl, hothers, hname, hshapes⟩ := eq_genericInst_of_shape hb h
    rw [structureOf, structureOf, hname, structuresOf_of_shapes args hsupported.2 hothers ha hshapes]
  | .var _, b, _, _, ha, _ => ha.elim
  | .mvar _, b, _, _, ha, _ => ha.elim

theorem structuresOf_of_shapes : ∀ (as : List SigType) {bs : List SigType}, SigTypesSupported as →
    SigTypesSupported bs → AllConcrete metadata as → shapes metadata bs = shapes metadata as →
    structuresOf metadata bs = structuresOf metadata as
  | [], [], _, _, _, _ => rfl
  | [], b :: bs, _, _, _, h => by cases h
  | a :: as, [], _, _, _, h => by cases h
  | a :: as, b :: bs, hsupported, hbs, ha, h => by
    rw [shapes, shapes, List.cons.injEq] at h
    rw [structuresOf, structuresOf, structureOf_of_shape a hsupported.1 hbs.1 ha.1 h.1,
      structuresOf_of_shapes as hsupported.2 hbs.2 ha.2 h.2]

end

mutual

theorem shape_exchange : ∀ type : SigType, shape metadata (exchange metadata type) =
    shape metadata type
  | .simple _ => rfl
  | .token kind token => by
    rw [exchange]
    split
    · rename_i hname
      rw [shape, shape, hname]
    · rfl
  | .szArray elem => by rw [exchange, shape, shape, shape_exchange elem]
  | .array elem _ => by rw [exchange, shape, shape, shape_exchange elem]
  | .genericInst _ token args => by rw [exchange, shape, shape, shapes_exchangeAll args]
  | .var _ | .mvar _ => rfl

theorem shapes_exchangeAll : ∀ types : List SigType,
    shapes metadata (exchangeAll metadata types) = shapes metadata types
  | [] => rfl
  | type :: types => by
    rw [exchangeAll, shapes, shapes, shape_exchange type, shapes_exchangeAll types]

end

theorem length_exchangeAll (types : List SigType) :
    (exchangeAll metadata types).length = types.length := by
  have hlength : (shapes metadata (exchangeAll metadata types)).length = _ := length_shapes _
  rw [← hlength, shapes_exchangeAll, length_shapes]

mutual

theorem supported_exchange : ∀ type : SigType, SigTypeSupported type →
    SigTypeSupported (exchange metadata type)
  | .simple _, h => h
  | .token kind token, _ => by
    rw [exchange]
    split <;> trivial
  | .szArray elem, h => supported_exchange elem h
  | .array _ _, h => h.elim
  | .genericInst _ _ args, h =>
    ⟨fun hnil => h.1 (List.length_eq_zero_iff.1 (by
      rw [← length_exchangeAll args, hnil, List.length_nil])),
      supported_exchangeAll args h.2⟩
  | .var _, _ | .mvar _, _ => trivial

theorem supported_exchangeAll : ∀ types : List SigType, SigTypesSupported types →
    SigTypesSupported (exchangeAll metadata types)
  | [], _ => trivial
  | type :: types, h => ⟨supported_exchange type h.1, supported_exchangeAll types h.2⟩

end

theorem not_isGeneric_exchange (h : ¬ IsGeneric a) : ¬ IsGeneric (exchange metadata a) := by
  cases a with
  | token kind token =>
    rw [exchange]
    split <;> exact id
  | genericInst kind token args => exact absurd trivial h
  | _ => exact id

mutual

theorem sound_exchange : ∀ type : SigType, SigTypeSound metadata type →
    SigTypeSound metadata (exchange metadata type)
  | .simple _, h => h
  | .token kind token, _ => by
    rw [exchange]
    split <;> trivial
  | .szArray elem, h => ⟨not_isGeneric_exchange h.1, sound_exchange elem h.2⟩
  | .array _ _, h => h.elim
  | .genericInst _ _ args, h =>
    ⟨h.1, by rw [length_exchangeAll, h.2.1], sound_exchangeAll args h.2.2⟩
  | .var _, _ | .mvar _, _ => trivial

theorem sound_exchangeAll : ∀ types : List SigType, SigTypesSound metadata types →
    SigTypesSound metadata (exchangeAll metadata types)
  | [], _ => trivial
  | type :: types, h => ⟨sound_exchange type h.1, sound_exchangeAll types h.2⟩

end

mutual

/-- Where the exchange leaves the structure as it is, there was nothing to exchange. -/
theorem concrete_of_exchange : ∀ type : SigType,
    structureOf metadata (exchange metadata type) = structureOf metadata type →
    Concrete metadata type
  | .simple _, _ => trivial
  | .token kind token, h => by
    intro hname
    rw [exchange, if_pos hname] at h
    cases h
  | .szArray elem, h => concrete_of_exchange elem (Structure.szArray.inj h)
  | .array elem _, h => concrete_of_exchange elem (Structure.array.inj h).1
  | .genericInst _ _ args, h => allConcrete_of_exchange args (Structure.generic.inj h).2
  | .var _, h => by cases h
  | .mvar _, h => by cases h

theorem allConcrete_of_exchange : ∀ types : List SigType,
    structuresOf metadata (exchangeAll metadata types) = structuresOf metadata types →
    AllConcrete metadata types
  | [], _ => trivial
  | type :: types, h =>
    ⟨concrete_of_exchange type (List.cons.inj h).1,
      allConcrete_of_exchange types (List.cons.inj h).2⟩

end

end Told

end DdTrace.SignatureTypes
