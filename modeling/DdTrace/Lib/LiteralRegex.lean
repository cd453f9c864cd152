import DdTrace.Lib.Regex

/-!
# An engine for literals, alternatives and anchors

The patterns are those of characters, escaped or not, with `|`, `^` and `$`; what else means
something in a pattern is not parsed. The state is the position.
-/

namespace DdTrace.Lib

namespace LiteralRegex

inductive Term where
  | char (c : UInt16)
  | caret
  | dollar
  | lineDollar
  deriving DecidableEq, Repr

/-! ### Parsing -/

/-- The characters that do not stand for themselves. -/
def metacharacters : Text := text "\\*+?|\x7b[()^$."

/-- A term in front of the first alternative. -/
def addTerm (t : Term) : List (List Term) → List (List Term)
  | [] => []
  | terms :: rest => (t :: terms) :: rest

/-- A term behind the last alternative. -/
def appendTerm (t : Term) : List (List Term) → List (List Term)
  | [] => []
  | [terms] => [terms ++ [t]]
  | terms :: terms' :: rest => terms :: appendTerm t (terms' :: rest)

/-- A character that is not escaped, in front of what is parsed behind it. -/
def parseChar (c : UInt16) (alternatives : List (List Term)) : Option (List (List Term)) :=
  if c = unit '|' then some ([] :: alternatives)
  else if c = unit '^' then some (addTerm .caret alternatives)
  else if c = unit '$' then some (addTerm .dollar alternatives)
  else if c ∈ metacharacters then none
  else some (addTerm (.char c) alternatives)

def parse : Text → Option (List (List Term))
  | [] => some [[]]
  | [c] => parseChar c [[]]
  | c :: d :: s =>
    if c = unit '\\' then
      if d ∈ metacharacters then (parse s).map (addTerm (.char d)) else none
    else (parse (d :: s)).bind (parseChar c)

variable {t : Term} {alternatives rest : List (List Term)} {terms : List Term} {p : Text}

theorem parse_cons {c : UInt16} (hc : c ≠ unit '\\') :
    parse (c :: p) = (parse p).bind (parseChar c) := by
  cases p with
  | nil => rfl
  | cons d s => rw [parse, if_neg hc]

theorem addTerm_ne_nil (h : alternatives ≠ []) : addTerm t alternatives ≠ [] := by
  cases alternatives with
  | nil => exact absurd rfl h
  | cons terms rest => exact List.cons_ne_nil _ _

theorem parseChar_ne_nil {c : UInt16} (h : alternatives ≠ []) :
    parseChar c alternatives ≠ some [] := by
  rw [parseChar]
  split_ifs
  · simp
  · simpa using addTerm_ne_nil h
  · simpa using addTerm_ne_nil h
  · simp
  · simpa using addTerm_ne_nil h

theorem parse_ne_nil (p : Text) : parse p ≠ some [] := by
  induction p using parse.induct with
  | case1 => simp [parse]
  | case2 c => exact parseChar_ne_nil (List.cons_ne_nil _ _)
  | case3 d s hd ih =>
    rw [parse, if_pos rfl, if_pos hd]
    intro h
    obtain ⟨alternatives, hparse, hadd⟩ := Option.map_eq_some_iff.1 h
    exact addTerm_ne_nil (fun hnil => ih (hnil ▸ hparse)) hadd
  | case4 d s hd =>
    rw [parse, if_pos rfl, if_neg hd]
    simp
  | case5 c d s hc ih =>
    rw [parse, if_neg hc]
    intro h
    obtain ⟨alternatives, hparse, hchar⟩ := Option.bind_eq_some_iff.1 h
    exact parseChar_ne_nil (fun hnil => ih (hnil ▸ hparse)) hchar

theorem appendTerm_concat : appendTerm t (rest ++ [terms]) = rest ++ [terms ++ [t]] := by
  induction rest with
  | nil => rfl
  | cons terms' rest ih =>
    cases rest with
    | nil => rfl
    | cons terms'' rest =>
      show terms' :: appendTerm t (terms'' :: rest ++ [terms]) = _
      rw [ih]
      rfl

theorem appendTerm_addTerm {u : Term} :
    appendTerm t (addTerm u alternatives) = addTerm u (appendTerm t alternatives) := by
  cases alternatives with
  | nil => rfl
  | cons terms rest =>
    cases rest with
    | nil => rfl
    | cons terms' rest => rfl

theorem appendTerm_nil_cons (h : alternatives ≠ []) :
    appendTerm t ([] :: alternatives) = [] :: appendTerm t alternatives := by
  cases alternatives with
  | nil => exact absurd rfl h
  | cons terms rest => rfl

theorem parseChar_appendTerm {c : UInt16} {alternatives' : List (List Term)}
    (hne : alternatives ≠ []) (h : parseChar c alternatives = some alternatives') :
    parseChar c (appendTerm t alternatives) = some (appendTerm t alternatives') := by
  rw [parseChar] at h ⊢
  split_ifs at h ⊢
  · cases h
    rw [appendTerm_nil_cons hne]
  · cases h
    rw [appendTerm_addTerm]
  · cases h
    rw [appendTerm_addTerm]
  · cases h
    rw [appendTerm_addTerm]

/-- A `$` behind a pattern is the anchor, since a pattern does not end in the middle of an
escape. -/
theorem parse_dollar (h : parse p = some alternatives) :
    parse (p ++ [unit '$']) = some (appendTerm .dollar alternatives) := by
  have hdollar : parse [unit '$'] = some [[.dollar]] := by decide
  induction p using parse.induct generalizing alternatives with
  | case1 =>
    cases h
    exact hdollar
  | case2 c =>
    have hc : c ≠ unit '\\' := by
      rintro rfl
      cases h
    rw [List.singleton_append, parse_cons hc, hdollar]
    exact parseChar_appendTerm (List.cons_ne_nil _ _) h
  | case3 d s hd ih =>
    rw [parse, if_pos rfl, if_pos hd] at h
    obtain ⟨alternatives', hparse, rfl⟩ := Option.map_eq_some_iff.1 h
    rw [List.cons_append, List.cons_append, parse, if_pos rfl, if_pos hd, ih hparse,
      Option.map_some, appendTerm_addTerm]
  | case4 d s hd =>
    rw [parse, if_pos rfl, if_neg hd] at h
    cases h
  | case5 c d s hc ih =>
    rw [parse, if_neg hc] at h
    obtain ⟨alternatives', hparse, hchar⟩ := Option.bind_eq_some_iff.1 h
    rw [List.cons_append, parse_cons hc, ih hparse, Option.bind_some]
    exact parseChar_appendTerm (fun hnil => parse_ne_nil _ (hnil ▸ hparse)) hchar

theorem parse_concat_dollar (p : Text) (rest : List (List Term)) (terms : List Term)
    (h : parse p = some (rest ++ [terms])) :
    parse (p ++ [unit '$']) = some (rest ++ [terms ++ [.dollar]]) := by
  rw [parse_dollar h, appendTerm_concat]

theorem parse_caret (p : Text) (terms : List Term) (rest : List (List Term))
    (h : parse p = some (terms :: rest)) :
    parse (unit '^' :: p) = some ((.caret :: terms) :: rest) := by
  rw [parse_cons (by decide), h]
  rfl

/-! ### Matching -/

def advance (input : Text) : Term → ℕ → Option ℕ
  | .char c, i => if input[i]? = some c then some (i + 1) else none
  | .caret, i => if i = 0 then some i else none
  | .dollar, i =>
    if i = input.length ∨ i + 1 = input.length ∧ input[i]? = some (unit '\n') then some i
    else none
  | .lineDollar, i =>
    if i = input.length ∨ input[i]? = some (unit '\n') then some i else none

def walk (input : Text) : List Term → ℕ → Option ℕ
  | [], i => some i
  | t :: ts, i => (advance input t i).bind (walk input ts)

def dollarTerms : PatternEnd → List Term
  | .plain => [.dollar]
  | .multiline => [.lineDollar]
  | .comment => []

def isMatch (p input : Text) : Bool :=
  match parse p with
  | none => false
  | some alternatives => alternatives.any fun terms =>
      (List.range (input.length + 1)).any fun i => (walk input terms i).isSome

theorem walk_iff {input : Text} {i j : ℕ} :
    Walk (fun t i j => advance input t i = some j) terms i j ↔ walk input terms i = some j := by
  induction terms generalizing i with
  | nil => simp [Walk, walk, eq_comm]
  | cons t ts ih => simp only [Walk, walk, ih, Option.bind_eq_some_iff]

theorem walk_dollarTerms (ending : PatternEnd) (input : Text) (i j : ℕ) :
    Walk (fun t i j => advance input t i = some j) (dollarTerms ending) i j ↔
      j = i ∧ ending.Accepts input i := by
  rw [walk_iff]
  cases ending with
  | plain => simp [dollarTerms, walk, advance, PatternEnd.Accepts, and_comm, eq_comm]
  | multiline => simp [dollarTerms, walk, advance, PatternEnd.Accepts, and_comm, eq_comm]
  | comment => simp [dollarTerms, walk, PatternEnd.Accepts, eq_comm]

theorem advance_caret (input : Text) (i j : ℕ) :
    advance input .caret i = some j ↔ j = i ∧ i = 0 := by
  simp [advance, and_comm, eq_comm]

theorem isMatch_iff (p : Text) (alternatives : List (List Term)) (input : Text)
    (h : parse p = some alternatives) : isMatch p input = true ↔
      MatchesPart (fun t i j => advance input t i = some j) id id alternatives input.length
        fun _ _ _ => True := by
  rw [isMatch, h]
  simp only [List.any_eq_true, List.mem_range, Option.isSome_iff_exists]
  constructor
  · rintro ⟨terms, hterms, i, hi, j, hwalk⟩
    obtain ⟨k, hk⟩ := List.mem_iff_getElem?.1 hterms
    exact ⟨k, terms, i, j, hk, by omega, walk_iff.2 hwalk, trivial⟩
  · rintro ⟨k, terms, i, j, hk, hi, hwalk, -⟩
    exact ⟨terms, List.mem_of_getElem? hk, i, by omega, j, walk_iff.1 hwalk⟩

end LiteralRegex

/-- The engine for literals, alternatives and anchors. -/
def literalEngine : RegexEngine where
  Term := LiteralRegex.Term
  State := ℕ
  start := id
  position := id
  position_start _ := rfl
  step input t i j := LiteralRegex.advance input t i = some j
  caret := .caret
  step_caret := LiteralRegex.advance_caret
  dollar := LiteralRegex.dollarTerms
  walk_dollar := LiteralRegex.walk_dollarTerms
  parse := LiteralRegex.parse
  patternEnd _ := .plain
  parse_caret := LiteralRegex.parse_caret
  parse_dollar := LiteralRegex.parse_concat_dollar
  parse_ne_nil := LiteralRegex.parse_ne_nil
  isMatch := LiteralRegex.isMatch
  isMatch_iff := LiteralRegex.isMatch_iff

end DdTrace.Lib
