import DdTrace.Lib.Text

/-!
# Engines of regular expressions

A pattern is read as alternatives, each a list of terms. What a term does to the state of the
engine is its own affair (a character, a group, a repetition, an assertion); only the anchors are
known here. `MatchesPart` says that an alternative matches a part of the input, and which parts
are meant. `matchesPart_caret` and `matchesPart_dollar` are the rules for a pattern that gets an
anchor in front or behind: each concerns one of the alternatives only.
-/

namespace DdTrace.Lib

/-! ### Walks -/

/-- The terms one after the other, from a state to a state. -/
def Walk {τ σ : Type} (step : τ → σ → σ → Prop) : List τ → σ → σ → Prop
  | [], s, s' => s' = s
  | t :: ts, s, s' => ∃ m, step t s m ∧ Walk step ts m s'

theorem walk_append {τ σ : Type} {step : τ → σ → σ → Prop} {ts us : List τ} {s s' : σ} :
    Walk step (ts ++ us) s s' ↔ ∃ m, Walk step ts s m ∧ Walk step us m s' := by
  induction ts generalizing s with
  | nil =>
    constructor
    · exact fun h => ⟨s, rfl, h⟩
    · rintro ⟨m, rfl, h⟩
      exact h
  | cons t ts ih =>
    simp only [List.cons_append, Walk, ih]
    constructor
    · rintro ⟨n, hstep, m, hts, hus⟩
      exact ⟨m, ⟨n, hstep, hts⟩, hus⟩
    · rintro ⟨m, ⟨n, hstep, hts⟩, hus⟩
      exact ⟨n, hstep, m, hts, hus⟩

/-! ### Engines -/

/-- What the end of a pattern makes of a `$`: the anchor, the one of the multiline mode, or a
part of a comment. -/
inductive PatternEnd where
  | plain
  | multiline
  | comment

/-- The positions of the input that a `$` allows. -/
def PatternEnd.Accepts : PatternEnd → Text → ℕ → Prop
  | plain, input, j =>
    j = input.length ∨ j + 1 = input.length ∧ input[j]? = some (unit '\n')
  | multiline, input, j => j = input.length ∨ input[j]? = some (unit '\n')
  | comment, _, _ => True

theorem PatternEnd.accepts_length (ending : PatternEnd) (input : Text) :
    ending.Accepts input input.length := by
  cases ending with
  | plain => exact .inl rfl
  | multiline => exact .inl rfl
  | comment => trivial

theorem getElem?_concat_eq_some {α : Type} {l : List α} {a b : α} {k : ℕ} :
    (l ++ [a])[k]? = some b ↔ l[k]? = some b ∨ k = l.length ∧ a = b := by
  rcases Nat.lt_trichotomy k l.length with hlt | rfl | hgt
  · rw [List.getElem?_append_left hlt]
    simp [hlt.ne]
  · rw [List.getElem?_concat_length, List.getElem?_eq_none le_rfl]
    simp
  · rw [List.getElem?_eq_none (by simp; omega), List.getElem?_eq_none (by omega)]
    simp [hgt.ne']

/-- An alternative matches a part of the input, from a state of the engine before it to one
behind it. `part k i j` says whether the part from `i` to `j` is meant for alternative `k`. -/
def MatchesPart {τ σ : Type} (step : τ → σ → σ → Prop) (start : ℕ → σ) (position : σ → ℕ)
    (alternatives : List (List τ)) (length : ℕ) (part : ℕ → ℕ → ℕ → Prop) : Prop :=
  ∃ k terms i s, alternatives[k]? = some terms ∧ i ≤ length ∧ Walk step terms (start i) s ∧
    part k i (position s)

/-- An engine that implements the patterns it can parse. -/
structure RegexEngine where
  Term : Type
  State : Type
  /-- Before anything is matched, at a position of the input. -/
  start : ℕ → State
  position : State → ℕ
  position_start : ∀ i, position (start i) = i
  step : Text → Term → State → State → Prop
  caret : Term
  step_caret : ∀ input s s', step input caret s s' ↔ s' = s ∧ position s = 0
  dollar : PatternEnd → List Term
  walk_dollar : ∀ ending input s s', Walk (step input) (dollar ending) s s' ↔
    s' = s ∧ ending.Accepts input (position s)
  /-- The alternatives of a pattern, `none` if it is no regular expression. -/
  parse : Text → Option (List (List Term))
  patternEnd : Text → PatternEnd
  parse_caret : ∀ p terms rest, parse p = some (terms :: rest) →
    parse (unit '^' :: p) = some ((caret :: terms) :: rest)
  parse_dollar : ∀ p rest terms, parse p = some (rest ++ [terms]) →
    parse (p ++ [unit '$']) = some (rest ++ [terms ++ dollar (patternEnd p)])
  parse_ne_nil : ∀ p, parse p ≠ some []
  isMatch : Text → Text → Bool
  /-- The input has a part that some alternative matches. -/
  isMatch_iff : ∀ p alternatives input, parse p = some alternatives → (isMatch p input = true ↔
    MatchesPart (step input) start position alternatives input.length fun _ _ _ => True)

namespace RegexEngine

variable {engine : RegexEngine} {alternatives rest : List (List engine.Term)}
  {terms : List engine.Term} {input : Text} {part part' : ℕ → ℕ → ℕ → Prop}

/-- `MatchesPart` for an engine and an input. -/
abbrev MatchesPart (engine : RegexEngine) (alternatives : List (List engine.Term)) (input : Text)
    (part : ℕ → ℕ → ℕ → Prop) : Prop :=
  Lib.MatchesPart (engine.step input) engine.start engine.position alternatives input.length part

/-- The input as a whole belongs to the language of the alternatives. -/
def MatchesWhole (engine : RegexEngine) (alternatives : List (List engine.Term)) (input : Text) :
    Prop :=
  engine.MatchesPart alternatives input fun _ i j => i = 0 ∧ j = input.length

theorem isMatch_eq_true_iff {p : Text} (h : engine.parse p = some alternatives) :
    engine.isMatch p input = true ↔ engine.MatchesPart alternatives input fun _ _ _ => True :=
  engine.isMatch_iff p alternatives input h

theorem MatchesPart.mono (h : engine.MatchesPart alternatives input part)
    (hpart : ∀ k i j, k < alternatives.length → part k i j → part' k i j) :
    engine.MatchesPart alternatives input part' := by
  obtain ⟨k, terms, i, s, hk, hi, hwalk, hp⟩ := h
  exact ⟨k, terms, i, s, hk, hi, hwalk,
    hpart k i _ (List.getElem?_eq_some_iff.1 hk).1 hp⟩

theorem walk_caret {s s' : engine.State} : Walk (engine.step input) (engine.caret :: terms) s s' ↔
    engine.position s = 0 ∧ Walk (engine.step input) terms s s' := by
  simp only [Walk, engine.step_caret]
  constructor
  · rintro ⟨m, ⟨rfl, hzero⟩, hwalk⟩
    exact ⟨hzero, hwalk⟩
  · rintro ⟨hzero, hwalk⟩
    exact ⟨s, ⟨rfl, hzero⟩, hwalk⟩

theorem walk_append_dollar {ending : PatternEnd} {s s' : engine.State} :
    Walk (engine.step input) (terms ++ engine.dollar ending) s s' ↔
      Walk (engine.step input) terms s s' ∧ ending.Accepts input (engine.position s') := by
  rw [walk_append]
  simp only [engine.walk_dollar]
  constructor
  · rintro ⟨m, hwalk, rfl, haccepts⟩
    exact ⟨hwalk, haccepts⟩
  · rintro ⟨hwalk, haccepts⟩
    exact ⟨s', hwalk, rfl, haccepts⟩

/-- A `^` in front lets the first alternative begin only where the input begins. -/
theorem matchesPart_caret :
    engine.MatchesPart ((engine.caret :: terms) :: rest) input part ↔
      engine.MatchesPart (terms :: rest) input fun k i j => part k i j ∧ (k = 0 → i = 0) := by
  constructor
  · rintro ⟨k, terms', i, s, hk, hi, hwalk, hp⟩
    cases k with
    | zero =>
      cases hk
      rw [walk_caret, engine.position_start] at hwalk
      exact ⟨0, terms, i, s, rfl, hi, hwalk.2, hp, fun _ => hwalk.1⟩
    | succ k => exact ⟨k + 1, terms', i, s, hk, hi, hwalk, hp, fun h => absurd h (by omega)⟩
  · rintro ⟨k, terms', i, s, hk, hi, hwalk, hp, hfirst⟩
    cases k with
    | zero =>
      cases hk
      refine ⟨0, _, i, s, rfl, hi, ?_, hp⟩
      rw [walk_caret, engine.position_start]
      exact ⟨hfirst rfl, hwalk⟩
    | succ k => exact ⟨k + 1, terms', i, s, hk, hi, hwalk, hp⟩

/-- A `$` behind lets the last alternative end only where it allows. -/
theorem matchesPart_dollar {ending : PatternEnd} :
    engine.MatchesPart (rest ++ [terms ++ engine.dollar ending]) input part ↔
      engine.MatchesPart (rest ++ [terms]) input fun k i j =>
        part k i j ∧ (k = rest.length → ending.Accepts input j) := by
  constructor
  · rintro ⟨k, terms', i, s, hk, hi, hwalk, hp⟩
    rcases getElem?_concat_eq_some.1 hk with hk | ⟨rfl, rfl⟩
    · have hlt := (List.getElem?_eq_some_iff.1 hk).1
      exact ⟨k, terms', i, s, getElem?_concat_eq_some.2 (.inl hk), hi, hwalk, hp,
        fun h => absurd h hlt.ne⟩
    · rw [walk_append_dollar] at hwalk
      exact ⟨rest.length, terms, i, s, List.getElem?_concat_length, hi, hwalk.1, hp,
        fun _ => hwalk.2⟩
  · rintro ⟨k, terms', i, s, hk, hi, hwalk, hp, hlast⟩
    rcases getElem?_concat_eq_some.1 hk with hk | ⟨rfl, rfl⟩
    · exact ⟨k, terms', i, s, getElem?_concat_eq_some.2 (.inl hk), hi, hwalk, hp⟩
    · refine ⟨rest.length, _, i, s, List.getElem?_concat_length, hi, ?_, hp⟩
      rw [walk_append_dollar]
      exact ⟨hwalk, hlast rfl⟩

end RegexEngine

end DdTrace.Lib
