import DdTrace.Lib.LiteralRegex
import DdTrace.Sampling.DefaultSamplingRule

/-!
# The patterns of custom sampling rules

A `CustomSamplingRule` has regular expressions for the service and the operation, which
`WrapWithLineCharacters` completes with anchors (CustomSamplingRule.cs). The anchors belong to the
first and to the last alternative only: `Part` says which parts of a name the wrapped pattern
matches. A pattern that runs out of time poisons the rule for the spans that follow.
-/

namespace DdTrace.Sampling

open Lib

/-- The regular expressions of the runtime, and how it compares strings in its culture. -/
structure RegexRuntime where
  engine : RegexEngine
  /-- `regex.StartsWith("^")` -/
  startsWithCaret : Text → Bool
  /-- `regex.EndsWith("$")` -/
  endsWithDollar : Text → Bool

inductive RegexException where
  | argumentNull
  | matchTimeout
  deriving DecidableEq, Repr

/-- `Regex.IsMatch` with a timeout, which depends on the machine. -/
def regexIsMatch (engine : RegexEngine) (input : Option Text) (pattern : Text) (timesOut : Bool) :
    Except RegexException Bool :=
  match input with
  | none => .error .argumentNull
  | some input => if timesOut then .error .matchTimeout else .ok (engine.isMatch pattern input)

/-! ### `CustomSamplingRule` -/

/-- The first part of `WrapWithLineCharacters`. -/
def withCaret (runtime : RegexRuntime) (regex : Text) : Text :=
  if !runtime.startsWithCaret regex then unit '^' :: regex else regex

def wrapWithLineCharacters (runtime : RegexRuntime) (regex : Option Text) : Option Text :=
  match regex with
  | none => none
  | some regex =>
    let regex := withCaret runtime regex
    some (if !runtime.endsWithDollar regex then regex ++ [unit '$'] else regex)

structure CustomSamplingRule where
  serviceNameRegex : Option Text
  operationNameRegex : Option Text
  hasPoisonedRegex : Bool

namespace CustomSamplingRule

/-- A call of `IsMatch`: the span, and which of its two matches would run out of time. -/
structure Call where
  span : Span
  serviceTimesOut : Bool
  operationTimesOut : Bool

def new (runtime : RegexRuntime) (serviceNameRegex operationNameRegex : Option Text) :
    CustomSamplingRule where
  serviceNameRegex := wrapWithLineCharacters runtime serviceNameRegex
  operationNameRegex := wrapWithLineCharacters runtime operationNameRegex
  hasPoisonedRegex := false

def doesNotMatch (engine : RegexEngine) (rule : CustomSamplingRule) (input pattern : Option Text)
    (timesOut : Bool) : Except RegexException Bool × CustomSamplingRule :=
  match pattern with
  | none => (.ok false, rule)
  | some pattern =>
    match regexIsMatch engine input pattern timesOut with
    | .ok isMatch => (.ok !isMatch, rule)
    | .error .matchTimeout => (.ok false, { rule with hasPoisonedRegex := true })
    | .error exception => (.error exception, rule)

def isMatch (engine : RegexEngine) (rule : CustomSamplingRule) (call : Call) :
    Except RegexException Bool × CustomSamplingRule :=
  if rule.hasPoisonedRegex then (.ok false, rule)
  else
    match rule.doesNotMatch engine call.span.serviceName rule.serviceNameRegex
      call.serviceTimesOut with
    | (.error exception, rule) => (.error exception, rule)
    | (.ok true, rule) => (.ok false, rule)
    | (.ok false, rule) =>
      match rule.doesNotMatch engine call.span.operationName rule.operationNameRegex
        call.operationTimesOut with
      | (.error exception, rule) => (.error exception, rule)
      | (.ok true, rule) => (.ok false, rule)
      | (.ok false, rule) => (.ok true, rule)

/-- The rule after some calls. -/
def run (engine : RegexEngine) (rule : CustomSamplingRule) (calls : List Call) :
    CustomSamplingRule :=
  calls.foldl (fun rule call => (rule.isMatch engine call).2) rule

end CustomSamplingRule

/-! ### What a wrapped pattern matches -/

/-- A pattern that is a regular expression. -/
structure RegularExpression (engine : RegexEngine) where
  pattern : Text
  alternatives : List (List engine.Term)
  parse_pattern : engine.parse pattern = some alternatives

/-- The parts of a name that the anchors allow: the one in front belongs to the first alternative,
the one behind to the last, and there is none where the pattern has the character already. -/
def Part (runtime : RegexRuntime) (regex : RegularExpression runtime.engine) (name : Text)
    (k i j : ℕ) : Prop :=
  (k = 0 → runtime.startsWithCaret regex.pattern = true ∨ i = 0) ∧
    (k + 1 = regex.alternatives.length →
      runtime.endsWithDollar (withCaret runtime regex.pattern) = true ∨
        (runtime.engine.patternEnd (withCaret runtime regex.pattern)).Accepts name j)

/-- Some alternative matches a part of the name that the anchors allow. -/
def MatchesAnchored (runtime : RegexRuntime) (regex : RegularExpression runtime.engine)
    (name : Text) : Prop :=
  runtime.engine.MatchesPart regex.alternatives name (Part runtime regex name)

/-- The same with a part that is not the whole name. -/
def OverMatches (runtime : RegexRuntime) (regex : RegularExpression runtime.engine)
    (name : Text) : Prop :=
  runtime.engine.MatchesPart regex.alternatives name fun k i j =>
    Part runtime regex name k i j ∧ (i ≠ 0 ∨ j ≠ name.length)

variable {runtime : RegexRuntime} {regex : RegularExpression runtime.engine} {name : Text}

theorem matchesPart_withCaret {alternatives : List (List runtime.engine.Term)} {p : Text}
    {part : ℕ → ℕ → ℕ → Prop} (h : runtime.engine.parse p = some alternatives) :
    ∃ alternatives', runtime.engine.parse (withCaret runtime p) = some alternatives' ∧
      alternatives'.length = alternatives.length ∧
      (runtime.engine.MatchesPart alternatives' name part ↔
        runtime.engine.MatchesPart alternatives name fun k i j =>
          part k i j ∧ (k = 0 → runtime.startsWithCaret p = true ∨ i = 0)) := by
  rw [withCaret]
  cases hcaret : runtime.startsWithCaret p with
  | true => exact ⟨alternatives, h, rfl, by simp⟩
  | false =>
    cases alternatives with
    | nil => exact absurd h (runtime.engine.parse_ne_nil p)
    | cons terms rest =>
      refine ⟨_, runtime.engine.parse_caret p terms rest h, rfl, ?_⟩
      rw [RegexEngine.matchesPart_caret]
      simp

theorem isMatch_wrapped {alternatives : List (List runtime.engine.Term)} {p : Text}
    (h : runtime.engine.parse p = some alternatives) :
    runtime.engine.isMatch (if !runtime.endsWithDollar p then p ++ [unit '$'] else p) name = true ↔
      runtime.engine.MatchesPart alternatives name fun k _ j => k + 1 = alternatives.length →
        runtime.endsWithDollar p = true ∨ (runtime.engine.patternEnd p).Accepts name j := by
  cases hdollar : runtime.endsWithDollar p with
  | true =>
    rw [Bool.not_true, if_neg Bool.false_ne_true, RegexEngine.isMatch_eq_true_iff h]
    simp
  | false =>
    rcases List.eq_nil_or_concat alternatives with rfl | ⟨rest, terms, rfl⟩
    · exact absurd h (runtime.engine.parse_ne_nil p)
    · rw [List.concat_eq_append] at h ⊢
      rw [Bool.not_false, if_pos rfl, RegexEngine.isMatch_eq_true_iff
        (runtime.engine.parse_dollar p rest terms h), RegexEngine.matchesPart_dollar]
      simp

/-- What the wrapped pattern matches. -/
theorem isMatch_wrapWithLineCharacters (regex : RegularExpression runtime.engine) (name : Text)
    {pattern : Text} (h : wrapWithLineCharacters runtime (some regex.pattern) = some pattern) :
    runtime.engine.isMatch pattern name = true ↔ MatchesAnchored runtime regex name := by
  rw [wrapWithLineCharacters, Option.some.injEq] at h
  subst h
  obtain ⟨alternatives, hparse, hlen, hcaret⟩ := matchesPart_withCaret regex.parse_pattern
  rw [isMatch_wrapped hparse, hlen, hcaret, MatchesAnchored]
  constructor
  · exact fun h => h.mono fun k i j _ hpart => ⟨hpart.2, hpart.1⟩
  · exact fun h => h.mono fun k i j _ hpart => ⟨hpart.2, hpart.1⟩

/-- The whole name, or a part of it that should not do. -/
theorem matchesAnchored_iff : MatchesAnchored runtime regex name ↔
    runtime.engine.MatchesWhole regex.alternatives name ∨ OverMatches runtime regex name := by
  constructor
  · rintro ⟨k, terms, i, s, hk, hi, hwalk, hpart⟩
    by_cases hwhole : i = 0 ∧ runtime.engine.position s = name.length
    · exact .inl ⟨k, terms, i, s, hk, hi, hwalk, hwhole⟩
    · exact .inr ⟨k, terms, i, s, hk, hi, hwalk, hpart, not_and_or.1 hwhole⟩
  · rintro (h | h)
    · rw [RegexEngine.MatchesWhole] at h
      apply h.mono
      rintro k i j - ⟨rfl, rfl⟩
      exact ⟨fun _ => .inr rfl, fun _ => .inr (PatternEnd.accepts_length _ name)⟩
    · rw [OverMatches] at h
      exact h.mono fun k i j _ hpart => hpart.1

/-! ### One match -/

/-- The name belongs to the language of the pattern that is given, if one is. -/
def InLanguage {engine : RegexEngine} (given : Option (RegularExpression engine))
    (name : Option Text) : Prop :=
  ∀ regex, given = some regex → ∃ s, name = some s ∧ engine.MatchesWhole regex.alternatives s

/-- There is a name where a pattern is given, and it is in the language unless no part of it is
matched that should not do. -/
def NameFits (runtime : RegexRuntime) (given : Option (RegularExpression runtime.engine))
    (name : Option Text) : Prop :=
  ∀ regex, given = some regex → ∃ s, name = some s ∧
    (runtime.engine.MatchesWhole regex.alternatives s ∨ ¬OverMatches runtime regex s)

/-- A match is made and runs out of time. -/
def TimesOutOn (given : Option (RegularExpression runtime.engine)) (name : Option Text)
    (timesOut : Bool) : Prop :=
  given ≠ none ∧ name ≠ none ∧ timesOut = true

/-- The rule goes on to what comes next. -/
def Passes (runtime : RegexRuntime) (given : Option (RegularExpression runtime.engine))
    (name : Option Text) (timesOut : Bool) : Prop :=
  ∀ regex, given = some regex →
    ∃ s, name = some s ∧ (timesOut = true ∨ MatchesAnchored runtime regex s)

/-- The pattern answers in time, and no. -/
def Rejects (runtime : RegexRuntime) (given : Option (RegularExpression runtime.engine))
    (name : Option Text) (timesOut : Bool) : Prop :=
  ∃ regex s, given = some regex ∧ name = some s ∧ timesOut = false ∧
    ¬MatchesAnchored runtime regex s

/-- The pattern as the rule keeps it. -/
def wrapped (runtime : RegexRuntime) (given : Option (RegularExpression runtime.engine)) :
    Option Text :=
  wrapWithLineCharacters runtime (given.map (·.pattern))

variable {given : Option (RegularExpression runtime.engine)} {input : Option Text}
  {timesOut : Bool}

theorem passes_none : Passes runtime none input timesOut := by
  intro regex h
  cases h

theorem not_rejects_none : ¬Rejects runtime none input timesOut := by
  rintro ⟨regex, s, h, -⟩
  cases h

theorem passes_some {s : Text} : Passes runtime (some regex) (some s) timesOut ↔
    timesOut = true ∨ MatchesAnchored runtime regex s := by
  simp [Passes]

theorem inLanguage_some {engine : RegexEngine} {regex : RegularExpression engine} {s : Text} :
    InLanguage (some regex) (some s) ↔ engine.MatchesWhole regex.alternatives s := by
  simp [InLanguage]

theorem nameFits_some {s : Text} : NameFits runtime (some regex) (some s) ↔
    runtime.engine.MatchesWhole regex.alternatives s ∨ ¬OverMatches runtime regex s := by
  simp [NameFits]

theorem rejects_some {s : Text} : Rejects runtime (some regex) (some s) timesOut ↔
    timesOut = false ∧ ¬MatchesAnchored runtime regex s := by
  simp [Rejects]

theorem Rejects.not_passes (h : Rejects runtime given input timesOut) :
    ¬Passes runtime given input timesOut := by
  obtain ⟨regex, s, rfl, rfl, rfl, hnot⟩ := h
  rw [passes_some]
  simpa using hnot

theorem TimesOutOn.passes (h : TimesOutOn given input timesOut) :
    Passes runtime given input timesOut := by
  obtain ⟨-, hinput, rfl⟩ := h
  obtain ⟨s, rfl⟩ := Option.ne_none_iff_exists'.1 hinput
  exact fun regex _ => ⟨s, rfl, .inl rfl⟩

theorem InLanguage.passes (h : InLanguage given input) : Passes runtime given input timesOut := by
  intro regex hgiven
  obtain ⟨s, hs, hwhole⟩ := h regex hgiven
  exact ⟨s, hs, .inr (matchesAnchored_iff.2 (.inl hwhole))⟩

/-- A name that fits passes in time only if it is in the language. -/
theorem NameFits.inLanguage (hfits : NameFits runtime given input)
    (htime : ¬TimesOutOn given input timesOut) (h : Passes runtime given input timesOut) :
    InLanguage given input := by
  intro regex hgiven
  obtain ⟨s, hs, hmatch⟩ := h regex hgiven
  obtain ⟨s', hs', hfit⟩ := hfits regex hgiven
  rw [hs, Option.some.injEq] at hs'
  subst hs'
  refine ⟨s, hs, ?_⟩
  rcases hmatch with rfl | hmatch
  · exact absurd ⟨by simp [hgiven], by simp [hs], rfl⟩ htime
  · rcases matchesAnchored_iff.1 hmatch with hwhole | hover
    · exact hwhole
    · exact hfit.resolve_right (not_not_intro hover)

namespace CustomSamplingRule

variable {rule : CustomSamplingRule}

/-- The answers of one match, and what it does to the rule. -/
structure MatchSpec (runtime : RegexRuntime) (given : Option (RegularExpression runtime.engine))
    (input : Option Text) (timesOut : Bool) (rule : CustomSamplingRule)
    (out : Except RegexException Bool × CustomSamplingRule) : Prop where
  passes : out.1 = .ok false ↔ Passes runtime given input timesOut
  rejects : out.1 = .ok true ↔ Rejects runtime given input timesOut
  serviceNameRegex : out.2.serviceNameRegex = rule.serviceNameRegex
  operationNameRegex : out.2.operationNameRegex = rule.operationNameRegex
  poisoned : out.2.hasPoisonedRegex = true ↔
    rule.hasPoisonedRegex = true ∨ TimesOutOn given input timesOut

theorem doesNotMatch_spec (rule : CustomSamplingRule)
    (given : Option (RegularExpression runtime.engine)) (input : Option Text) (timesOut : Bool) :
    MatchSpec runtime given input timesOut rule
      (rule.doesNotMatch runtime.engine input (wrapped runtime given) timesOut) := by
  cases given with
  | none =>
    have hout : rule.doesNotMatch runtime.engine input (wrapped runtime none) timesOut
        = (.ok false, rule) := rfl
    rw [hout]
    exact ⟨by simp [passes_none], by simp [not_rejects_none], rfl, rfl, by simp [TimesOutOn]⟩
  | some regex =>
    obtain ⟨pattern, hpattern⟩ : ∃ pattern, wrapped runtime (some regex) = some pattern :=
      ⟨_, rfl⟩
    rw [hpattern]
    cases input with
    | none =>
      have hout : rule.doesNotMatch runtime.engine none (some pattern) timesOut
          = (.error .argumentNull, rule) := rfl
      rw [hout]
      exact ⟨by simp [Passes], by simp [Rejects], rfl, rfl, by simp [TimesOutOn]⟩
    | some s =>
      cases timesOut with
      | true =>
        have hout : rule.doesNotMatch runtime.engine (some s) (some pattern) true
            = (.ok false, { rule with hasPoisonedRegex := true }) := rfl
        rw [hout]
        exact ⟨by simp [passes_some], by simp [rejects_some], rfl, rfl, by simp [TimesOutOn]⟩
      | false =>
        have hout : rule.doesNotMatch runtime.engine (some s) (some pattern) false
            = (.ok !runtime.engine.isMatch pattern s, rule) := rfl
        have hmatch := isMatch_wrapWithLineCharacters regex s hpattern
        rw [hout]
        refine ⟨?_, ?_, rfl, rfl, by simp [TimesOutOn]⟩
        · rw [passes_some, ← hmatch]
          simp
        · rw [rejects_some, ← hmatch]
          simp

/-! ### One call -/

/-- One of the two patterns is evaluated for the span and runs out of time. -/
def TimesOut (service operation : Option (RegularExpression runtime.engine)) (call : Call) : Prop :=
  TimesOutOn service call.span.serviceName call.serviceTimesOut ∨
    Passes runtime service call.span.serviceName call.serviceTimesOut ∧
      TimesOutOn operation call.span.operationName call.operationTimesOut

/-- The answers of a rule with the patterns, and what a call does to it. -/
structure CallSpec (service operation : Option (RegularExpression runtime.engine))
    (call : Call) (rule : CustomSamplingRule)
    (out : Except RegexException Bool × CustomSamplingRule) : Prop where
  accepts : out.1 = .ok true ↔ rule.hasPoisonedRegex = false ∧
    Passes runtime service call.span.serviceName call.serviceTimesOut ∧
    Passes runtime operation call.span.operationName call.operationTimesOut
  rejects : out.1 = .ok false ↔ rule.hasPoisonedRegex = true ∨
    Rejects runtime service call.span.serviceName call.serviceTimesOut ∨
    Passes runtime service call.span.serviceName call.serviceTimesOut ∧
      Rejects runtime operation call.span.operationName call.operationTimesOut
  serviceNameRegex : out.2.serviceNameRegex = rule.serviceNameRegex
  operationNameRegex : out.2.operationNameRegex = rule.operationNameRegex
  poisoned : out.2.hasPoisonedRegex = true ↔
    rule.hasPoisonedRegex = true ∨ TimesOut service operation call

/-- Where the service does not stop a call, its answer is the one of the operation. -/
theorem isMatch_of_passes {engine : RegexEngine} {call : Call} {rule1 : CustomSamplingRule}
    (hpoisoned : rule.hasPoisonedRegex = false)
    (hout : rule.doesNotMatch engine call.span.serviceName rule.serviceNameRegex
      call.serviceTimesOut = (.ok false, rule1)) :
    rule.isMatch engine call =
      ((rule1.doesNotMatch engine call.span.operationName rule1.operationNameRegex
          call.operationTimesOut).1.map (!·),
        (rule1.doesNotMatch engine call.span.operationName rule1.operationNameRegex
          call.operationTimesOut).2) := by
  rw [isMatch, if_neg (by simp [hpoisoned]), hout]
  dsimp only
  split
  · rename_i hout'
    rw [hout']
    rfl
  · rename_i hout'
    rw [hout']
    rfl
  · rename_i hout'
    rw [hout']
    rfl

theorem map_not_eq_ok {answer : Except RegexException Bool} {b : Bool} :
    answer.map (!·) = .ok b ↔ answer = .ok !b := by
  cases answer with
  | error exception => simp [Except.map]
  | ok b' => cases b <;> simp [Except.map]

theorem isMatch_spec {service operation : Option (RegularExpression runtime.engine)}
    (hservice : rule.serviceNameRegex = wrapped runtime service)
    (hoperation : rule.operationNameRegex = wrapped runtime operation) (call : Call) :
    CallSpec service operation call rule (rule.isMatch runtime.engine call) := by
  cases hpoisoned : rule.hasPoisonedRegex with
  | true =>
    rw [isMatch, if_pos hpoisoned]
    exact ⟨by simp [hpoisoned], by simp [hpoisoned], rfl, rfl, by simp [hpoisoned]⟩
  | false =>
    have hfirst := doesNotMatch_spec rule service call.span.serviceName call.serviceTimesOut
    rw [← hservice] at hfirst
    rcases hout : rule.doesNotMatch runtime.engine call.span.serviceName rule.serviceNameRegex
      call.serviceTimesOut with ⟨exception | b, rule1⟩
    · rw [isMatch, if_neg (by simp [hpoisoned]), hout]
      rw [hout] at hfirst
      have hpasses := mt hfirst.passes.2 (by simp)
      have hrejects := mt hfirst.rejects.2 (by simp)
      exact ⟨by simp [hpasses], by simp [hpoisoned, hpasses, hrejects], hfirst.serviceNameRegex,
        hfirst.operationNameRegex, by simp [hfirst.poisoned, TimesOut, hpasses]⟩
    cases b with
    | true =>
      rw [isMatch, if_neg (by simp [hpoisoned]), hout]
      rw [hout] at hfirst
      have hpasses := mt hfirst.passes.2 (by simp)
      have hrejects := hfirst.rejects.1 rfl
      exact ⟨by simp [hpasses], by simp [hrejects], hfirst.serviceNameRegex,
        hfirst.operationNameRegex, by simp [hfirst.poisoned, TimesOut, hpasses]⟩
    | false =>
      rw [isMatch_of_passes hpoisoned hout]
      rw [hout] at hfirst
      have hpasses := hfirst.passes.1 rfl
      have hrejects := mt hfirst.rejects.2 (by simp)
      rw [hfirst.operationNameRegex, hoperation]
      have hsecond := doesNotMatch_spec rule1 operation call.span.operationName
        call.operationTimesOut
      refine ⟨?_, ?_, hsecond.serviceNameRegex.trans hfirst.serviceNameRegex,
        hsecond.operationNameRegex.trans hfirst.operationNameRegex, ?_⟩
      · rw [map_not_eq_ok, Bool.not_true, hsecond.passes]
        simp [hpoisoned, hpasses]
      · rw [map_not_eq_ok, Bool.not_false, hsecond.rejects]
        simp [hpoisoned, hpasses, hrejects]
      · rw [hsecond.poisoned, hfirst.poisoned, or_assoc, TimesOut, and_iff_right hpasses]

/-! ### Runs -/

/-- A rule keeps its patterns, and is poisoned once an evaluated pattern has timed out. -/
theorem run_spec (rule : CustomSamplingRule)
    (service operation : Option (RegularExpression runtime.engine))
    (hservice : rule.serviceNameRegex = wrapped runtime service)
    (hoperation : rule.operationNameRegex = wrapped runtime operation) (calls : List Call) :
    (run runtime.engine rule calls).serviceNameRegex = wrapped runtime service ∧
      (run runtime.engine rule calls).operationNameRegex = wrapped runtime operation ∧
      ((run runtime.engine rule calls).hasPoisonedRegex = true ↔
        rule.hasPoisonedRegex = true ∨ ∃ call ∈ calls, TimesOut service operation call) := by
  induction calls generalizing rule with
  | nil => exact ⟨hservice, hoperation, by simp [run]⟩
  | cons call calls ih =>
    have hcall := isMatch_spec hservice hoperation call
    obtain ⟨hservice', hoperation', hpoisoned⟩ := ih _ (hcall.serviceNameRegex.trans hservice)
      (hcall.operationNameRegex.trans hoperation)
    refine ⟨hservice', hoperation', ?_⟩
    rw [List.exists_mem_cons_iff, ← or_assoc, ← hcall.poisoned]
    exact hpoisoned

/-- The condition of a pattern, when it does not run out of time: it holds exactly if the whole
name belongs to the language. -/
def HoldsExactly (engine : RegexEngine) (rule : CustomSamplingRule)
    (given : Option (RegularExpression engine)) (name pattern : Option Text) : Prop :=
  ∃ b, (rule.doesNotMatch engine name pattern false).1 = .ok b ∧
    (b = false ↔ InLanguage given name)

/-- In time there is an answer, which says what the wrapped pattern matches. -/
theorem exists_answer (rule : CustomSamplingRule) (regex : RegularExpression runtime.engine)
    (s : Text) : ∃ b, (rule.doesNotMatch runtime.engine (some s) (wrapped runtime (some regex))
      false).1 = .ok b ∧ (b = false ↔ MatchesAnchored runtime regex s) := by
  obtain ⟨hpasses, hrejects, -⟩ := doesNotMatch_spec rule (some regex) (some s) false
  rw [passes_some, or_iff_right Bool.false_ne_true] at hpasses
  rw [rejects_some, and_iff_right rfl] at hrejects
  by_cases h : MatchesAnchored runtime regex s
  · exact ⟨false, hpasses.2 h, iff_of_true rfl h⟩
  · exact ⟨true, hrejects.2 h, iff_of_false Bool.false_ne_true.symm h⟩

theorem holdsExactly_iff (rule : CustomSamplingRule) :
    HoldsExactly runtime.engine rule given input (wrapped runtime given) ↔
      NameFits runtime given input := by
  cases given with
  | none =>
    apply iff_of_true
    · exact ⟨false, rfl, by simp [InLanguage]⟩
    · intro regex h
      cases h
  | some regex =>
    cases input with
    | none =>
      apply iff_of_false
      · rintro ⟨b, h, -⟩
        cases h
      · intro h
        obtain ⟨s, hs, -⟩ := h regex rfl
        cases hs
    | some s =>
      obtain ⟨b, hb, hanswer⟩ := exists_answer rule regex s
      rw [matchesAnchored_iff] at hanswer
      rw [nameFits_some]
      constructor
      · rintro ⟨b', hb', hiff⟩
        rw [hb] at hb'
        cases hb'
        rw [inLanguage_some, hanswer, or_iff_left_iff_imp] at hiff
        by_cases hover : OverMatches runtime regex s
        · exact .inl (hiff hover)
        · exact .inr hover
      · intro h
        refine ⟨b, hb, ?_⟩
        rw [inLanguage_some, hanswer, or_iff_left_iff_imp]
        exact fun hover => h.resolve_right (not_not_intro hover)

/-! ### The law of the rule -/

/-- The rule for the patterns that are given, after some calls. -/
def after (runtime : RegexRuntime) (service operation : Option (RegularExpression runtime.engine))
    (earlier : List Call) : CustomSamplingRule :=
  run runtime.engine (new runtime (service.map (·.pattern)) (operation.map (·.pattern))) earlier

theorem after_spec (runtime : RegexRuntime)
    (service operation : Option (RegularExpression runtime.engine)) (earlier : List Call) :
    (after runtime service operation earlier).serviceNameRegex = wrapped runtime service ∧
      (after runtime service operation earlier).operationNameRegex = wrapped runtime operation ∧
      ((after runtime service operation earlier).hasPoisonedRegex = true ↔
        ∃ call ∈ earlier, TimesOut service operation call) := by
  obtain ⟨hservice, hoperation, hpoisoned⟩ :=
    run_spec (new runtime (service.map (·.pattern)) (operation.map (·.pattern))) service operation
      rfl rfl earlier
  refine ⟨hservice, hoperation, hpoisoned.trans ?_⟩
  simp [new]

/-- A pattern has timed out on the span or on an earlier one. -/
def TimedOut (service operation : Option (RegularExpression runtime.engine))
    (earlier : List Call) (call : Call) : Prop :=
  (∃ c ∈ earlier, TimesOut service operation c) ∨ TimesOut service operation call

/-- What a rule should say of a span, after earlier ones. -/
structure MatchesWholeNames (runtime : RegexRuntime)
    (service operation : Option (RegularExpression runtime.engine)) (earlier : List Call)
    (call : Call) : Prop where
  onService : HoldsExactly runtime.engine (after runtime service operation earlier) service
    call.span.serviceName (after runtime service operation earlier).serviceNameRegex
  onOperation : HoldsExactly runtime.engine (after runtime service operation earlier) operation
    call.span.operationName (after runtime service operation earlier).operationNameRegex
  inTime : ¬TimedOut service operation earlier call →
    (((after runtime service operation earlier).isMatch runtime.engine call).1 = .ok true ↔
      InLanguage service call.span.serviceName ∧ InLanguage operation call.span.operationName)
  timedOut : TimedOut service operation earlier call →
    ((after runtime service operation earlier).isMatch runtime.engine call).1 = .ok false

/-- The names fit the patterns, and a pattern times out on the span only where the rule is
poisoned already or the other pattern rejects it. -/
structure Fits (runtime : RegexRuntime)
    (service operation : Option (RegularExpression runtime.engine)) (earlier : List Call)
    (call : Call) : Prop where
  onService : NameFits runtime service call.span.serviceName
  onOperation : NameFits runtime operation call.span.operationName
  time : TimesOut service operation call → (∃ c ∈ earlier, TimesOut service operation c) ∨
    Rejects runtime operation call.span.operationName call.operationTimesOut

theorem inTime_of_fits {service operation : Option (RegularExpression runtime.engine)}
    {earlier : List Call} {call : Call} (h : Fits runtime service operation earlier call)
    (hnever : ¬TimedOut service operation earlier call) :
    ((after runtime service operation earlier).isMatch runtime.engine call).1 = .ok true ↔
      InLanguage service call.span.serviceName ∧
        InLanguage operation call.span.operationName := by
  obtain ⟨hservice, hoperation, hpoisoned⟩ := after_spec runtime service operation earlier
  rw [TimedOut, TimesOut, not_or, not_or] at hnever
  obtain ⟨hearlier, htime, htime'⟩ := hnever
  have hclean : (after runtime service operation earlier).hasPoisonedRegex = false := by
    rw [Bool.eq_false_iff, Ne, hpoisoned]
    exact hearlier
  rw [(isMatch_spec hservice hoperation call).accepts, hclean, and_iff_right rfl]
  constructor
  · rintro ⟨hpasses, hpasses'⟩
    exact ⟨h.onService.inLanguage htime hpasses,
      h.onOperation.inLanguage (fun ht => htime' ⟨hpasses, ht⟩) hpasses'⟩
  · rintro ⟨hlanguage, hlanguage'⟩
    exact ⟨hlanguage.passes, hlanguage'.passes⟩

theorem timedOut_iff {service operation : Option (RegularExpression runtime.engine)}
    {earlier : List Call} {call : Call} :
    (TimedOut service operation earlier call →
      ((after runtime service operation earlier).isMatch runtime.engine call).1 = .ok false) ↔
      (TimesOut service operation call → (∃ c ∈ earlier, TimesOut service operation c) ∨
        Rejects runtime operation call.span.operationName call.operationTimesOut) := by
  obtain ⟨hservice, hoperation, hpoisoned⟩ := after_spec runtime service operation earlier
  rw [(isMatch_spec hservice hoperation call).rejects, hpoisoned, TimedOut]
  -- a service that times out is not rejected, nor is one that passes
  have hgoes : TimesOut service operation call →
      Passes runtime service call.span.serviceName call.serviceTimesOut := by
    rintro (h | h)
    · exact h.passes
    · exact h.1
  constructor
  · intro h htime
    rcases h (.inr htime) with hearlier | hrejects | ⟨-, hrejects⟩
    · exact .inl hearlier
    · exact absurd (hgoes htime) hrejects.not_passes
    · exact .inr hrejects
  · rintro h (hearlier | htime)
    · exact .inl hearlier
    · rcases h htime with hearlier | hrejects
      · exact .inl hearlier
      · exact .inr (.inr ⟨hgoes htime, hrejects⟩)

/-- A rule judges whole names exactly if no part of a name is matched that should not do, there
are names where there are patterns, and no pattern times out and leaves the span accepted. -/
theorem matchesWholeNames_iff (runtime : RegexRuntime)
    (service operation : Option (RegularExpression runtime.engine)) (earlier : List Call)
    (call : Call) : MatchesWholeNames runtime service operation earlier call ↔
      Fits runtime service operation earlier call := by
  obtain ⟨hservice, hoperation, -⟩ := after_spec runtime service operation earlier
  constructor
  · rintro ⟨hs, ho, -, htime⟩
    rw [hservice, holdsExactly_iff] at hs
    rw [hoperation, holdsExactly_iff] at ho
    exact ⟨hs, ho, timedOut_iff.1 htime⟩
  · intro h
    refine ⟨?_, ?_, inTime_of_fits h, timedOut_iff.2 h.time⟩
    · rw [hservice, holdsExactly_iff]
      exact h.onService
    · rw [hoperation, holdsExactly_iff]
      exact h.onOperation

/-! ### An alternative that is not anchored -/

/-- Literals, compared by their characters. -/
def literalRuntime : RegexRuntime where
  engine := literalEngine
  startsWithCaret s := s.head? = some (unit '^')
  endsWithDollar s := s.getLast? = some (unit '$')

theorem parse_aOrB : LiteralRegex.parse (text "a|b")
    = some [[.char (unit 'a')], [.char (unit 'b')]] := by decide

def aOrB : RegularExpression literalEngine where
  pattern := text "a|b"
  alternatives := [[.char (unit 'a')], [.char (unit 'b')]]
  parse_pattern := parse_aOrB

theorem not_matchesWhole_ab : ¬literalEngine.MatchesWhole aOrB.alternatives (text "ab") := by
  rintro ⟨k, terms, i, j, hk, -, hwalk, rfl, hj⟩
  have hterms : terms ∈ aOrB.alternatives := List.mem_of_getElem? hk
  have hwalk' : LiteralRegex.walk (text "ab") terms 0 = some j := LiteralRegex.walk_iff.1 hwalk
  have hlen : ∀ terms ∈ aOrB.alternatives, LiteralRegex.walk (text "ab") terms 0 ≠ some 2 := by
    decide
  exact hlen terms hterms (hwalk'.trans (congrArg some hj))

/-- The pattern `a|b` is wrapped as `^a|b$`, which matches the name `ab`. -/
theorem alternation_over_matches :
    ¬∀ (runtime : RegexRuntime) (service operation : Option (RegularExpression runtime.engine))
      (earlier : List Call) (call : Call),
      MatchesWholeNames runtime service operation earlier call := by
  intro h
  have hab := h literalRuntime (some aOrB) none []
    ⟨⟨0, some (text "ab"), some (text "op"), .commonTags none⟩, false, false⟩
  obtain ⟨b, hb, hiff⟩ := hab.onService
  have hanswer : (doesNotMatch literalEngine (after literalRuntime (some aOrB) none [])
      (some (text "ab")) (some (text "^a|b$")) false).1 = .ok false := by decide
  have hwrapped : (after literalRuntime (some aOrB) none []).serviceNameRegex
      = some (text "^a|b$") := by decide
  rw [hwrapped] at hb
  cases hanswer.symm.trans hb
  obtain ⟨s, hs, hwhole⟩ := hiff.1 rfl aOrB rfl
  cases hs
  exact not_matchesWhole_ab hwhole

end CustomSamplingRule

end DdTrace.Sampling
