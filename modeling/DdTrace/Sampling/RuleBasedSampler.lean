import DdTrace.Lib.StableInsertion
import DdTrace.Sampling.CustomSamplingRule
import DdTrace.Trace.SamplingPriority
import Mathlib.Data.List.Induction

/-!
# The rules of the sampler

`RuleBasedSampler` keeps its rules by priority and decides by the first that matches
(RuleBasedSampler.cs). The rules other than its own are references `R` with a fixed priority;
what they answer can change from call to call and is an argument of the call (`Answers`). A rule
that throws before one matches leaves the span without a decision: `registered_rules` says when.
-/

namespace DdTrace.Sampling

open Lib

variable {R Rate Ex : Type}

/-- The rules in the list: the sampler's own, or one that was registered. -/
inductive Rule (R : Type) where
  | defaultRule
  | registered (rule : R)
  deriving DecidableEq, Repr

structure RuleBasedSampler (R Rate : Type) where
  defaultRule : DefaultSamplingRule Rate
  rules : List (Rule R)

/-- What the rules and the limiter answer during a call. -/
structure Answers (R Rate Ex : Type) where
  isMatch : R → Span → Except Ex Bool
  getSamplingRate : R → Span → Rate
  /-- `hash <= (rate * MaxTraceId)`, a comparison of floats. -/
  isSampled : UInt64 → Rate → Bool
  /-- `_limiter.Allowed(span)` -/
  allowed : Span → Bool

/-- `ISamplingRule.Priority` -/
def Rule.priority (priorityOf : R → Int32) : Rule R → Int32
  | defaultRule => Int32.minValue
  | registered rule => priorityOf rule

/-- `ISamplingRule.IsMatch` -/
def Rule.isMatch (answers : Answers R Rate Ex) (span : Span) : Rule R → Except Ex Bool
  | defaultRule => .ok true
  | registered rule => answers.isMatch rule span

/-- The rule matches the span. -/
def Rule.matched (answers : Answers R Rate Ex) (span : Span) (rule : Rule R) : Bool :=
  match rule.isMatch answers span with
  | .ok isMatch => isMatch
  | .error _ => false

def Rule.throws (answers : Answers R Rate Ex) (span : Span) (rule : Rule R) : Bool :=
  match rule.isMatch answers span with
  | .ok _ => false
  | .error _ => true

/-- `rule is DefaultSamplingRule` -/
def Rule.isDefault : Rule R → Bool
  | defaultRule => true
  | registered _ => false

namespace RuleBasedSampler

/-- `RegisterRule`: the loop finds the first rule of a lower priority. -/
def registerRule (priorityOf : R → Int32) (sampler : RuleBasedSampler R Rate) (rule : Rule R) :
    RuleBasedSampler R Rate :=
  let rules := sampler.rules
  match rules.findIdx? fun r => r.priority priorityOf < rule.priority priorityOf with
  | some i => { sampler with rules := rules.insertIdx i rule }
  | none => { sampler with rules := rules ++ [rule] }

/-- The constructor. -/
def new (priorityOf : R → Int32) : RuleBasedSampler R Rate :=
  registerRule priorityOf { defaultRule := .new, rules := [] } .defaultRule

variable [One Rate]

/-- `ISamplingRule.GetSamplingRate` -/
def samplingRate (sampler : RuleBasedSampler R Rate) (answers : Answers R Rate Ex) (span : Span) :
    Rule R → Rate
  | .defaultRule => (sampler.defaultRule.getSamplingRate span).1
  | .registered rule => answers.getSamplingRate rule span

def knuthFactor : UInt64 := 1111111111111111111
def maxTraceId : UInt64 := 9223372036854775807

/-- The private `GetSamplingPriority`. -/
def getSamplingPriorityForRate (answers : Answers R Rate Ex) (span : Span) (rate : Rate)
    (agentSampling : Bool) : Trace.SamplingPriority :=
  let sample := answers.isSampled (span.traceId * knuthFactor % maxTraceId) rate
  if agentSampling then if sample then .autoKeep else .autoReject
  else if sample && answers.allowed span then .userKeep else .userReject

/-- The loop of `GetSamplingPriority` over the rules that are left. -/
def firstMatch (sampler : RuleBasedSampler R Rate) (answers : Answers R Rate Ex) (span : Span) :
    List (Rule R) → Except Ex Trace.SamplingPriority
  | [] => .ok .autoKeep
  | rule :: rules =>
    match rule.isMatch answers span with
    | .error exception => .error exception
    | .ok true =>
      let sampleRate := sampler.samplingRate answers span rule
      .ok (getSamplingPriorityForRate answers span sampleRate rule.isDefault)
    | .ok false => firstMatch sampler answers span rules

def getSamplingPriority (sampler : RuleBasedSampler R Rate) (answers : Answers R Rate Ex)
    (span : Span) : Except Ex Trace.SamplingPriority :=
  firstMatch sampler answers span sampler.rules

/-- `SetDefaultSampleRates`: after an exception the rule has its old rates. -/
def setDefaultSampleRates [DecidableEq Rate] (sampler : RuleBasedSampler R Rate)
    (sampleRates : Option (List (Text × Rate))) : RuleBasedSampler R Rate :=
  match DefaultSamplingRule.setDefaultSampleRates sampleRates with
  | some defaultRule => { sampler with defaultRule }
  | none => sampler

end RuleBasedSampler

/-- The calls that change the sampler. -/
inductive SamplerCall (R Rate : Type) where
  | registerRule (rule : R)
  | setDefaultSampleRates (sampleRates : Option (List (Text × Rate)))

namespace RuleBasedSampler

variable {priorityOf : R → Int32} [One Rate]

def step [DecidableEq Rate] (priorityOf : R → Int32) (sampler : RuleBasedSampler R Rate) :
    SamplerCall R Rate → RuleBasedSampler R Rate
  | .registerRule rule => sampler.registerRule priorityOf (.registered rule)
  | .setDefaultSampleRates sampleRates => sampler.setDefaultSampleRates sampleRates

/-- The sampler after some calls. -/
def after [DecidableEq Rate] (priorityOf : R → Int32) (calls : List (SamplerCall R Rate)) :
    RuleBasedSampler R Rate :=
  calls.foldl (step priorityOf) (new priorityOf)

/-- The rules in the order of their registration, the sampler's own first. -/
def registered (calls : List (SamplerCall R Rate)) : List (Rule R) :=
  .defaultRule :: calls.flatMap fun
    | .registerRule rule => [.registered rule]
    | .setDefaultSampleRates _ => []

/-! ### The order of the rules -/

/-- The priority as an integer. -/
def key (priorityOf : R → Int32) (rule : Rule R) : ℤ := (rule.priority priorityOf).toInt

omit [One Rate] in
theorem rules_registerRule (sampler : RuleBasedSampler R Rate) (rule : Rule R) :
    (sampler.registerRule priorityOf rule).rules
      = insertByKey (key priorityOf) rule sampler.rules := by
  have hinsert : ∀ rules : List (Rule R),
      (match rules.findIdx? fun r => r.priority priorityOf < rule.priority priorityOf with
        | some i => rules.insertIdx i rule
        | none => rules ++ [rule]) = insertByKey (key priorityOf) rule rules := by
    intro rules
    induction rules with
    | nil => rfl
    | cons r rules ih =>
      rw [List.findIdx?_cons, insertByKey, ← ih]
      by_cases hlt : r.priority priorityOf < rule.priority priorityOf
      · rw [if_pos (decide_eq_true hlt), if_pos (show key priorityOf r < key priorityOf rule from
          Int32.lt_iff_toInt_lt.1 hlt)]
        rfl
      · rw [if_neg (by simpa using hlt), if_neg (show ¬key priorityOf r < key priorityOf rule from
          fun h => hlt (Int32.lt_iff_toInt_lt.2 h))]
        cases rules.findIdx? fun r => r.priority priorityOf < rule.priority priorityOf <;> rfl
  rw [← hinsert, registerRule]
  cases sampler.rules.findIdx? fun r => r.priority priorityOf < rule.priority priorityOf <;> rfl

variable [DecidableEq Rate]

theorem rules_setDefaultSampleRates (sampler : RuleBasedSampler R Rate)
    (sampleRates : Option (List (Text × Rate))) :
    (sampler.setDefaultSampleRates sampleRates).rules = sampler.rules := by
  rw [setDefaultSampleRates]
  split <;> rfl

/-- After any calls the list is the stable order of the registrations. -/
theorem stableSorted_after (priorityOf : R → Int32) (calls : List (SamplerCall R Rate)) :
    StableSorted (key priorityOf) (registered calls) (after priorityOf calls).rules := by
  induction calls using List.reverseRecOn with
  | nil => exact StableSorted.nil.insert _
  | append_singleton calls call ih =>
    rw [after, List.foldl_append, List.foldl_cons, List.foldl_nil]
    cases call with
    | registerRule rule =>
      have hregistered : registered (calls ++ [(.registerRule rule : SamplerCall R Rate)])
          = registered calls ++ [.registered rule] := by
        simp [registered]
      rw [step, rules_registerRule, hregistered]
      exact ih.insert _
    | setDefaultSampleRates sampleRates =>
      have hregistered : registered
          (calls ++ [(.setDefaultSampleRates sampleRates : SamplerCall R Rate)])
          = registered calls := by
        simp [registered]
      rw [step, rules_setDefaultSampleRates, hregistered]
      exact ih

/-! ### The decision -/

section Decision

variable {sampler : RuleBasedSampler R Rate} {answers : Answers R Rate Ex} {span : Span}
  {rules : List (Rule R)} {rule : Rule R}

/-- The rules at which the loop does not go on. -/
def stops (answers : Answers R Rate Ex) (span : Span) (rule : Rule R) : Bool :=
  rule.matched answers span || rule.throws answers span

omit [One Rate] [DecidableEq Rate] in
theorem not_throws_of_matched (h : rule.matched answers span = true) :
    rule.throws answers span = false := by
  unfold Rule.matched at h
  unfold Rule.throws
  split at h
  · rfl
  · cases h

omit [DecidableEq Rate] in
/-- At the rule where it stops, the loop decides or throws. -/
theorem firstMatch_isOk_iff (h : rules.find? (stops answers span) = some rule) :
    (∃ decision, firstMatch sampler answers span rules = .ok decision) ↔
      rule.matched answers span = true := by
  induction rules with
  | nil => cases h
  | cons r rules ih =>
    rw [List.find?_cons] at h
    unfold stops Rule.matched Rule.throws at h
    unfold Rule.matched
    rw [firstMatch]
    cases hanswer : r.isMatch answers span with
    | error exception =>
      rw [hanswer] at h
      cases h
      rw [hanswer]
      simp
    | ok isMatch =>
      rw [hanswer] at h
      cases isMatch with
      | true =>
        cases h
        rw [hanswer]
        simp
      | false => exact ih h

omit [DecidableEq Rate] in
/-- The decision is by the first rule that matches. -/
theorem firstMatch_eq (h : rules.find? (stops answers span) = some rule)
    (hmatched : rule.matched answers span = true) :
    rules.find? (fun r => r.matched answers span) = some rule ∧
      firstMatch sampler answers span rules
        = .ok (getSamplingPriorityForRate answers span (sampler.samplingRate answers span rule)
            rule.isDefault) := by
  induction rules with
  | nil => cases h
  | cons r rules ih =>
    rw [List.find?_cons] at h ⊢
    rw [firstMatch]
    unfold stops at h
    cases hanswer : r.isMatch answers span with
    | error exception =>
      have hstops : (r.matched answers span || r.throws answers span) = true := by
        simp [Rule.throws, hanswer]
      rw [hstops] at h
      cases h
      simp [Rule.matched, hanswer] at hmatched
    | ok isMatch =>
      cases isMatch with
      | true =>
        have hr : r.matched answers span = true := by simp [Rule.matched, hanswer]
        rw [hr, Bool.true_or] at h
        cases h
        rw [hr]
        exact ⟨rfl, rfl⟩
      | false =>
        have hr : r.matched answers span = false := by simp [Rule.matched, hanswer]
        have hr' : r.throws answers span = false := by simp [Rule.throws, hanswer]
        rw [hr, hr', Bool.or_false] at h
        rw [hr]
        exact ih h

end Decision

/-- The sampler decides by the first rule in its list that matches, which is the first registered
among the matching rules of the highest priority. -/
def Decides (priorityOf : R → Int32) (calls : List (SamplerCall R Rate))
    (answers : Answers R Rate Ex) (span : Span) : Prop :=
  ∃ rule before behind,
    (after priorityOf calls).rules.find? (fun r => r.matched answers span) = some rule ∧
    registered calls = before ++ rule :: behind ∧
    (∀ r ∈ before, r.matched answers span = true →
      r.priority priorityOf < rule.priority priorityOf) ∧
    (∀ r ∈ behind, r.matched answers span = true →
      r.priority priorityOf ≤ rule.priority priorityOf) ∧
    (after priorityOf calls).getSamplingPriority answers span
      = .ok (getSamplingPriorityForRate answers span
          ((after priorityOf calls).samplingRate answers span rule) rule.isDefault)

/-- A rule that throws on the span comes, by priority and registration, behind one that matches. -/
def ThrowsBehindMatch (priorityOf : R → Int32) (registered : List (Rule R))
    (answers : Answers R Rate Ex) (span : Span) : Prop :=
  ∀ before rule behind, registered = before ++ rule :: behind →
    rule.throws answers span = true →
    (∃ r ∈ before, r.matched answers span = true ∧
      rule.priority priorityOf ≤ r.priority priorityOf) ∨
    ∃ r ∈ behind, r.matched answers span = true ∧
      rule.priority priorityOf < r.priority priorityOf

theorem decides_iff (priorityOf : R → Int32) (calls : List (SamplerCall R Rate))
    (answers : Answers R Rate Ex) (span : Span) :
    Decides priorityOf calls answers span ↔
      ThrowsBehindMatch priorityOf (registered calls) answers span := by
  have hsorted := stableSorted_after priorityOf calls
  have hmem : Rule.defaultRule ∈ (after priorityOf calls).rules :=
    hsorted.perm.mem_iff.2 List.mem_cons_self
  obtain ⟨rule, hfind⟩ := Option.isSome_iff_exists.1
    (List.find?_isSome.2 ⟨.defaultRule, hmem, rfl⟩ :
      ((after priorityOf calls).rules.find? (stops answers span)).isSome)
  obtain ⟨hstops, before, behind, hregistered, hbefore, hbehind⟩ := hsorted.find?_eq_some hfind
  constructor
  · rintro ⟨_, _, _, _, _, _, _, hdecided⟩ before' r behind' hsplit hthrows
    have hmatched : rule.matched answers span = true :=
      (firstMatch_isOk_iff hfind).1 ⟨_, hdecided⟩
    have hr : stops answers span r = true := by rw [stops, hthrows, Bool.or_true]
    -- the rule that throws stands in front of the one that decides, or behind it
    rcases List.append_eq_append_iff.1 (hsplit.symm.trans hregistered) with
      ⟨middle, rfl, hmiddle⟩ | ⟨middle, rfl, hmiddle⟩
    · rcases List.cons_eq_append_iff.1 hmiddle with ⟨rfl, hsame⟩ | ⟨middle, rfl, rfl⟩
      · cases hsame
        rw [not_throws_of_matched hmatched] at hthrows
        cases hthrows
      · refine .inr ⟨rule, by simp, hmatched, ?_⟩
        exact Int32.lt_iff_toInt_lt.2 (hbefore r (by simp) hr)
    · rcases List.cons_eq_append_iff.1 hmiddle with ⟨rfl, hsame⟩ | ⟨middle, rfl, rfl⟩
      · cases hsame
        rw [not_throws_of_matched hmatched] at hthrows
        cases hthrows
      · refine .inl ⟨rule, by simp, hmatched, ?_⟩
        exact Int32.le_iff_toInt_le.2 (hbehind r (by simp) hr)
  · intro hcond
    have hmatched : rule.matched answers span = true := by
      rcases Bool.or_eq_true_iff.1 hstops with hmatched | hthrows
      · exact hmatched
      · exfalso
        rcases hcond before rule behind hregistered hthrows with
          ⟨r, hr, hmatched, hle⟩ | ⟨r, hr, hmatched, hlt⟩
        · have hkey := hbefore r hr (by rw [stops, hmatched, Bool.true_or])
          exact absurd (Int32.le_iff_toInt_le.1 hle) (not_le_of_gt hkey)
        · have hkey := hbehind r hr (by rw [stops, hmatched, Bool.true_or])
          exact absurd (Int32.lt_iff_toInt_lt.1 hlt) (not_lt_of_ge hkey)
    obtain ⟨hfirst, hdecided⟩ := firstMatch_eq hfind hmatched
    refine ⟨rule, before, behind, hfirst, hregistered, ?_, ?_, hdecided⟩
    · intro r hr hm
      exact Int32.lt_iff_toInt_lt.2 (hbefore r hr (by rw [stops, hm, Bool.true_or]))
    · intro r hr hm
      exact Int32.le_iff_toInt_le.2 (hbehind r hr (by rw [stops, hm, Bool.true_or]))

/-- After any registrations, mixed with new rates for the sampler's own rule, the rules are in
descending order of their priorities, those of equal priority as they were registered, and
none is missing. The sampler decides by the first of them that matches exactly when no rule
throws before. -/
theorem registered_rules (priorityOf : R → Int32) (calls : List (SamplerCall R Rate)) :
    (after priorityOf calls).rules.Pairwise
        (fun r r' => r'.priority priorityOf ≤ r.priority priorityOf) ∧
      (∀ p, (after priorityOf calls).rules.filter (fun r => r.priority priorityOf = p)
        = (registered calls).filter fun r => r.priority priorityOf = p) ∧
      (after priorityOf calls).rules.Perm (registered calls) ∧
      ∀ (answers : Answers R Rate Ex) (span : Span),
        Decides priorityOf calls answers span ↔
          ThrowsBehindMatch priorityOf (registered calls) answers span := by
  have hsorted := stableSorted_after priorityOf calls
  refine ⟨hsorted.sorted.imp fun h => Int32.le_iff_toInt_le.2 h, ?_, hsorted.perm,
    decides_iff priorityOf calls⟩
  intro p
  have hkey := hsorted.stable p.toInt
  simpa only [key, Int32.toInt_inj] using hkey

/-! ### A rule that throws -/

/-- A configured rule for the operation `web`. -/
def webRule : CustomSamplingRule := .new CustomSamplingRule.literalRuntime none (some (text "web"))

def customAnswers : Answers CustomSamplingRule ℕ RegexException where
  isMatch rule span := (rule.isMatch literalEngine ⟨span, false, false⟩).1
  getSamplingRate _ _ := 1
  isSampled _ _ := true
  allowed _ := true

def unnamedSpan : Span := ⟨7, some (text "shop"), none, .commonTags none⟩

/-- A span without an operation name is not decided, although the sampler's own rule matches. -/
theorem not_decides_unnamed :
    ¬Decides (fun _ => 1) [.registerRule webRule] customAnswers unnamedSpan := by
  have hthrows : (after (fun _ => 1) [.registerRule webRule]).getSamplingPriority customAnswers
      unnamedSpan = .error .argumentNull := by decide
  rintro ⟨_, _, _, _, _, _, _, hdecided⟩
  rw [hthrows] at hdecided
  cases hdecided

end RuleBasedSampler

end DdTrace.Sampling
