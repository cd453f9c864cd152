import DdTrace.Lib.Dictionary
import DdTrace.Lib.Segments
import DdTrace.Lib.Text
import Mathlib.Data.Rat.Defs
import Mathlib.Tactic.NormNum

/-!
# The sampling rates of the agent

`DefaultSamplingRule` keeps the rates the agent sends for the keys `service:…,env:…`
(DefaultSamplingRule.cs). `setDefaultSampleRates` parses the keys and builds a new dictionary,
`getSamplingRate` looks a span up. A rate is whatever can be compared with the default rate 1.
-/

namespace DdTrace.Sampling

open Lib

/-! ### Spans -/

inductive Tags where
  | commonTags (environment : Option Text)
  | tagsList (tags : Dictionary Text Text)

/-- What sampling reads of a span. -/
structure Span where
  traceId : UInt64
  serviceName : Option Text
  operationName : Option Text
  tags : Tags

/-- The environment, a property of `CommonTags`, otherwise the tag `env`. -/
def Span.environment (span : Span) : Option Text :=
  match span.tags with
  | .commonTags environment => environment
  | .tagsList tags => tags.tryGetValue (text "env")

/-! ### `SampleRateKey` -/

structure SampleRateKey where
  service : Option Text
  env : Option Text
  deriving DecidableEq, Repr

/-- `Split(c, 2)` -/
def splitInTwo (c : UInt16) (s : Text) : List Text :=
  if c ∈ s then [s.takeWhile (· ≠ c), (s.dropWhile (· ≠ c)).tail] else [s]

/-- `SampleRateKey.Parse` -/
def SampleRateKey.parse (key : Text) : Option SampleRateKey :=
  match key.splitOn (unit ',') with
  | [servicePart, envPart] =>
    match splitInTwo (unit ':') servicePart with
    | [_, service] =>
      match splitInTwo (unit ':') envPart with
      | [_, env] => some ⟨some service, some env⟩
      | _ => none
    | _ => none
  | _ => none

/-! ### `DefaultSamplingRule` -/

section

variable {Rate : Type} [One Rate] [DecidableEq Rate]

structure DefaultSamplingRule (Rate : Type) where
  sampleRates : Dictionary SampleRateKey Rate

/-- A pair as the loop adds it: default rates and keys that cannot be parsed are skipped. -/
def parsePair (pair : Text × Rate) : Option (SampleRateKey × Rate) :=
  if pair.2 = 1 then none else (SampleRateKey.parse pair.1).map fun key => (key, pair.2)

namespace DefaultSamplingRule

def new : DefaultSamplingRule Rate := ⟨∅⟩

/-- The loop of `SetDefaultSampleRates`. -/
def addRates (rates : Dictionary SampleRateKey Rate) :
    List (Text × Rate) → Option (Dictionary SampleRateKey Rate)
  | [] => some rates
  | pair :: sampleRates =>
    match parsePair pair with
    | none => addRates rates sampleRates
    | some (key, rate) => do addRates (← rates.add key rate) sampleRates

/-- `SetDefaultSampleRates`, with `none` for the exception, which leaves the rule as it was. -/
def setDefaultSampleRates (sampleRates : Option (List (Text × Rate))) :
    Option (DefaultSamplingRule Rate) :=
  match sampleRates with
  | none => some ⟨∅⟩
  | some sampleRates => (addRates ∅ sampleRates).map fun rates => ⟨rates⟩

/-- The rate of a span, and the metric that is set on it. -/
def getSamplingRate (rule : DefaultSamplingRule Rate) (span : Span) : Rate × Option Rate :=
  if rule.sampleRates.keys.length = 0 then (1, none)
  else
    match rule.sampleRates.tryGetValue ⟨span.serviceName, span.environment⟩ with
    | some sampleRate => (sampleRate, some sampleRate)
    | none => (1, none)

theorem addRates_eq (rates : Dictionary SampleRateKey Rate) (sampleRates : List (Text × Rate)) :
    addRates rates sampleRates = rates.addAll (sampleRates.filterMap parsePair) := by
  induction sampleRates generalizing rates with
  | nil => rfl
  | cons pair sampleRates ih =>
    rw [addRates]
    cases h : parsePair pair with
    | none => rw [List.filterMap_cons_none h, ih]
    | some p =>
      rw [List.filterMap_cons_some h, Dictionary.addAll_cons]
      exact Option.bind_congr fun rates' _ => ih rates'

omit [DecidableEq Rate] in
theorem getSamplingRate_fst (rule : DefaultSamplingRule Rate) (span : Span) :
    (rule.getSamplingRate span).1
      = (rule.sampleRates.tryGetValue ⟨span.serviceName, span.environment⟩).getD 1 := by
  rw [getSamplingRate]
  split
  · rename_i h
    have hempty : rule.sampleRates.tryGetValue ⟨span.serviceName, span.environment⟩ = none := by
      rw [Dictionary.tryGetValue_eq_none, AList.mem_keys, List.eq_nil_of_length_eq_zero h]
      exact List.not_mem_nil
    rw [hempty]
    rfl
  · cases rule.sampleRates.tryGetValue ⟨span.serviceName, span.environment⟩ <;> rfl

end DefaultSamplingRule

end

/-! ### Which keys are parsed -/

/-- The key the agent sends for a service and an environment. -/
def agentKey (service env : Text) : Text := text "service:" ++ service ++ text ",env:" ++ env

theorem splitInTwo_eq_two {c : UInt16} {s a b : Text} :
    splitInTwo c s = [a, b] ↔ c ∉ a ∧ s = a ++ c :: b := by
  have hsplit : ∀ {a : Text} (b : Text), c ∉ a → splitInTwo c (a ++ c :: b) = [a, b] := by
    intro a b ha
    have hpos : ∀ x ∈ a, decide (x ≠ c) = true := by
      intro x hx
      rw [decide_eq_true_iff]
      rintro rfl
      exact ha hx
    rw [splitInTwo, if_pos (by simp), List.takeWhile_append_of_pos hpos,
      List.dropWhile_append_of_pos hpos]
    simp
  constructor
  · intro h
    by_cases hc : c ∈ s
    · obtain ⟨a', b', rfl, ha'⟩ := List.eq_append_cons_of_mem hc
      rw [hsplit b' ha'] at h
      cases h
      exact ⟨ha', rfl⟩
    · rw [splitInTwo, if_neg hc] at h
      cases h
  · rintro ⟨ha, rfl⟩
    exact hsplit b ha

namespace SampleRateKey

variable {key service env : Text} {k : SampleRateKey}

/-- A key is parsed if it has one comma and a colon on both sides of it. What stands before
the colons is not looked at. -/
theorem parse_eq_some : parse key = some k ↔
    ∃ p service q env, k = ⟨some service, some env⟩ ∧ unit ':' ∉ p ∧ unit ':' ∉ q ∧
      key.splitOn (unit ',') = [p ++ unit ':' :: service, q ++ unit ':' :: env] := by
  constructor
  · intro h
    unfold parse at h
    split at h
    · rename_i servicePart envPart hparts
      split at h
      · rename_i p service hservice
        split at h
        · rename_i q env henv
          cases h
          obtain ⟨hp, rfl⟩ := splitInTwo_eq_two.1 hservice
          obtain ⟨hq, rfl⟩ := splitInTwo_eq_two.1 henv
          exact ⟨p, service, q, env, rfl, hp, hq, hparts⟩
        · cases h
      · cases h
    · cases h
  · rintro ⟨p, service, q, env, rfl, hp, hq, hparts⟩
    have hservice : splitInTwo (unit ':') (p ++ unit ':' :: service) = [p, service] :=
      splitInTwo_eq_two.2 ⟨hp, rfl⟩
    have henv : splitInTwo (unit ':') (q ++ unit ':' :: env) = [q, env] :=
      splitInTwo_eq_two.2 ⟨hq, rfl⟩
    simp only [parse, hparts, hservice, henv]

theorem agentKey_eq (service env : Text) :
    agentKey service env
      = (text "service" ++ unit ':' :: service) ++ unit ',' :: (text "env" ++ unit ':' :: env) := by
  have h1 : text "service:" = text "service" ++ [unit ':'] := by decide
  have h2 : text ",env:" = unit ',' :: (text "env" ++ [unit ':']) := by decide
  rw [agentKey, h1, h2]
  simp

/-- The keys of the agent are parsed, unless there is a comma in a name. -/
theorem parse_agentKey (hservice : unit ',' ∉ service) (henv : unit ',' ∉ env) :
    parse (agentKey service env) = some ⟨some service, some env⟩ := by
  rw [parse_eq_some]
  refine ⟨text "service", service, text "env", env, rfl, by decide, by decide, ?_⟩
  rw [splitOn_eq_two, agentKey_eq]
  refine ⟨?_, ?_, rfl⟩
  · rw [List.mem_append, List.mem_cons, not_or, not_or]
    exact ⟨by decide, by decide, hservice⟩
  · rw [List.mem_append, List.mem_cons, not_or, not_or]
    exact ⟨by decide, by decide, henv⟩

theorem not_mem_of_splitOn_length {c : UInt16} {a b : Text}
    (h : ((a ++ c :: b).splitOn c).length = 2) : c ∉ a ∧ c ∉ b := by
  rw [List.splitOn_append_cons_self, List.length_append] at h
  have ha := List.length_pos_of_ne_nil (List.splitOn_ne_nil c a)
  have hb := List.length_pos_of_ne_nil (List.splitOn_ne_nil c b)
  obtain ⟨a', ha'⟩ := List.length_eq_one_iff.1 (by omega : (a.splitOn c).length = 1)
  obtain ⟨b', hb'⟩ := List.length_eq_one_iff.1 (by omega : (b.splitOn c).length = 1)
  have hjoin : ∀ {s t : Text}, s.splitOn c = [t] → c ∉ s := by
    intro s t hs
    obtain ⟨-, hnot, hjoin⟩ := splitOn_eq_iff.1 hs
    rw [List.intercalate_singleton] at hjoin
    subst hjoin
    exact hnot _ List.mem_cons_self
  exact ⟨hjoin ha', hjoin hb'⟩

theorem not_mem_of_parse (h : (parse (agentKey service env)).isSome) :
    unit ',' ∉ service ∧ unit ',' ∉ env := by
  obtain ⟨k, hk⟩ := Option.isSome_iff_exists.1 h
  obtain ⟨p, s, q, e, -, -, -, hparts⟩ := parse_eq_some.1 hk
  rw [agentKey_eq] at hparts
  have hnot := not_mem_of_splitOn_length (congrArg List.length hparts)
  simp only [List.mem_append, List.mem_cons, not_or] at hnot
  exact ⟨hnot.1.2.2, hnot.2.2.2⟩

theorem of_parse (h : parse key = some k) :
    ∃ service env, k = ⟨some service, some env⟩ ∧ unit ',' ∉ service ∧ unit ',' ∉ env := by
  obtain ⟨p, s, q, e, rfl, -, -, hparts⟩ := parse_eq_some.1 h
  obtain ⟨hs, he, -⟩ := splitOn_eq_two.1 hparts
  simp only [List.mem_append, List.mem_cons, not_or] at hs he
  exact ⟨s, e, rfl, hs.2.2, he.2.2⟩

end SampleRateKey

/-! ### The rates that are used -/

section

variable {Rate : Type} [One Rate] [DecidableEq Rate] {sampleRates : Dictionary Text Rate}

/-- The rate the agent gave for the service and the environment of a span. -/
def agentRate (sampleRates : Dictionary Text Rate) (span : Span) : Rate :=
  match span.serviceName, span.environment with
  | some service, some env => (sampleRates.tryGetValue (agentKey service env)).getD 1
  | _, _ => 1

/-- The loop meets no key twice, and then every pair it keeps is in the dictionary. -/
theorem setDefaultSampleRates_eq_some {rule : DefaultSamplingRule Rate}
    (h : DefaultSamplingRule.setDefaultSampleRates (some sampleRates.pairs) = some rule)
    {k : SampleRateKey} {rate : Rate} :
    rule.sampleRates.tryGetValue k = some rate ↔
      ∃ key, sampleRates.tryGetValue key = some rate ∧ rate ≠ 1 ∧
        SampleRateKey.parse key = some k := by
  obtain ⟨rates, hrates, rfl⟩ := Option.map_eq_some_iff.1 h
  rw [DefaultSamplingRule.addRates_eq] at hrates
  rw [Dictionary.tryGetValue_addAll_empty hrates, List.mem_filterMap]
  constructor
  · rintro ⟨⟨key, r⟩, hmem, hpair⟩
    rw [parsePair] at hpair
    split at hpair
    · cases hpair
    · obtain ⟨k', hk', hpair⟩ := Option.map_eq_some_iff.1 hpair
      cases hpair
      exact ⟨key, Dictionary.mem_pairs.1 hmem, ‹_›, hk'⟩
  · rintro ⟨key, hmem, hne, hparse⟩
    exact ⟨(key, rate), Dictionary.mem_pairs.2 hmem, by simp [parsePair, hne, hparse]⟩

/-- No two keys with rates that are kept are parsed to the same. -/
def Distinct (sampleRates : Dictionary Text Rate) : Prop :=
  ∀ key rate key' rate', sampleRates.tryGetValue key = some rate → rate ≠ 1 →
    sampleRates.tryGetValue key' = some rate' → rate' ≠ 1 →
    (SampleRateKey.parse key).isSome → SampleRateKey.parse key = SampleRateKey.parse key' →
    key = key'

theorem parsePair_eq_some {pair : Text × Rate} {q : SampleRateKey × Rate} :
    parsePair pair = some q ↔
      pair.2 ≠ 1 ∧ SampleRateKey.parse pair.1 = some q.1 ∧ pair.2 = q.2 := by
  obtain ⟨key, rate⟩ := q
  rw [parsePair]
  split
  · simp [*]
  · simp [*, Prod.ext_iff]

theorem setDefaultSampleRates_isSome_iff :
    (DefaultSamplingRule.setDefaultSampleRates (some sampleRates.pairs)).isSome ↔
      Distinct sampleRates := by
  have hkeys : (DefaultSamplingRule.setDefaultSampleRates (some sampleRates.pairs)).isSome ↔
      sampleRates.pairs.Pairwise fun p p' => ∀ q, parsePair p = some q →
        ∀ q', parsePair p' = some q' → q.1 ≠ q'.1 := by
    rw [DefaultSamplingRule.setDefaultSampleRates, Option.isSome_map,
      DefaultSamplingRule.addRates_eq, Dictionary.addAll_isSome_iff, List.Nodup, List.pairwise_map,
      List.pairwise_filterMap]
    simp
  rw [hkeys]
  constructor
  · intro h key rate key' rate' hmem hne hmem' hne' hsome hparse
    by_contra hkey
    obtain ⟨k, hk⟩ := Option.isSome_iff_exists.1 hsome
    have hsymm : Std.Symm fun p p' : Text × Rate => ∀ q, parsePair p = some q →
        ∀ q', parsePair p' = some q' → q.1 ≠ q'.1 :=
      ⟨fun p p' hpp q hq q' hq' => (hpp q' hq' q hq).symm⟩
    have hpair := h.forall (Dictionary.mem_pairs.2 hmem) (Dictionary.mem_pairs.2 hmem')
      (fun heq => hkey (congrArg Prod.fst heq))
    exact hpair (k, rate) (parsePair_eq_some.2 ⟨hne, hk, rfl⟩) (k, rate')
      (parsePair_eq_some.2 ⟨hne', hparse ▸ hk, rfl⟩) rfl
  · intro h
    have hnodup := List.pairwise_map.1 (Dictionary.nodup_pairs (d := sampleRates))
    refine hnodup.imp_of_mem ?_
    intro p p' hp hp' hne q hq q' hq' hkey
    obtain ⟨hrate, hparse, -⟩ := parsePair_eq_some.1 hq
    obtain ⟨hrate', hparse', -⟩ := parsePair_eq_some.1 hq'
    apply hne
    exact h p.1 p.2 p'.1 p'.2 (Dictionary.mem_pairs.1 hp) hrate (Dictionary.mem_pairs.1 hp') hrate'
      (Option.isSome_of_eq_some hparse) (by rw [hparse, hparse', hkey])

/-- Every key with a rate that is kept is parsed exactly if it is one of the agent's. -/
def Expected (sampleRates : Dictionary Text Rate) : Prop :=
  ∀ key rate, sampleRates.tryGetValue key = some rate → rate ≠ 1 →
    ((SampleRateKey.parse key).isSome ↔ ∃ service env, key = agentKey service env)

omit [DecidableEq Rate] in
theorem Expected.distinct (h : Expected sampleRates) : Distinct sampleRates := by
  intro key rate key' rate' hmem hne hmem' hne' hsome hparse
  obtain ⟨service, env, rfl⟩ := (h key rate hmem hne).1 hsome
  obtain ⟨service', env', rfl⟩ := (h key' rate' hmem' hne').1 (hparse ▸ hsome)
  obtain ⟨hs, he⟩ := SampleRateKey.not_mem_of_parse hsome
  obtain ⟨hs', he'⟩ := SampleRateKey.not_mem_of_parse (hparse ▸ hsome)
  rw [SampleRateKey.parse_agentKey hs he, SampleRateKey.parse_agentKey hs' he'] at hparse
  cases hparse
  rfl

/-- The rate that is used for a service and an environment. -/
theorem getSamplingRate_eq_some {rule : DefaultSamplingRule Rate}
    (h : DefaultSamplingRule.setDefaultSampleRates (some sampleRates.pairs) = some rule)
    (span : Span) {rate : Rate} (hrate : rate ≠ 1) :
    (rule.getSamplingRate span).1 = rate ↔
      ∃ key, sampleRates.tryGetValue key = some rate ∧
        SampleRateKey.parse key = some ⟨span.serviceName, span.environment⟩ := by
  have hvalue : (rule.getSamplingRate span).1 = rate ↔
      rule.sampleRates.tryGetValue ⟨span.serviceName, span.environment⟩ = some rate := by
    rw [DefaultSamplingRule.getSamplingRate_fst]
    cases rule.sampleRates.tryGetValue ⟨span.serviceName, span.environment⟩ with
    | none => simp [Ne.symm hrate]
    | some r => simp
  rw [hvalue, setDefaultSampleRates_eq_some h]
  simp [hrate]

omit [DecidableEq Rate] in
theorem agentRate_eq_some {span : Span} {rate : Rate} (hrate : rate ≠ 1) :
    agentRate sampleRates span = rate ↔
      ∃ service env, span.serviceName = some service ∧ span.environment = some env ∧
        sampleRates.tryGetValue (agentKey service env) = some rate := by
  unfold agentRate
  split
  · rename_i service env hs he
    cases h : sampleRates.tryGetValue (agentKey service env) with
    | none => simp [hs, he, h, Ne.symm hrate]
    | some r => simp [hs, he, h]
  · rename_i hnone
    constructor
    · exact fun h => absurd h.symm hrate
    · rintro ⟨service, env, hs, he, -⟩
      exact absurd he (hnone service env hs)

/-- Two rates are equal if they are the same whenever one is not the default. -/
theorem eq_of_ne_one {a b : Rate} (h : ∀ rate ≠ 1, a = rate ↔ b = rate) : a = b := by
  by_cases ha : a = 1
  · by_contra hab
    exact hab ((h b (fun hb => hab (ha.trans hb.symm))).2 rfl)
  · exact ((h a ha).1 rfl).symm

theorem Expected.getSamplingRate_eq (h : Expected sampleRates) {rule : DefaultSamplingRule Rate}
    (hset : DefaultSamplingRule.setDefaultSampleRates (some sampleRates.pairs) = some rule)
    (span : Span) : (rule.getSamplingRate span).1 = agentRate sampleRates span := by
  apply eq_of_ne_one
  intro rate hrate
  rw [getSamplingRate_eq_some hset span hrate, agentRate_eq_some hrate]
  constructor
  · rintro ⟨key, hmem, hparse⟩
    obtain ⟨service, env, rfl⟩ := (h key rate hmem hrate).1 (Option.isSome_of_eq_some hparse)
    obtain ⟨hs, he⟩ := SampleRateKey.not_mem_of_parse (Option.isSome_of_eq_some hparse)
    rw [SampleRateKey.parse_agentKey hs he] at hparse
    injection hparse with hparse
    injection hparse with hs he
    exact ⟨service, env, hs.symm, he.symm, hmem⟩
  · rintro ⟨service, env, hs, he, hmem⟩
    have hsome := (h _ rate hmem hrate).2 ⟨service, env, rfl⟩
    obtain ⟨hs', he'⟩ := SampleRateKey.not_mem_of_parse hsome
    exact ⟨agentKey service env, hmem, by rw [SampleRateKey.parse_agentKey hs' he', hs, he]⟩

/-- If every span gets the rate of its key, then the keys are as expected. -/
theorem expected_of_rates {rule : DefaultSamplingRule Rate}
    (hset : DefaultSamplingRule.setDefaultSampleRates (some sampleRates.pairs) = some rule)
    (h : ∀ span, (rule.getSamplingRate span).1 = agentRate sampleRates span) :
    Expected sampleRates := by
  have hdistinct := setDefaultSampleRates_isSome_iff.1 (Option.isSome_of_eq_some hset)
  have hnames : ∀ service env rate, rate ≠ 1 →
      ((∃ key, sampleRates.tryGetValue key = some rate ∧
        SampleRateKey.parse key = some ⟨some service, some env⟩) ↔
      sampleRates.tryGetValue (agentKey service env) = some rate) := by
    intro service env rate hrate
    have hspan := h ⟨0, some service, none, .commonTags (some env)⟩
    have hleft := getSamplingRate_eq_some hset
      ⟨0, some service, none, .commonTags (some env)⟩ hrate
    rw [hspan, agentRate_eq_some hrate] at hleft
    simpa [Span.environment] using hleft.symm
  intro key rate hmem hrate
  constructor
  · intro hsome
    obtain ⟨k, hk⟩ := Option.isSome_iff_exists.1 hsome
    obtain ⟨service, env, rfl, hs, he⟩ := SampleRateKey.of_parse hk
    have hcanonical := (hnames service env rate hrate).1 ⟨key, hmem, hk⟩
    refine ⟨service, env, hdistinct _ _ _ _ hmem hrate hcanonical hrate hsome ?_⟩
    rw [hk, SampleRateKey.parse_agentKey hs he]
  · rintro ⟨service, env, rfl⟩
    obtain ⟨key', -, hparse⟩ := (hnames service env rate hrate).2 hmem
    obtain ⟨service', env', hk, hs, he⟩ := SampleRateKey.of_parse hparse
    cases hk
    rw [SampleRateKey.parse_agentKey hs he]
    rfl

/-- The rates of the agent are taken over, and every span gets the one for its service and its
environment, exactly if every key with a rate other than 1 is either one of the agent's with
no comma in its names, or neither one of the agent's nor parsed. -/
theorem setDefaultSampleRates_iff (sampleRates : Dictionary Text Rate) :
    (∃ rule, DefaultSamplingRule.setDefaultSampleRates (some sampleRates.pairs) = some rule ∧
      ∀ span, (rule.getSamplingRate span).1 = agentRate sampleRates span) ↔
    ∀ key rate, sampleRates.tryGetValue key = some rate → rate ≠ 1 →
      ((SampleRateKey.parse key).isSome ↔ ∃ service env, key = agentKey service env) := by
  constructor
  · rintro ⟨rule, hset, h⟩
    exact expected_of_rates hset h
  · intro h
    obtain ⟨rule, hset⟩ := Option.isSome_iff_exists.1
      (setDefaultSampleRates_isSome_iff.2 (Expected.distinct h))
    exact ⟨rule, hset, Expected.getSamplingRate_eq h hset⟩

/-- Two keys of one service and environment, the second with other words before its colons: the
second `Add` throws. -/
theorem setDefaultSampleRates_throws :
    ¬∀ sampleRates : Dictionary Text ℚ, ∃ rule,
      DefaultSamplingRule.setDefaultSampleRates (some sampleRates.pairs) = some rule ∧
        ∀ span, (rule.getSamplingRate span).1 = agentRate sampleRates span := by
  intro h
  obtain ⟨rule, hset, -⟩ := h ((∅ : Dictionary Text ℚ).setAll
    [(text "service:a,env:b", 1 / 2), (text "s:a,e:b", 1 / 4)])
  have hdistinct := setDefaultSampleRates_isSome_iff.1 (Option.isSome_of_eq_some hset)
  have hfirst : ((∅ : Dictionary Text ℚ).setAll [(text "service:a,env:b", 1 / 2),
      (text "s:a,e:b", 1 / 4)]).tryGetValue (text "service:a,env:b") = some (1 / 2) := by
    rw [Dictionary.tryGetValue_setAll]
    rfl
  have hsecond : ((∅ : Dictionary Text ℚ).setAll [(text "service:a,env:b", 1 / 2),
      (text "s:a,e:b", 1 / 4)]).tryGetValue (text "s:a,e:b") = some (1 / 4) := by
    rw [Dictionary.tryGetValue_setAll]
    rfl
  have hkeys := hdistinct _ _ _ _ hfirst (by norm_num) hsecond (by norm_num) (by decide)
    (by decide)
  revert hkeys
  decide

end

end DdTrace.Sampling
