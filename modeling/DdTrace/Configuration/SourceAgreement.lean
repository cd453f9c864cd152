import DdTrace.Configuration.JsonConfigurationSource

/-!
# One setting in two sources

A JSON document and a source of strings hold the same string for a key. The accessors agree on a
string that is no date, on an integer, on `true` and `false`, on the keys and values of the string
(`agrees_iff`). No string is both an integer and a boolean: for each one some accessor of the
document throws (`exists_not_agrees`).
-/

namespace DdTrace.Configuration

open Lib

inductive Accessor where
  | getString
  | getInt32
  | getBool
  | getDictionary (allowOptionalMappings : Bool)

/-- The property of the document is the string. -/
def JsonConfigurationSource.Holds (source : JsonConfigurationSource) (library : JsonLibrary)
    (key v : Text) : Prop :=
  source.configuration.lookup key = some (parseReadString library v)

def StringConfigurationSource.Holds (source : StringConfigurationSource) (key v : Text) : Prop :=
  source.getString key = some v

/-- The document does not throw and has the same result. Dictionaries are compared by what they
have for each key. -/
def Accessor.Agrees (library : JsonLibrary) (culture : Culture) (json : JsonConfigurationSource)
    (strings : StringConfigurationSource) (key : Text) : Accessor → Prop
  | getString => json.getString library key = .ok (strings.getString key)
  | getInt32 => json.getInt32 library key = .ok (strings.getInt32 key culture)
  | getBool => json.getBool library key = .ok (strings.getBool key)
  | getDictionary allow =>
    (json.getDictionary library key culture allow).map (Option.map Dictionary.tryGetValue)
      = .ok ((strings.getDictionary key allow).map Dictionary.tryGetValue)

/-- The string says that the key has the value. -/
def Says (allowOptionalMappings : Bool) (s key value : Text) : Prop :=
  isBlank s = false ∧ LastValue allowOptionalMappings (some s) key value

/-- The strings that mean the same in both sources. -/
def Accessor.MeansTheSame (library : JsonLibrary) (culture : Culture) (v : Text) : Accessor → Prop
  | getString => tryParseDateTime library v = none
  | getInt32 => ∃ n, tryParseInt32 .invariantInfo v = some n ∧
      tryParseInt32 culture.toNumberFormatInfo v = some n
  | getBool => IsTrueOrFalse v
  | getDictionary allow => ∀ d, tryParseDateTime library v = some d →
      ∀ key value, Says allow (culture.dateText d) key value ↔ Says allow v key value

variable {library : JsonLibrary} {culture : Culture} {json : JsonConfigurationSource}
  {strings : StringConfigurationSource} {key v : Text} {d : DateTime}

/-! ### Dates -/

/-- A date begins with a slash or has a `T` behind ten characters. -/
theorem tryParseDateTime_eq_some (h : tryParseDateTime library v = some d) :
    v[0]? = some (unit '/') ∨ 19 ≤ v.length ∧ v[10]? = some (unit 'T') := by
  rw [tryParseDateTime.eq_def] at h
  split at h
  · cases h
  · split at h
    · rename_i hslash
      rw [beq_iff_eq] at hslash
      exact .inl (congrArg some hslash)
    · split at h
      · rename_i hiso
        exact .inr ⟨hiso.1, hiso.2.2.2⟩
      · cases h

theorem invariantText_ne (h : tryParseDateTime library v = some d) (d' : DateTime) :
    d'.invariantText ≠ v := by
  rintro rfl
  rcases tryParseDateTime_eq_some h with hslash | ⟨-, ht⟩
  · have hdigit : ∀ n : Fin 13, unit '0' + UInt16.ofNat (n / 10 % 10) ≠ unit '/' := by decide
    exact hdigit d'.month (Option.some_inj.1 hslash)
  · exact absurd (Option.some_inj.1 ht) (by decide)

theorem not_date_of_tryParseInt32 {n : Int32} (h : tryParseInt32 .invariantInfo v = some n) :
    tryParseDateTime library v = none := by
  have hnumber := isNumberCharacter_of_tryParseInt32 h
  rw [Option.eq_none_iff_forall_ne_some]
  intro d hd
  rcases tryParseDateTime_eq_some hd with hslash | ⟨-, ht⟩
  · exact absurd (hnumber _ (List.mem_of_getElem? hslash)) (by decide)
  · exact absurd (hnumber _ (List.mem_of_getElem? ht)) (by decide)

theorem not_date_of_isTrueOrFalse (h : IsTrueOrFalse v) : tryParseDateTime library v = none := by
  have hword : ∀ letters : Text, letters.length ≤ 5 →
      (letters.map toLowerAscii)[0]? ≠ some (unit '/') → equalsIgnoreCase v letters = true →
      tryParseDateTime library v = none := by
    intro letters hlen hslash heq
    rw [equalsIgnoreCase, beq_iff_eq] at heq
    have hlength := congrArg List.length heq
    rw [List.length_map, List.length_map] at hlength
    rw [Option.eq_none_iff_forall_ne_some]
    intro d hd
    rcases tryParseDateTime_eq_some hd with hd | ⟨hlong, -⟩
    · apply hslash
      rw [← heq, List.getElem?_map, hd]
      rfl
    · omega
  rcases h with h | h
  · exact hword _ (by decide) (by decide) h
  · exact hword _ (by decide) (by decide) h

/-! ### Dictionaries -/

theorem tryGetValue_parse (allow : Bool) (s : Text) : ∃ d : Dictionary Text Text,
    parseCustomKeyValues (some s) allow = some d ∧
      ∀ key value, d.tryGetValue key = some value ↔ Says allow s key value := by
  rw [parseCustomKeyValues]
  by_cases hs : isBlank s = true
  · rw [if_pos hs]
    refine ⟨∅, rfl, fun key value => ?_⟩
    rw [Says, hs]
    exact iff_of_false (fun h => by cases h) (by simp)
  · rw [if_neg hs]
    refine ⟨_, rfl, fun key value => ?_⟩
    rw [tryGetValue_foldl_addEntry, Says, LastValue]
    simp [hs]

theorem tryGetValue_parse_eq_iff (allow : Bool) (s t : Text) :
    (parseCustomKeyValues (some s) allow).map Dictionary.tryGetValue
        = (parseCustomKeyValues (some t) allow).map Dictionary.tryGetValue ↔
      ∀ key value, Says allow s key value ↔ Says allow t key value := by
  obtain ⟨ds, hs, hread⟩ := tryGetValue_parse allow s
  obtain ⟨dt, ht, htays⟩ := tryGetValue_parse allow t
  rw [hs, ht, Option.map_some, Option.map_some, Option.some_inj]
  constructor
  · intro heq key value
    rw [← hread, ← htays, heq]
  · intro heq
    funext key
    apply Option.ext
    intro value
    rw [hread, htays, heq]

/-! ### The accessors -/

theorem getValue_of_holds {α : Type} {changeType : JToken → Except SettingFailure α}
    (hkey : IsPlainName key) (hjson : json.Holds library key v) :
    json.getValue library key changeType = (parseReadString library v).value changeType := by
  rw [JsonConfigurationSource.getValue, selectToken_plain library _ hkey, hjson]
  rfl

theorem value_parseReadString {α : Type} (changeType : JToken → Except SettingFailure α)
    (v : Text) :
    (parseReadString library v).value changeType
      = (changeType (parseReadString library v)).map some := by
  rw [parseReadString]
  split
  · rfl
  · rfl

theorem getDictionary_of_holds (hkey : IsPlainName key) (hjson : json.Holds library key v)
    (allow : Bool) : json.getDictionary library key culture allow
      = .ok (parseCustomKeyValues
          (some ((parseReadString library v).currentText library culture)) allow) := by
  rw [JsonConfigurationSource.getDictionary, selectToken_plain library _ hkey, hjson,
    parseReadString]
  split
  · rfl
  · rfl

theorem getString_agrees_iff (hkey : IsPlainName key) (hjson : json.Holds library key v)
    (hstrings : strings.Holds key v) :
    Accessor.getString.Agrees library culture json strings key ↔
      tryParseDateTime library v = none := by
  rw [Accessor.Agrees, JsonConfigurationSource.getString, getValue_of_holds hkey hjson, hstrings,
    value_parseReadString, parseReadString]
  cases hdate : tryParseDateTime library v with
  | none => exact iff_of_true rfl rfl
  | some d =>
    refine iff_of_false (fun h => ?_) nofun
    cases h
    exact invariantText_ne hdate d rfl

theorem getInt32_agrees_iff (hkey : IsPlainName key) (hjson : json.Holds library key v)
    (hstrings : strings.Holds key v) :
    Accessor.getInt32.Agrees library culture json strings key ↔
      ∃ n, tryParseInt32 .invariantInfo v = some n ∧
        tryParseInt32 culture.toNumberFormatInfo v = some n := by
  rw [Accessor.Agrees, JsonConfigurationSource.getInt32, getValue_of_holds hkey hjson,
    StringConfigurationSource.getInt32, hstrings, Option.bind_some, value_parseReadString,
    parseReadString]
  cases hdate : tryParseDateTime library v with
  | none =>
    have hsome : ∀ n, tryParseInt32 .invariantInfo v = some n ↔ parseInt32 .invariantInfo v = .ok n :=
      fun n => tryParseInt32_eq_some
    simp only [hsome]
    dsimp only [JToken.toInt32]
    cases parseInt32 .invariantInfo v with
    | error e => exact iff_of_false nofun (by rintro ⟨n, hn, -⟩; cases hn)
    | ok n =>
      constructor
      · intro h
        exact ⟨n, rfl, (Except.ok.inj h).symm⟩
      · rintro ⟨m, hm, hread⟩
        cases hm
        exact congrArg Except.ok hread.symm
  | some d =>
    refine iff_of_false nofun ?_
    rintro ⟨n, hn, -⟩
    rw [not_date_of_tryParseInt32 hn] at hdate
    cases hdate

theorem getBool_agrees_iff (hkey : IsPlainName key) (hjson : json.Holds library key v)
    (hstrings : strings.Holds key v) :
    Accessor.getBool.Agrees library culture json strings key ↔ IsTrueOrFalse v := by
  rw [Accessor.Agrees, JsonConfigurationSource.getBool, getValue_of_holds hkey hjson,
    StringConfigurationSource.getBool, hstrings, Option.bind_some, value_parseReadString,
    parseReadString]
  cases hdate : tryParseDateTime library v with
  | none =>
    rw [← readsBoolean_iff]
    dsimp only [JToken.toBool]
    cases parseBoolean v with
    | error e => exact iff_of_false nofun (by rintro ⟨b, hb, -⟩; cases hb)
    | ok b =>
      constructor
      · intro h
        exact ⟨b, rfl, (Except.ok.inj h).symm⟩
      · rintro ⟨b', hb', hread⟩
        cases hb'
        exact congrArg Except.ok hread.symm
  | some d =>
    refine iff_of_false nofun fun h => ?_
    rw [not_date_of_isTrueOrFalse h] at hdate
    cases hdate

theorem getDictionary_agrees_iff (hkey : IsPlainName key) (hjson : json.Holds library key v)
    (hstrings : strings.Holds key v) (allow : Bool) :
    (Accessor.getDictionary allow).Agrees library culture json strings key ↔
      ∀ d, tryParseDateTime library v = some d →
        ∀ key value, Says allow (culture.dateText d) key value ↔ Says allow v key value := by
  rw [Accessor.Agrees, getDictionary_of_holds hkey hjson, StringConfigurationSource.getDictionary,
    hstrings, parseReadString]
  cases tryParseDateTime library v with
  | none => exact iff_of_true rfl nofun
  | some d =>
    show Except.ok _ = Except.ok _ ↔ _
    rw [Except.ok.injEq]
    dsimp only [JToken.currentText]
    rw [tryGetValue_parse_eq_iff]
    constructor
    · rintro h _ ⟨⟩
      exact h
    · intro h
      exact h d rfl

theorem agrees_iff (culture : Culture) (hkey : IsPlainName key)
    (hjson : json.Holds library key v)
    (hstrings : strings.Holds key v) (a : Accessor) :
    a.Agrees library culture json strings key ↔ a.MeansTheSame library culture v := by
  cases a with
  | getString => exact getString_agrees_iff hkey hjson hstrings
  | getInt32 => exact getInt32_agrees_iff hkey hjson hstrings
  | getBool => exact getBool_agrees_iff hkey hjson hstrings
  | getDictionary allow => exact getDictionary_agrees_iff hkey hjson hstrings allow

/-- No string means the same for every accessor. -/
theorem exists_not_meansTheSame (library : JsonLibrary) (culture : Culture) (v : Text) :
    ∃ a : Accessor, ¬ a.MeansTheSame library culture v := by
  by_cases hint : Accessor.getInt32.MeansTheSame library culture v
  · obtain ⟨n, hn, -⟩ := hint
    exact ⟨.getBool, not_isTrueOrFalse hn⟩
  · exact ⟨.getInt32, hint⟩

/-- An accessor agrees on the strings that mean the same in both sources, and on no others; on
every string some accessor does not. -/
theorem accessors_agree_iff (hkey : IsPlainName key) (hjson : json.Holds library key v)
    (hstrings : strings.Holds key v) :
    (∀ a : Accessor, a.Agrees library culture json strings key ↔
      a.MeansTheSame library culture v) ∧
    ∃ a : Accessor, ¬ a.Agrees library culture json strings key := by
  have hiff := agrees_iff culture hkey hjson hstrings
  obtain ⟨a, ha⟩ := exists_not_meansTheSame library culture v
  exact ⟨hiff, a, fun h => ha ((hiff a).1 h)⟩

/-! ### A port -/

/-- The library, for documents without dates and arrays and for plain names. -/
def JsonLibrary.plain : JsonLibrary where
  scanFilter _ := id
  parseIndexer filters _ rest := .ok (filters, rest)
  isDecimalDigit := isDigit
  tryParseDateTimeMicrosoft _ := none
  tryParseDateTimeIso _ := none
  toDictionary _ := none
  arrayText _ := []

def Culture.invariantCulture : Culture := ⟨.invariantInfo, DateTime.invariantText⟩

def agentPort : Text := text "DD_TRACE_AGENT_PORT"

theorem isPlainName_agentPort : IsPlainName agentPort := by
  have hall : (agentPort.all fun c => !isWhiteSpace c && !(text "[]().").contains c) = true := by
    decide
  refine ⟨by decide, by decide, by decide, fun c hc => ?_⟩
  simpa using List.all_eq_true.1 hall c hc

/-- A document and a source of strings with this port. -/
def portDocument (v : Text) : JsonConfigurationSource := ⟨[(agentPort, .string v)]⟩

def portStrings (v : Text) : StringConfigurationSource :=
  ⟨fun key => if key = agentPort then some v else none⟩

theorem accessors_agree_port :
    Accessor.getInt32.Agrees .plain .invariantCulture (portDocument (text "8126"))
      (portStrings (text "8126")) agentPort := by
  have hjson : (portDocument (text "8126")).Holds .plain agentPort (text "8126") := rfl
  have hstrings : (portStrings (text "8126")).Holds agentPort (text "8126") := rfl
  apply ((accessors_agree_iff isPlainName_agentPort hjson hstrings).1 .getInt32).2
  exact ⟨8126, by decide, by decide⟩

/-- A port that is no number: the document throws, the strings have none. -/
theorem port_throws :
    IsPlainName agentPort ∧ (portDocument (text "abc")).Holds .plain agentPort (text "abc") ∧
      (portStrings (text "abc")).Holds agentPort (text "abc") ∧
      ¬ Accessor.getInt32.Agrees .plain .invariantCulture (portDocument (text "abc"))
        (portStrings (text "abc")) agentPort ∧
      (portDocument (text "abc")).getInt32 .plain agentPort = .error .format ∧
      (portStrings (text "abc")).getInt32 agentPort .invariantCulture = none := by
  have hjson : (portDocument (text "abc")).Holds .plain agentPort (text "abc") := rfl
  have hthrows : (portDocument (text "abc")).getInt32 .plain agentPort = .error .format := by
    rw [JsonConfigurationSource.getInt32, getValue_of_holds isPlainName_agentPort hjson]
    rfl
  have hnone : (portStrings (text "abc")).getInt32 agentPort .invariantCulture = none := by decide
  refine ⟨isPlainName_agentPort, hjson, rfl, ?_, hthrows, hnone⟩
  rw [Accessor.Agrees, hthrows]
  nofun

end DdTrace.Configuration
