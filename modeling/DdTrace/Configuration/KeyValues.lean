import DdTrace.Lib.Dictionary
import DdTrace.Lib.Segments
import DdTrace.Lib.Text
import Mathlib.Data.List.Induction

/-!
# Settings of keys and values

`ParseCustomKeyValues` reads the entries `key:value` of a string into a dictionary of what stands
around the colons (StringConfigurationSource.cs). The constructor of `TracerSettings` trims the
keys and the values into a second one, for the tags, the header tags and the service names
(TracerSettings.cs). `LastValue` says which value a key has in the string.
-/

namespace DdTrace.Configuration

open Lib

/-! ### The first dictionary -/

/-- One pass of the loop over the entries. -/
def addEntry (allowOptionalMappings : Bool) (dictionary : Dictionary Text Text) (e : Text) :
    Dictionary Text Text :=
  match e.splitOn (unit ':') with
  | [key] => if allowOptionalMappings then dictionary.set key [] else dictionary
  | [key, value] => dictionary.set key value
  | _ => dictionary

def parseCustomKeyValues (data : Option Text) (allowOptionalMappings : Bool) :
    Option (Dictionary Text Text) :=
  match data with
  | none => none
  | some data =>
    if isBlank data then some ∅
    else some ((data.splitOn (unit ',')).foldl (addEntry allowOptionalMappings) ∅)

/-- A source of settings that are strings. -/
structure StringConfigurationSource where
  getString : Text → Option Text

def StringConfigurationSource.getDictionary (source : StringConfigurationSource) (key : Text)
    (allowOptionalMappings : Bool) : Option (Dictionary Text Text) :=
  parseCustomKeyValues (source.getString key) allowOptionalMappings

/-! ### The second dictionary -/

/-- What depends on the runtime: its version of Unicode, and the order in which a dictionary is
enumerated. -/
structure Runtime where
  isLetter : UInt16 → Bool
  toLowerInvariant : Text → Text
  enumerate : Dictionary Text Text → List (Text × Text)
  enumerate_perm : ∀ d, (enumerate d).Perm d.pairs

/-- The characters that a tag name keeps. -/
def isTagCharacter (c : UInt16) : Bool :=
  (unit 'a' ≤ c && c ≤ unit 'z') || (unit '0' ≤ c && c ≤ unit '9') || c == unit '_' ||
    c == unit ':' || c == unit '/' || c == unit '-'

def tryConvertToNormalizedHeaderTagName (runtime : Runtime) (value : Text) : Option Text :=
  if h : isBlank value then none
  else
    let trimmedValue := trim value
    if !runtime.isLetter (trimmedValue.head (trim_ne_nil h)) || trimmedValue.length > 200 then
      none
    else some ((runtime.toLowerInvariant trimmedValue).map fun c =>
      if isTagCharacter c then c else unit '_')

/-- `Where(…)` and `ToDictionary(…)` of the tags and of the service names, with `none` for the
exception at a key that is met twice. -/
def trimKeyValues (runtime : Runtime) (keyValues : Dictionary Text Text) :
    Option (Dictionary Text Text) :=
  Dictionary.addAll ∅ (((runtime.enumerate keyValues).filter fun kvp =>
    !isBlank kvp.1 && !isBlank kvp.2).map fun kvp => (trim kvp.1, trim kvp.2))

/-- The same behind `?.`, where there may be no dictionary. -/
def trimMappings (runtime : Runtime) :
    Option (Dictionary Text Text) → Option (Option (Dictionary Text Text))
  | none => some none
  | some mappings => (trimKeyValues runtime mappings).map some

/-- One pass of the loop of `InitializeHeaderTags`. -/
def addHeaderTag (runtime : Runtime) (headerTags : Dictionary Text Text) (kvp : Text × Text) :
    Option (Dictionary Text Text) :=
  if !isBlank kvp.1 && isBlank kvp.2 then headerTags.add (trim kvp.1) []
  else if !isBlank kvp.1 then
    match tryConvertToNormalizedHeaderTagName runtime kvp.2 with
    | some result => headerTags.add (trim kvp.1) result
    | none => some headerTags
  else some headerTags

def initializeHeaderTags (runtime : Runtime) (configurationDictionary : Dictionary Text Text) :
    Option (Dictionary Text Text) :=
  (runtime.enumerate configurationDictionary).foldlM (addHeaderTag runtime) ∅

structure ServiceNames where
  mappings : Option (Dictionary Text Text)

def ServiceNames.new (mappings : Option (Dictionary Text Text)) : ServiceNames :=
  ⟨mappings.filter fun mappings => mappings.keys.length > 0⟩

/-- The settings that are dictionaries. -/
structure TracerSettings where
  globalTags : Dictionary Text Text
  headerTags : Dictionary Text Text
  serviceNameMappings : ServiceNames

/-- The constructor, with `none` for an exception. -/
def TracerSettings.new (runtime : Runtime) (source : Option StringConfigurationSource) :
    Option TracerSettings := do
  let globalTags :=
    ((source.bind fun source => source.getDictionary (text "DD_TAGS") false).or
      (source.bind fun source => source.getDictionary (text "DD_TRACE_GLOBAL_TAGS") false)).getD ∅
  let globalTags ← trimKeyValues runtime globalTags
  let inputHeaderTags :=
    (source.bind fun source => source.getDictionary (text "DD_TRACE_HEADER_TAGS") true).getD ∅
  let headerTags ← initializeHeaderTags runtime inputHeaderTags
  let serviceNameMappings ← trimMappings runtime
    (source.bind fun source => source.getDictionary (text "DD_TRACE_SERVICE_MAPPING") false)
  return ⟨globalTags, headerTags, .new serviceNameMappings⟩

/-! ### What a string says -/

/-- The entry has a key and a value. Where mappings are optional, a key alone has no value. -/
inductive Entry (allowOptionalMappings : Bool) : Text → Text → Text → Prop where
  | pair {key value : Text} (hkey : unit ':' ∉ key) (hvalue : unit ':' ∉ value) :
      Entry allowOptionalMappings (key ++ unit ':' :: value) key value
  | key {key : Text} (hallow : allowOptionalMappings = true) (hkey : unit ':' ∉ key) :
      Entry allowOptionalMappings key key []

/-- The last of the entries with this key has this value. -/
def LastEntry (allowOptionalMappings : Bool) (entries : List Text) (key value : Text) : Prop :=
  ∃ before e after, entries = before ++ e :: after ∧ Entry allowOptionalMappings e key value ∧
    ∀ e' ∈ after, ∀ value', ¬Entry allowOptionalMappings e' key value'

/-- The value that the key has in the string, with what stands around both. -/
def LastValue (allowOptionalMappings : Bool) (data : Option Text) (key value : Text) : Prop :=
  ∃ s, data = some s ∧ LastEntry allowOptionalMappings (s.splitOn (unit ',')) key value

variable {allow : Bool} {e k v t w : Text} {es : List Text} {d : Dictionary Text Text}

theorem entry_iff : Entry allow e k v ↔
    e.splitOn (unit ':') = [k, v] ∨ allow = true ∧ e.splitOn (unit ':') = [k] ∧ v = [] := by
  have hsingle : ∀ {e k : Text}, e.splitOn (unit ':') = [k] ↔ unit ':' ∉ k ∧ e = k := by
    intro e k
    rw [splitOn_eq_iff]
    simp
  constructor
  · rintro (⟨hk, hv⟩ | ⟨hallow, hk⟩)
    · exact .inl (splitOn_eq_two.2 ⟨hk, hv, rfl⟩)
    · exact .inr ⟨hallow, hsingle.2 ⟨hk, rfl⟩, rfl⟩
  · rintro (h | ⟨hallow, h, rfl⟩)
    · obtain ⟨hk, hv, rfl⟩ := splitOn_eq_two.1 h
      exact .pair hk hv
    · obtain ⟨hk, rfl⟩ := hsingle.1 h
      exact .key hallow hk

theorem lastEntry_append_singleton : LastEntry allow (es ++ [e]) k v ↔
    Entry allow e k v ∨ (∀ v', ¬Entry allow e k v') ∧ LastEntry allow es k v := by
  constructor
  · rintro ⟨before, e', after, heq, hentry, hafter⟩
    rcases List.eq_nil_or_concat after with rfl | ⟨after, last, rfl⟩
    · obtain ⟨-, hlast⟩ := List.append_inj' heq rfl
      cases hlast
      exact .inl hentry
    · rw [List.concat_eq_append, ← List.cons_append, ← List.append_assoc] at heq
      obtain ⟨hes, hlast⟩ := List.append_inj' heq rfl
      cases hlast
      rw [List.concat_eq_append, List.forall_mem_append] at hafter
      exact .inr ⟨hafter.2 e (List.mem_singleton_self e),
        before, e', after, hes, hentry, hafter.1⟩
  · rintro (hentry | ⟨hnot, before, e', after, rfl, hentry, hafter⟩)
    · exact ⟨es, e, [], rfl, hentry, by simp⟩
    · refine ⟨before, e', after ++ [e], by simp, hentry, ?_⟩
      rw [List.forall_mem_append, List.forall_mem_singleton]
      exact ⟨hafter, hnot⟩

theorem tryGetValue_addEntry : (addEntry allow d e).tryGetValue k = some v ↔
    Entry allow e k v ∨ (∀ v', ¬Entry allow e k v') ∧ d.tryGetValue k = some v := by
  simp only [entry_iff]
  rw [addEntry]
  split
  · rename_i key hkey
    rw [hkey]
    cases allow with
    | false => simp
    | true =>
      rw [if_pos rfl, Dictionary.tryGetValue_set]
      by_cases h : k = key
      · subst h
        simp [eq_comm]
      · simp [h, Ne.symm h]
  · rename_i key value hpair
    rw [hpair, Dictionary.tryGetValue_set]
    by_cases h : k = key
    · subst h
      simp
    · simp [h, Ne.symm h]
  · rename_i hone htwo
    have hnone : ∀ v, ¬(e.splitOn (unit ':') = [k, v] ∨
        allow = true ∧ e.splitOn (unit ':') = [k] ∧ v = []) := by
      rintro v (h | ⟨-, h, -⟩)
      · exact htwo _ _ h
      · exact hone _ h
    rw [or_iff_right (hnone v), and_iff_right hnone]

theorem tryGetValue_foldl_addEntry (es : List Text) :
    (es.foldl (addEntry allow) ∅).tryGetValue k = some v ↔ LastEntry allow es k v := by
  induction es using List.reverseRecOn generalizing v with
  | nil =>
    rw [List.foldl_nil, Dictionary.tryGetValue_empty]
    constructor
    · intro h
      cases h
    · rintro ⟨before, e, after, h, -⟩
      simp at h
  | append_singleton es e ih =>
    rw [List.foldl_append, List.foldl_cons, List.foldl_nil, tryGetValue_addEntry, ih,
      lastEntry_append_singleton]

/-- A key of a blank string is blank. -/
theorem isBlank_of_lastValue {s : Text} (hs : isBlank s = true)
    (h : LastValue allow (some s) k v) : isBlank k = true := by
  obtain ⟨_, hsome, before, e, after, hsplit, hentry, -⟩ := h
  cases hsome
  have he : e ∈ s.splitOn (unit ',') := by
    rw [hsplit]
    simp
  have hk : k ∈ e.splitOn (unit ':') := by
    rcases entry_iff.1 hentry with h | ⟨-, h, -⟩
    · rw [h]
      exact List.mem_cons_self
    · rw [h]
      exact List.mem_cons_self
  rw [isBlank, List.all_eq_true] at hs ⊢
  exact fun c hc => hs c (mem_of_mem_splitOn he (mem_of_mem_splitOn hk hc))

/-- What the first dictionary says of a key that is not blank. -/
theorem tryGetValue_parseCustomKeyValues {data : Option Text} (hk : isBlank k = false) :
    ((parseCustomKeyValues data allow).getD ∅).tryGetValue k = some v ↔
      LastValue allow data k v := by
  cases data with
  | none =>
    constructor
    · intro h
      cases h
    · rintro ⟨s, hs, -⟩
      cases hs
  | some s =>
    rw [parseCustomKeyValues]
    by_cases hs : isBlank s = true
    · rw [if_pos hs, Option.getD_some, Dictionary.tryGetValue_empty]
      constructor
      · intro h
        cases h
      · intro h
        rw [isBlank_of_lastValue hs h] at hk
        cases hk
    · rw [if_neg hs, Option.getD_some, tryGetValue_foldl_addEntry]
      simp [LastValue]

/-! ### What the settings keep -/

/-- A tag or a service name is kept under its trimmed key, if neither side is blank. -/
def TrimsTo (k v t w : Text) : Prop :=
  isBlank k = false ∧ isBlank v = false ∧ t = trim k ∧ w = trim v

/-- A header is kept under its trimmed name: without a tag name, or with the normalized one. -/
def NormalizesTo (runtime : Runtime) (k v t w : Text) : Prop :=
  isBlank k = false ∧ t = trim k ∧
    (isBlank v = true ∧ w = [] ∨ tryConvertToNormalizedHeaderTagName runtime v = some w)

/-- No two keys of the string are kept under one name. -/
def KeysStayApart (allow : Bool) (data : Option Text)
    (Keeps : Text → Text → Text → Text → Prop) : Prop :=
  ∀ k v k' v' t w w', LastValue allow data k v → LastValue allow data k' v' →
    Keeps k v t w → Keeps k' v' t w' → k = k'

/-- The dictionary has what is kept of the string, and nothing else. -/
def Holds (d : Dictionary Text Text) (allow : Bool) (data : Option Text)
    (Keeps : Text → Text → Text → Text → Prop) : Prop :=
  ∀ t w, d.tryGetValue t = some w ↔ ∃ k v, LastValue allow data k v ∧ Keeps k v t w

variable {runtime : Runtime} {data : Option Text} {Keeps : Text → Text → Text → Text → Prop}
  {keep : Text × Text → Option (Text × Text)}

/-- The second dictionary, for any way to keep pairs that drops those with a blank key. -/
theorem exists_holds (hkeep : ∀ k v t w, keep (k, v) = some (t, w) ↔ Keeps k v t w)
    (hkey : ∀ k v t w, Keeps k v t w → isBlank k = false)
    (hapart : KeysStayApart allow data Keeps) :
    ∃ d, Dictionary.addAll ∅ ((runtime.enumerate
        ((parseCustomKeyValues data allow).getD ∅)).filterMap keep) = some d ∧
      Holds d allow data Keeps := by
  have hlast : ∀ k v t w, Keeps k v t w →
      (((parseCustomKeyValues data allow).getD ∅).tryGetValue k = some v ↔
        LastValue allow data k v) := by
    intro k v t w hk
    exact tryGetValue_parseCustomKeyValues (hkey k v t w hk)
  have hdictionary : ((parseCustomKeyValues data allow).getD ∅).KeepsApart keep := by
    rintro ⟨k, v⟩ hp ⟨k', v'⟩ hq t w w' hkp hkq
    rw [hkeep] at hkp hkq
    rw [Dictionary.mem_pairs] at hp hq
    have hsame : k = k' := hapart k v k' v' t w w' ((hlast k v t w hkp).1 hp)
      ((hlast k' v' t w' hkq).1 hq) hkp hkq
    subst hsame
    rw [hp] at hq
    cases hq
    rfl
  obtain ⟨d, hadd, hd⟩ := Dictionary.exists_addAll_filterMap (runtime.enumerate_perm _) hdictionary
  refine ⟨d, hadd, ?_⟩
  intro t w
  rw [hd]
  constructor
  · rintro ⟨k, v, hlookup, hk⟩
    rw [hkeep] at hk
    exact ⟨k, v, (hlast k v t w hk).1 hlookup, hk⟩
  · rintro ⟨k, v, hvalue, hk⟩
    exact ⟨k, v, (hlast k v t w hk).2 hvalue, (hkeep k v t w).2 hk⟩

/-! ### Tags and service names -/

def trimPair (kvp : Text × Text) : Option (Text × Text) :=
  if !isBlank kvp.1 && !isBlank kvp.2 then some (trim kvp.1, trim kvp.2) else none

theorem trimPair_eq_some : trimPair (k, v) = some (t, w) ↔ TrimsTo k v t w := by
  rw [trimPair, TrimsTo]
  cases isBlank k <;> cases isBlank v <;> simp [eq_comm]

theorem trimKeyValues_eq (d : Dictionary Text Text) :
    trimKeyValues runtime d = Dictionary.addAll ∅ ((runtime.enumerate d).filterMap trimPair) := by
  rw [trimKeyValues]
  congr 1
  induction runtime.enumerate d with
  | nil => rfl
  | cons kvp l ih =>
    rw [List.filter_cons, List.filterMap_cons, trimPair]
    split
    · rw [List.map_cons, ih]
    · exact ih

theorem exists_trimKeyValues (runtime : Runtime) (hapart : KeysStayApart allow data TrimsTo) :
    ∃ d, trimKeyValues runtime ((parseCustomKeyValues data allow).getD ∅) = some d ∧
      Holds d allow data TrimsTo := by
  rw [trimKeyValues_eq]
  apply exists_holds
  · intro k v t w
    exact trimPair_eq_some
  · intro k v t w hk
    exact hk.1
  · exact hapart

/-! ### Header tags -/

def headerPair (runtime : Runtime) (kvp : Text × Text) : Option (Text × Text) :=
  if !isBlank kvp.1 && isBlank kvp.2 then some (trim kvp.1, [])
  else if !isBlank kvp.1 then
    (tryConvertToNormalizedHeaderTagName runtime kvp.2).map fun result => (trim kvp.1, result)
  else none

theorem headerPair_eq_some :
    headerPair runtime (k, v) = some (t, w) ↔ NormalizesTo runtime k v t w := by
  rw [headerPair, NormalizesTo]
  have hblank : isBlank v = true → tryConvertToNormalizedHeaderTagName runtime v = none :=
    fun h => dif_pos h
  cases hk : isBlank k with
  | true => simp
  | false =>
    cases hv : isBlank v with
    | true => simp [hblank hv, eq_comm]
    | false =>
      cases tryConvertToNormalizedHeaderTagName runtime v with
      | none => simp
      | some result => simp [eq_comm]

/-- The loop adds the pairs that are kept. -/
theorem foldlM_addHeaderTag (l : List (Text × Text)) (headerTags : Dictionary Text Text) :
    l.foldlM (addHeaderTag runtime) headerTags
      = headerTags.addAll (l.filterMap (headerPair runtime)) := by
  induction l generalizing headerTags with
  | nil => rfl
  | cons kvp l ih =>
    rw [List.foldlM_cons, List.filterMap_cons, headerPair, addHeaderTag]
    split
    · exact Option.bind_congr fun headerTags' _ => ih headerTags'
    · split
      · cases tryConvertToNormalizedHeaderTagName runtime kvp.2 with
        | none => exact ih headerTags
        | some result => exact Option.bind_congr fun headerTags' _ => ih headerTags'
      · exact ih headerTags

theorem initializeHeaderTags_eq (d : Dictionary Text Text) : initializeHeaderTags runtime d =
    Dictionary.addAll ∅ ((runtime.enumerate d).filterMap (headerPair runtime)) :=
  foldlM_addHeaderTag _ _

theorem exists_initializeHeaderTags
    (hapart : KeysStayApart allow data (NormalizesTo runtime)) :
    ∃ d, initializeHeaderTags runtime ((parseCustomKeyValues data allow).getD ∅) = some d ∧
      Holds d allow data (NormalizesTo runtime) := by
  rw [initializeHeaderTags_eq]
  apply exists_holds
  · intro k v t w
    exact headerPair_eq_some
  · intro k v t w hk
    exact hk.1
  · exact hapart

/-! ### The settings -/

/-- What the source has for a setting. -/
def setting (source : Option StringConfigurationSource) (key : Text) : Option Text :=
  source.bind fun source => source.getString key

/-- What the source has for the tags, under the present name or the one of the past. -/
def globalTagsSetting (source : Option StringConfigurationSource) : Option Text :=
  (setting source (text "DD_TAGS")).or (setting source (text "DD_TRACE_GLOBAL_TAGS"))

/-- The mappings of the service names, none where there is no dictionary. -/
def ServiceNames.dictionary (serviceNames : ServiceNames) : Dictionary Text Text :=
  serviceNames.mappings.getD ∅

theorem bind_getDictionary (source : Option StringConfigurationSource) (key : Text) :
    (source.bind fun source => source.getDictionary key allow)
      = parseCustomKeyValues (setting source key) allow := by
  cases source <;> rfl

theorem parseCustomKeyValues_or (data data' : Option Text) :
    (parseCustomKeyValues data allow).or (parseCustomKeyValues data' allow)
      = parseCustomKeyValues (data.or data') allow := by
  cases data with
  | none => rfl
  | some s =>
    rw [Option.some_or, parseCustomKeyValues]
    split <;> rfl

theorem tryGetValue_dictionary_new (d : Dictionary Text Text) (t : Text) :
    (ServiceNames.new (some d)).dictionary.tryGetValue t = d.tryGetValue t := by
  rw [ServiceNames.new, ServiceNames.dictionary, Option.filter_some]
  split
  · rfl
  · rename_i hlen
    have hkeys : d.keys = [] := by simpa using hlen
    have hempty : d.tryGetValue t = none := by
      rw [Dictionary.tryGetValue_eq_none, AList.mem_keys, hkeys]
      exact List.not_mem_nil
    exact hempty.symm

theorem exists_serviceNames (runtime : Runtime) (hapart : KeysStayApart allow data TrimsTo) :
    ∃ mappings, trimMappings runtime (parseCustomKeyValues data allow) = some mappings ∧
      Holds (ServiceNames.new mappings).dictionary allow data TrimsTo := by
  cases data with
  | none =>
    refine ⟨none, rfl, ?_⟩
    intro t w
    constructor
    · intro h
      cases h
    · rintro ⟨k, v, ⟨s, hs, -⟩, -⟩
      cases hs
  | some s =>
    obtain ⟨d, hparse⟩ : ∃ d, parseCustomKeyValues (some s) allow = some d := by
      rw [parseCustomKeyValues]
      split
      · exact ⟨_, rfl⟩
      · exact ⟨_, rfl⟩
    obtain ⟨mappings, htrim, hholds⟩ := exists_trimKeyValues runtime hapart
    rw [hparse, Option.getD_some] at htrim
    refine ⟨some mappings, ?_, ?_⟩
    · rw [hparse, trimMappings, htrim, Option.map_some]
    · intro t w
      rw [tryGetValue_dictionary_new]
      exact hholds t w

/-- Nothing collides where every entry begins with the same key. -/
theorem keysStayApart_of_one_key {s : Text} (key : Text)
    (hkey : ∀ e ∈ s.splitOn (unit ','), (e.splitOn (unit ':')).head? = some key) :
    KeysStayApart allow (some s) Keeps := by
  have heq : ∀ {k v}, LastValue allow (some s) k v → k = key := by
    rintro k v ⟨_, hsome, before, e, after, hsplit, hentry, -⟩
    cases hsome
    have hhead := hkey e (by rw [hsplit]; simp)
    rcases entry_iff.1 hentry with h | ⟨-, h, -⟩
    · rw [h] at hhead
      exact Option.some.inj hhead
    · rw [h] at hhead
      exact Option.some.inj hhead
  intro k v k' v' t w w' h h' _ _
  rw [heq h, heq h']

/-- If no two keys that are kept become one by trimming, the settings are built, and each
dictionary has the keys and the last values of its string, trimmed or normalized. -/
theorem tracerSettings_dictionaries (runtime : Runtime)
    (source : Option StringConfigurationSource)
    (htags : KeysStayApart false (globalTagsSetting source) TrimsTo)
    (hheaders : KeysStayApart true (setting source (text "DD_TRACE_HEADER_TAGS"))
      (NormalizesTo runtime))
    (hmappings : KeysStayApart false (setting source (text "DD_TRACE_SERVICE_MAPPING")) TrimsTo) :
    ∃ settings, TracerSettings.new runtime source = some settings ∧
      Holds settings.globalTags false (globalTagsSetting source) TrimsTo ∧
      Holds settings.headerTags true (setting source (text "DD_TRACE_HEADER_TAGS"))
        (NormalizesTo runtime) ∧
      Holds settings.serviceNameMappings.dictionary false
        (setting source (text "DD_TRACE_SERVICE_MAPPING")) TrimsTo := by
  obtain ⟨globalTags, htrim, hglobal⟩ := exists_trimKeyValues runtime htags
  obtain ⟨headerTags, hinitialize, hheader⟩ := exists_initializeHeaderTags hheaders
  obtain ⟨mappings, htrim', hservice⟩ := exists_serviceNames runtime hmappings
  refine ⟨⟨globalTags, headerTags, .new mappings⟩, ?_, hglobal, hheader, hservice⟩
  simp only [TracerSettings.new, bind_getDictionary, parseCustomKeyValues_or]
  rw [globalTagsSetting] at htrim
  rw [htrim, hinitialize, htrim']
  rfl

/-- A runtime that knows the letters of ASCII, and enumerates the key that was added last first. -/
def asciiRuntime : Runtime where
  isLetter c := (unit 'a' ≤ c && c ≤ unit 'z') || (unit 'A' ≤ c && c ≤ unit 'Z')
  toLowerInvariant s := s.map fun c => if unit 'A' ≤ c && c ≤ unit 'Z' then c + 0x20 else c
  enumerate d := d.pairs
  enumerate_perm d := List.Perm.refl d.pairs

/-- A source with one setting for each dictionary. -/
def sourceOf (tags headerTags mappings : String) : StringConfigurationSource where
  getString key :=
    if key = text "DD_TAGS" then some (text tags)
    else if key = text "DD_TRACE_HEADER_TAGS" then some (text headerTags)
    else if key = text "DD_TRACE_SERVICE_MAPPING" then some (text mappings)
    else none

theorem tracerSettings_dictionaries_three :
    ∃ settings, TracerSettings.new asciiRuntime
        (some (sourceOf "a :b,a : c" "User-Agent:Agent.1" "sql:db")) = some settings ∧
      Holds settings.globalTags false (some (text "a :b,a : c")) TrimsTo ∧
      Holds settings.headerTags true (some (text "User-Agent:Agent.1"))
        (NormalizesTo asciiRuntime) ∧
      Holds settings.serviceNameMappings.dictionary false (some (text "sql:db")) TrimsTo := by
  apply tracerSettings_dictionaries
  · exact keysStayApart_of_one_key (text "a ") (by decide +kernel)
  · exact keysStayApart_of_one_key (text "User-Agent") (by decide +kernel)
  · exact keysStayApart_of_one_key (text "sql") (by decide +kernel)

/-- A key without a value is not kept as a tag. -/
theorem tag_without_value :
    ¬∀ (runtime : Runtime) (source : Option StringConfigurationSource),
      ∃ settings, TracerSettings.new runtime source = some settings ∧
        ∀ k v, LastValue false (globalTagsSetting source) k v → isBlank k = false →
          settings.globalTags.tryGetValue (trim k) = some (trim v) := by
  intro h
  obtain ⟨settings, hnew, htags⟩ := h asciiRuntime (some (sourceOf "a:" "" ""))
  have hvalue : LastValue false (some (text "a:")) (text "a") [] :=
    ⟨text "a:", rfl, [], text "a:", [], by decide, entry_iff.2 (.inl (by decide)), by simp⟩
  have hempty : TracerSettings.new asciiRuntime (some (sourceOf "a:" "" ""))
      = some ⟨∅, ∅, ⟨none⟩⟩ := rfl
  rw [hempty] at hnew
  cases hnew
  have htag := htags (text "a") [] hvalue (by decide)
  cases htag

end DdTrace.Configuration
