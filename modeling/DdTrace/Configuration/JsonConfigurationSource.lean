import DdTrace.Configuration.KeyValues
import DdTrace.Configuration.SettingValues

/-!
# Settings of a JSON document

`JsonConfigurationSource` selects the token of a key by a path of the JSON library (JPath.cs)
and converts it with `Value<T>` (Extensions.cs). The reader makes a date of a string that looks
like one (JsonTextReader.cs, DateTimeUtils.cs). A plain property name selects the value of that
property (`selectToken_plain`).
-/

namespace DdTrace.Configuration

open Lib

/-! ### Tokens -/

structure DateTime where
  year : Fin 10000
  month : Fin 13
  day : Fin 32
  hour : Fin 24
  minute : Fin 60
  second : Fin 60

/-- The last digits of a number, so many. -/
def paddedDigits : ℕ → ℕ → Text
  | 0, _ => []
  | width + 1, n => paddedDigits width (n / 10) ++ [unit '0' + .ofNat (n % 10)]

/-- `ToString` with the invariant culture. -/
def DateTime.invariantText (d : DateTime) : Text :=
  paddedDigits 2 d.month ++ unit '/' :: paddedDigits 2 d.day ++ unit '/' :: paddedDigits 4 d.year ++
    unit ' ' :: paddedDigits 2 d.hour ++ unit ':' :: paddedDigits 2 d.minute ++
    unit ':' :: paddedDigits 2 d.second

example : DateTime.invariantText ⟨2020, 1, 31, 23, 59, 0⟩ = text "01/31/2020 23:59:00" := by decide

/-- The tokens of a document whose numbers are integers of 64 bits. -/
inductive JToken where
  | null
  | string (value : Text)
  | date (value : DateTime)
  | integer (value : Int64)
  | boolean (value : Bool)
  | array (items : List JToken)
  | object (properties : List (Text × JToken))

/-- A filter of a path, on the tokens selected so far. -/
abbrev PathFilter := List JToken → List JToken

/-- What of the JSON library and of the runtime a plain name and a string do not need. -/
structure JsonLibrary where
  /-- `ScanFilter`, behind two dots. -/
  scanFilter : Option Text → PathFilter
  /-- The rest of `ParsePath` from an opening bracket on. -/
  parseIndexer : List PathFilter → Bool → Text → Except SettingFailure (List PathFilter × Text)
  /-- `char.IsDigit` -/
  isDecimalDigit : UInt16 → Bool
  tryParseDateTimeMicrosoft : Text → Option DateTime
  tryParseDateTimeIso : Text → Option DateTime
  /-- `ToObject`, with `none` for an exception. -/
  toDictionary : List (Text × JToken) → Option (Dictionary Text Text)
  /-- The JSON text of an array. -/
  arrayText : List JToken → Text

/-- The current culture. -/
structure Culture extends NumberFormatInfo where
  dateText : DateTime → Text

/-- `DateTimeUtils.TryParseDateTime`, without a format of its own. -/
def tryParseDateTime (library : JsonLibrary) (s : Text) : Option DateTime :=
  match s with
  | [] => none
  | c :: _ =>
    if c == unit '/' then
      if 9 ≤ s.length ∧ text "/Date(" <+: s ∧ text ")/" <:+ s then
        library.tryParseDateTimeMicrosoft s
      else none
    else if 19 ≤ s.length ∧ s.length ≤ 40 ∧ library.isDecimalDigit c ∧ s[10]? = some (unit 'T') then
      library.tryParseDateTimeIso s
    else none

/-- The token of a string in the document. -/
def parseReadString (library : JsonLibrary) (s : Text) : JToken :=
  match tryParseDateTime library s with
  | some d => .date d
  | none => .string s

/-! ### Paths -/

def fieldFilter (name : Option Text) : PathFilter := fun current => current.flatMap fun t =>
  match t with
  | .object properties =>
    match name with
    | some name => (properties.lookup name).toList
    | none => properties.map Prod.snd
  | _ => []

def createPathFilter (library : JsonLibrary) (part : Text) (scan : Bool) : PathFilter :=
  let member := if part = text "*" then none else some part
  if scan then library.scanFilter member else fieldFilter member

def trimEnd (s : Text) : Text := (s.reverse.dropWhile isWhiteSpace).reverse

/-- What `ParsePath` does with its last part. -/
def endPath (library : JsonLibrary) (filters : List PathFilter) (part : Text)
    (scan followingDot atPathEnd : Bool) : Except SettingFailure (List PathFilter) :=
  if part ≠ [] then .ok (filters ++ [createPathFilter library (trimEnd part) scan])
  else if followingDot && atPathEnd then .error (.json (text "Unexpected end while parsing path."))
  else .ok filters

/-- The loop of `ParsePath` outside a query, with the characters of the current part and those
from the current index on. -/
def parsePath (library : JsonLibrary) (filters : List PathFilter) (part : Text)
    (scan followingDot : Bool) : Text → Except SettingFailure (List PathFilter × Text)
  | [] => (endPath library filters part scan followingDot true).map fun filters => (filters, [])
  | c :: rest =>
    let filters' :=
      if part ≠ [] then filters ++ [createPathFilter library part scan] else filters
    let scan' := scan && part == []
    if c == unit '[' || c == unit '(' then library.parseIndexer filters' scan' (c :: rest)
    else if c == unit ']' || c == unit ')' || c == unit ' ' then
      (endPath library filters part scan followingDot false).map fun filters => (filters, c :: rest)
    else if c == unit '.' then
      match rest with
      | [] => parsePath library filters' [] scan' true []
      | d :: rest =>
        if d == unit '.' then parsePath library filters' [] true true rest
        else parsePath library filters' [] scan' true (d :: rest)
    else parsePath library filters (part ++ [c]) scan followingDot rest

def parseRest (library : JsonLibrary) (part rest : Text) :
    Except SettingFailure (List PathFilter) := do
  match ← parsePath library [] part false false rest with
  | (filters, []) => return filters
  | (filters, c :: rest) =>
    if (c :: rest).all (· == unit ' ') then return filters
    else throw (.json (text "Unexpected character while parsing path: " ++ [c]))

/-- `ParseMain` -/
def parseMain (library : JsonLibrary) (expression : Text) :
    Except SettingFailure (List PathFilter) :=
  let part := expression.takeWhile (· == unit ' ')
  match expression.dropWhile (· == unit ' ') with
  | [] => .ok []
  | c :: rest =>
    if c == unit '$' then
      match rest with
      | [] => if expression.length = 1 then .ok [] else .error .indexOutOfRange
      | d :: _ =>
        if d == unit '.' || d == unit '[' then parseRest library [] rest
        else parseRest library part (c :: rest)
    else parseRest library part (c :: rest)

def singleToken : List JToken → Except SettingFailure (Option JToken)
  | [] => .ok none
  | [t] => .ok (some t)
  | _ => .error (.json (text "Path returned multiple tokens."))

def selectToken (library : JsonLibrary) (root : JToken) (path : Text) :
    Except SettingFailure (Option JToken) := do
  singleToken ((← parseMain library path).foldl (fun current filter => filter current) [root])

/-- A name that a path has no marks for. -/
structure IsPlainName (key : Text) : Prop where
  ne_nil : key ≠ []
  ne_star : key ≠ text "*"
  ne_dollar : key ≠ text "$"
  plain : ∀ c ∈ key, isWhiteSpace c = false ∧ c ∉ text "[]()."

theorem parsePath_plain (library : JsonLibrary) (filters : List PathFilter) (part : Text)
    (scan followingDot : Bool) {rest : Text}
    (h : ∀ c ∈ rest, isWhiteSpace c = false ∧ c ∉ text "[]().") :
    parsePath library filters part scan followingDot rest
      = (endPath library filters (part ++ rest) scan followingDot true).map
          fun filters => (filters, []) := by
  induction rest generalizing part with
  | nil => rw [parsePath, List.append_nil]
  | cons c rest ih =>
    obtain ⟨hwhite, hmark⟩ := h c List.mem_cons_self
    have hne : ∀ d ∈ text "[]().", (c == d) = false := by
      intro d hd
      rw [beq_eq_false_iff_ne]
      rintro rfl
      exact hmark hd
    have hspace : (c == unit ' ') = false := by
      rw [beq_eq_false_iff_ne]
      rintro rfl
      cases hwhite
    rw [parsePath.eq_def]
    dsimp only
    rw [hne (unit '[') (by decide), hne (unit '(') (by decide),
      hne (unit ']') (by decide), hne (unit ')') (by decide), hne (unit '.') (by decide), hspace]
    show parsePath library filters (part ++ [c]) scan followingDot rest = _
    rw [ih _ fun d hd => h d (List.mem_cons_of_mem c hd), List.append_assoc, List.singleton_append]

theorem trimEnd_of_forall {s : Text} (h : ∀ c ∈ s, isWhiteSpace c = false) : trimEnd s = s := by
  have hdrop : s.reverse.dropWhile isWhiteSpace = s.reverse := by
    rw [List.dropWhile_eq_self_iff]
    intro hlen
    rw [h _ (List.mem_reverse.1 (List.getElem_mem hlen))]
    exact Bool.false_ne_true
  rw [trimEnd, hdrop, List.reverse_reverse]

theorem parseMain_plain (library : JsonLibrary) {key : Text} (h : IsPlainName key) :
    parseMain library key = .ok [fieldFilter (some key)] := by
  have hrest : parseRest library [] key = .ok [fieldFilter (some key)] := by
    rw [parseRest, parsePath_plain library [] [] false false h.plain, List.nil_append, endPath,
      if_pos h.ne_nil, trimEnd_of_forall fun c hc => (h.plain c hc).1, createPathFilter,
      if_neg h.ne_star]
    rfl
  obtain ⟨c, rest, rfl⟩ := List.exists_cons_of_ne_nil h.ne_nil
  have hspace : (c == unit ' ') = false := by
    rw [beq_eq_false_iff_ne]
    rintro rfl
    exact absurd (h.plain _ List.mem_cons_self).1 (by decide)
  rw [parseMain, List.dropWhile_cons_of_neg (by simp [hspace]),
    List.takeWhile_cons_of_neg (by simp [hspace])]
  dsimp only
  split
  · rename_i hdollar
    cases rest with
    | nil => exact absurd (by rw [beq_iff_eq.1 hdollar]; rfl) h.ne_dollar
    | cons d rest =>
      have hd := (h.plain d (List.mem_cons_of_mem c List.mem_cons_self)).2
      dsimp only
      rw [if_neg, hrest]
      rw [Bool.or_eq_true, beq_iff_eq, beq_iff_eq]
      rintro (rfl | rfl)
      · exact hd (by decide)
      · exact hd (by decide)
  · exact hrest

/-- A plain property name selects the property's value. -/
theorem selectToken_plain (library : JsonLibrary) (properties : List (Text × JToken)) {key : Text}
    (h : IsPlainName key) :
    selectToken library (.object properties) key = .ok (properties.lookup key) := by
  rw [selectToken, parseMain_plain library h]
  have hfilter : fieldFilter (some key) [.object properties] = (properties.lookup key).toList :=
    List.flatMap_singleton ..
  show singleToken (fieldFilter (some key) [.object properties]) = _
  rw [hfilter]
  cases properties.lookup key with
  | none => rfl
  | some t => rfl

/-! ### Accessors -/

/-- `Value<T>`, for a `T` that has a null, with the conversion to `T`. -/
def JToken.value {α : Type} (changeType : JToken → Except SettingFailure α) :
    JToken → Except SettingFailure (Option α)
  | .null => .ok none
  | .array _ => .error .invalidCast
  | .object _ => .error .invalidCast
  | t => (changeType t).map some

def trueOrFalseString (b : Bool) : Text := if b then text "True" else text "False"

def JToken.toStringInvariant : JToken → Except SettingFailure Text
  | .string value => .ok value
  | .date value => .ok value.invariantText
  | .integer value => .ok (text (toString value))
  | .boolean value => .ok (trueOrFalseString value)
  | _ => .error .invalidCast

def JToken.toInt32 : JToken → Except SettingFailure Int32
  | .string value => parseInt32 .invariantInfo value
  | .integer value =>
    if -2 ^ 31 ≤ value.toInt ∧ value.toInt < 2 ^ 31 then .ok (.ofInt value.toInt)
    else .error .overflow
  | .boolean value => .ok (if value then 1 else 0)
  | _ => .error .invalidCast

def JToken.toBool : JToken → Except SettingFailure Bool
  | .string value => parseBoolean value
  | .integer value => .ok (value != 0)
  | .boolean value => .ok value
  | _ => .error .invalidCast

/-- `token.ToString()` of a token that is no object. -/
def JToken.currentText (library : JsonLibrary) (culture : Culture) : JToken → Text
  | .string value => value
  | .date value => culture.dateText value
  | .integer value =>
    if value.toInt < 0 then culture.negativeSign ++ text (toString value.toInt.natAbs)
    else text (toString value.toInt.natAbs)
  | .boolean value => trueOrFalseString value
  | .array items => library.arrayText items
  | _ => []

structure JsonConfigurationSource where
  configuration : List (Text × JToken)

namespace JsonConfigurationSource

variable (source : JsonConfigurationSource) (library : JsonLibrary) (key : Text)

def getValue {α : Type} (changeType : JToken → Except SettingFailure α) :
    Except SettingFailure (Option α) := do
  match ← selectToken library (.object source.configuration) key with
  | none => return none
  | some token => token.value changeType

def getString : Except SettingFailure (Option Text) :=
  source.getValue library key JToken.toStringInvariant

def getInt32 : Except SettingFailure (Option Int32) := source.getValue library key JToken.toInt32

def getBool : Except SettingFailure (Option Bool) := source.getValue library key JToken.toBool

def getDictionary (culture : Culture) (allowOptionalMappings : Bool) :
    Except SettingFailure (Option (Dictionary Text Text)) := do
  match ← selectToken library (.object source.configuration) key with
  | none => return none
  | some (.object properties) => return library.toDictionary properties
  | some token =>
    return parseCustomKeyValues (some (token.currentText library culture)) allowOptionalMappings

end JsonConfigurationSource

namespace StringConfigurationSource

variable (source : StringConfigurationSource) (key : Text)

def getInt32 (culture : Culture) : Option Int32 :=
  (source.getString key).bind (tryParseInt32 culture.toNumberFormatInfo)

def getBool : Option Bool := (source.getString key).bind toBoolean

end StringConfigurationSource

end DdTrace.Configuration
