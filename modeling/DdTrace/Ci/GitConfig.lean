import Mathlib.Data.List.Basic

/-!
# The reader of `.git/config`

`GetConfigItems` goes through the lines of the file with the section it is in. It appends a
section to the result when the header of the next one comes, so the last section is never
returned, and it reads the first character of every line, so an empty line throws.
-/

namespace DdTrace.Ci

structure ConfigItem where
  type : List Char
  name : Option (List Char)
  url : Option (List Char)
  remote : Option (List Char)
  merge : Option (List Char)
  deriving DecidableEq, Repr

/-- The exception of `line[0]`, `keyValue[0]` and `keyValue[1]`. -/
inductive IndexError where
  | indexOutOfRange
  deriving DecidableEq, Repr

/-! ### `File.ReadAllLines`, `String.Split` and the regular expression -/

/-- The lines of a text, `line` being the part of the current one that has been read. A final
line break does not start another line. -/
def linesFrom (line : List Char) : List Char → List (List Char)
  | [] => if line = [] then [] else [line]
  | '\r' :: '\n' :: text => line :: linesFrom [] text
  | '\r' :: text => line :: linesFrom [] text
  | '\n' :: text => line :: linesFrom [] text
  | c :: text => linesFrom (line ++ [c]) text

def readAllLines (text : List Char) : List (List Char) := linesFrom [] text

/-- `Split` at the separator " = ", `piece` being the part of the current entry that has been
read. -/
def splitFrom (piece : List Char) : List Char → List (List Char)
  | [] => [piece]
  | ' ' :: '=' :: ' ' :: rest => piece :: splitFrom [] rest
  | c :: rest => splitFrom (piece ++ [c]) rest

/-- `Split(" = ", StringSplitOptions.RemoveEmptyEntries)` -/
def splitKeyValue (line : List Char) : List (List Char) :=
  (splitFrom [] line).filter fun entry => !entry.isEmpty

/-- The second group of the regular expression: the longest text before a `"]`. -/
def matchName : List Char → Option (List Char)
  | [] => none
  | c :: rest =>
    match matchName rest with
    | some name => some (c :: name)
    | none =>
      match c :: rest with
      | '"' :: ']' :: _ => some []
      | _ => none

/-- The first group: the longest text before a ` "` that leaves the second group a match. -/
def matchTypeName : List Char → Option (List Char × List Char)
  | [] => none
  | c :: rest =>
    match matchTypeName rest with
    | some (type, name) => some (c :: type, name)
    | none =>
      match c :: rest with
      | ' ' :: '"' :: rest => (matchName rest).map fun name => ([], name)
      | _ => none

/-- The regular expression `^\[(.*) \"(.*)\"\]`, its groups greedy. -/
def matchHeader : List Char → Option (List Char × List Char)
  | '[' :: rest => matchTypeName rest
  | _ => none

/-! ### `GetConfigItems` -/

/-- The value of a key, `keyValue[1]`. -/
def valueAt : List (List Char) → Except IndexError (Option (List Char))
  | [] => .error .indexOutOfRange
  | value :: _ => .ok (some value)

/-- The `switch` on `keyValue[0]`. -/
def setKeyValue (item : ConfigItem) : List (List Char) → Except IndexError ConfigItem
  | [] => .error .indexOutOfRange
  | key :: values =>
    if key = "url".toList then do return { item with url := ← valueAt values }
    else if key = "remote".toList then do return { item with remote := ← valueAt values }
    else if key = "merge".toList then do return { item with merge := ← valueAt values }
    else .ok item

structure Scan where
  lstConfig : List ConfigItem
  currentItem : Option ConfigItem
  deriving DecidableEq, Repr

def scanLine (s : Scan) (line : List Char) : Except IndexError Scan :=
  match line with
  | [] => .error .indexOutOfRange
  | '\t' :: rest =>
    match s.currentItem with
    | some item => do
      let item ← setKeyValue item (splitKeyValue rest)
      return { s with currentItem := some item }
    | none => .ok s
  | line =>
    match matchHeader line with
    | some (type, name) =>
      .ok ⟨s.lstConfig ++ s.currentItem.toList, some ⟨type, some name, none, none, none⟩⟩
    | none => .ok s

/-- `configFile` is the content of the file, if it exists. -/
def getConfigItems (configFile : Option (List Char)) :
    Except IndexError (Option (List ConfigItem)) :=
  match configFile with
  | none => .ok none
  | some text => do
    let s ← (readAllLines text).foldlM scanLine ⟨[], none⟩
    return some s.lstConfig

/-! ### Configurations -/

/-- A section's name is of letters, digits, dashes and dots. -/
structure SectionName where
  text : List Char
  nonempty : text ≠ []
  isNameChar : ∀ c ∈ text, (c.isAlphanum || c == '-' || c == '.') = true
  deriving DecidableEq, Repr

/-- A variable's name starts with a letter and has letters, digits and dashes only. -/
structure Key where
  first : Char
  rest : List Char
  isAlpha : first.isAlpha = true
  isKeyChar : ∀ c ∈ rest, (c.isAlphanum || c == '-') = true
  deriving DecidableEq, Repr

def Key.text (key : Key) : List Char := key.first :: key.rest

/-- White space that indents a line or makes up an empty one. -/
structure Blank where
  text : List Char
  isBlank : ∀ c ∈ text, c = ' ' ∨ c = '\t'
  deriving DecidableEq, Repr

/-- A line of a configuration: white space alone, the header of a section with or without a
sub-section, or a variable with its value. -/
inductive ConfigLine where
  | blank (space : Blank)
  | header (type : SectionName) (name : Option (List Char))
  | entry (indent : Blank) (key : Key) (value : List Char)
  deriving DecidableEq, Repr

/-- A sub-section name as it stands between its quotes. -/
def escape : List Char → List Char
  | [] => []
  | c :: rest => if c = '"' ∨ c = '\\' then '\\' :: c :: escape rest else c :: escape rest

namespace ConfigLine

def text : ConfigLine → List Char
  | blank space => space.text
  | header type none => '[' :: type.text ++ [']']
  | header type (some name) => '[' :: type.text ++ [' ', '"'] ++ escape name ++ ['"', ']']
  | entry indent key value => indent.text ++ key.text ++ [' ', '=', ' '] ++ value

def isHeader : ConfigLine → Bool
  | header .. => true
  | blank _ | entry .. => false

/-- The value a line gives a variable. -/
def valueOf (key : List Char) : ConfigLine → Option (List Char)
  | entry _ k value => if k.text = key then some value else none
  | blank _ | header .. => none

end ConfigLine

/-- The value of a variable in a section: that of its last line. -/
def lastValue (key : List Char) (lines : List ConfigLine) : Option (List Char) :=
  lines.reverse.findSome? (ConfigLine.valueOf key)

def sectionLines (lines : List ConfigLine) : List ConfigLine := lines.takeWhile fun l => !l.isHeader

/-- The items a configuration stands for: one for each section, with its own values. -/
def items : List ConfigLine → List ConfigItem
  | [] => []
  | .header type name :: lines =>
    ⟨type.text, name, lastValue "url".toList (sectionLines lines),
      lastValue "remote".toList (sectionLines lines),
      lastValue "merge".toList (sectionLines lines)⟩ :: items lines
  | .blank _ :: lines | .entry .. :: lines => items lines

theorem length_items (lines : List ConfigLine) :
    (items lines).length = lines.countP ConfigLine.isHeader := by
  induction lines with
  | nil => rfl
  | cons l lines ih =>
    cases l with
    | header type name => simp [items, ih, List.countP_cons, ConfigLine.isHeader]
    | blank space => simpa [items, ConfigLine.isHeader] using ih
    | entry indent key value => simpa [items, ConfigLine.isHeader] using ih

/-! ### What one line does -/

variable {s t : Scan} {line : List Char} {l : ConfigLine} {lines : List ConfigLine}

/-- A line that is read is not empty. It leaves the items alone, or it is a header, which
appends the current one. -/
theorem scanLine_cases (h : scanLine s line = .ok t) :
    line ≠ [] ∧ ((t.lstConfig = s.lstConfig ∧ (t.currentItem = none ↔ s.currentItem = none)) ∨
      (line.head? = some '[' ∧ t.lstConfig = s.lstConfig ++ s.currentItem.toList ∧
        t.currentItem ≠ none)) := by
  unfold scanLine at h
  split at h
  · cases h
  · next rest =>
    refine ⟨by simp, .inl ?_⟩
    split at h
    · next _ item hitem =>
      cases hset : setKeyValue item (splitKeyValue rest) with
      | error e => simp [hset, bind, Except.bind] at h
      | ok item' =>
        simp only [hset, bind, Except.bind, pure, Except.pure, Except.ok.injEq] at h
        rw [← h]
        simp [hitem]
    · next hitem =>
      cases h
      simp
  · next hnil _ =>
    refine ⟨hnil, ?_⟩
    split at h
    · next type name hm =>
      cases h
      refine .inr ⟨?_, rfl, by simp⟩
      unfold matchHeader at hm
      split at hm
      · rfl
      · cases hm
    · cases h
      exact .inl ⟨rfl, Iff.rfl⟩

/-- At most one item for each header so far, the last of them not yet in the list. -/
structure ScanOk (headers : ℕ) (s : Scan) : Prop where
  count : s.lstConfig.length + s.currentItem.toList.length ≤ headers
  noneYet : s.currentItem = none → s.lstConfig = []

theorem Key.first_ne (key : Key) (c : Char) (hc : c.isAlpha = false) : key.first ≠ c := by
  rintro rfl
  rw [key.isAlpha] at hc
  cases hc

theorem ConfigLine.isHeader_of_head (h : l.text.head? = some '[') : l.isHeader = true := by
  cases l with
  | header type name => rfl
  | blank space =>
    have hmem : '[' ∈ space.text := List.mem_of_head? h
    exact absurd (space.isBlank _ hmem) (by decide)
  | entry indent key value =>
    cases hi : indent.text with
    | nil =>
      have hk : key.first = '[' := by simpa [ConfigLine.text, hi, Key.text] using h
      exact absurd hk (key.first_ne _ (by decide))
    | cons c cs =>
      have hc : c = '[' := by simpa [ConfigLine.text, hi] using h
      have hblank := indent.isBlank c (by simp [hi])
      rw [hc] at hblank
      exact absurd hblank (by decide)

theorem ScanOk.scanLine {headers : ℕ} (hs : ScanOk headers s)
    (h : scanLine s l.text = .ok t) : ScanOk (headers + if l.isHeader then 1 else 0) t := by
  obtain ⟨-, ⟨hl, hc⟩ | ⟨hhead, hl, hc⟩⟩ := scanLine_cases h
  · refine ⟨?_, fun hn => by rw [hl]; exact hs.noneYet (hc.1 hn)⟩
    have hlen : t.currentItem.toList.length = s.currentItem.toList.length := by
      cases hcur : s.currentItem with
      | none => rw [hc.2 hcur]
      | some item =>
        cases hcur' : t.currentItem with
        | none => rw [hc.1 hcur'] at hcur; cases hcur
        | some item' => rfl
    have := hs.count
    rw [hl, hlen]
    omega
  · refine ⟨?_, fun hn => absurd hn hc⟩
    have := hs.count
    have hone : t.currentItem.toList.length ≤ 1 := by cases t.currentItem <;> simp
    rw [hl, ConfigLine.isHeader_of_head hhead, List.length_append, if_pos rfl]
    omega

theorem ScanOk.scanLines {headers : ℕ} (hs : ScanOk headers s)
    (h : (lines.map ConfigLine.text).foldlM Ci.scanLine s = .ok t) :
    ScanOk (headers + lines.countP ConfigLine.isHeader) t ∧ ∀ l ∈ lines, l.text ≠ [] := by
  induction lines generalizing s headers with
  | nil =>
    cases h
    exact ⟨hs, by simp⟩
  | cons l lines ih =>
    simp only [List.map_cons, List.foldlM_cons] at h
    cases hl : Ci.scanLine s l.text with
    | error e => simp [hl, bind, Except.bind] at h
    | ok u =>
      simp only [hl, bind, Except.bind] at h
      obtain ⟨hok, hne⟩ := ih (hs.scanLine hl) h
      refine ⟨?_, ?_⟩
      · rw [List.countP_cons]
        have := hok.count
        exact ⟨by omega, hok.noneYet⟩
      · simp only [List.forall_mem_cons]
        exact ⟨(scanLine_cases hl).1, hne⟩

theorem matchTypeName_plain {type : List Char} (h : ∀ c ∈ type, c ≠ ' ') :
    matchTypeName type = none := by
  induction type with
  | nil => rfl
  | cons c type ih =>
    rw [List.forall_mem_cons] at h
    rw [matchTypeName, ih h.2]
    dsimp only
    split
    · next e => exact absurd (List.cons_eq_cons.1 e).1 h.1
    · rfl

theorem SectionName.ne_space (name : SectionName) : ∀ c ∈ name.text, c ≠ ' ' := by
  rintro c hc rfl
  exact absurd (name.isNameChar _ hc) (by decide)

/-- Outside of every section a line changes nothing, if it is not empty and not the header of
a sub-section. -/
theorem scanLine_outside {lstConfig : List ConfigItem}
    (hl : ∀ type name, l ≠ .header type (some name)) (hne : l.text ≠ []) :
    scanLine ⟨lstConfig, none⟩ l.text = .ok ⟨lstConfig, none⟩ := by
  unfold scanLine
  split
  · next h => exact absurd h hne
  · rfl
  · have hm : matchHeader l.text = none := by
      unfold matchHeader
      split
      · next rest h =>
        have hheader := ConfigLine.isHeader_of_head (l := l) (by simp [h])
        match l, hl, hheader, h with
        | .header type none, _, _, h =>
          obtain rfl : type.text ++ [']'] = rest := by simpa [ConfigLine.text] using h
          refine matchTypeName_plain fun c hc => ?_
          obtain hc | hc := List.mem_append.1 hc
          · exact type.ne_space c hc
          · rw [List.mem_singleton.1 hc]
            decide
        | .header type (some name), hl, _, _ => exact absurd rfl (hl type name)
      · rfl
    rw [hm]

theorem scanLines_outside {lstConfig : List ConfigItem}
    (hl : ∀ l ∈ lines, ∀ type name, l ≠ .header type (some name))
    (hne : ∀ l ∈ lines, l.text ≠ []) :
    (lines.map ConfigLine.text).foldlM scanLine ⟨lstConfig, none⟩ = .ok ⟨lstConfig, none⟩ := by
  induction lines with
  | nil => rfl
  | cons l lines ih =>
    rw [List.forall_mem_cons] at hl hne
    rw [List.map_cons, List.foldlM_cons, scanLine_outside hl.1 hne.1]
    exact ih hl.2 hne.2

/-- The items of a configuration are what is returned exactly when the file has no section
and no empty line. -/
theorem getConfigItems_iff (text : List Char) (lines : List ConfigLine)
    (h : readAllLines text = lines.map ConfigLine.text) :
    getConfigItems (some text) = .ok (some (items lines)) ↔
      ∀ l ∈ lines, l.isHeader = false ∧ l.text ≠ [] := by
  simp only [getConfigItems, h]
  constructor
  · intro hr
    cases hscan : (lines.map ConfigLine.text).foldlM scanLine ⟨[], none⟩ with
    | error e => simp [hscan, bind, Except.bind] at hr
    | ok t =>
      have hlst : t.lstConfig = items lines := by
        simpa [hscan, bind, Except.bind, pure, Except.pure] using hr
      have hstart : ScanOk 0 ⟨[], none⟩ := ⟨by simp, fun _ => rfl⟩
      obtain ⟨hok, hne⟩ := hstart.scanLines hscan
      have hcount : lines.countP ConfigLine.isHeader = 0 := by
        have hlen := length_items lines
        rw [← hlst] at hlen
        cases hcur : t.currentItem with
        | none =>
          rw [hok.noneYet hcur] at hlen
          simpa using hlen.symm
        | some item =>
          have := hok.count
          simp only [hcur, Option.toList_some, List.length_singleton] at this
          omega
      intro l hl
      exact ⟨by simpa using List.countP_eq_zero.1 hcount l hl, hne l hl⟩
  · intro hall
    have hitems : items lines = [] := by
      rw [← List.length_eq_zero_iff, length_items, List.countP_eq_zero]
      intro l hl
      simp [(hall l hl).1]
    have hnone : ∀ l ∈ lines, ∀ type name, l ≠ .header type (some name) := by
      rintro l hl type name rfl
      exact absurd (hall _ hl).1 (by simp [ConfigLine.isHeader])
    rw [scanLines_outside hnone fun l hl => (hall l hl).2, hitems]
    rfl

/-! ### Configurations as git writes them -/

/-- A line that git writes from the first sub-section on: the header of a sub-section whose
name needs no escapes, or a variable after one tab with a value that has no separator. -/
def ConfigLine.Written : ConfigLine → Prop
  | blank _ => False
  | header _ none => False
  | header _ (some name) => ∀ c ∈ name, c ≠ '"' ∧ c ≠ '\\'
  | entry indent _ value => indent.text = ['\t'] ∧ value ≠ [] ∧ ¬ [' ', '=', ' '] <:+: value

theorem escape_eq {name : List Char} (h : ∀ c ∈ name, c ≠ '"' ∧ c ≠ '\\') : escape name = name := by
  induction name with
  | nil => rfl
  | cons c name ih =>
    rw [List.forall_mem_cons] at h
    have hc : ¬ (c = '"' ∨ c = '\\') := fun hc => hc.elim h.1.1 h.1.2
    rw [escape, if_neg hc, ih h.2]

theorem matchName_end {name : List Char} (h : ∀ c ∈ name, c ≠ '"' ∧ c ≠ '\\') :
    matchName (name ++ ['"', ']']) = some name := by
  induction name with
  | nil => rfl
  | cons c name ih =>
    rw [List.forall_mem_cons] at h
    rw [List.cons_append, matchName, ih h.2]

/-- A space that ends the name is followed by the closing quote, but not by another. -/
theorem matchTypeName_end {name : List Char} (h : ∀ c ∈ name, c ≠ '"' ∧ c ≠ '\\') :
    matchTypeName (name ++ ['"', ']']) = none := by
  induction name with
  | nil => rfl
  | cons c name ih =>
    rw [List.forall_mem_cons] at h
    rw [List.cons_append, matchTypeName, ih h.2]
    cases name with
    | nil =>
      simp only [List.nil_append]
      split
      · next rest e =>
        obtain rfl : rest = [']'] := by simpa using (List.cons_eq_cons.1 e).2.symm
        rfl
      · rfl
    | cons d name =>
      simp only [List.cons_append]
      split
      · next rest e =>
        have hd : d = '"' := by simpa using congrArg List.head? (List.cons_eq_cons.1 e).2
        exact absurd hd (h.2 d (by simp)).1
      · rfl

theorem matchTypeName_header {type name : List Char} (h : ∀ c ∈ name, c ≠ '"' ∧ c ≠ '\\') :
    matchTypeName (type ++ [' ', '"'] ++ name ++ ['"', ']']) = some (type, name) := by
  induction type with
  | nil =>
    have hquote : matchTypeName ('"' :: (name ++ ['"', ']'])) = none := by
      rw [matchTypeName, matchTypeName_end h]
      rfl
    show matchTypeName (' ' :: '"' :: (name ++ ['"', ']'])) = _
    rw [matchTypeName, hquote]
    simp [matchName_end h]
  | cons c type ih =>
    simp only [List.cons_append, matchTypeName] at ih ⊢
    rw [ih]

theorem splitFrom_key {key : List Char} (h : ∀ c ∈ key, c ≠ ' ') (piece value : List Char) :
    splitFrom piece (key ++ [' ', '=', ' '] ++ value) =
      (piece ++ key) :: splitFrom [] value := by
  induction key generalizing piece with
  | nil => simp [splitFrom]
  | cons c key ih =>
    rw [List.forall_mem_cons] at h
    have hstep : ∀ rest, splitFrom piece (c :: rest) = splitFrom (piece ++ [c]) rest := by
      intro rest
      rw [splitFrom]
      rintro rest' rfl
      exact absurd rfl h.1
    rw [List.cons_append, List.cons_append, hstep, ih h.2]
    simp

theorem splitFrom_value {value : List Char} (h : ¬ [' ', '=', ' '] <:+: value)
    (piece : List Char) : splitFrom piece value = [piece ++ value] := by
  induction value generalizing piece with
  | nil => simp [splitFrom]
  | cons c value ih =>
    have hstep : splitFrom piece (c :: value) = splitFrom (piece ++ [c]) value := by
      rw [splitFrom]
      rintro rest rfl rfl
      exact h ⟨[], rest, rfl⟩
    rw [hstep, ih fun hv => h (hv.trans (List.suffix_cons c value).isInfix)]
    simp

theorem Key.text_ne_space (key : Key) : ∀ c ∈ key.text, c ≠ ' ' := by
  intro c hc
  obtain rfl | hc := List.mem_cons.1 hc
  · exact key.first_ne _ (by decide)
  · rintro rfl
    exact absurd (key.isKeyChar _ hc) (by decide)

theorem splitKeyValue_entry (key : Key) {value : List Char} (hne : value ≠ [])
    (h : ¬ [' ', '=', ' '] <:+: value) :
    splitKeyValue (key.text ++ [' ', '=', ' '] ++ value) = [key.text, value] := by
  rw [splitKeyValue, splitFrom_key key.text_ne_space, splitFrom_value h]
  cases value with
  | nil => exact absurd rfl hne
  | cons c value => rfl

/-- An item after the lines of its section that follow. -/
def ConfigItem.absorb (item : ConfigItem) (lines : List ConfigLine) : ConfigItem :=
  { item with
    url := (lastValue "url".toList (sectionLines lines)).or item.url
    remote := (lastValue "remote".toList (sectionLines lines)).or item.remote
    merge := (lastValue "merge".toList (sectionLines lines)).or item.merge }

theorem lastValue_cons (key : List Char) (l : ConfigLine) (lines : List ConfigLine) :
    lastValue key (l :: lines) = (lastValue key lines).or (l.valueOf key) := by
  simp only [lastValue, List.reverse_cons, List.findSome?_append]
  congr 1
  cases h : l.valueOf key <;> simp [h]

/-- A variable's line sets the field of its key. -/
theorem setKeyValue_absorb (item : ConfigItem) (indent : Blank) (key : Key) (value : List Char)
    (lines : List ConfigLine) :
    ∃ item', setKeyValue item [key.text, value] = .ok item' ∧
      item'.absorb lines = item.absorb (.entry indent key value :: lines) := by
  have hsection : sectionLines (.entry indent key value :: lines) =
      .entry indent key value :: sectionLines lines := rfl
  have hset : ∀ k field, (lastValue k (sectionLines (.entry indent key value :: lines))).or field =
      (lastValue k (sectionLines lines)).or (if key.text = k then some value else field) := by
    intro k field
    rw [hsection, lastValue_cons, Option.or_assoc]
    congr 1
    simp only [ConfigLine.valueOf]
    split <;> rfl
  by_cases hu : key.text = "url".toList
  · refine ⟨{ item with url := some value }, ?_, ?_⟩
    · simp only [setKeyValue, hu, if_true]
      rfl
    · simp only [ConfigItem.absorb, hset, hu]
      rfl
  · by_cases hr : key.text = "remote".toList
    · refine ⟨{ item with remote := some value }, ?_, ?_⟩
      · simp only [setKeyValue, hr]
        rfl
      · simp only [ConfigItem.absorb, hset, hr]
        rfl
    · by_cases hm : key.text = "merge".toList
      · refine ⟨{ item with merge := some value }, ?_, ?_⟩
        · simp only [setKeyValue, hm]
          rfl
        · simp only [ConfigItem.absorb, hset, hm]
          rfl
      · exact ⟨item, by simp only [setKeyValue, hu, hr, hm, if_false],
          by simp only [ConfigItem.absorb, hset, hu, hr, hm, if_false]⟩

theorem scanLine_header (s : Scan) (type : SectionName) {name : List Char}
    (h : ∀ c ∈ name, c ≠ '"' ∧ c ≠ '\\') :
    scanLine s (ConfigLine.header type (some name)).text =
      .ok ⟨s.lstConfig ++ s.currentItem.toList, some ⟨type.text, some name, none, none, none⟩⟩ := by
  have hm : matchHeader (ConfigLine.header type (some name)).text = some (type.text, name) := by
    simp only [ConfigLine.text, escape_eq h]
    exact matchTypeName_header h
  show (match matchHeader (ConfigLine.header type (some name)).text with
    | some (type, name) => Except.ok (Scan.mk (s.lstConfig ++ s.currentItem.toList)
        (some ⟨type, some name, none, none, none⟩))
    | none => .ok s) = _
  rw [hm]

theorem items_header_absorb (type : SectionName) (name : List Char) (lines : List ConfigLine) :
    items (.header type (some name) :: lines) =
      ConfigItem.absorb ⟨type.text, some name, none, none, none⟩ lines :: items lines := by
  simp [items, ConfigItem.absorb]

/-- The items that a scan has and those that are still to come. -/
def expected (currentItem : Option ConfigItem) (lines : List ConfigLine) : List ConfigItem :=
  (currentItem.map (·.absorb lines)).toList ++ items lines

/-- The scan of lines as git writes them ends with the last section as the current one. -/
theorem scanLines_written (hw : ∀ l ∈ lines, l.Written) (s : Scan) :
    (lines.map ConfigLine.text).foldlM scanLine s =
      .ok ⟨s.lstConfig ++ (expected s.currentItem lines).dropLast,
        (expected s.currentItem lines).getLast?⟩ := by
  induction lines generalizing s with
  | nil =>
    obtain ⟨lst, item⟩ := s
    cases item with
    | none => simp [expected, items, pure, Except.pure]
    | some item => simp [expected, items, pure, Except.pure, ConfigItem.absorb, sectionLines, lastValue]
  | cons l lines ih =>
    rw [List.forall_mem_cons] at hw
    obtain ⟨hl, hw⟩ := hw
    rw [List.map_cons, List.foldlM_cons]
    match l, hl with
    | .header type (some name), hl =>
      rw [scanLine_header s type hl]
      show (lines.map ConfigLine.text).foldlM scanLine _ = _
      rw [ih hw]
      have habsorb : (s.currentItem.map (·.absorb (.header type (some name) :: lines))).toList =
          s.currentItem.toList := by
        cases s.currentItem with
        | none => rfl
        | some item => simp [ConfigItem.absorb, sectionLines, lastValue, ConfigLine.isHeader]
      simp [expected, items_header_absorb, habsorb, List.getLast?_cons]
    | .entry indent key value, ⟨hi, hne, hv⟩ =>
      have htext : (ConfigLine.entry indent key value).text =
          '\t' :: (key.text ++ [' ', '=', ' '] ++ value) := by simp [ConfigLine.text, hi]
      obtain ⟨lst, item⟩ := s
      cases item with
      | none =>
        rw [htext]
        exact ih hw _
      | some item =>
        obtain ⟨item', hset, habsorb⟩ := setKeyValue_absorb item indent key value lines
        have hscan : scanLine ⟨lst, some item⟩ (ConfigLine.entry indent key value).text =
            .ok ⟨lst, some item'⟩ := by
          rw [htext]
          simp only [scanLine, splitKeyValue_entry key hne hv, hset]
          rfl
        rw [hscan]
        show (lines.map ConfigLine.text).foldlM scanLine _ = _
        rw [ih hw]
        simp [expected, habsorb, items]

/-- From a file that git wrote, where plain sections come first, every section with a
sub-section is returned, with its values, but the last. -/
theorem getConfigItems_written (text : List Char) (before : List ConfigLine)
    (hbefore : ∀ l ∈ before, l.text ≠ [] ∧ ∀ type name, l ≠ .header type (some name))
    (hw : ∀ l ∈ lines, l.Written)
    (h : readAllLines text = (before ++ lines).map ConfigLine.text) :
    getConfigItems (some text) = .ok (some (items lines).dropLast) := by
  have hfold : (readAllLines text).foldlM scanLine ⟨[], none⟩ =
      .ok ⟨(items lines).dropLast, (items lines).getLast?⟩ := by
    rw [h, List.map_append, List.foldlM_append, scanLines_outside
      (fun l hl => (hbefore l hl).2) (fun l hl => (hbefore l hl).1)]
    exact scanLines_written hw ⟨[], none⟩
  simp only [getConfigItems, hfold]
  rfl

def origin : SectionName := ⟨"remote".toList, by decide, List.all_eq_true.1 (by decide)⟩

def urlKey : Key := ⟨'u', ['r', 'l'], by decide, List.all_eq_true.1 (by decide)⟩

def originConfig : List ConfigLine :=
  [.header origin (some "origin".toList),
   .entry ⟨['\t'], by simp⟩ urlKey "git@host:repo.git".toList]

/-- The only remote of a clone is not returned. -/
theorem getConfigItems_origin :
    ¬ getConfigItems (some (originConfig.flatMap fun l => l.text ++ ['\n'])) =
      .ok (some (items originConfig)) := by
  decide

def core : SectionName := ⟨"core".toList, by decide, List.all_eq_true.1 (by decide)⟩

def branch : SectionName := ⟨"branch".toList, by decide, List.all_eq_true.1 (by decide)⟩

def bareKey : Key := ⟨'b', "are".toList, by decide, List.all_eq_true.1 (by decide)⟩

def remoteKey : Key := ⟨'r', "emote".toList, by decide, List.all_eq_true.1 (by decide)⟩

def mergeKey : Key := ⟨'m', "erge".toList, by decide, List.all_eq_true.1 (by decide)⟩

/-- Variables outside of every section. -/
def outsideConfig : List ConfigLine :=
  [.entry ⟨['\t'], by simp⟩ bareKey "false".toList,
   .blank ⟨[' ', '\t'], by simp⟩,
   .entry ⟨[], by simp⟩ urlKey "a".toList]

/-- The file of a clone with one branch. -/
def cloneConfig : List ConfigLine :=
  [.header core none,
   .entry ⟨['\t'], by simp⟩ bareKey "false".toList,
   .header origin (some "origin".toList),
   .entry ⟨['\t'], by simp⟩ urlKey "git@host:repo.git".toList,
   .header branch (some "master".toList),
   .entry ⟨['\t'], by simp⟩ remoteKey "origin".toList,
   .entry ⟨['\t'], by simp⟩ mergeKey "refs/heads/master".toList]

theorem getConfigItems_iff_clone :
    getConfigItems (some (outsideConfig.flatMap fun l => l.text ++ ['\n'])) =
        .ok (some (items outsideConfig)) ∧
      ¬ getConfigItems (some (cloneConfig.flatMap fun l => l.text ++ ['\n'])) =
        .ok (some (items cloneConfig)) := by
  constructor
  · exact (getConfigItems_iff _ outsideConfig (by decide)).2 (by decide)
  · intro h
    exact absurd ((getConfigItems_iff _ cloneConfig (by decide)).1 h) (by decide)

end DdTrace.Ci
