import DdTrace.NativeLoader.DynamicDispatcher

/-!
# What a configuration file is for

`Safe` is what `LoadConfiguration` promises: no read past the end of a line's fields, no
exception, only the well-formed lines have an effect, and the current path is the one from
before. A file is loaded so exactly when its lines fit (`loadConfiguration_safe_iff`).
-/

namespace DdTrace.NativeLoader

open Lib Lib.Throwing

/-! ### Class ids -/

def isHexDigit (c : Char) : Bool :=
  ('0' ≤ c && c ≤ '9') || ('a' ≤ c && c ≤ 'f') || ('A' ≤ c && c ≤ 'F')

def hexValue (c : Char) : ℕ :=
  if '0' ≤ c ∧ c ≤ '9' then c.toNat - '0'.toNat
  else if 'a' ≤ c ∧ c ≤ 'f' then 10 + c.toNat - 'a'.toNat
  else 10 + c.toNat - 'A'.toNat

def hexNumber (digits : List Char) : ℕ := digits.foldl (fun n c => 16 * n + hexValue c) 0

def hexBytes : List Char → List ℕ
  | c :: d :: digits => hexNumber [c, d] :: hexBytes digits
  | _ => []

/-- The GUID of XXXXXXXX-XXXX-XXXX-XXXX-XXXXXXXXXXXX. -/
def guidOf (str : List Char) : Option GUID :=
  match str.splitOn '-' with
  | [a, b, c, d, e] =>
    if [a, b, c, d, e].map List.length = [8, 4, 4, 4, 12] ∧
        (∀ group ∈ [a, b, c, d, e], group.all isHexDigit = true) then
      some ⟨hexNumber a, hexNumber b, hexNumber c, hexBytes (d ++ e)⟩
    else none
  | _ => none

/-- The class id that a text stands for, which may be in braces. -/
def clsidOf (str : List Char) : Option GUID :=
  if str.head? = some '\x7b' ∧ str.getLast? = some '\x7d' then guidOf str.tail.dropLast
  else guidOf str

/-! ### Well-formed lines -/

/-- The instance of a class id: a profiler for the platform whose file is there. -/
def instanceOf (fs : FileSystem) (currentOsArch : List Char) (currentPath : Path)
    (type osArchValue filepathValue : List Char) (clsid : Option GUID) : Option Entry :=
  if osArchValue = currentOsArch then
    (Slot.ofType type).bind fun slot =>
      (fs.absolute currentPath filepathValue).bind fun filepath =>
        if fs.fileExists currentPath filepath = some true then
          clsid.map fun clsid => (slot, ⟨filepath, clsid⟩)
        else none
  else none

/-- The instance that a line asks for, in four fields. -/
def entryOf (fs : FileSystem) (currentOsArch : List Char) (currentPath : Path)
    (line : List Char) : Option Entry :=
  if (trim line).head? = some '#' then none
  else
    match (trim line).splitOn ';' with
    | [type, idValue, osArchValue, filepathValue] =>
      instanceOf fs currentOsArch currentPath type osArchValue filepathValue (clsidOf idValue)
    | _ => none

/-- The instances that the file asks for, in the order of the lines. -/
def entriesOf (fs : FileSystem) (currentOsArch : List Char) (currentPath configFilePath : Path) :
    List Entry :=
  if fs.fileExists currentPath configFilePath = some true then
    match fs.setCurrentPath currentPath (fs.removeFilename configFilePath) with
    | none => []
    | some folder =>
      (linesOf (fs.text currentPath configFilePath)).filterMap (entryOf fs currentOsArch folder)
  else []

/-- The last of the instances for a slot. -/
def lastFor (entries : List Entry) (slot : Slot) : Option DynamicInstanceImpl :=
  (entries.filterMap fun e => if e.1 = slot then some e.2 else none).getLast?

/-- The call returned; the instances are the last ones of their kind, nothing else set an
environment variable, and the current path is back. -/
structure Safe (entries : List Entry) (s : Process) (r : Except LoadError Unit × Process) :
    Prop where
  returns : r.1 = .ok ()
  instances : r.2.instances = lastFor entries
  environment : r.2.environment = s.environment ++ entries.map fun e => (e.1.envKey, e.2.filepath)
  currentPath : r.2.currentPath = s.currentPath

/-! ### Lines that fit -/

/-- A line that is blank after `Trim`, or a comment, or has four fields or more. Of those for a
profiler of the platform, the file is looked for; if it is there, the line has four fields and
the class id has the form of one. -/
def LineFits (fs : FileSystem) (currentOsArch : List Char) (currentPath : Path)
    (line : List Char) : Prop :=
  trim line = [] ∨ (trim line).head? = some '#' ∨
    ∃ type idValue filepathValue osArchValue more,
      (trim line).splitOn ';' = type :: idValue :: osArchValue :: filepathValue :: more ∧
      ((Slot.ofType type).isSome → osArchValue = currentOsArch →
        ∃ filepath, fs.absolute currentPath filepathValue = some filepath ∧
          (fs.fileExists currentPath filepath = some false ∨
            fs.fileExists currentPath filepath = some true ∧ more = [] ∧ (clsidOf idValue).isSome))

/-- The file is not there, or it is in a folder that can be the current path, from which one can
go back, and each of its lines fits. -/
def FileFits (fs : FileSystem) (currentOsArch : List Char) (currentPath configFilePath : Path) :
    Prop :=
  fs.fileExists currentPath configFilePath = some false ∨
    fs.fileExists currentPath configFilePath = some true ∧
      ∃ old folder, fs.getCurrentPath currentPath = some old ∧
        fs.setCurrentPath currentPath (fs.removeFilename configFilePath) = some folder ∧
        (fs.setCurrentPath folder old).isSome ∧
        ∀ line ∈ linesOf (fs.text currentPath configFilePath),
          LineFits fs currentOsArch folder line

variable {fs : FileSystem} {currentOsArch : List Char} {currentPath configFilePath : Path}
  {line : List Char} {lines : List (List Char)} {e : Entry} {s t : Process}

/-! ### One class id -/

theorem parseHexDigit_of_isHexDigit {c : Char} (h : isHexDigit c = true) :
    parseHexDigit c = some (hexValue c) := by
  simp only [isHexDigit, Bool.or_eq_true, Bool.and_eq_true, decide_eq_true_eq] at h
  unfold parseHexDigit hexValue
  split_ifs with h1 h2 h3
  · rfl
  · rfl
  · rfl
  · tauto

/-- The digits of a group, and what stands behind it. -/
theorem parseHex_append {group rest : List Char} {n : ℕ} (hlength : group.length = n)
    (h : group.all isHexDigit = true) : parseHex n (group ++ rest) = some (hexNumber group) := by
  rw [parseHex, List.take_left' hlength, hexNumber]
  clear hlength
  generalize 0 = start
  induction group generalizing start with
  | nil => rfl
  | cons c group ih =>
    rw [List.all_cons, Bool.and_eq_true] at h
    rw [List.foldlM_cons, parseHexDigit_of_isHexDigit h.1, List.foldl_cons]
    exact ih h.2 _

theorem drop_group {group rest : List Char} {n : ℕ} {c : Char} (hlength : group.length = n) :
    (group ++ c :: rest).drop (n + 1) = rest := by
  rw [← hlength, List.drop_length_add_append]
  rfl

theorem parseHex_two {c d : Char} {rest : List Char} (hc : isHexDigit c = true)
    (hd : isHexDigit d = true) : parseHex 2 (c :: d :: rest) = some (hexNumber [c, d]) := by
  have hdigits : [c, d].all isHexDigit = true := by simp [hc, hd]
  exact parseHex_append rfl hdigits

/-- The bytes of a group, which are read from every second digit on. -/
theorem mapM_parseHex (n : ℕ) {digits rest : List Char} (hlength : digits.length = n * 2)
    (h : digits.all isHexDigit = true) :
    (List.range n).mapM (fun i => parseHex 2 ((digits ++ rest).drop (i * 2))) =
      some (hexBytes digits) := by
  induction n generalizing digits with
  | zero =>
    rw [Nat.zero_mul, List.length_eq_zero_iff] at hlength
    subst hlength
    rfl
  | succ n ih =>
    obtain ⟨c, digits, rfl⟩ := List.exists_cons_of_length_eq_add_one (n := n * 2 + 1)
      (by rw [hlength, Nat.succ_mul])
    rw [List.length_cons, Nat.succ_mul] at hlength
    obtain ⟨d, digits, rfl⟩ :=
      List.exists_cons_of_length_eq_add_one (n := n * 2) (Nat.succ.inj hlength)
    simp only [List.all_cons, Bool.and_eq_true] at h
    rw [List.length_cons] at hlength
    have hrest := ih (Nat.succ.inj (Nat.succ.inj hlength)) h.2.2
    have hdrop (i : ℕ) : (c :: d :: (digits ++ rest)).drop ((i + 1) * 2) =
        (digits ++ rest).drop (i * 2) := by
      rw [Nat.succ_mul]
      rfl
    rw [List.range_succ_eq_map, List.mapM_cons, List.mapM_map, Nat.zero_mul, List.drop_zero,
      List.cons_append, List.cons_append, parseHex_two h.1 h.2.1]
    simp only [Function.comp_def, Nat.succ_eq_add_one, hdrop, hrest]
    rfl

/-- A GUID in its form is read as it is meant, whatever stands behind it. -/
theorem makeGuidHelper_of_guidOf {str : List Char} {clsid : GUID} (rest : List Char)
    (h : guidOf str = some clsid) :
    str.length = shortGuidFormLength ∧ makeGuidHelper (str ++ rest) = some clsid := by
  unfold guidOf at h
  split at h
  · rename_i a b c d e hsplit
    split_ifs at h with hform
    cases h
    obtain ⟨hlengths, hdigits⟩ := hform
    simp only [List.map_cons, List.map_nil, List.cons.injEq, and_true] at hlengths
    simp only [List.forall_mem_cons] at hdigits
    obtain ⟨ha, hb, hc, hd, he⟩ := hlengths
    obtain ⟨hadigits, hbdigits, hcdigits, hddigits, hedigits, -⟩ := hdigits
    -- the groups with what stands between them
    have hstr : str = a ++ '-' :: (b ++ '-' :: (c ++ '-' :: (d ++ '-' :: e))) := by
      have hjoin : ['-'].intercalate (str.splitOn '-') = str := List.intercalate_splitOn '-'
      rw [hsplit] at hjoin
      rw [← hjoin]
      simp [List.intercalate, List.intersperse]
    obtain ⟨d₀, d₁, d₂, d₃, rfl⟩ := List.length_eq_four.1 hd
    simp only [List.all_cons, List.all_nil, Bool.and_eq_true, Bool.and_true] at hddigits
    obtain ⟨hd₀, hd₁, hd₂, hd₃⟩ := hddigits
    subst hstr
    constructor
    · simp only [List.length_append, List.length_cons, List.length_nil, ha, hb, hc, he]
      rfl
    · simp only [makeGuidHelper, List.append_assoc, List.cons_append, parseHex_append ha hadigits,
        drop_group ha, parseHex_append hb hbdigits, drop_group hb, parseHex_append hc hcdigits,
        drop_group hc]
      simp [parseHex_two hd₀ hd₁, parseHex_two hd₂ hd₃, mapM_parseHex 6 he hedigits, hexBytes]
  · cases h

/-- The text of a class id is one that is read. -/
theorem makeGuid_of_clsidOf {str : List Char} {clsid : GUID} (h : clsidOf str = some clsid) :
    makeGuid str = some clsid := by
  unfold clsidOf at h
  split_ifs at h with hbraces
  · obtain ⟨hopen, hclose⟩ := hbraces
    obtain ⟨str, rfl⟩ := List.head?_eq_some_iff.1 hopen
    rw [List.tail_cons] at h
    obtain rfl | ⟨digits, c, rfl⟩ := List.eq_nil_or_concat' str
    · cases (makeGuidHelper_of_guidOf [] h).1
    · rw [List.dropLast_concat] at h
      rw [← List.cons_append, List.getLast?_concat, Option.some.injEq] at hclose
      subst hclose
      obtain ⟨hlength, hguid⟩ := makeGuidHelper_of_guidOf ['\x7d'] h
      have hlast : ('\x7b' :: (digits ++ ['\x7d']))[longGuidFormLength - 1]? = some '\x7d' := by
        have hindex : longGuidFormLength - 1 = digits.length + 1 := by
          rw [hlength]
          rfl
        rw [hindex, List.getElem?_cons_succ, List.getElem?_concat_length]
      unfold makeGuid
      rw [if_pos (by rw [List.length_cons, List.length_append, hlength]; rfl),
        if_neg (by rintro (hne | hne); exacts [hne rfl, hne hlast]), List.drop_one, List.tail_cons,
        hguid]
  · obtain ⟨hlength, hguid⟩ := makeGuidHelper_of_guidOf [] h
    rw [List.append_nil] at hguid
    unfold makeGuid
    rw [hlength, if_neg (by decide), if_pos rfl, hguid]

theorem isSome_makeGuid {str : List Char} (h : (clsidOf str).isSome) : (makeGuid str).isSome := by
  obtain ⟨clsid, hclsid⟩ := Option.isSome_iff_exists.1 h
  rw [makeGuid_of_clsidOf hclsid]
  rfl

/-! ### One line -/

theorem readLine_skip (h : trim line = [] ∨ (trim line).head? = some '#') :
    readLine fs currentOsArch currentPath line = .ok none :=
  if_pos h

theorem readLine_fields {type idValue osArchValue filepathValue : List Char}
    {more : List (List Char)} (h : ¬ (trim line = [] ∨ (trim line).head? = some '#'))
    (hsplit : (trim line).splitOn ';' = type :: idValue :: osArchValue :: filepathValue :: more) :
    readLine fs currentOsArch currentPath line =
      readFields fs currentOsArch currentPath type idValue osArchValue filepathValue := by
  unfold readLine
  rw [if_neg h, hsplit]
  rfl

/-- Nothing is asked of the file system for other types and platforms; a class id is only looked
at when the file is there. -/
theorem readFields_eq_ok {type idValue osArchValue filepathValue : List Char} {o : Option Entry} :
    readFields fs currentOsArch currentPath type idValue osArchValue filepathValue = .ok o ↔
      ((Slot.ofType type).isSome → osArchValue = currentOsArch →
        ∃ filepath, fs.absolute currentPath filepathValue = some filepath ∧
          (fs.fileExists currentPath filepath = some false ∨
            fs.fileExists currentPath filepath = some true ∧ (makeGuid idValue).isSome)) ∧
      o = instanceOf fs currentOsArch currentPath type osArchValue filepathValue
        (makeGuid idValue) := by
  unfold readFields instanceOf
  by_cases hos : osArchValue = currentOsArch
  · cases htype : Slot.ofType type with
    | none =>
      simp only [if_pos hos, Option.isSome_none, Bool.false_eq_true, false_imp_iff, true_and,
        Option.bind_none, Except.ok.injEq]
      exact eq_comm
    | some slot =>
      cases hpath : fs.absolute currentPath filepathValue with
      | none => simp [hos, orThrow, bind, Except.bind]
      | some filepath =>
        cases hexists : fs.fileExists currentPath filepath with
        | none => simp [hos, orThrow, bind, Except.bind, hexists]
        | some found =>
          cases found with
          | false =>
            simp [hos, orThrow, bind, Except.bind, hexists]
            exact eq_comm
          | true =>
            cases hguid : makeGuid idValue with
            | none => simp [hos, orThrow, bind, Except.bind, hexists]
            | some clsid =>
              simp [hos, orThrow, bind, Except.bind, hexists]
              exact eq_comm
  · rw [if_neg hos]
    cases Slot.ofType type <;> simp [hos] <;> exact eq_comm

/-- A line that is not skipped and is read has four fields. -/
theorem four_fields {o : Option Entry} (h : ¬ (trim line = [] ∨ (trim line).head? = some '#'))
    (hread : readLine fs currentOsArch currentPath line = .ok o) :
    ∃ type idValue osArchValue filepathValue more,
      (trim line).splitOn ';' = type :: idValue :: osArchValue :: filepathValue :: more := by
  unfold readLine at hread
  rw [if_neg h] at hread
  match hsplit : (trim line).splitOn ';' with
  | type :: idValue :: osArchValue :: filepathValue :: more => exact ⟨_, _, _, _, _, rfl⟩
  | [] | [_] | [_, _] | [_, _, _] =>
    rw [hsplit] at hread
    cases hread

theorem entryOf_skip (h : trim line = [] ∨ (trim line).head? = some '#') :
    entryOf fs currentOsArch currentPath line = none := by
  unfold entryOf
  obtain h | h := h
  · rw [h]
    rfl
  · exact if_pos h

section Instances

variable {type osArchValue filepathValue : List Char} {clsid : Option GUID} {slot : Slot}
  {filepath : Path}

theorem instanceOf_none :
    instanceOf fs currentOsArch currentPath type osArchValue filepathValue none = none := by
  unfold instanceOf
  split
  · rcases Slot.ofType type with _ | slot
    · rfl
    · rw [Option.bind_some]
      rcases fs.absolute currentPath filepathValue with _ | filepath
      · rfl
      · rw [Option.bind_some, Option.map_none, ite_self]
  · rfl

theorem instanceOf_of_not_asked
    (h : ¬ ((Slot.ofType type).isSome ∧ osArchValue = currentOsArch)) :
    instanceOf fs currentOsArch currentPath type osArchValue filepathValue clsid = none := by
  unfold instanceOf
  split
  · rename_i hos
    have hnone : Slot.ofType type = none := by
      rw [← Option.not_isSome_iff_eq_none]
      exact fun htype => h ⟨htype, hos⟩
    rw [hnone, Option.bind_none]
  · rfl

theorem instanceOf_of_not_fileExists (hpath : fs.absolute currentPath filepathValue = some filepath)
    (hfound : fs.fileExists currentPath filepath = some false) :
    instanceOf fs currentOsArch currentPath type osArchValue filepathValue clsid = none := by
  unfold instanceOf
  split
  · rcases Slot.ofType type with _ | slot
    · rfl
    · rw [Option.bind_some, hpath, Option.bind_some, hfound]
      rfl
  · rfl

theorem instanceOf_of_fileExists (hos : osArchValue = currentOsArch)
    (hslot : Slot.ofType type = some slot)
    (hpath : fs.absolute currentPath filepathValue = some filepath)
    (hfound : fs.fileExists currentPath filepath = some true) :
    instanceOf fs currentOsArch currentPath type osArchValue filepathValue clsid =
      clsid.map fun clsid => (slot, ⟨filepath, clsid⟩) := by
  unfold instanceOf
  rw [if_pos hos, hslot, Option.bind_some, hpath, Option.bind_some, if_pos hfound]

end Instances

/-- A line with more than four fields asks for nothing. -/
theorem entryOf_fields {type idValue osArchValue filepathValue : List Char}
    {more : List (List Char)} (h : ¬ (trim line = [] ∨ (trim line).head? = some '#'))
    (hsplit : (trim line).splitOn ';' = type :: idValue :: osArchValue :: filepathValue :: more) :
    entryOf fs currentOsArch currentPath line =
      if more = [] then
        instanceOf fs currentOsArch currentPath type osArchValue filepathValue (clsidOf idValue)
      else none := by
  unfold entryOf
  rw [if_neg fun hcomment => h (.inr hcomment), hsplit]
  cases more with
  | nil => exact (if_pos rfl).symm
  | cons field more => exact (if_neg (List.cons_ne_nil _ _)).symm

/-- A line that fits has the effect of a well-formed line, or none. -/
theorem readLine_of_fits (h : LineFits fs currentOsArch currentPath line) :
    readLine fs currentOsArch currentPath line =
      .ok (entryOf fs currentOsArch currentPath line) := by
  by_cases hskip : trim line = [] ∨ (trim line).head? = some '#'
  · rw [readLine_skip hskip, entryOf_skip hskip]
  · obtain ⟨type, idValue, filepathValue, osArchValue, more, hsplit, hfits⟩ :=
      (h.resolve_left fun h => hskip (.inl h)).resolve_left fun h => hskip (.inr h)
    rw [readLine_fields hskip hsplit, readFields_eq_ok, entryOf_fields hskip hsplit]
    constructor
    · intro htype hos
      obtain ⟨filepath, hpath, hfound⟩ := hfits htype hos
      exact ⟨filepath, hpath, hfound.imp id fun h => ⟨h.1, isSome_makeGuid h.2.2⟩⟩
    · by_cases hasked : (Slot.ofType type).isSome ∧ osArchValue = currentOsArch
      · obtain ⟨filepath, hpath, hfound | ⟨-, hmore, hclsid⟩⟩ := hfits hasked.1 hasked.2
        · -- the file is not there: no matter how many fields there are
          rw [instanceOf_of_not_fileExists hpath hfound, instanceOf_of_not_fileExists hpath hfound,
            ite_self]
        · obtain ⟨clsid, hclsid⟩ := Option.isSome_iff_exists.1 hclsid
          rw [if_pos hmore, hclsid, makeGuid_of_clsidOf hclsid]
      · rw [instanceOf_of_not_asked hasked, instanceOf_of_not_asked hasked, ite_self]

/-- A line that is read and has the effect of a well-formed line, or none, fits. -/
theorem fits_of_readLine
    (h : readLine fs currentOsArch currentPath line =
      .ok (entryOf fs currentOsArch currentPath line)) :
    LineFits fs currentOsArch currentPath line := by
  by_cases hskip : trim line = [] ∨ (trim line).head? = some '#'
  · exact hskip.imp id .inl
  · obtain ⟨type, idValue, osArchValue, filepathValue, more, hsplit⟩ := four_fields hskip h
    rw [readLine_fields hskip hsplit, readFields_eq_ok, entryOf_fields hskip hsplit] at h
    obtain ⟨hreads, heffect⟩ := h
    refine .inr (.inr ⟨type, idValue, filepathValue, osArchValue, more, hsplit, ?_⟩)
    intro htype hos
    obtain ⟨filepath, hpath, hfound | ⟨hfound, hguid⟩⟩ := hreads htype hos
    · exact ⟨filepath, hpath, .inl hfound⟩
    · obtain ⟨slot, hslot⟩ := Option.isSome_iff_exists.1 htype
      obtain ⟨clsid, hclsid⟩ := Option.isSome_iff_exists.1 hguid
      -- the line has an effect, which only a well-formed one has
      simp only [instanceOf_of_fileExists hos hslot hpath hfound, hclsid, Option.map_some]
        at heffect
      refine ⟨filepath, hpath, .inr ⟨hfound, ?_, ?_⟩⟩
      · by_contra hmore
        rw [if_neg hmore] at heffect
        cases heffect
      · cases hmeant : clsidOf idValue with
        | some clsid => rfl
        | none =>
          rw [hmeant, Option.map_none, ite_self] at heffect
          cases heffect

/-- What is read from a line is what a well-formed line asks for, or the line is not one. -/
theorem entryOf_of_readLine {o : Option Entry}
    (h : readLine fs currentOsArch currentPath line = .ok o) :
    entryOf fs currentOsArch currentPath line = o ∨
      entryOf fs currentOsArch currentPath line = none := by
  by_cases hskip : trim line = [] ∨ (trim line).head? = some '#'
  · exact .inr (entryOf_skip hskip)
  · obtain ⟨type, idValue, osArchValue, filepathValue, more, hsplit⟩ := four_fields hskip h
    rw [readLine_fields hskip hsplit, readFields_eq_ok] at h
    rw [entryOf_fields hskip hsplit]
    by_cases hmore : more = []
    · rw [if_pos hmore]
      cases hmeant : clsidOf idValue with
      | none => exact .inr instanceOf_none
      | some clsid =>
        rw [h.2, makeGuid_of_clsidOf hmeant]
        exact .inl rfl
    · exact .inr (if_neg hmore)

/-! ### All lines -/

/-- What the lines that can be read come to. -/
def effects (fs : FileSystem) (currentOsArch : List Char) (currentPath : Path)
    (lines : List (List Char)) : List Entry :=
  lines.filterMap fun line => (readLine fs currentOsArch currentPath line).toOption.join

theorem foldl_currentPath (es : List Entry) (s : Process) (path : Path) :
    es.foldl Process.load { s with currentPath := path } =
      { es.foldl Process.load s with currentPath := path } := by
  induction es generalizing s with
  | nil => rfl
  | cons e es ih => exact ih (s.load e)

theorem environment_foldl (es : List Entry) (s : Process) :
    (es.foldl Process.load s).environment =
      s.environment ++ es.map fun e => (e.1.envKey, e.2.filepath) := by
  induction es generalizing s with
  | nil => rw [List.map_nil, List.append_nil]; rfl
  | cons e es ih =>
    rw [List.foldl_cons, ih, List.map_cons]
    exact List.append_assoc _ [_] _

theorem instances_foldl (es : List Entry) (s : Process) (slot : Slot) :
    (es.foldl Process.load s).instances slot = (lastFor es slot).or (s.instances slot) := by
  induction es generalizing s with
  | nil => rfl
  | cons e es ih =>
    rw [List.foldl_cons, ih]
    unfold lastFor
    rw [List.filterMap_cons]
    by_cases h : slot = e.1
    · subst h
      simp only [if_true, List.getLast?_cons, Process.load]
      cases (es.filterMap fun x => if x.1 = e.1 then some x.2 else none).getLast? <;> rfl
    · have h' : ¬ e.1 = slot := fun heq => h heq.symm
      simp only [if_neg h', Process.load, if_neg h]

theorem runWith_loadLine (s : Process) :
    runWith (loadLine fs currentOsArch line) s =
      match readLine fs currentOsArch s.currentPath line with
      | .error e => (.error e, s)
      | .ok none => (.ok (), s)
      | .ok (some e) => (.ok (), s.load e) := by
  unfold loadLine
  rw [runWith_bind, runWith_get]
  dsimp only
  rcases readLine fs currentOsArch s.currentPath line with e | _ | e <;> rfl

/-- The loop ends without an error exactly when every line can be read. -/
theorem runWith_loadLines :
    runWith (forM lines (loadLine fs currentOsArch)) s = (.ok (), t) ↔
      (∀ line ∈ lines, ∃ o, readLine fs currentOsArch s.currentPath line = .ok o) ∧
        t = (effects fs currentOsArch s.currentPath lines).foldl Process.load s := by
  induction lines generalizing s with
  | nil =>
    simp [effects]
    exact eq_comm
  | cons line lines ih =>
    rw [List.forM_cons, runWith_bind, runWith_loadLine, List.forall_mem_cons]
    unfold effects
    rw [List.filterMap_cons]
    rcases hread : readLine fs currentOsArch s.currentPath line with e | _ | e
    · simp
    · dsimp only
      rw [ih]
      simp [effects, Except.toOption]
    · dsimp only
      rw [ih]
      simp [effects, Except.toOption, Process.load]

/-- Where some of the values are left out, and as many are there, none is left out. -/
theorem eq_of_length_filterMap {α β : Type} {f g : α → Option β} {l : List α}
    (h : ∀ x ∈ l, g x = f x ∨ g x = none)
    (hlen : (l.filterMap f).length ≤ (l.filterMap g).length) : ∀ x ∈ l, g x = f x := by
  have hle : ∀ l : List α, (∀ x ∈ l, g x = f x ∨ g x = none) →
      (l.filterMap g).length ≤ (l.filterMap f).length := by
    intro l hl
    induction l with
    | nil => exact Nat.le_refl _
    | cons x l ih =>
      rw [List.forall_mem_cons] at hl
      have hrest := ih hl.2
      rw [List.filterMap_cons, List.filterMap_cons]
      obtain hx | hx := hl.1
      · rw [hx]
        cases f x with
        | none => exact hrest
        | some y => exact Nat.succ_le_succ hrest
      · rw [hx]
        cases f x with
        | none => exact hrest
        | some y => exact Nat.le_succ_of_le hrest
  induction l with
  | nil =>
    intro x hx
    cases hx
  | cons x l ih =>
    rw [List.forall_mem_cons] at h
    have hrest := hle l h.2
    rw [List.filterMap_cons, List.filterMap_cons] at hlen
    rw [List.forall_mem_cons]
    cases hf : f x with
    | none =>
      have hx : g x = none := h.1.elim (fun h => h.trans hf) id
      rw [hf, hx] at hlen
      exact ⟨hx, ih h.2 hlen⟩
    | some y =>
      obtain hx | hx := h.1
      · rw [hx, hf, List.length_cons, List.length_cons] at hlen
        exact ⟨hx.trans hf, ih h.2 (Nat.le_of_succ_le_succ hlen)⟩
      · rw [hf, hx, List.length_cons] at hlen
        exact absurd (Nat.le_trans hlen hrest) (Nat.not_succ_le_self _)

theorem runWith_changePath (path : Path) (s : Process) :
    runWith (changePath fs path) s =
      match fs.setCurrentPath s.currentPath path with
      | none => (.error .exception, s)
      | some new => (.ok (), { s with currentPath := new }) := by
  unfold changePath
  rw [runWith_bind, runWith_get]
  dsimp only
  cases fs.setCurrentPath s.currentPath path <;> rfl

/-- How a call can return. -/
theorem runWith_loadConfiguration :
    runWith (loadConfiguration fs currentOsArch configFilePath) s = (.ok (), t) ↔
      fs.fileExists s.currentPath configFilePath = some false ∧ t = s ∨
      fs.fileExists s.currentPath configFilePath = some true ∧
        ∃ old folder back, fs.getCurrentPath s.currentPath = some old ∧
          fs.setCurrentPath s.currentPath (fs.removeFilename configFilePath) = some folder ∧
          fs.setCurrentPath folder old = some back ∧
          (∀ line ∈ linesOf (fs.text s.currentPath configFilePath),
            ∃ o, readLine fs currentOsArch folder line = .ok o) ∧
          t = { (effects fs currentOsArch folder
            (linesOf (fs.text s.currentPath configFilePath))).foldl Process.load s with
              currentPath := back } := by
  unfold loadConfiguration
  rw [runWith_bind, runWith_get]
  dsimp only
  rcases fs.fileExists s.currentPath configFilePath with _ | _ | _
  · simp
  · simp
    exact eq_comm
  · rcases fs.getCurrentPath s.currentPath with _ | old
    · simp
    · dsimp only
      rw [runWith_bind, runWith_changePath]
      rcases fs.setCurrentPath s.currentPath (fs.removeFilename configFilePath) with _ | folder
      · simp
      · dsimp only
        rw [runWith_bind_eq_ok]
        constructor
        · rintro ⟨⟨⟩, s₁, hloop, hend⟩
          obtain ⟨hlines, rfl⟩ := runWith_loadLines.1 hloop
          rw [runWith_changePath, foldl_currentPath] at hend
          dsimp only at hend
          cases hback : fs.setCurrentPath folder old with
          | none =>
            rw [hback] at hend
            cases hend
          | some back =>
            rw [hback] at hend
            cases hend
            exact .inr ⟨rfl, old, folder, back, rfl, rfl, hback, hlines, rfl⟩
        · rintro (⟨hfalse, -⟩ | ⟨-, _, _, back, hold, hfolder, hback, hlines, rfl⟩)
          · cases hfalse
          · cases hold
            cases hfolder
            refine ⟨(), _, runWith_loadLines.2 ⟨hlines, rfl⟩, ?_⟩
            rw [runWith_changePath, foldl_currentPath]
            dsimp only
            rw [hback]

theorem entriesOf_folder {folder : Path} (h : fs.fileExists currentPath configFilePath = some true)
    (hfolder : fs.setCurrentPath currentPath (fs.removeFilename configFilePath) = some folder) :
    entriesOf fs currentOsArch currentPath configFilePath =
      (linesOf (fs.text currentPath configFilePath)).filterMap
        (entryOf fs currentOsArch folder) := by
  unfold entriesOf
  rw [if_pos h, hfolder]

/-- A configuration is loaded safely exactly when the file fits. -/
theorem loadConfiguration_safe_iff (fs : FileSystem) (currentOsArch : List Char)
    (configFilePath currentPath : Path) (environment : List (List Char × Path)) :
    Safe (entriesOf fs currentOsArch currentPath configFilePath) (.new currentPath environment)
        (runWith (loadConfiguration fs currentOsArch configFilePath)
          (.new currentPath environment)) ↔
      FileFits fs currentOsArch currentPath configFilePath := by
  constructor
  · intro hsafe
    obtain ⟨t, hrun⟩ : ∃ t, runWith (loadConfiguration fs currentOsArch configFilePath)
        (.new currentPath environment) = (.ok (), t) := ⟨_, Prod.ext hsafe.returns rfl⟩
    rw [hrun] at hsafe
    obtain ⟨hexists, -⟩ | ⟨hexists, old, folder, back, hold, hfolder, hback, hlines, rfl⟩ :=
      runWith_loadConfiguration.1 hrun
    · exact .inl hexists
    · refine .inr ⟨hexists, old, folder, hold, hfolder, by rw [hback]; rfl, ?_⟩
      -- as many variables are set as well-formed lines ask for
      have hlen := congrArg List.length
        (List.append_cancel_left ((environment_foldl _ _).symm.trans hsafe.environment))
      have hentries : entriesOf fs currentOsArch currentPath configFilePath = _ :=
        entriesOf_folder hexists hfolder
      rw [hentries, List.length_map, List.length_map] at hlen
      have hsame := eq_of_length_filterMap (fun line hline => ?_) (Nat.le_of_eq hlen)
      · intro line hline
        obtain ⟨o, ho⟩ := hlines line hline
        have heq := hsame line hline
        rw [ho] at heq
        refine fits_of_readLine (ho.trans ?_)
        rw [heq]
        rfl
      · obtain ⟨o, ho⟩ := hlines line hline
        rw [ho]
        exact entryOf_of_readLine ho
  · rintro (hexists | ⟨hexists, old, folder, hold, hfolder, hback, hfits⟩)
    · rw [runWith_loadConfiguration.2 (.inl ⟨hexists, rfl⟩)]
      have hnone : entriesOf fs currentOsArch currentPath configFilePath = [] := by
        unfold entriesOf
        rw [hexists]
        rfl
      rw [hnone]
      exact ⟨rfl, rfl, (List.append_nil _).symm, rfl⟩
    · obtain ⟨back, hback⟩ := Option.isSome_iff_exists.1 hback
      have hlines := fun line hline => readLine_of_fits (hfits line hline)
      have heffects :
          effects fs currentOsArch folder (linesOf (fs.text currentPath configFilePath)) =
            entriesOf fs currentOsArch currentPath configFilePath := by
        rw [entriesOf_folder hexists hfolder]
        refine List.filterMap_congr fun line hline => ?_
        rw [hlines line hline]
        rfl
      rw [runWith_loadConfiguration.2 (.inr ⟨hexists, old, folder, back, hold, hfolder, hback,
        fun line hline => ⟨_, hlines line hline⟩, rfl⟩)]
      refine ⟨rfl, ?_, ?_, fs.setCurrentPath_getCurrentPath hold hback⟩
      · funext slot
        refine (instances_foldl _ _ _).trans ?_
        rw [← heffects]
        exact Option.or_none
      · rw [← heffects]
        exact environment_foldl _ _

/-- Every file is there, and has the text. -/
def filesWith (text : List Char) : FileSystem where
  fileExists _ _ := some true
  text _ _ := text
  removeFilename _ := "/opt/datadog/".toList
  absolute currentPath path := some (currentPath ++ path)
  getCurrentPath currentPath := some currentPath
  setCurrentPath _ path := some path
  setCurrentPath_getCurrentPath := by
    rintro old path current new hold hnew
    cases hold
    cases hnew
    rfl

/-- A configuration with the text, loaded by a process in `/app/`. -/
def loadText (text : List Char) : Except LoadError Unit × Process :=
  runWith (loadConfiguration (filesWith text) "linux-x64".toList "/opt/datadog/loader.conf".toList)
    (.new "/app/".toList [])

/-- A class id with other characters between its groups. -/
def separatorsText : List Char :=
  "TRACER;50DA5EED*F1ED B00B#1055Z5AFE55A1ADE5;linux-x64;tracer.so".toList

/-- An empty line that ends with a carriage return has one field, and the second is read; after
a class id that is none, the current path is the folder of the file; and groups of digits with
other separators are no class id, but the profiler is loaded. -/
theorem not_safe :
    ¬ Safe [] (.new "/app/".toList []) (loadText "#Tracer\r\n\r\n".toList) ∧
      (∀ entries, ¬ Safe entries (.new "/app/".toList [])
        (loadText "TRACER;50DA5EED;linux-x64;tracer.so".toList)) ∧
      entriesOf (filesWith separatorsText) "linux-x64".toList "/app/".toList
          "/opt/datadog/loader.conf".toList = [] ∧
        ¬ Safe [] (.new "/app/".toList []) (loadText separatorsText) := by
  refine ⟨fun h => ?_, fun entries h => ?_, by decide +kernel, fun h => ?_⟩
  · have hout : (loadText "#Tracer\r\n\r\n".toList).1 = .error .outOfRange := by
      decide +kernel
    rw [h.returns] at hout
    cases hout
  · have hpath : (loadText "TRACER;50DA5EED;linux-x64;tracer.so".toList).2.currentPath =
        "/opt/datadog/".toList := by decide +kernel
    rw [h.currentPath] at hpath
    exact absurd hpath (by decide)
  · have hset : (loadText separatorsText).2.environment.length = 1 := by decide +kernel
    rw [h.environment] at hset
    cases hset

end DdTrace.NativeLoader
