import DdTrace.Lib.Integers
import DdTrace.Lib.Segments
import Mathlib.Data.List.Infix

/-!
# The parser of commit objects

The constructor of `GitCommitObject` goes through the lines of a commit that are not empty and
looks at how each begins, without regard to where the headers end (GitInfo.cs). A signature is
read up to the line that ends it, and one more line is skipped. What begins like no header is a
line of the message. How a line begins is a question to the current culture, which passes over
some characters.
-/

namespace DdTrace.Ci

open Lib

namespace GitCommitObject

def treePrefix : Text := text "tree "
def parentPrefix : Text := text "parent "
def authorPrefix : Text := text "author "
def committerPrefix : Text := text "committer "
def gpgSigPrefix : Text := text "gpgsig "
def unixEpochTicks : Int64 := 621355968000000000
def ticksPerSecond : Int64 := 10000000

def headerPrefixes : List Text :=
  [treePrefix, parentPrefix, authorPrefix, committerPrefix, gpgSigPrefix]

end GitCommitObject

open GitCommitObject in
/-- What depends on the machine: the number signs of the culture, how it compares the beginning of
a line, and the end of a line. -/
structure Platform where
  culture : NumberFormatInfo
  symbols : culture.Symbols
  windows : Bool
  /-- `StartsWith` in the current culture, for one of the words above. -/
  startsWith : Text → Text → Bool
  /-- The words differ in their letters. -/
  startsWith_other : ∀ w ∈ headerPrefixes, ∀ v ∈ headerPrefixes, w ≠ v →
    ∀ t, startsWith (w ++ t) v = false
  /-- A word is found in front of a character that does not combine with it. -/
  startsWith_append : ∀ w ∈ headerPrefixes, ∀ c t, 0x20 ≤ c → c < 0x7F →
    startsWith (w ++ c :: t) w = true
  startsWith_concat : ∀ w ∈ headerPrefixes, ∀ line,
    startsWith (line ++ [unit '\r']) w = startsWith line w

/-- `Environment.NewLine` -/
def Platform.newLine (platform : Platform) : Text :=
  if platform.windows then [unit '\r', unit '\n'] else [unit '\n']

inductive CommitException where
  | indexOutOfRange
  | argumentOutOfRange
  deriving DecidableEq, Repr

/-- A date is its ticks. -/
structure GitCommitObject where
  tree : Option Text
  parent : Option Text
  authorName : Option Text
  authorEmail : Option Text
  authorDate : Option Int64
  committerName : Option Text
  committerEmail : Option Text
  committerDate : Option Int64
  pgpSignature : Option Text
  message : Option Text
  deriving DecidableEq, Repr

namespace GitCommitObject

/-! ### What the runtime does -/

/-- `line.Substring(startIndex)` -/
def substring (line : Text) (startIndex : ℕ) : Except CommitException Text :=
  if startIndex ≤ line.length then .ok (line.drop startIndex) else .error .argumentOutOfRange

theorem substring_append (w t : Text) : substring (w ++ t) w.length = .ok t := by
  rw [substring, if_pos (by simp), List.drop_left]

/-- `string.Contains` -/
def contains (line s : Text) : Bool := line.tails.any fun rest => s.isPrefixOf rest

/-- The text that ends a signature, somewhere in its line. -/
def endOfSignature : Text := text "END PGP SIGNATURE"

/-- `new DateTimeOffset(ticks, TimeSpan.Zero)` -/
def dateTimeOffset (ticks : Int64) : Except CommitException Int64 :=
  if 0 ≤ ticks ∧ ticks ≤ 3155378975999999999 then .ok ticks else .error .argumentOutOfRange

/-! ### The constructor -/

/-- The date of an author or a committer, if its seconds can be read, otherwise the one there
is. -/
def parseDate (platform : Platform) (previous : Option Int64) (date : Text) :
    Except CommitException (Option Int64) :=
  match tryParseInt64 platform.culture (((trim date).splitOn (unit ' ')).headD []) with
  | none => .ok previous
  | some unixSeconds => (dateTimeOffset (unixSeconds * ticksPerSecond + unixEpochTicks)).map some

/-- The name, the email and the date behind the word `author` or `committer`. -/
def parsePerson (platform : Platform) (previous : Option Int64) (content : Text) :
    Except CommitException (Text × Text × Option Int64) :=
  match content.splitOnP fun c => c == unit '<' || c == unit '>' with
  | name :: email :: date :: _ =>
    (parseDate platform previous date).map fun date => (trim name, trim email, date)
  | _ => .error .indexOutOfRange

/-- The loop over the lines of a signature, with what is read of it and the lines that are left;
`none` at the end of the lines. -/
def readSignature (newLine : Text) : List Text → Text → Text → Option (Text × List Text)
  | [], pgpLine, signature =>
    if contains pgpLine endOfSignature then some (signature, []) else none
  | line :: lines, pgpLine, signature =>
    if contains pgpLine endOfSignature then some (signature, line :: lines)
    else readSignature newLine lines line (signature ++ (line ++ newLine))

theorem length_readSignature {newLine pgpLine signature signature' : Text}
    {lines lines' : List Text}
    (h : readSignature newLine lines pgpLine signature = some (signature', lines')) :
    lines'.length ≤ lines.length := by
  induction lines generalizing pgpLine signature with
  | nil =>
    rw [readSignature] at h
    split at h
    · cases h
      exact le_rfl
    · cases h
  | cons line lines ih =>
    rw [readSignature] at h
    split at h
    · cases h
      exact le_rfl
    · exact (ih h).trans (Nat.le_succ _)

/-- The loop over the lines. -/
def parseLines (platform : Platform) (o : GitCommitObject) (msgLines : List Text) :
    List Text → Except CommitException (GitCommitObject × List Text)
  | [] => .ok (o, msgLines)
  | line :: lines =>
    if platform.startsWith line treePrefix then
      match substring line treePrefix.length with
      | .error exception => .error exception
      | .ok tree => parseLines platform { o with tree := some tree } msgLines lines
    else if platform.startsWith line parentPrefix then
      match substring line parentPrefix.length with
      | .error exception => .error exception
      | .ok parent => parseLines platform { o with parent := some parent } msgLines lines
    else if platform.startsWith line authorPrefix then
      match (substring line authorPrefix.length).bind (parsePerson platform o.authorDate) with
      | .error exception => .error exception
      | .ok (name, email, date) =>
        parseLines platform { o with
          authorName := some name, authorEmail := some email, authorDate := date } msgLines lines
    else if platform.startsWith line committerPrefix then
      match (substring line committerPrefix.length).bind
        (parsePerson platform o.committerDate) with
      | .error exception => .error exception
      | .ok (name, email, date) =>
        parseLines platform { o with
          committerName := some name, committerEmail := some email, committerDate := date }
          msgLines lines
    else if platform.startsWith line gpgSigPrefix then
      match substring line gpgSigPrefix.length with
      | .error exception => .error exception
      | .ok first =>
        match h : readSignature platform.newLine lines (first ++ platform.newLine)
          (first ++ platform.newLine) with
        | none => .error .indexOutOfRange
        | some (signature, rest) =>
          have := length_readSignature h
          -- the line behind the signature is skipped
          parseLines platform { o with pgpSignature := some signature } msgLines (rest.drop 1)
    else parseLines platform o (msgLines ++ [line]) lines
  termination_by lines => lines.length

def empty : GitCommitObject := ⟨none, none, none, none, none, none, none, none, none, none⟩

def new (platform : Platform) (content : Text) : Except CommitException GitCommitObject := do
  let lines := (content.splitOn (unit '\n')).filter (· ≠ [])
  let (o, msgLines) ← parseLines platform empty [] lines
  return { o with message := some (platform.newLine.intercalate msgLines) }

/-! ### Signatures -/

theorem contains_iff {line s : Text} : contains line s = true ↔ ∃ t u, line = t ++ (s ++ u) := by
  rw [contains, List.any_eq_true]
  constructor
  · rintro ⟨rest, hrest, hprefix⟩
    obtain ⟨t, rfl⟩ := (List.mem_tails _ _).1 hrest
    obtain ⟨u, rfl⟩ := List.isPrefixOf_iff_prefix.1 hprefix
    exact ⟨t, u, rfl⟩
  · rintro ⟨t, u, rfl⟩
    exact ⟨s ++ u, (List.mem_tails _ _).2 (List.suffix_append _ _),
      List.isPrefixOf_iff_prefix.2 (List.prefix_append _ _)⟩

/-- Nothing of the text that ends a signature is found in a character before the line. -/
theorem contains_space_cons (line : Text) :
    contains (unit ' ' :: line) endOfSignature = contains line endOfSignature := by
  rw [contains, List.tails_cons, List.any_cons]
  exact Bool.false_or _

theorem contains_append {line ending : Text} (h : ∀ c ∈ ending, c ∉ endOfSignature) :
    contains (line ++ ending) endOfSignature = contains line endOfSignature := by
  rw [Bool.eq_iff_iff, contains_iff, contains_iff]
  constructor
  · rintro ⟨t, u, hline⟩
    rw [← List.append_assoc] at hline
    rcases List.append_eq_append_iff.1 hline with ⟨v, hv, hending⟩ | ⟨v, hv, -⟩
    · -- the text would reach into what is behind the line
      rcases List.eq_nil_or_concat v with rfl | ⟨v', c, rfl⟩
      · exact ⟨t, [], by rw [List.append_nil, hv, List.append_nil]⟩
      · have hlast : endOfSignature.getLast? = some c := by
          have hne : endOfSignature ≠ [] := by decide
          rw [← List.getLast?_append_of_ne_nil t hne, hv]
          simp
        exact absurd (List.mem_of_getLast? hlast) (h c (by rw [hending]; simp))
    · exact ⟨t, v, by rw [hv, List.append_assoc]⟩
  · rintro ⟨t, u, rfl⟩
    exact ⟨t, u ++ ending, by simp⟩

variable {platform : Platform} {o o' : GitCommitObject} {lines rest msgLines msgLines' : List Text}
  {newLine line pgpLine signature : Text}

theorem contains_append_newLine : contains (line ++ platform.newLine) endOfSignature
    = contains line endOfSignature := by
  apply contains_append
  have hcr : ∀ c ∈ [unit '\r', unit '\n'], c ∉ endOfSignature := by
    have hcr : unit '\r' ∉ endOfSignature := by decide
    have hlf : unit '\n' ∉ endOfSignature := by decide
    simp [hcr, hlf]
  rw [Platform.newLine]
  split
  · exact hcr
  · exact fun c hc => hcr c (List.mem_cons_of_mem _ hc)

/-- The line ends a signature. -/
def endsSignature (line : Text) : Bool := contains line endOfSignature

/-- A signature is read up to the first line that ends one. -/
theorem readSignature_iff :
    (∃ signature', readSignature newLine lines pgpLine signature = some (signature', rest)) ↔
      (pgpLine :: lines).findIdx endsSignature < (pgpLine :: lines).length ∧
        rest = lines.drop ((pgpLine :: lines).findIdx endsSignature) := by
  induction lines generalizing pgpLine signature with
  | nil =>
    rw [readSignature, List.findIdx_cons, endsSignature]
    cases contains pgpLine endOfSignature with
    | true => simp [eq_comm]
    | false => simp
  | cons line lines ih =>
    rw [readSignature, List.findIdx_cons, endsSignature]
    cases contains pgpLine endOfSignature with
    | true => simp [eq_comm]
    | false =>
      rw [if_neg Bool.false_ne_true, cond_false]
      apply ih.trans
      simp

/-! ### Lines -/

/-- The line begins like a header. -/
def isHeader (platform : Platform) (line : Text) : Bool :=
  platform.startsWith line treePrefix || platform.startsWith line parentPrefix ||
    platform.startsWith line authorPrefix || platform.startsWith line committerPrefix ||
    platform.startsWith line gpgSigPrefix

theorem isHeader_eq_false_iff :
    isHeader platform line = false ↔ ∀ w ∈ headerPrefixes, platform.startsWith line w = false := by
  simp [isHeader, headerPrefixes, Bool.or_eq_false_iff, and_assoc]

theorem parseLines_of_not_header (h : isHeader platform line = false) :
    parseLines platform o msgLines (line :: lines)
      = parseLines platform o (msgLines ++ [line]) lines := by
  simp only [isHeader, Bool.or_eq_false_iff] at h
  obtain ⟨⟨⟨⟨htree, hparent⟩, hauthor⟩, hcommitter⟩, hgpgSig⟩ := h
  rw [parseLines]
  simp only [htree, hparent, hauthor, hcommitter, hgpgSig, Bool.false_eq_true, if_false]

/-- Lines that begin like no header belong to the message. -/
theorem parseLines_message (h : ∀ line ∈ lines, isHeader platform line = false) :
    parseLines platform o msgLines lines = .ok (o, msgLines ++ lines) := by
  induction lines generalizing msgLines with
  | nil => rw [parseLines, List.append_nil]
  | cons line lines ih =>
    rw [List.forall_mem_cons] at h
    rw [parseLines_of_not_header h.1, ih h.2, List.append_assoc, List.singleton_append]

theorem sublist_of_readSignature {signature' : Text}
    (h : readSignature newLine lines pgpLine signature = some (signature', rest)) :
    rest.Sublist lines := by
  rw [(readSignature_iff.1 ⟨signature', h⟩).2]
  exact List.drop_sublist _ _

/-- What happens to a line when nothing is thrown: it is kept, or read as a header, perhaps with
some of the lines behind it. Only a line of the author sets the author's name. -/
theorem parseLines_cons (h : parseLines platform o msgLines (line :: lines) = .ok (o', msgLines')) :
    isHeader platform line = false ∧
        parseLines platform o (msgLines ++ [line]) lines = .ok (o', msgLines') ∨
      ∃ o₁ rest, rest.Sublist lines ∧
        parseLines platform o₁ msgLines rest = .ok (o', msgLines') ∧
        (platform.startsWith line authorPrefix = false → o₁.authorName = o.authorName) ∧
        (platform.startsWith line committerPrefix = false →
          o₁.committerName = o.committerName) := by
  cases hheader : isHeader platform line with
  | false =>
    rw [parseLines_of_not_header hheader] at h
    exact .inl ⟨rfl, h⟩
  | true =>
    right
    rw [parseLines] at h
    split_ifs at h with htree hparent hauthor hcommitter hgpgSig
    · split at h
      · cases h
      · exact ⟨_, lines, List.Sublist.refl _, h, fun _ => rfl, fun _ => rfl⟩
    · split at h
      · cases h
      · exact ⟨_, lines, List.Sublist.refl _, h, fun _ => rfl, fun _ => rfl⟩
    · split at h
      · cases h
      · exact ⟨_, lines, List.Sublist.refl _, h, fun hfalse => by simp [hfalse] at hauthor,
          fun _ => rfl⟩
    · split at h
      · cases h
      · exact ⟨_, lines, List.Sublist.refl _, h, fun _ => rfl,
          fun hfalse => by simp [hfalse] at hcommitter⟩
    · split at h
      · cases h
      · split at h
        · cases h
        · rename_i signature rest hread
          exact ⟨_, rest.drop 1, (List.drop_sublist 1 rest).trans (sublist_of_readSignature hread),
            h, fun _ => rfl, fun _ => rfl⟩
    · simp_all [isHeader]

/-- Without a line of the author no name of one is read, and likewise for the committer. -/
theorem parseLines_names (h : parseLines platform o msgLines lines = .ok (o', msgLines')) :
    ((∀ line ∈ lines, platform.startsWith line authorPrefix = false) →
        o'.authorName = o.authorName) ∧
      ((∀ line ∈ lines, platform.startsWith line committerPrefix = false) →
        o'.committerName = o.committerName) := by
  induction hlen : lines.length using Nat.strong_induction_on generalizing o msgLines lines with
  | _ n ih =>
    subst hlen
    cases lines with
    | nil =>
      rw [parseLines] at h
      cases h
      exact ⟨fun _ => rfl, fun _ => rfl⟩
    | cons line lines =>
      simp only [List.forall_mem_cons]
      rcases parseLines_cons h with ⟨-, hrest⟩ | ⟨o₁, rest, hsub, hrest, hauthor, hcommitter⟩
      · obtain ⟨hauthors, hcommitters⟩ := ih _ (by simp) hrest rfl
        exact ⟨fun hall => hauthors hall.2, fun hall => hcommitters hall.2⟩
      · have hlen := hsub.length_le
        obtain ⟨hauthors, hcommitters⟩ := ih _ (by rw [List.length_cons]; omega) hrest rfl
        exact ⟨fun hall => (hauthors fun l hl => hall.2 l (hsub.subset hl)).trans (hauthor hall.1),
          fun hall => (hcommitters fun l hl => hall.2 l (hsub.subset hl)).trans
            (hcommitter hall.1)⟩

/-- Whatever is kept as a line of the message is one of the lines and begins like no header. -/
theorem parseLines_kept (h : parseLines platform o msgLines lines = .ok (o', msgLines')) :
    ∃ kept, msgLines' = msgLines ++ kept ∧ kept.Sublist lines ∧
      ∀ line ∈ kept, isHeader platform line = false := by
  induction hlen : lines.length using Nat.strong_induction_on generalizing o msgLines lines with
  | _ n ih =>
    subst hlen
    cases lines with
    | nil =>
      rw [parseLines] at h
      cases h
      exact ⟨[], (List.append_nil _).symm, List.Sublist.refl _, by simp⟩
    | cons line lines =>
      rcases parseLines_cons h with ⟨hheader, hrest⟩ | ⟨o₁, rest, hsub, hrest, -, -⟩
      · obtain ⟨kept, rfl, hkept, hnot⟩ := ih _ (by simp) hrest rfl
        refine ⟨line :: kept, by simp, hkept.cons_cons line, ?_⟩
        rw [List.forall_mem_cons]
        exact ⟨hheader, hnot⟩
      · have hlen := hsub.length_le
        obtain ⟨kept, hkept, hsub', hnot⟩ := ih _ (by rw [List.length_cons]; omega) hrest rfl
        exact ⟨kept, hkept, (hsub'.trans hsub).cons line, hnot⟩

end GitCommitObject

end DdTrace.Ci
