import DdTrace.Ci.GitCommitObject

/-!
# Commits

`Commit.content` is the layout of a commit object: headers, perhaps a signature, an empty line,
the message. The lines of the content are known (`Commit.lines_content`), and so is what the
parser makes of the headers in front of the signature (`parseLines_headers`).
-/

namespace DdTrace.Ci

open Lib GitCommitObject

/-! ### The layout -/

/-- Who wrote a commit, or applied it, and when. -/
structure Ident where
  name : Text
  email : Text
  seconds : ℕ
  sign : UInt16
  zone : Text
  name_plain : ∀ c ∈ name, c ≠ unit '<' ∧ c ≠ unit '>' ∧ c ≠ unit '\n'
  email_plain : ∀ c ∈ email, c ≠ unit '<' ∧ c ≠ unit '>' ∧ c ≠ unit '\n'
  sign_plain : sign = unit '+' ∨ sign = unit '-'
  zone_length : zone.length = 4
  zone_digits : ∀ c ∈ zone, isDigit c = true

/-- The seconds and the time zone. -/
def Ident.when (ident : Ident) : Text :=
  decimal ident.seconds ++ unit ' ' :: ident.sign :: ident.zone

def Ident.line (ident : Ident) : Text :=
  ident.name ++ unit ' ' :: unit '<' :: (ident.email ++ unit '>' :: unit ' ' :: ident.when)

/-- The lines of a signature. All but the first are indented in the commit. -/
structure Signature where
  first : Text
  others : List Text
  plain : ∀ line ∈ first :: others, unit '\n' ∉ line

def Signature.indented (signature : Signature) : List Text :=
  signature.others.map (unit ' ' :: ·)

def isHexDigit (c : UInt16) : Bool := isDigit c || (unit 'a' ≤ c && c ≤ unit 'f')

/-- The name of an object, in hexadecimal. -/
structure ObjectName where
  text : Text
  text_ne_nil : text ≠ []
  text_hex : ∀ c ∈ text, isHexDigit c = true

structure Commit where
  tree : ObjectName
  parents : List ObjectName
  author : Ident
  committer : Ident
  signature : Option Signature
  message : Text
  /-- A newline stands behind the message. -/
  terminated : Bool

namespace Commit

def signatureLines (c : Commit) : List Text :=
  match c.signature with
  | none => []
  | some signature => (gpgSigPrefix ++ signature.first) :: signature.indented

def headers (c : Commit) : List Text :=
  (treePrefix ++ c.tree.text) :: (c.parents.map (parentPrefix ++ ·.text) ++
    (authorPrefix ++ c.author.line) :: (committerPrefix ++ c.committer.line) :: c.signatureLines)

def content (c : Commit) : Text :=
  c.headers.flatMap (· ++ [unit '\n']) ++ unit '\n' ::
    (c.message ++ if c.terminated then [unit '\n'] else [])

def messageLines (c : Commit) : List Text := c.message.splitOn (unit '\n')

end Commit

/-! ### Dates -/

/-- The date is this many seconds after the first of January 1970. -/
def HasDate (date : Option Int64) (seconds : ℕ) : Prop :=
  ∃ ticks, date = some ticks ∧ ticks.toInt = seconds * 10000000 + 621355968000000000

theorem tryParseInt64_decimal {culture : NumberFormatInfo} (h : culture.Symbols) (n : ℕ) :
    tryParseInt64 culture (decimal n) = if n < 2 ^ 63 then some (Int64.ofInt n) else none := by
  rw [tryParseInt64, parseInteger_decimal h, Option.bind_some]
  congr 1
  simp only [eq_iff_iff]
  omega

theorem isWhiteSpace_of_isDigit {c : UInt16} (h : isDigit c = true) :
    isWhiteSpace c = false := by
  rw [isDigit_iff] at h
  apply isWhiteSpace_eq_false
  · omega
  · omega

theorem trim_when (ident : Ident) : trim ident.when = ident.when := by
  obtain ⟨d, ds, hd⟩ := List.exists_cons_of_ne_nil (decimal_ne_nil ident.seconds)
  have hzone := ident.zone_length
  rcases List.eq_nil_or_concat ident.zone with hnil | ⟨zs, z, hz⟩
  · rw [hnil] at hzone
    cases hzone
  · have hdigit : isDigit d = true := isDigit_of_mem_decimal (n := ident.seconds) d (by simp [hd])
    have hdigit' : isDigit z = true := ident.zone_digits z (by simp [hz])
    have hform : ident.when = d :: ((ds ++ unit ' ' :: ident.sign :: zs) ++ [z]) := by
      rw [Ident.when, hd, hz]
      simp
    rw [hform, trim_eq_self (isWhiteSpace_of_isDigit hdigit) (isWhiteSpace_of_isDigit hdigit')]

theorem parseDate_when (platform : Platform) (ident : Ident) :
    parseDate platform none (unit ' ' :: ident.when) =
      if ident.seconds < 2 ^ 63 then
        (dateTimeOffset (Int64.ofInt ident.seconds * ticksPerSecond + unixEpochTicks)).map some
      else .ok none := by
  have hspace : unit ' ' ∉ decimal ident.seconds := by
    intro h
    have := isDigit_of_mem_decimal _ h
    revert this
    decide
  have hhead : ((trim (unit ' ' :: ident.when)).splitOn (unit ' ')).headD []
      = decimal ident.seconds := by
    rw [trim_cons (by decide), trim_when, Ident.when,
      List.splitOn_append_cons_self_of_not_mem hspace, List.headD_cons]
  rw [parseDate, hhead, tryParseInt64_decimal platform.symbols]
  by_cases hlt : ident.seconds < 2 ^ 63
  · rw [if_pos hlt, if_pos hlt]
  · rw [if_neg hlt, if_neg hlt]

theorem toInt_ticks {n : ℕ} (h : n ≤ 253402300799) :
    (Int64.ofInt n * ticksPerSecond + unixEpochTicks).toInt
      = n * 10000000 + 621355968000000000 := by
  have hticks : Int64.ofInt n * ticksPerSecond + unixEpochTicks
      = Int64.ofInt (n * 10000000 + 621355968000000000) := by
    rw [Int64.ofInt_add, Int64.ofInt_mul]
    rfl
  rw [hticks, Int64.toInt_ofInt_of_le (by omega) (by omega)]

theorem dateTimeOffset_ok {ticks ticks' : Int64} : dateTimeOffset ticks = .ok ticks' ↔
    ticks' = ticks ∧ 0 ≤ ticks.toInt ∧ ticks.toInt ≤ 3155378975999999999 := by
  have hle : ticks ≤ 3155378975999999999 ↔ ticks.toInt ≤ 3155378975999999999 :=
    Int64.le_iff_toInt_le
  have hnonneg : 0 ≤ ticks ↔ 0 ≤ ticks.toInt := Int64.le_iff_toInt_le
  rw [← hle, ← hnonneg, dateTimeOffset]
  split
  · rename_i h
    simp [h, eq_comm]
  · rename_i h
    simp [h]

/-- Up to the last second of the year 9999 the date is read. -/
theorem parseDate_of_le (platform : Platform) {ident : Ident}
    (h : ident.seconds ≤ 253402300799) : ∃ date,
    parseDate platform none (unit ' ' :: ident.when) = .ok date ∧ HasDate date ident.seconds := by
  have hticks := toInt_ticks h
  have hok := dateTimeOffset_ok.2 ⟨rfl, by rw [hticks]; omega, by rw [hticks]; omega⟩
  refine ⟨_, ?_, _, rfl, hticks⟩
  rw [parseDate_when, if_pos (by omega), hok]
  rfl

/-- A date that is read as it is can be no later. -/
theorem le_of_hasDate {platform : Platform} {ident : Ident} {date : Option Int64}
    (h : parseDate platform none (unit ' ' :: ident.when) = .ok date)
    (hdate : HasDate date ident.seconds) : ident.seconds ≤ 253402300799 := by
  obtain ⟨ticks, rfl, hticks⟩ := hdate
  rw [parseDate_when] at h
  split at h
  · obtain ⟨ticks', hok⟩ : ∃ ticks', dateTimeOffset
        (Int64.ofInt ident.seconds * ticksPerSecond + unixEpochTicks) = .ok ticks' := by
      cases hd : dateTimeOffset
          (Int64.ofInt ident.seconds * ticksPerSecond + unixEpochTicks) with
      | ok ticks' => exact ⟨ticks', rfl⟩
      | error e =>
        rw [hd] at h
        cases h
    rw [hok] at h
    cases h
    obtain ⟨rfl, -, hle⟩ := dateTimeOffset_ok.1 hok
    omega
  · cases h

/-! ### Headers -/

variable {platform : Platform} {o o' : GitCommitObject} {lines msgLines msgLines' : List Text}

/-- The brackets that part the email from the rest. -/
def isBracket (c : UInt16) : Bool := c == unit '<' || c == unit '>'

theorem isBracket_of_isDigit {c : UInt16} (h : isDigit c = true) : isBracket c = false := by
  rw [Bool.eq_false_iff]
  intro hbracket
  rw [isBracket, Bool.or_eq_true, beq_iff_eq, beq_iff_eq] at hbracket
  rcases hbracket with rfl | rfl <;> revert h <;> decide

theorem Ident.not_isBracket_when (ident : Ident) :
    ∀ c ∈ unit ' ' :: ident.when, isBracket c = false := by
  have hsign : isBracket ident.sign = false := by
    rcases ident.sign_plain with h | h <;> rw [h] <;> decide
  simp only [Ident.when, List.forall_mem_cons, List.forall_mem_append]
  exact ⟨by decide, fun c hc => isBracket_of_isDigit (isDigit_of_mem_decimal c hc), by decide,
    hsign, fun c hc => isBracket_of_isDigit (ident.zone_digits c hc)⟩

theorem not_isBracket {s : Text} (h : ∀ c ∈ s, c ≠ unit '<' ∧ c ≠ unit '>' ∧ c ≠ unit '\n') :
    ∀ c ∈ s, isBracket c = false := by
  intro c hc
  obtain ⟨hl, hr, -⟩ := h c hc
  simp [isBracket, hl, hr]

theorem Ident.splitOnP_line (ident : Ident) : ident.line.splitOnP isBracket
    = [ident.name ++ [unit ' '], ident.email, unit ' ' :: ident.when] := by
  have hname : ∀ c ∈ ident.name ++ [unit ' '], isBracket c = false := by
    rw [List.forall_mem_append, List.forall_mem_singleton]
    exact ⟨not_isBracket ident.name_plain, by decide⟩
  have hform : ident.line = (ident.name ++ [unit ' ']) ++ unit '<' ::
      (ident.email ++ unit '>' :: (unit ' ' :: ident.when)) := by
    rw [Ident.line]
    simp
  rw [hform, List.splitOnP_append_cons_of_forall_mem hname _ (by decide),
    List.splitOnP_append_cons_of_forall_mem (not_isBracket ident.email_plain) _ (by decide),
    List.splitOnP_eq_singleton ident.not_isBracket_when]

theorem parsePerson_line (platform : Platform) (previous : Option Int64) (ident : Ident) :
    parsePerson platform previous ident.line =
      (parseDate platform previous (unit ' ' :: ident.when)).map
        fun date => (trim ident.name, trim ident.email, date) := by
  have hspace : isWhiteSpace (unit ' ') = true := by decide
  have hsplit : (ident.line.splitOnP fun c => c == unit '<' || c == unit '>')
      = [ident.name ++ [unit ' '], ident.email, unit ' ' :: ident.when] := ident.splitOnP_line
  rw [parsePerson, hsplit]
  simp only [trim_concat hspace]

/-- A line of the person that begins with the word is found to do so. -/
def Ident.Found (platform : Platform) (w : Text) (ident : Ident) : Prop :=
  platform.startsWith (w ++ ident.line) w = true

theorem isHexDigit_iff {c : UInt16} : isHexDigit c = true ↔
    0x30 ≤ c.toNat ∧ c.toNat ≤ 0x39 ∨ 0x61 ≤ c.toNat ∧ c.toNat ≤ 0x66 := by
  rw [isHexDigit, Bool.or_eq_true, isDigit_iff, Bool.and_eq_true, decide_eq_true_eq,
    decide_eq_true_eq, UInt16.le_iff_toNat_le, UInt16.le_iff_toNat_le]
  rfl

theorem startsWith_name (platform : Platform) {w : Text} (hw : w ∈ headerPrefixes)
    (name : ObjectName) : platform.startsWith (w ++ name.text) w = true := by
  obtain ⟨c, t, ht⟩ := List.exists_cons_of_ne_nil name.text_ne_nil
  have hhex := isHexDigit_iff.1 (name.text_hex c (by rw [ht]; exact List.mem_cons_self))
  rw [ht]
  apply platform.startsWith_append w hw
  · rw [UInt16.le_iff_toNat_le]
    show 0x20 ≤ c.toNat
    omega
  · rw [UInt16.lt_iff_toNat_lt]
    show c.toNat < 0x7F
    omega

theorem parseLines_tree (tree : ObjectName) :
    parseLines platform o msgLines ((treePrefix ++ tree.text) :: lines)
      = parseLines platform { o with tree := some tree.text } msgLines lines := by
  rw [parseLines, if_pos (startsWith_name platform (by simp [headerPrefixes]) tree),
    substring_append]

theorem parseLines_parents (parents : List ObjectName) : ∃ parent,
    parseLines platform o msgLines (parents.map (parentPrefix ++ ·.text) ++ lines)
      = parseLines platform { o with parent := parent } msgLines lines := by
  induction parents generalizing o with
  | nil => exact ⟨o.parent, rfl⟩
  | cons parent parents ih =>
    have htree : platform.startsWith (parentPrefix ++ parent.text) treePrefix = false :=
      platform.startsWith_other _ (by simp [headerPrefixes]) _ (by simp [headerPrefixes])
        (by decide) _
    obtain ⟨last, hlast⟩ := @ih { o with parent := some parent.text }
    refine ⟨last, ?_⟩
    rw [List.map_cons, List.cons_append, parseLines, htree, if_neg Bool.false_ne_true,
      if_pos (startsWith_name platform (by simp [headerPrefixes]) parent), substring_append]
    exact hlast

theorem parseLines_author (h : o.authorDate = none) {ident : Ident}
    (hfound : ident.Found platform authorPrefix) :
    parseLines platform o msgLines ((authorPrefix ++ ident.line) :: lines) =
      (parseDate platform none (unit ' ' :: ident.when)).bind fun date =>
        parseLines platform { o with
          authorName := some (trim ident.name), authorEmail := some (trim ident.email),
          authorDate := date } msgLines lines := by
  have hstarts : platform.startsWith (authorPrefix ++ ident.line) authorPrefix = true := hfound
  have hother : ∀ v ∈ headerPrefixes, authorPrefix ≠ v →
      platform.startsWith (authorPrefix ++ ident.line) v = false :=
    fun v hv hne => platform.startsWith_other _ (by simp [headerPrefixes]) v hv hne _
  have htree := hother treePrefix (by simp [headerPrefixes]) (by decide)
  have hparent := hother parentPrefix (by simp [headerPrefixes]) (by decide)
  rw [parseLines, htree, if_neg Bool.false_ne_true, hparent, if_neg Bool.false_ne_true,
    if_pos hstarts, substring_append, Except.bind, h, parsePerson_line]
  cases parseDate platform none (unit ' ' :: ident.when) <;> rfl

theorem parseLines_committer (h : o.committerDate = none) {ident : Ident}
    (hfound : ident.Found platform committerPrefix) :
    parseLines platform o msgLines ((committerPrefix ++ ident.line) :: lines) =
      (parseDate platform none (unit ' ' :: ident.when)).bind fun date =>
        parseLines platform { o with
          committerName := some (trim ident.name), committerEmail := some (trim ident.email),
          committerDate := date } msgLines lines := by
  have hstarts : platform.startsWith (committerPrefix ++ ident.line) committerPrefix = true :=
    hfound
  have hother : ∀ v ∈ headerPrefixes, committerPrefix ≠ v →
      platform.startsWith (committerPrefix ++ ident.line) v = false :=
    fun v hv hne => platform.startsWith_other _ (by simp [headerPrefixes]) v hv hne _
  have htree := hother treePrefix (by simp [headerPrefixes]) (by decide)
  have hparent := hother parentPrefix (by simp [headerPrefixes]) (by decide)
  have hauthor := hother authorPrefix (by simp [headerPrefixes]) (by decide)
  rw [parseLines, htree, if_neg Bool.false_ne_true, hparent, if_neg Bool.false_ne_true,
    hauthor, if_neg Bool.false_ne_true, if_pos hstarts, substring_append, Except.bind, h,
    parsePerson_line]
  cases parseDate platform none (unit ' ' :: ident.when) <;> rfl

/-- What the headers before the signature leave, if the dates can be read. -/
def headerObject (c : Commit) (parent : Option Text) (authorDate committerDate : Option Int64) :
    GitCommitObject where
  tree := some c.tree.text
  parent := parent
  authorName := some (trim c.author.name)
  authorEmail := some (trim c.author.email)
  authorDate := authorDate
  committerName := some (trim c.committer.name)
  committerEmail := some (trim c.committer.email)
  committerDate := committerDate
  pgpSignature := none
  message := none

theorem parseLines_headers {c : Commit} (hauthor : c.author.Found platform authorPrefix)
    (hcommitter : c.committer.Found platform committerPrefix) (lines : List Text) : ∃ parent,
    parseLines platform empty [] (c.headers ++ lines) =
      (parseDate platform none (unit ' ' :: c.author.when)).bind fun authorDate =>
        (parseDate platform none (unit ' ' :: c.committer.when)).bind fun committerDate =>
          parseLines platform (headerObject c parent authorDate committerDate) []
            (c.signatureLines ++ lines) := by
  rw [Commit.headers, List.cons_append, parseLines_tree, List.append_assoc]
  obtain ⟨parent, hparent⟩ := @parseLines_parents platform { empty with tree := some c.tree.text }
    ((authorPrefix ++ c.author.line) :: (committerPrefix ++ c.committer.line) ::
      c.signatureLines ++ lines) [] c.parents
  refine ⟨parent, hparent.trans ?_⟩
  rw [List.cons_append, List.cons_append, parseLines_author rfl hauthor]
  congr 1
  funext authorDate
  exact parseLines_committer rfl hcommitter

/-! ### The lines of a commit -/

theorem newline_not_mem_line (ident : Ident) : unit '\n' ∉ ident.line := by
  have hdecimal : unit '\n' ∉ decimal ident.seconds := by
    intro h
    have := isDigit_of_mem_decimal _ h
    revert this
    decide
  have hzone : unit '\n' ∉ ident.zone := by
    intro h
    have := ident.zone_digits _ h
    revert this
    decide
  have hsign : unit '\n' ≠ ident.sign := by
    rcases ident.sign_plain with h | h <;> rw [h] <;> decide
  have hname : unit '\n' ∉ ident.name := fun h => (ident.name_plain _ h).2.2 rfl
  have hemail : unit '\n' ∉ ident.email := fun h => (ident.email_plain _ h).2.2 rfl
  have hothers : unit '\n' ≠ unit ' ' ∧ unit '\n' ≠ unit '<' ∧ unit '\n' ≠ unit '>' := by decide
  simp [Ident.line, Ident.when, hname, hemail, hdecimal, hzone, hsign, hothers]

theorem ObjectName.newline_not_mem (name : ObjectName) : unit '\n' ∉ name.text := by
  intro h
  have hhex := name.text_hex _ h
  revert hhex
  decide

theorem Commit.headers_plain (c : Commit) : ∀ line ∈ c.headers, unit '\n' ∉ line ∧ line ≠ [] := by
  have hwords : unit '\n' ∉ treePrefix ∧ unit '\n' ∉ parentPrefix ∧ unit '\n' ∉ authorPrefix ∧
      unit '\n' ∉ committerPrefix ∧ unit '\n' ∉ gpgSigPrefix ∧ unit '\n' ≠ unit ' ' := by decide
  obtain ⟨htree, hparent, hauthor, hcommitter, hgpgSig, hspace⟩ := hwords
  have hword : ∀ {p s : Text}, unit '\n' ∉ p → p ≠ [] → unit '\n' ∉ s →
      unit '\n' ∉ p ++ s ∧ p ++ s ≠ [] := by
    intro p s hp hne hs
    simp [hp, hne, hs]
  have hsignature : ∀ line ∈ c.signatureLines, unit '\n' ∉ line ∧ line ≠ [] := by
    rw [Commit.signatureLines]
    split
    · simp
    · rename_i signature _
      have hplain := signature.plain
      rw [List.forall_mem_cons] at hplain ⊢
      refine ⟨hword hgpgSig (by decide) hplain.1, ?_⟩
      intro line hline
      obtain ⟨l, hl, rfl⟩ := List.mem_map.1 hline
      simp [hspace, hplain.2 l hl]
  rw [Commit.headers, List.forall_mem_cons, List.forall_mem_append, List.forall_mem_cons,
    List.forall_mem_cons]
  refine ⟨hword htree (by decide) c.tree.newline_not_mem, ?_,
    hword hauthor (by decide) (newline_not_mem_line c.author),
    hword hcommitter (by decide) (newline_not_mem_line c.committer), hsignature⟩
  intro line hline
  obtain ⟨parent, -, rfl⟩ := List.mem_map.1 hline
  exact hword hparent (by decide) parent.newline_not_mem

/-- The lines that are not empty. -/
def nonEmpty (lines : List Text) : List Text := lines.filter (· ≠ [])

theorem Commit.lines_content (c : Commit) :
    nonEmpty (c.content.splitOn (unit '\n')) = c.headers ++ nonEmpty c.messageLines := by
  have hmessage : nonEmpty ((c.message ++ if c.terminated then [unit '\n'] else []).splitOn
      (unit '\n')) = nonEmpty c.messageLines := by
    cases c.terminated with
    | false =>
      rw [if_neg Bool.false_ne_true, List.append_nil]
      rfl
    | true =>
      rw [if_pos rfl, List.splitOn_append_cons_self, List.splitOn_nil, nonEmpty, nonEmpty,
        List.filter_append]
      simp [Commit.messageLines]
  have hheaders : nonEmpty c.headers = c.headers := by
    rw [nonEmpty, List.filter_eq_self]
    intro line hline
    simpa using (c.headers_plain line hline).2
  have hempty : (unit '\n' :: (c.message ++ if c.terminated then [unit '\n'] else [])).splitOn
      (unit '\n') = [] :: (c.message ++ if c.terminated then [unit '\n'] else []).splitOn
      (unit '\n') :=
    List.splitOn_append_cons_self_of_not_mem (List.not_mem_nil) _
  rw [Commit.content, splitOn_flatMap_append (fun line hline => (c.headers_plain line hline).1),
    hempty, nonEmpty, List.filter_append]
  rw [nonEmpty] at hheaders hmessage
  rw [hheaders, List.filter_cons_of_neg (by simp), hmessage]

end DdTrace.Ci
