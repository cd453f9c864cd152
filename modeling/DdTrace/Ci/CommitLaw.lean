import DdTrace.Ci.Commit

/-!
# Which commits are read back

The parser keeps the lines that begin like no header, joins them with the line end of the
platform, and skips a line behind the signature. `readsBack_iff` says which commits come out as
they are.
-/

namespace DdTrace.Ci

open Lib GitCommitObject

variable {platform : Platform} {o o' : GitCommitObject} {lines : List Text}

/-! ### The message -/

/-- What stands before the newline at the end of a line. -/
def ending (platform : Platform) : Text := if platform.windows then [unit '\r'] else []

theorem newLine_eq (platform : Platform) : platform.newLine = ending platform ++ [unit '\n'] := by
  rw [Platform.newLine, ending]
  split <;> rfl

theorem newline_not_mem_ending (platform : Platform) : unit '\n' ∉ ending platform := by
  rw [ending]
  split <;> decide

theorem isHeader_append_ending (line : Text) :
    isHeader platform (line ++ ending platform) = isHeader platform line := by
  have hsame : ∀ w ∈ headerPrefixes,
      platform.startsWith (line ++ ending platform) w = platform.startsWith line w := by
    intro w hw
    rw [ending]
    split
    · exact platform.startsWith_concat w hw line
    · rw [List.append_nil]
  simp only [headerPrefixes, List.forall_mem_cons] at hsame
  obtain ⟨htree, hparent, hauthor, hcommitter, hgpgSig, -⟩ := hsame
  rw [isHeader, isHeader, htree, hparent, hauthor, hcommitter, hgpgSig]

/-- The lines of a message that is joined from others. -/
theorem messageLines_of_join {c : Commit} {kept : List Text}
    (hkept : ∀ line ∈ kept, unit '\n' ∉ line) (hne : kept ≠ [])
    (hjoin : platform.newLine.intercalate kept = c.message) :
    c.messageLines = appendToInit (ending platform) kept := by
  have hne' : appendToInit (ending platform) kept ≠ [] := by
    rwa [← List.length_pos_iff, length_appendToInit, List.length_pos_iff]
  rw [Commit.messageLines, ← hjoin, newLine_eq, intercalate_append_singleton]
  apply List.splitOn_intercalate _ _ hne'
  intro line hline
  obtain ⟨l, hl, h | h⟩ := mem_appendToInit hline
  · rw [h]
    exact hkept l hl
  · rw [h, List.mem_append, not_or]
    exact ⟨hkept l hl, newline_not_mem_ending platform⟩

/-- If they are lines that the parser keeps, none of the message's is empty or begins like a
header. -/
theorem messageLines_plain {c : Commit} {kept : List Text}
    (hkept : ∀ line ∈ kept, line ≠ [] ∧ isHeader platform line = false)
    (hlines : c.messageLines = appendToInit (ending platform) kept) :
    ∀ line ∈ c.messageLines, line ≠ [] ∧ isHeader platform line = false := by
  intro line hline
  rw [hlines] at hline
  obtain ⟨l, hl, h | h⟩ := mem_appendToInit hline
  · rw [h]
    exact hkept l hl
  · rw [h, isHeader_append_ending]
    exact ⟨by simp [(hkept l hl).1], (hkept l hl).2⟩

/-- The message is read as it is: it is empty, or no line of it is empty or begins like a header
and the platform joins its lines as they were. -/
def Commit.MessageFits (platform : Platform) (c : Commit) : Prop :=
  c.message = [] ∨ (∀ line ∈ c.messageLines, line ≠ [] ∧ isHeader platform line = false) ∧
    (platform.windows = false ∨ unit '\n' ∉ c.message)

theorem nonEmpty_messageLines {c : Commit} (h : ∀ line ∈ c.messageLines, line ≠ []) :
    nonEmpty c.messageLines = c.messageLines := by
  rw [nonEmpty, List.filter_eq_self]
  intro line hline
  simpa using h line hline

theorem nonEmpty_messageLines_nil {c : Commit} (h : c.message = []) :
    nonEmpty c.messageLines = [] := by
  rw [Commit.messageLines, h, List.splitOn_nil]
  rfl

theorem newline_not_mem_messageLines (c : Commit) : ∀ line ∈ c.messageLines, unit '\n' ∉ line :=
  fun _ hline => not_mem_of_mem_splitOn hline

/-- The lines of the message are joined as they were, or the platform has other line ends. -/
theorem join_messageLines_iff (c : Commit) :
    platform.newLine.intercalate c.messageLines = c.message ↔
      platform.windows = false ∨ unit '\n' ∉ c.message := by
  have hunix : [unit '\n'].intercalate c.messageLines = c.message := List.intercalate_splitOn _
  cases hwindows : platform.windows with
  | false =>
    have hline : platform.newLine = [unit '\n'] := by
      rw [Platform.newLine, hwindows, if_neg Bool.false_ne_true]
    rw [hline]
    exact iff_of_true hunix (.inl rfl)
  | true =>
    rw [or_iff_right (by simp)]
    have hending : ending platform = [unit '\r'] := by rw [ending, hwindows, if_pos rfl]
    constructor
    · intro hjoin hmem
      have hsame := messageLines_of_join (newline_not_mem_messageLines c)
        (List.splitOn_ne_nil _ _) hjoin
      rw [hending] at hsame
      cases hlines : c.messageLines with
      | nil => exact List.splitOn_ne_nil _ _ hlines
      | cons l ls =>
        cases ls with
        | nil =>
          rw [hlines, List.intercalate_singleton] at hunix
          rw [← hunix] at hmem
          exact newline_not_mem_messageLines c l (by simp [hlines]) hmem
        | cons l' ls =>
          rw [hlines, appendToInit, List.cons_eq_cons] at hsame
          simp at hsame
    · intro hmem
      rw [Commit.messageLines, List.splitOn_eq_singleton hmem, List.intercalate_singleton]

/-! ### The signature -/

/-- The first line that ends a signature is the last but one of the signature, or the last one of
a commit without a message; and the line it begins in is found. -/
def Signature.Fits (platform : Platform) (signature : Signature) (message : Text) : Prop :=
  let lines := signature.first :: signature.others
  platform.startsWith (gpgSigPrefix ++ signature.first) gpgSigPrefix = true ∧
    (lines.findIdx endsSignature + 2 = lines.length ∨
      lines.findIdx endsSignature + 1 = lines.length ∧ message = [])

/-- The culture does not pass over a space in front of a word. -/
def KeepsSpaces (platform : Platform) : Prop :=
  ∀ w ∈ headerPrefixes, ∀ line, platform.startsWith (unit ' ' :: line) w = false

theorem isHeader_of_mem_indented (h : KeepsSpaces platform) (signature : Signature) :
    ∀ line ∈ signature.indented, isHeader platform line = false := by
  intro line hline
  obtain ⟨l, -, rfl⟩ := List.mem_map.1 hline
  exact isHeader_eq_false_iff.2 fun w hw => h w hw l

theorem findIdx_signature (platform : Platform) (signature : Signature) :
    ((signature.first ++ platform.newLine) :: signature.indented).findIdx endsSignature
      = (signature.first :: signature.others).findIdx endsSignature := by
  have hfirst : endsSignature (signature.first ++ platform.newLine)
      = endsSignature signature.first := contains_append_newLine
  have hothers : endsSignature ∘ (unit ' ' :: ·) = endsSignature := by
    funext line
    exact contains_space_cons line
  rw [List.findIdx_cons, List.findIdx_cons, hfirst, Signature.indented, List.findIdx_map, hothers]

/-- A signature whose line is found, if what is left behind it begins like no header. -/
theorem parseLines_signature {signature : Signature}
    (hfound : platform.startsWith (gpgSigPrefix ++ signature.first) gpgSigPrefix = true)
    (hlines : ∀ signature' rest, readSignature platform.newLine (signature.indented ++ lines)
        (signature.first ++ platform.newLine) (signature.first ++ platform.newLine)
          = some (signature', rest) → ∀ line ∈ rest.drop 1, isHeader platform line = false) :
    parseLines platform o [] ((gpgSigPrefix ++ signature.first) :: signature.indented ++ lines) =
      (readSignature platform.newLine (signature.indented ++ lines)
        (signature.first ++ platform.newLine) (signature.first ++ platform.newLine)).elim
        (.error .indexOutOfRange)
        fun read => .ok ({ o with pgpSignature := some read.1 }, read.2.drop 1) := by
  have hother : ∀ v ∈ headerPrefixes, gpgSigPrefix ≠ v →
      platform.startsWith (gpgSigPrefix ++ signature.first) v = false :=
    fun v hv hne => platform.startsWith_other _ (by simp [headerPrefixes]) v hv hne _
  have htree := hother treePrefix (by simp [headerPrefixes]) (by decide)
  have hparent := hother parentPrefix (by simp [headerPrefixes]) (by decide)
  have hauthor := hother authorPrefix (by simp [headerPrefixes]) (by decide)
  have hcommitter := hother committerPrefix (by simp [headerPrefixes]) (by decide)
  rw [List.cons_append, parseLines]
  simp only [htree, hparent, hauthor, hcommitter, hfound, Bool.false_eq_true, if_false, if_true,
    substring_append]
  split
  · rename_i hread
    rw [hread, Option.elim_none]
  · rename_i signature' rest hread
    rw [hread, Option.elim_some, parseLines_message (hlines signature' rest hread),
      List.nil_append]

/-- The line a signature begins in, if it is not found, belongs to the message. -/
theorem isHeader_gpgSig {signature : Signature}
    (h : ¬ platform.startsWith (gpgSigPrefix ++ signature.first) gpgSigPrefix = true) :
    isHeader platform (gpgSigPrefix ++ signature.first) = false := by
  refine isHeader_eq_false_iff.2 fun v hv => ?_
  by_cases hne : gpgSigPrefix = v
  · rw [← hne]
    exact Bool.not_eq_true _ ▸ h
  · exact platform.startsWith_other _ (by simp [headerPrefixes]) v hv hne _

/-- The lines that are left behind a signature and the one that is skipped are as many as the
lines of the message exactly if the signature fits. -/
theorem findIdx_iff (platform : Platform) (signature : Signature) (lines : List Text) :
    let idx := ((signature.first ++ platform.newLine) ::
      (signature.indented ++ lines)).findIdx endsSignature
    idx < (signature.indented ++ lines).length + 1 ∧
        (((signature.indented ++ lines).drop idx).drop 1).length = lines.length ↔
      (signature.first :: signature.others).findIdx endsSignature + 2
          = (signature.first :: signature.others).length ∨
        (signature.first :: signature.others).findIdx endsSignature + 1
          = (signature.first :: signature.others).length ∧ lines = [] := by
  intro idx
  have hlen : signature.indented.length = signature.others.length := List.length_map _
  have hidx : idx = if (signature.first :: signature.others).findIdx endsSignature
        < signature.others.length + 1
      then (signature.first :: signature.others).findIdx endsSignature
      else lines.findIdx endsSignature + (signature.others.length + 1) := by
    have hblock : idx = (((signature.first ++ platform.newLine) :: signature.indented)
        ++ lines).findIdx endsSignature := rfl
    rw [hblock, List.findIdx_append, findIdx_signature, List.length_cons, hlen]
  rw [List.drop_drop, List.length_drop, List.length_append, List.length_cons, hlen, hidx,
    ← List.length_eq_zero_iff]
  split
  · omega
  · omega

/-- The signature fits, if there is one. -/
def Commit.SignatureFits (platform : Platform) (c : Commit) : Prop :=
  ∀ signature, c.signature = some signature → signature.Fits platform c.message

theorem eq_of_length_drop {A B : List Text} {k : ℕ} (h : ((A ++ B).drop k).length = B.length) :
    (A ++ B).drop k = B := by
  rcases List.suffix_or_suffix_of_suffix (List.drop_suffix k (A ++ B)) (List.suffix_append A B)
    with hsuffix | hsuffix
  · exact hsuffix.eq_of_length h
  · exact (hsuffix.eq_of_length h.symm).symm

/-- Behind the headers, if as many lines are kept as the message has, they are its lines and the
signature fits. -/
theorem signatureFits_of_parseLines (hspaces : KeepsSpaces platform) {c : Commit} {kept : List Text}
    (hlines : ∀ line ∈ nonEmpty c.messageLines, isHeader platform line = false)
    (hempty : nonEmpty c.messageLines = [] → c.message = [])
    (h : parseLines platform o [] (c.signatureLines ++ nonEmpty c.messageLines) = .ok (o', kept)) :
    (∃ signature, o' = { o with pgpSignature := signature }) ∧
      (kept.length = (nonEmpty c.messageLines).length →
        c.SignatureFits platform ∧ kept = nonEmpty c.messageLines) := by
  rw [Commit.signatureLines] at h
  split at h
  · rename_i hnone
    rw [List.nil_append, parseLines_message hlines] at h
    cases h
    refine ⟨⟨o.pgpSignature, rfl⟩, fun _ => ⟨?_, rfl⟩⟩
    intro signature hsome
    rw [hnone] at hsome
    cases hsome
  · rename_i signature hsome
    have hall : ∀ line ∈ signature.indented ++ nonEmpty c.messageLines,
        isHeader platform line = false := by
      rw [List.forall_mem_append]
      exact ⟨isHeader_of_mem_indented hspaces signature, hlines⟩
    by_cases hfound : platform.startsWith (gpgSigPrefix ++ signature.first) gpgSigPrefix = true
    · rw [parseLines_signature hfound fun _ _ hread line hline => hall line
        ((sublist_of_readSignature hread).subset (List.mem_of_mem_drop hline))] at h
      cases hread : readSignature platform.newLine
          (signature.indented ++ nonEmpty c.messageLines) (signature.first ++ platform.newLine)
          (signature.first ++ platform.newLine) with
      | none =>
        rw [hread] at h
        cases h
      | some read =>
        rw [hread] at h
        cases h
        obtain ⟨hidx, hrest⟩ := readSignature_iff.1 ⟨read.1, hread⟩
        refine ⟨⟨_, rfl⟩, ?_⟩
        intro hlen
        rw [hrest] at hlen ⊢
        have hfits := (findIdx_iff platform signature _).1 ⟨hidx, hlen⟩
        rw [List.drop_drop] at hlen ⊢
        refine ⟨?_, eq_of_length_drop hlen⟩
        intro signature' hsome'
        rw [hsome, Option.some.injEq] at hsome'
        subst hsome'
        exact ⟨hfound, hfits.imp_right fun hlast => ⟨hlast.1, hempty hlast.2⟩⟩
    · -- the lines of the signature are kept too
      rw [List.cons_append, parseLines_message
        (List.forall_mem_cons.2 ⟨isHeader_gpgSig hfound, hall⟩)] at h
      cases h
      refine ⟨⟨o.pgpSignature, rfl⟩, fun hlen => ?_⟩
      simp only [List.nil_append, List.length_cons, List.length_append] at hlen
      omega

/-- If the signature fits, the lines of the message are kept. -/
theorem parseLines_of_signatureFits {c : Commit}
    (hlines : ∀ line ∈ nonEmpty c.messageLines, isHeader platform line = false)
    (hfits : c.SignatureFits platform) : ∃ signature,
    parseLines platform o [] (c.signatureLines ++ nonEmpty c.messageLines)
      = .ok ({ o with pgpSignature := signature }, nonEmpty c.messageLines) := by
  rw [Commit.signatureLines]
  split
  · refine ⟨o.pgpSignature, ?_⟩
    rw [List.nil_append, parseLines_message hlines]
    rfl
  · rename_i signature hsome
    obtain ⟨hfound, hfit⟩ := hfits signature hsome
    have hfit : (signature.first :: signature.others).findIdx endsSignature + 2
          = (signature.first :: signature.others).length ∨
        (signature.first :: signature.others).findIdx endsSignature + 1
          = (signature.first :: signature.others).length ∧ nonEmpty c.messageLines = [] :=
      hfit.imp_right fun hlast => ⟨hlast.1, nonEmpty_messageLines_nil hlast.2⟩
    obtain ⟨hidx, hlen⟩ := (findIdx_iff platform signature _).2 hfit
    -- what is left behind the signature is the message
    have hleft : ∀ signature' rest, readSignature platform.newLine
        (signature.indented ++ nonEmpty c.messageLines) (signature.first ++ platform.newLine)
        (signature.first ++ platform.newLine) = some (signature', rest) →
        rest.drop 1 = nonEmpty c.messageLines := by
      intro signature' rest hread
      rw [(readSignature_iff.1 ⟨signature', hread⟩).2, List.drop_drop]
      rw [List.drop_drop] at hlen
      exact eq_of_length_drop hlen
    obtain ⟨signature', hread⟩ := readSignature_iff.2 ⟨hidx, rfl⟩
    refine ⟨some signature', ?_⟩
    rw [parseLines_signature hfound fun signature' rest hread => by
      rw [hleft signature' rest hread]; exact hlines, hread, Option.elim_some, hleft _ _ hread]

/-! ### The law of the parser -/

/-- The object says what the commit says. -/
structure Describes (o : GitCommitObject) (c : Commit) : Prop where
  tree : o.tree = some c.tree.text
  authorName : o.authorName = some c.author.name
  authorEmail : o.authorEmail = some c.author.email
  authorDate : HasDate o.authorDate c.author.seconds
  committerName : o.committerName = some c.committer.name
  committerEmail : o.committerEmail = some c.committer.email
  committerDate : HasDate o.committerDate c.committer.seconds
  message : o.message = some c.message

/-- The content of the commit is parsed, without an exception, to what it says. -/
def ReadsBack (platform : Platform) (c : Commit) : Prop :=
  ∃ o, GitCommitObject.new platform c.content = .ok o ∧ Describes o c

/-- No white space at the ends of the name and the email, a date before the year 10000, and a
line that is found to begin with its word. -/
structure Ident.Fits (platform : Platform) (w : Text) (ident : Ident) : Prop where
  name : trim ident.name = ident.name
  email : trim ident.email = ident.email
  seconds : ident.seconds ≤ 253402300799
  found : ident.Found platform w

structure Commit.Fits (platform : Platform) (c : Commit) : Prop where
  author : c.author.Fits platform authorPrefix
  committer : c.committer.Fits platform committerPrefix
  signature : c.SignatureFits platform
  message : c.MessageFits platform

theorem new_eq_ok {content : Text} : GitCommitObject.new platform content = .ok o ↔
    ∃ o₁ kept, parseLines platform empty [] (nonEmpty (content.splitOn (unit '\n')))
        = .ok (o₁, kept) ∧
      o = { o₁ with message := some (platform.newLine.intercalate kept) } := by
  rw [GitCommitObject.new]
  show ((parseLines platform empty [] (nonEmpty (content.splitOn (unit '\n')))).bind
    fun out => .ok { out.1 with message := some (platform.newLine.intercalate out.2) }) = .ok o ↔ _
  cases parseLines platform empty [] (nonEmpty (content.splitOn (unit '\n'))) with
  | error e => simp [Except.bind]
  | ok out =>
    rw [Except.bind, Except.ok.injEq]
    constructor
    · rintro rfl
      exact ⟨out.1, out.2, rfl, rfl⟩
    · rintro ⟨o₁, kept, hout, rfl⟩
      cases hout
      rfl

theorem messageLines_of_fits {c : Commit} (h : c.MessageFits platform) :
    (∀ line ∈ nonEmpty c.messageLines, isHeader platform line = false) ∧
      platform.newLine.intercalate (nonEmpty c.messageLines) = c.message := by
  rcases h with hnil | ⟨hlines, hjoin⟩
  · rw [nonEmpty_messageLines_nil hnil, hnil]
    exact ⟨by simp, rfl⟩
  · have hne : ∀ line ∈ c.messageLines, line ≠ [] := fun line hline => (hlines line hline).1
    rw [nonEmpty_messageLines hne]
    exact ⟨fun line hline => (hlines line hline).2, (join_messageLines_iff c).2 hjoin⟩

theorem readsBack_of_fits {c : Commit} (h : c.Fits platform) : ReadsBack platform c := by
  obtain ⟨authorDate, hauthor, hauthorDate⟩ := parseDate_of_le platform h.author.seconds
  obtain ⟨committerDate, hcommitter, hcommitterDate⟩ := parseDate_of_le platform h.committer.seconds
  obtain ⟨hlines, hjoin⟩ := messageLines_of_fits h.message
  obtain ⟨parent, hheaders⟩ :=
    parseLines_headers h.author.found h.committer.found (nonEmpty c.messageLines)
  obtain ⟨signature, htail⟩ := @parseLines_of_signatureFits platform
    (headerObject c parent authorDate committerDate) c hlines h.signature
  have hparse : parseLines platform empty [] (nonEmpty (c.content.splitOn (unit '\n')))
      = .ok ({ headerObject c parent authorDate committerDate with pgpSignature := signature },
        nonEmpty c.messageLines) := by
    rw [c.lines_content, hheaders, hauthor, hcommitter]
    exact htail
  refine ⟨_, new_eq_ok.2 ⟨_, _, hparse, rfl⟩, ?_⟩
  exact ⟨rfl, congrArg some h.author.name, congrArg some h.author.email, hauthorDate,
    congrArg some h.committer.name, congrArg some h.committer.email, hcommitterDate,
    congrArg some hjoin⟩

/-- What the parser has kept, if it has thrown nothing. -/
theorem kept_of_new {c : Commit} {o : GitCommitObject}
    (h : GitCommitObject.new platform c.content = .ok o) :
    ∃ o₁ kept, parseLines platform empty [] (c.headers ++ nonEmpty c.messageLines)
        = .ok (o₁, kept) ∧
      (∀ line ∈ kept, unit '\n' ∉ line ∧ line ≠ [] ∧ isHeader platform line = false) ∧
      o = { o₁ with message := some (platform.newLine.intercalate kept) } := by
  obtain ⟨o₁, kept, hparse, ho⟩ := new_eq_ok.1 h
  rw [c.lines_content] at hparse
  obtain ⟨kept', hkept', hsub, hheader⟩ := parseLines_kept hparse
  rw [List.nil_append] at hkept'
  subst hkept'
  refine ⟨o₁, kept, hparse, fun line hline => ?_, ho⟩
  rcases List.mem_append.1 (hsub.subset hline) with hmem | hmem
  · exact ⟨(c.headers_plain line hmem).1, (c.headers_plain line hmem).2, hheader line hline⟩
  · obtain ⟨hmem, hne⟩ := List.mem_filter.1 hmem
    exact ⟨newline_not_mem_messageLines c line hmem, by simpa using hne, hheader line hline⟩

/-- No line but that of the author is taken for it, and no line but that of the committer. -/
theorem startsWith_of_ne (hspaces : KeepsSpaces platform) {c : Commit} {w : Text}
    (hw : w ∈ headerPrefixes) (htree : w ≠ treePrefix) (hparent : w ≠ parentPrefix)
    (hgpgSig : w ≠ gpgSigPrefix)
    (hauthor : platform.startsWith (authorPrefix ++ c.author.line) w = false)
    (hcommitter : platform.startsWith (committerPrefix ++ c.committer.line) w = false)
    (hlines : ∀ line ∈ nonEmpty c.messageLines, isHeader platform line = false) :
    ∀ line ∈ c.headers ++ nonEmpty c.messageLines, platform.startsWith line w = false := by
  have hsignature : ∀ line ∈ c.signatureLines, platform.startsWith line w = false := by
    rw [Commit.signatureLines]
    split
    · simp
    · rename_i signature _
      rw [List.forall_mem_cons]
      refine ⟨platform.startsWith_other _ (by simp [headerPrefixes]) w hw hgpgSig.symm _, ?_⟩
      exact fun line hline =>
        isHeader_eq_false_iff.1 (isHeader_of_mem_indented hspaces signature line hline) w hw
  rw [Commit.headers, List.forall_mem_append, List.forall_mem_cons, List.forall_mem_append,
    List.forall_mem_cons, List.forall_mem_cons]
  refine ⟨⟨platform.startsWith_other _ (by simp [headerPrefixes]) w hw htree.symm _, ?_, hauthor,
    hcommitter, hsignature⟩, fun line hline => isHeader_eq_false_iff.1 (hlines line hline) w hw⟩
  intro line hline
  obtain ⟨parent, -, rfl⟩ := List.mem_map.1 hline
  exact platform.startsWith_other _ (by simp [headerPrefixes]) w hw hparent.symm _

/-- Where a name is read, the line of the person was found. -/
theorem found_of_parseLines (hspaces : KeepsSpaces platform) {c : Commit} {o₁ : GitCommitObject}
    {kept : List Text}
    (h : parseLines platform empty [] (c.headers ++ nonEmpty c.messageLines) = .ok (o₁, kept))
    (hlines : ∀ line ∈ nonEmpty c.messageLines, isHeader platform line = false) :
    (o₁.authorName.isSome → c.author.Found platform authorPrefix) ∧
      (o₁.committerName.isSome → c.committer.Found platform committerPrefix) := by
  obtain ⟨hauthor, hcommitter⟩ := parseLines_names h
  constructor
  · intro hsome
    by_contra hfound
    have hother := platform.startsWith_other committerPrefix (by simp [headerPrefixes])
      authorPrefix (by simp [headerPrefixes]) (by decide) c.committer.line
    have hnone := hauthor (startsWith_of_ne hspaces (by simp [headerPrefixes]) (by decide)
      (by decide) (by decide) (Bool.eq_false_iff.2 hfound) hother hlines)
    rw [hnone] at hsome
    cases hsome
  · intro hsome
    by_contra hfound
    have hother := platform.startsWith_other authorPrefix (by simp [headerPrefixes])
      committerPrefix (by simp [headerPrefixes]) (by decide) c.author.line
    have hnone := hcommitter (startsWith_of_ne hspaces (by simp [headerPrefixes]) (by decide)
      (by decide) (by decide) hother (Bool.eq_false_iff.2 hfound) hlines)
    rw [hnone] at hsome
    cases hsome

/-- What the parser has done behind the headers. -/
theorem tail_of_parseLines {c : Commit} {o₁ : GitCommitObject} {kept : List Text}
    (hauthor : c.author.Found platform authorPrefix)
    (hcommitter : c.committer.Found platform committerPrefix)
    (h : parseLines platform empty [] (c.headers ++ nonEmpty c.messageLines) = .ok (o₁, kept)) :
    ∃ parent authorDate committerDate,
      parseDate platform none (unit ' ' :: c.author.when) = .ok authorDate ∧
      parseDate platform none (unit ' ' :: c.committer.when) = .ok committerDate ∧
      parseLines platform (headerObject c parent authorDate committerDate) []
        (c.signatureLines ++ nonEmpty c.messageLines) = .ok (o₁, kept) := by
  obtain ⟨parent, hheaders⟩ := parseLines_headers hauthor hcommitter (nonEmpty c.messageLines)
  rw [hheaders] at h
  cases hauthorDate : parseDate platform none (unit ' ' :: c.author.when) with
  | error e =>
    rw [hauthorDate] at h
    cases h
  | ok authorDate =>
    cases hcommitterDate : parseDate platform none (unit ' ' :: c.committer.when) with
    | error e =>
      rw [hauthorDate, hcommitterDate] at h
      cases h
    | ok committerDate =>
      rw [hauthorDate, hcommitterDate] at h
      exact ⟨parent, authorDate, committerDate, rfl, rfl, h⟩

/-- The lines of the message are as many as those that are kept, and begin like no header. -/
theorem messageLines_of_kept {c : Commit} {kept : List Text}
    (hnewline : ∀ line ∈ kept, unit '\n' ∉ line)
    (hkept : ∀ line ∈ kept, line ≠ [] ∧ isHeader platform line = false)
    (hjoin : platform.newLine.intercalate kept = c.message) :
    (∀ line ∈ nonEmpty c.messageLines, isHeader platform line = false) ∧
      (nonEmpty c.messageLines = [] → c.message = []) ∧
      kept.length = (nonEmpty c.messageLines).length ∧
      (c.message = [] ∨ ∀ line ∈ c.messageLines, line ≠ [] ∧ isHeader platform line = false) := by
  cases kept with
  | nil =>
    have hnil : c.message = [] := hjoin.symm
    rw [nonEmpty_messageLines_nil hnil]
    exact ⟨by simp, fun _ => hnil, rfl, .inl hnil⟩
  | cons line kept =>
    have hlines := messageLines_of_join hnewline (List.cons_ne_nil _ _) hjoin
    have hplain := messageLines_plain hkept hlines
    rw [nonEmpty_messageLines fun line hline => (hplain line hline).1]
    refine ⟨fun line hline => (hplain line hline).2, ?_, ?_, .inr hplain⟩
    · exact fun hnil => absurd hnil (List.splitOn_ne_nil _ _)
    · rw [hlines, length_appendToInit]

theorem fits_of_readsBack (hspaces : KeepsSpaces platform) {c : Commit}
    (h : ReadsBack platform c) : c.Fits platform := by
  obtain ⟨o, hnew, hdescribes⟩ := h
  obtain ⟨o₁, kept, hparse, hkept, rfl⟩ := kept_of_new hnew
  have hjoin : platform.newLine.intercalate kept = c.message :=
    Option.some.inj hdescribes.message
  obtain ⟨hnot, hempty, hlen, hplain⟩ :=
    messageLines_of_kept (fun line hline => (hkept line hline).1)
      (fun line hline => (hkept line hline).2) hjoin
  obtain ⟨hauthorFound, hcommitterFound⟩ := found_of_parseLines hspaces hparse hnot
  have hauthor := hauthorFound (Option.isSome_iff_exists.2 ⟨_, hdescribes.authorName⟩)
  have hcommitter := hcommitterFound (Option.isSome_iff_exists.2 ⟨_, hdescribes.committerName⟩)
  obtain ⟨parent, authorDate, committerDate, hauthorDate, hcommitterDate, htail⟩ :=
    tail_of_parseLines hauthor hcommitter hparse
  obtain ⟨⟨signature, rfl⟩, hsignature⟩ :=
    signatureFits_of_parseLines hspaces hnot hempty htail
  obtain ⟨hfits, hsame⟩ := hsignature hlen
  refine ⟨?_, ?_, hfits, ?_⟩
  · exact ⟨Option.some.inj hdescribes.authorName, Option.some.inj hdescribes.authorEmail,
      le_of_hasDate hauthorDate hdescribes.authorDate, hauthor⟩
  · exact ⟨Option.some.inj hdescribes.committerName, Option.some.inj hdescribes.committerEmail,
      le_of_hasDate hcommitterDate hdescribes.committerDate, hcommitter⟩
  · rcases hplain with hnil | hplain
    · exact .inl hnil
    · refine .inr ⟨hplain, ?_⟩
      rw [← join_messageLines_iff, ← nonEmpty_messageLines fun line hline => (hplain line hline).1,
        ← hsame, hjoin]

/-- A commit is read back if its names have no white space at their ends, its dates are before the
year 10000, the lines of its headers are found, its signature ends where the parser expects it, and
no line of its message is empty or begins like a header; and only then, where the culture does not
pass over spaces. -/
theorem readsBack_iff (platform : Platform) (c : Commit) :
    (c.Fits platform → ReadsBack platform c) ∧
      (KeepsSpaces platform → (ReadsBack platform c ↔ c.Fits platform)) :=
  ⟨readsBack_of_fits, fun hspaces => ⟨fits_of_readsBack hspaces, readsBack_of_fits⟩⟩

/-! ### A message that begins like a header -/

/-- The beginning of a line as its code units are. -/
def ordinalStartsWith (line w : Text) : Bool := w.isPrefixOf line

theorem ordinalStartsWith_other : ∀ w ∈ headerPrefixes, ∀ v ∈ headerPrefixes, w ≠ v →
    ∀ t, ordinalStartsWith (w ++ t) v = false := by
  intro w hw v hv hne t
  have hplain : ∀ w ∈ headerPrefixes, ∀ v ∈ headerPrefixes, w ≠ v → ¬ v <+: w := by decide +kernel
  rw [ordinalStartsWith, Bool.eq_false_iff, ne_eq, List.isPrefixOf_iff_prefix]
  intro hprefix
  rcases List.prefix_or_prefix_of_prefix hprefix (List.prefix_append w t) with h | h
  · exact hplain w hw v hv hne h
  · exact hplain v hv w hw hne.symm h

theorem ordinalStartsWith_append (w t : Text) : ordinalStartsWith (w ++ t) w = true :=
  List.isPrefixOf_iff_prefix.2 (List.prefix_append w t)

theorem ordinalStartsWith_concat : ∀ w ∈ headerPrefixes, ∀ line,
    ordinalStartsWith (line ++ [unit '\r']) w = ordinalStartsWith line w := by
  intro w hw line
  have hplain : ∀ w ∈ headerPrefixes, unit '\r' ∉ w := by decide
  rw [ordinalStartsWith, ordinalStartsWith, Bool.eq_iff_iff, List.isPrefixOf_iff_prefix,
    List.isPrefixOf_iff_prefix, List.prefix_concat_iff]
  apply or_iff_right
  rintro rfl
  exact hplain _ hw (by simp)

/-- Unix, with a culture that passes over nothing. -/
def unixPlatform : Platform where
  culture := .invariantInfo
  symbols := NumberFormatInfo.symbols_invariantInfo
  windows := false
  startsWith := ordinalStartsWith
  startsWith_other := ordinalStartsWith_other
  startsWith_append w _ c t _ _ := ordinalStartsWith_append w (c :: t)
  startsWith_concat := ordinalStartsWith_concat

theorem keepsSpaces_unixPlatform : KeepsSpaces unixPlatform := by
  intro w hw line
  simp only [headerPrefixes, List.mem_cons, List.not_mem_nil, or_false] at hw
  rcases hw with rfl | rfl | rfl | rfl | rfl <;> rfl

theorem plain_of_all {s : Text}
    (h : (s.all fun c => c != unit '<' && c != unit '>' && c != unit '\n') = true) :
    ∀ c ∈ s, c ≠ unit '<' ∧ c ≠ unit '>' ∧ c ≠ unit '\n' := by
  intro c hc
  have := List.all_eq_true.1 h c hc
  simpa [and_assoc] using this

theorem plain_empty : ∀ c ∈ ([] : Text), c ≠ unit '<' ∧ c ≠ unit '>' ∧ c ≠ unit '\n' := by simp

theorem plain_octocat :
    ∀ c ∈ text "octocat", c ≠ unit '<' ∧ c ≠ unit '>' ∧ c ≠ unit '\n' :=
  plain_of_all (by decide)

theorem isDigit_zeros : ∀ c ∈ text "0000", isDigit c = true := by
  have hall : (text "0000").all isDigit = true := by decide
  exact List.all_eq_true.1 hall

def octocat : Ident where
  name := text "octocat"
  email := []
  seconds := 0
  sign := unit '+'
  zone := text "0000"
  name_plain := plain_octocat
  email_plain := plain_empty
  sign_plain := .inl rfl
  zone_length := rfl
  zone_digits := isDigit_zeros

theorem isHexDigit_emptyTree :
    ∀ c ∈ text "4b825dc642cb6eb9a060e54bf8d69288fbee4904", isHexDigit c = true := by
  have hall : (text "4b825dc642cb6eb9a060e54bf8d69288fbee4904").all isHexDigit = true := by
    decide +kernel
  exact List.all_eq_true.1 hall

def emptyTree : ObjectName where
  text := text "4b825dc642cb6eb9a060e54bf8d69288fbee4904"
  text_ne_nil := by decide
  text_hex := isHexDigit_emptyTree

/-- A commit of the empty tree without a parent. -/
def octocatCommit (message : Text) : Commit where
  tree := emptyTree
  parents := []
  author := octocat
  committer := octocat
  signature := none
  message := message
  terminated := true

theorem readsBack_iff_rename : ReadsBack unixPlatform (octocatCommit (text "Rename a field")) := by
  have hident : ∀ w ∈ headerPrefixes, octocat.Fits unixPlatform w := fun w _ =>
    ⟨by decide, by decide, by decide, ordinalStartsWith_append w _⟩
  refine (readsBack_iff unixPlatform (octocatCommit (text "Rename a field"))).1
    ⟨hident _ (by simp [headerPrefixes]), hident _ (by simp [headerPrefixes]),
      fun signature h => ?_, .inr ⟨?_, .inl rfl⟩⟩
  · cases h
  · decide

/-- The second line of the message begins with the word `author`. -/
theorem not_readsBack_authorCommit :
    ¬∀ (platform : Platform) (c : Commit), ReadsBack platform c := by
  intro h
  have hfits := fits_of_readsBack keepsSpaces_unixPlatform
    (h unixPlatform (octocatCommit (text "Rename a field\nauthor is now a list")))
  have hmem : text "author is now a list" ∈
      (octocatCommit (text "Rename a field\nauthor is now a list")).messageLines := by decide
  rcases hfits.message with hnil | ⟨hlines, -⟩
  · exact absurd hnil (by decide)
  · exact absurd (hlines _ hmem).2 (by decide)

end DdTrace.Ci
