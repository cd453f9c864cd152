import DdTrace.HttpOverStreams.DatadogHttpClient

/-!
# The framing of a response

`Response` are the well-formed responses with a `Content-Length`, and `bytes` their bytes.
However the stream splits them, the client returns the status code, the reason phrase and the
headers of the response, and the buffer takes its body.
-/

namespace DdTrace.HttpOverStreams

open Lib Lib.Throwing

/-- White space in a line. -/
def isOws (c : UInt16) : Bool := c = unit ' ' || c = unit '\t'

def isVisible (c : UInt16) : Bool := 0x21 ≤ c.toNat && c.toNat ≤ 0x7E

def isFieldChar (c : UInt16) : Bool := isOws c || isVisible c

/-- The characters of a token, and some more. -/
def isNameChar (c : UInt16) : Bool := isVisible c && c ≠ unit ':'

/-- A header, with the white space around its value. The folding of a value into several lines
is obsolete: no header may be sent so. -/
structure Header where
  name : Text
  name_ne_nil : name ≠ []
  name_ok : ∀ c ∈ name, isNameChar c = true
  before : Text
  before_ok : ∀ c ∈ before, isOws c = true
  value : Text
  value_ok : ∀ c ∈ value, isFieldChar c = true
  value_head : value.head?.all (!isOws ·) = true
  value_last : value.getLast?.all (!isOws ·) = true
  after : Text
  after_ok : ∀ c ∈ after, isOws c = true

def crLf : Text := [carriageReturn, lineFeed]

/-- What comes behind the colon. -/
def Header.field (header : Header) : Text := header.before ++ header.value ++ header.after

def Header.line (header : Header) : Text := header.name ++ unit ':' :: (header.field ++ crLf)

def Header.toHttpHeader (header : Header) : HttpHeader := ⟨header.name, header.value⟩

def Header.isContentLength (header : Header) : Bool :=
  equalsIgnoreCase header.name contentLengthHeaderKey

/-- A response whose headers give the length of its body, in decimal digits. -/
structure Response where
  status : ℕ
  status_lt : status < 1000
  reason : Text
  reason_ok : ∀ c ∈ reason, isFieldChar c = true
  headers : List Header
  body : List UInt8
  has_contentLength : headers.any Header.isContentLength = true
  contentLength_ok : ∀ header ∈ headers, header.isContentLength = true → header.value ≠ [] ∧
    (∀ c ∈ header.value, isDigit c = true) ∧ digitsToNat header.value = body.length

/-- The three digits of a status code. -/
def statusText (status : ℕ) : Text :=
  [status / 100, status / 10 % 10, status % 10].map fun d => unit (Nat.digitChar d)

def version : Text := text "HTTP/1.1 "

def headerLines (headers : List Header) : Text := headers.flatMap Header.line ++ crLf

def ascii (chars : Text) : List UInt8 := chars.map fun c => UInt8.ofNat c.toNat

namespace Response

def head (r : Response) : Text :=
  version ++ statusText r.status ++ unit ' ' :: (r.reason ++ crLf ++ headerLines r.headers)

def bytes (r : Response) : List UInt8 := ascii r.head ++ r.body

end Response

/-! ## Characters -/

variable {c d : UInt16} {chars builder l t : Text} {rest : List UInt8} {fuel p : ℕ}

def Ascii (chars : Text) : Prop := ∀ c ∈ chars, c.toNat < 128

theorem asciiChar_ofNat (h : c.toNat < 128) : asciiChar (UInt8.ofNat c.toNat) = c := by
  have hb : (UInt8.ofNat c.toNat).toNat = c.toNat := by
    rw [UInt8.toNat_ofNat']
    omega
  unfold asciiChar
  rw [if_pos]
  · rw [hb, UInt16.ofNat_toNat]
  · rw [UInt8.lt_iff_toNat_lt, hb]
    exact h

theorem ascii_append : ascii (chars ++ l) = ascii chars ++ ascii l := List.map_append

theorem ascii_cons : ascii (c :: chars) = UInt8.ofNat c.toNat :: ascii chars := rfl

theorem length_ascii : (ascii chars).length = chars.length := List.length_map ..

theorem eq_space_iff : c = unit ' ' ↔ c.toNat = 0x20 := UInt16.toNat_inj.symm

theorem eq_tab_iff : c = unit '\t' ↔ c.toNat = 0x09 := UInt16.toNat_inj.symm

theorem isFieldChar_iff : isFieldChar c = true ↔ c.toNat = 0x20 ∨ c.toNat = 0x09 ∨
    0x21 ≤ c.toNat ∧ c.toNat ≤ 0x7E := by
  simp only [isFieldChar, isOws, isVisible, Bool.or_eq_true, Bool.and_eq_true, decide_eq_true_eq,
    eq_space_iff, eq_tab_iff, or_assoc]

theorem isNameChar_iff : isNameChar c = true ↔ (0x21 ≤ c.toNat ∧ c.toNat ≤ 0x7E) ∧ c ≠ unit ':' := by
  simp only [isNameChar, isVisible, Bool.and_eq_true, decide_eq_true_eq]

/-- A field character is ASCII and not the end of a line. -/
theorem isFieldChar_lt (h : isFieldChar c = true) : c.toNat < 128 ∧ c ≠ carriageReturn := by
  rw [isFieldChar_iff] at h
  refine ⟨by omega, ?_⟩
  rintro rfl
  have hcr : carriageReturn.toNat = 0x0D := rfl
  omega

theorem ascii_line (hok : ∀ c ∈ l, isFieldChar c = true) : Ascii (l ++ crLf) := by
  intro c hc
  rcases List.mem_append.1 hc with hc | hc
  · exact (isFieldChar_lt (hok c hc)).1
  · rcases List.mem_cons.1 hc with rfl | hc
    · decide
    · obtain rfl := List.mem_singleton.1 hc
      decide

/-- The white space of `Trim` in a line is that of the line. -/
theorem isWhiteSpace_eq (h : isFieldChar c = true) : isWhiteSpace c = isOws c := by
  rw [isFieldChar_iff] at h
  rcases h with h | h | ⟨hlo, hhi⟩
  · obtain rfl := eq_space_iff.2 h
    decide
  · obtain rfl := eq_tab_iff.2 h
    decide
  · rw [isWhiteSpace_eq_false hlo hhi, eq_comm, Bool.eq_false_iff]
    intro hows
    simp only [isOws, Bool.or_eq_true, decide_eq_true_eq, eq_space_iff, eq_tab_iff] at hows
    omega

theorem dropWhile_eq_self {q : UInt16 → Bool} (h : chars.head?.all (!q ·) = true) :
    chars.dropWhile q = chars := by
  cases chars with
  | nil => rfl
  | cons c chars =>
    rw [List.head?_cons, Option.all_some, Bool.not_eq_true'] at h
    exact List.dropWhile_cons_of_neg (Bool.not_eq_true _ ▸ h)

theorem trim_name {header : Header} : trim header.name = header.name := by
  refine trim_of_forall fun c hc => ?_
  obtain ⟨⟨hlo, hhi⟩, -⟩ := isNameChar_iff.1 (header.name_ok c hc)
  exact isWhiteSpace_eq_false hlo hhi

theorem trim_field {header : Header} : trim header.field = header.value := by
  have hows : ∀ {c : UInt16}, isOws c = true → isWhiteSpace c = true := by
    intro c hc
    rw [isWhiteSpace_eq (by rw [isFieldChar, hc, Bool.true_or]), hc]
  have hhead : ∀ {o : Option UInt16}, (∀ c ∈ o, c ∈ header.value) → o.all (!isOws ·) = true →
      o.all (!isWhiteSpace ·) = true := by
    intro o hmem ho
    cases o with
    | none => rfl
    | some c =>
      rw [Option.all_some] at ho ⊢
      rwa [isWhiteSpace_eq (header.value_ok c (hmem c rfl))]
  have hdrop : (header.value ++ header.after).dropWhile isWhiteSpace =
      header.value ++ header.after ∨ header.value = [] := by
    rcases hvalue : header.value with _ | ⟨c, value⟩
    · exact .inr rfl
    · refine .inl (dropWhile_eq_self ?_)
      have := @hhead header.value.head? (fun c hc => List.mem_of_mem_head? hc) header.value_head
      rwa [hvalue] at this
  have hafter : header.after.reverse.dropWhile isWhiteSpace = [] :=
    List.dropWhile_eq_nil_iff.2 fun c hc => hows (header.after_ok c (List.mem_reverse.1 hc))
  have hlast : header.value.reverse.dropWhile isWhiteSpace = header.value.reverse := by
    refine dropWhile_eq_self ?_
    rw [List.head?_reverse]
    exact hhead (fun c hc => List.mem_of_mem_getLast? hc) header.value_last
  unfold trim Header.field
  rw [List.append_assoc, List.dropWhile_append_of_pos fun c hc => hows (header.before_ok c hc)]
  rcases hdrop with hdrop | hvalue
  · rw [hdrop, List.reverse_append, List.dropWhile_append_of_pos, hlast, List.reverse_reverse]
    exact fun c hc => hows (header.after_ok c (List.mem_reverse.1 hc))
  · rw [hvalue, List.nil_append, List.dropWhile_eq_nil_iff.2 fun c hc => hows (header.after_ok c hc)]
    rfl

/-! ## One rule for each function -/

/-- What a run depends on: how the stream splits its bytes does not show. -/
def Reading.view (s : Reading) : UInt16 × List UInt8 := (s.currentChar, s.stream.rest)

/-- With the position, which counts up to the reason phrase. -/
def Reading.viewAt (s : Reading) : (UInt16 × List UInt8) × ℕ := (s.view, s.streamPosition)

theorem run_goNextChar {s : Reading} (hd : d.toNat < 128)
    (hrest : s.stream.rest = ascii (d :: chars) ++ rest) :
    runWith goNextChar s = (.ok (), { s with
      stream := (s.stream.read 1).2
      currentChar := d
      streamPosition := s.streamPosition + 1 }) ∧ (s.stream.read 1).2.rest = ascii chars ++ rest := by
  obtain ⟨hbytes, hrest'⟩ := ByteStream.read_one hrest
  rcases hread : s.stream.read 1 with ⟨bytes, stream⟩
  rw [hread] at hbytes hrest'
  obtain rfl : bytes = [UInt8.ofNat d.toNat] := hbytes
  refine ⟨?_, hrest'⟩
  unfold goNextChar
  rw [runWith_bind, runWith_get]
  simp only [hread, asciiChar_ofNat hd, runWith_set]

theorem yields_goNextChar (hd : d.toNat < 128) :
    Yields Reading.view goNextChar (c, ascii (d :: chars) ++ rest) () (d, ascii chars ++ rest) := by
  intro s hs
  obtain ⟨hrun, hrest⟩ := run_goNextChar hd (Prod.mk.inj hs).2
  exact ⟨_, hrun, Prod.ext rfl hrest⟩

theorem yieldsAt_goNextChar (hd : d.toNat < 128) :
    Yields Reading.viewAt goNextChar ((c, ascii (d :: chars) ++ rest), p) ()
      ((d, ascii chars ++ rest), p + 1) := by
  intro s hs
  obtain ⟨hview, rfl⟩ := Prod.mk.inj hs
  obtain ⟨hrun, hrest⟩ := run_goNextChar hd (Prod.mk.inj hview).2
  exact ⟨_, hrun, Prod.ext (Prod.ext rfl hrest) rfl⟩

variable {bytes chArray : List UInt8} {b : UInt8} {stopChar : UInt16} {n : ℕ}

/-- The last read of the loop ends with the last of the bytes. -/
theorem run_skipBytes {s : Reading} (hrest : s.stream.rest = bytes ++ rest)
    (hfuel : bytes.length < fuel) : ∃ last stream,
      runWith (skipBytes fuel bytes.length chArray) s = (.ok last, { s with stream }) ∧
      last.getLast? = (chArray ++ bytes).getLast? ∧ stream.rest = rest := by
  induction fuel generalizing s bytes chArray with
  | zero => exact absurd hfuel (Nat.not_lt_zero _)
  | succ fuel ih =>
    rcases Nat.eq_zero_or_pos bytes.length with hnil | hpos
    · obtain rfl := List.eq_nil_of_length_eq_zero hnil
      refine ⟨chArray, s.stream, ?_, by rw [List.append_nil], hrest⟩
      unfold skipBytes
      rw [List.length_nil, if_neg (Nat.lt_irrefl 0), runWith_pure]
    · have hne : s.stream.rest ≠ [] := by
        rw [hrest]
        exact List.append_ne_nil_of_left_ne_nil (List.length_pos_iff.1 hpos) rest
      have hcount : 0 < min bytes.length bufferSize := Nat.lt_min.2 ⟨hpos, by decide⟩
      have hread := ByteStream.read_ne_nil hne hcount
      obtain ⟨tail, hbytes, hrest'⟩ := ByteStream.read_prefix hrest (Nat.min_le_left _ bufferSize)
      rcases hstream : s.stream.read (min bytes.length bufferSize) with ⟨_ | ⟨b, first⟩, stream⟩
      · rw [hstream] at hread
        exact absurd rfl hread
      rw [hstream] at hbytes hrest'
      have hlen : bytes.length - (b :: first).length = tail.length := by
        rw [hbytes, List.length_append, Nat.add_sub_cancel_left]
      obtain ⟨last, stream', hrun, hlast, hend⟩ := @ih tail (b :: first) { s with stream } hrest' (by
        rw [hbytes, List.length_append, List.length_cons] at hfuel
        omega)
      refine ⟨last, stream', ?_, ?_, hend⟩
      · unfold skipBytes
        rw [if_pos hpos, runWith_bind, runWith_get]
        simp only [hstream, runWith_bind, runWith_set]
        rw [hlen]
        exact hrun
      · rw [hlast, hbytes]
        exact (List.getLast?_append_of_ne_nil chArray (List.cons_ne_nil b _)).symm

theorem yieldsAt_skipUntil (hp : p + (bytes.length + 1) = n) (hfuel : bytes.length + 1 < fuel) :
    Yields Reading.viewAt (skipUntil fuel n) ((c, bytes ++ b :: rest), p) ()
      ((asciiChar b, rest), n) := by
  intro s hs
  obtain ⟨hview, rfl⟩ := Prod.mk.inj hs
  obtain ⟨-, hrest⟩ := Prod.mk.inj hview
  have hrest' : s.stream.rest = (bytes ++ [b]) ++ rest := by
    rw [hrest, List.append_assoc, List.singleton_append]
  have hlen : (bytes ++ [b]).length = bytes.length + 1 := by simp
  obtain ⟨last, stream, hrun, hlast, hend⟩ :=
    @run_skipBytes rest fuel (bytes ++ [b]) [] s hrest' (by rw [hlen]; exact hfuel)
  have hsub : n - s.streamPosition = (bytes ++ [b]).length := by rw [hlen]; omega
  have hlast' : last.getLast? = some b := by
    rw [hlast, List.nil_append, List.getLast?_append_of_ne_nil _ (List.cons_ne_nil b [])]
    rfl
  refine ⟨{ s with
    stream
    currentChar := asciiChar b
    streamPosition := s.streamPosition + (bytes ++ [b]).length }, ?_, ?_⟩
  · unfold skipUntil
    rw [runWith_bind, runWith_get]
    simp only [if_neg (by omega : ¬ n < s.streamPosition), runWith_bind, hsub, hrun, hlast',
      runWith_modify]
  · refine Prod.ext (Prod.ext rfl hend) ?_
    show s.streamPosition + (bytes ++ [b]).length = n
    rw [hlen, hp]

theorem yieldsAt_readStatusCode (htext : Ascii chars) (hp : p + chars.length = statusCodeEnd)
    (hfuel : chars.length < fuel) :
    ∃ d, Yields Reading.viewAt (readStatusCode fuel builder) ((c, ascii chars ++ rest), p)
      (builder ++ chars) ((d, rest), statusCodeEnd) := by
  induction chars generalizing c builder p fuel with
  | nil =>
    obtain ⟨fuel, rfl⟩ := Nat.exists_eq_add_of_lt hfuel
    refine ⟨c, .get_bind fun s hs => ?_⟩
    obtain ⟨hview, hpos⟩ := Prod.mk.inj hs
    rw [List.length_nil, Nat.add_zero] at hp
    rw [if_neg (by rw [hpos, hp]; exact Nat.lt_irrefl _), List.append_nil]
    refine ⟨s, rfl, ?_⟩
    rw [hs, hp]
    rfl
  | cons e chars ih =>
    obtain ⟨fuel, rfl⟩ := Nat.exists_eq_add_of_lt hfuel
    rw [List.length_cons] at hp hfuel
    obtain ⟨d, hd⟩ := @ih e (builder ++ [e]) ((e :: chars).length + fuel) (p + 1)
      (fun c hc => htext c (List.mem_cons_of_mem _ hc)) (by omega)
      (by rw [List.length_cons]; omega)
    refine ⟨d, .get_bind fun s hs => ?_⟩
    have hpos : s.streamPosition = p := (Prod.mk.inj hs).2
    rw [if_pos (by rw [hpos]; omega)]
    rw [List.append_assoc] at hd
    refine Yields.bind (yieldsAt_goNextChar (htext e List.mem_cons_self)) ?_ s hs
    refine .get_bind fun s hs => ?_
    have hchar : s.currentChar = e := (Prod.mk.inj (Prod.mk.inj hs).1).1
    rw [hchar]
    exact hd s hs

theorem yields_readUntil (hl : l ++ [stopChar] = c :: t) (hstop : stopChar ∉ l)
    (hascii : Ascii (l ++ [stopChar])) (hfuel : l.length < fuel) :
    Yields Reading.view (readUntil stopChar fuel builder) (c, ascii t ++ rest) (builder ++ l)
      (stopChar, rest) := by
  induction l generalizing c t builder fuel with
  | nil =>
    obtain ⟨rfl, rfl⟩ := List.cons_eq_cons.1 hl
    obtain ⟨fuel, rfl⟩ := Nat.exists_eq_add_of_lt hfuel
    refine .get_bind fun s hs => ?_
    rw [if_pos (Prod.mk.inj hs).1, List.append_nil]
    exact ⟨s, rfl, hs⟩
  | cons e l ih =>
    rw [List.cons_append] at hl hascii
    obtain ⟨rfl, rfl⟩ := List.cons_eq_cons.1 hl
    obtain ⟨fuel, rfl⟩ := Nat.exists_eq_add_of_lt hfuel
    refine .get_bind fun s hs => ?_
    have hchar : s.currentChar = e := (Prod.mk.inj hs).1
    rw [if_neg (by rw [hchar]; exact fun h => hstop (h ▸ List.mem_cons_self)), hchar]
    obtain ⟨d, t', hl'⟩ : ∃ d t', l ++ [stopChar] = d :: t' :=
      List.exists_cons_of_ne_nil (List.append_ne_nil_of_right_ne_nil l (List.cons_ne_nil _ _))
    have htail : Ascii (l ++ [stopChar]) := fun c hc => hascii c (List.mem_cons_of_mem _ hc)
    have hd : d.toNat < 128 := htail d (by rw [hl']; exact List.mem_cons_self)
    have hrest := @ih d (builder ++ [e]) t' ((e :: l).length + fuel) hl'
      (fun h => hstop (List.mem_cons_of_mem _ h)) htail (by rw [List.length_cons]; omega)
    rw [List.append_assoc] at hrest
    refine Yields.bind (@yields_goNextChar e d t' rest hd) hrest s ?_
    rw [hs, hl']

theorem yields_isNewLine_of_ne (hc : c ≠ carriageReturn) :
    Yields Reading.view isNewLine (c, rest) false (c, rest) := by
  refine .get_bind fun s hs => ?_
  have hchar : s.currentChar = c := (Prod.mk.inj hs).1
  rw [if_neg (hchar ▸ hc)]
  exact ⟨s, rfl, hs⟩

theorem yields_isNewLine :
    Yields Reading.view isNewLine (carriageReturn, ascii [lineFeed] ++ rest) true
      (lineFeed, rest) := by
  refine .get_bind fun s hs => ?_
  rw [if_pos (Prod.mk.inj hs).1]
  refine Yields.bind (yields_goNextChar (by decide)) ?_ s hs
  refine .get_bind fun s hs => ?_
  rw [if_neg (not_not.2 (Prod.mk.inj hs).1)]
  exact ⟨s, rfl, hs⟩

/-- A line is read up to its end, which is skipped. -/
theorem yields_readUntilNewLine (hl : l ++ crLf = c :: t) (hok : ∀ c ∈ l, isFieldChar c = true)
    (hfuel : l.length + 1 < fuel) :
    Yields Reading.view (readUntilNewLine fuel builder) (c, ascii t ++ rest) (builder ++ l)
      (lineFeed, rest) := by
  obtain ⟨fuel, rfl⟩ := Nat.exists_eq_add_of_lt hfuel
  have hend : ∀ fuel (builder : Text), Yields Reading.view (readUntilNewLine (fuel + 1) builder)
      (carriageReturn, ascii [lineFeed] ++ rest) builder (lineFeed, rest) :=
    fun _ _ => yields_isNewLine.bind (.pure _)
  cases l with
  | nil =>
    obtain ⟨rfl, rfl⟩ := List.cons_eq_cons.1 hl
    rw [List.append_nil]
    exact hend _ builder
  | cons e l =>
    obtain ⟨rfl, rfl⟩ := List.cons_eq_cons.1 hl
    have hline : (e :: l) ++ [carriageReturn] = e :: (l ++ [carriageReturn]) := rfl
    have hcr : carriageReturn ∉ e :: l := fun h => (isFieldChar_lt (hok _ h)).2 rfl
    have hascii : Ascii (e :: l ++ [carriageReturn]) := by
      intro c hc
      refine ascii_line hok c ?_
      rcases List.mem_append.1 hc with hc | hc
      · exact List.mem_append_left crLf hc
      · obtain rfl := List.mem_singleton.1 hc
        exact List.mem_append_right _ List.mem_cons_self
    have hread := @yields_readUntil e builder (e :: l) (l ++ [carriageReturn])
      (ascii [lineFeed] ++ rest) ((e :: l).length + 1 + fuel) carriageReturn hline hcr hascii
      (by omega)
    rw [← List.append_assoc, ← ascii_append, List.append_assoc] at hread
    refine (yields_isNewLine_of_ne (isFieldChar_lt (hok e List.mem_cons_self)).2).bind ?_
    refine hread.bind ?_
    have hnewLine := hend ((e :: l).length + fuel) (builder ++ e :: l)
    rwa [Nat.add_right_comm] at hnewLine

theorem Header.field_ok {header : Header} : ∀ c ∈ header.field, isFieldChar c = true := by
  have hows : ∀ {chars : Text}, (∀ c ∈ chars, isOws c = true) →
      ∀ c ∈ chars, isFieldChar c = true := by
    intro chars h c hc
    rw [isFieldChar, h c hc, Bool.true_or]
  unfold Header.field
  intro c hc
  rcases List.mem_append.1 hc with hc | hc
  · rcases List.mem_append.1 hc with hc | hc
    · exact hows header.before_ok c hc
    · exact header.value_ok c hc
  · exact hows header.after_ok c hc

/-- A name is not the end of the headers, and the colon behind it is its end. -/
theorem Header.name_chars {header : Header} : unit ':' ∉ header.name ∧ carriageReturn ∉ header.name ∧
    Ascii (header.name ++ [unit ':']) := by
  refine ⟨fun h => ?_, fun h => ?_, fun c hc => ?_⟩
  · exact absurd rfl (isNameChar_iff.1 (header.name_ok _ h)).2
  · have hlow := (isNameChar_iff.1 (header.name_ok _ h)).1.1
    exact absurd hlow (by decide)
  · rcases List.mem_append.1 hc with hc | hc
    · have hhigh := (isNameChar_iff.1 (header.name_ok _ hc)).1.2
      omega
    · obtain rfl := List.mem_singleton.1 hc
      decide

theorem yields_readHeaders {headers : List Header} {done : List HttpHeader}
    (hfuel : (headerLines headers).length < fuel) :
    Yields Reading.view (readHeaders fuel done) (c, ascii (headerLines headers) ++ rest)
      (done ++ headers.map Header.toHttpHeader) (lineFeed, rest) := by
  induction headers generalizing c done fuel with
  | nil =>
    obtain ⟨fuel, rfl⟩ := Nat.exists_eq_add_of_lt hfuel
    rw [List.map_nil, List.append_nil]
    exact (yields_goNextChar (by decide)).bind (yields_isNewLine.bind (.pure _))
  | cons header headers ih =>
    obtain ⟨hcolon, hcr, hascii⟩ := header.name_chars
    obtain ⟨e, name, hname⟩ := List.exists_cons_of_ne_nil header.name_ne_nil
    obtain ⟨d, t, hfield⟩ : ∃ d t, header.field ++ crLf = d :: t :=
      List.exists_cons_of_ne_nil (List.append_ne_nil_of_right_ne_nil _ (List.cons_ne_nil _ _))
    have he : e.toNat < 128 := hascii e (by rw [hname]; exact List.mem_cons_self)
    have hd : d.toNat < 128 :=
      ascii_line header.field_ok d (by rw [hfield]; exact List.mem_cons_self)
    -- the line, character by character
    have hlines : headerLines (header :: headers) =
        e :: (name ++ [unit ':'] ++ (d :: (t ++ headerLines headers))) := by
      simp only [headerLines, List.flatMap_cons, Header.line, hname, hfield]
      simp
    have hlen : (headerLines (header :: headers)).length =
        header.name.length + (header.field.length + 3) + (headerLines headers).length := by
      have hlen' := congrArg List.length hfield
      rw [List.length_append, List.length_cons] at hlen'
      rw [hlines, hname]
      simp only [List.length_cons, List.length_append, List.length_nil]
      have hcrlf : crLf.length = 2 := rfl
      omega
    obtain ⟨fuel, rfl⟩ := Nat.exists_eq_add_of_lt hfuel
    rw [hlen] at hfuel ⊢
    have hkey := @yields_readUntil e [] header.name (name ++ [unit ':'])
      (ascii (d :: (t ++ headerLines headers)) ++ rest) _ (unit ':') (by rw [hname]; rfl) hcolon hascii
      (by omega : header.name.length <
        header.name.length + (header.field.length + 3) + (headerLines headers).length + fuel)
    have hvalue := @yields_readUntilNewLine d [] header.field t (ascii (headerLines headers) ++ rest) _
      hfield header.field_ok (by omega : header.field.length + 1 <
        header.name.length + (header.field.length + 3) + (headerLines headers).length + fuel)
    have hrest := @ih lineFeed
      (header.name.length + (header.field.length + 3) + (headerLines headers).length + fuel)
      (done ++ [header.toHttpHeader]) (by omega)
    rw [List.append_assoc, List.singleton_append, ← List.map_cons] at hrest
    rw [hlines]
    refine (yields_goNextChar he).bind ?_
    have hne : e ≠ carriageReturn := fun h => hcr (by rw [hname, h]; exact List.mem_cons_self)
    refine (yields_isNewLine_of_ne hne).bind ?_
    rw [ascii_append, List.append_assoc]
    refine hkey.bind ((yields_goNextChar hd).bind ?_)
    rw [ascii_append, List.append_assoc]
    refine hvalue.bind ?_
    rw [List.nil_append, List.nil_append, trim_name, trim_field]
    exact hrest

/-! ## The numbers -/

variable {info : NumberFormatInfo}

theorem isDigit_digitChar : ∀ n < 10, (Nat.digitChar n).isDigit = true := by decide

theorem digitChar_ok : ∀ n < 10,
    isDigit (unit (Nat.digitChar n)) = true ∧ (unit (Nat.digitChar n)).toNat < 128 := by
  decide

theorem mem_statusText {status : ℕ} (h : status < 1000) (hc : c ∈ statusText status) :
    isDigit c = true ∧ c.toNat < 128 := by
  obtain ⟨d, hd, rfl⟩ := List.mem_map.1 hc
  simp only [List.mem_cons, List.not_mem_nil, or_false] at hd
  exact digitChar_ok d (by omega)

theorem digitsToNat_statusText {status : ℕ} (h : status < 1000) :
    digitsToNat (statusText status) = status := by
  have hdigits : ∀ c ∈ [status / 100, status / 10 % 10, status % 10].map Nat.digitChar,
      c.isDigit = true := by
    intro c hc
    obtain ⟨d, hd, rfl⟩ := List.mem_map.1 hc
    simp only [List.mem_cons, List.not_mem_nil, or_false] at hd
    exact isDigit_digitChar d (by omega)
  have hunits : statusText status =
      ([status / 100, status / 10 % 10, status % 10].map Nat.digitChar).map unit := rfl
  rw [hunits, digitsToNat_map_unit hdigits, List.map_cons, List.map_cons, List.map_cons,
    List.map_nil]
  rw [Nat.ofDigitChars_cons_digitChar_of_lt_ten (by omega),
    Nat.ofDigitChars_cons_digitChar_of_lt_ten (by omega),
    Nat.ofDigitChars_cons_digitChar_of_lt_ten (by omega), Nat.ofDigitChars_nil]
  omega

/-- The length of the content, if it is an `Int64`. -/
def contentLengthOf (n : ℕ) : Option Int64 := if n < 2 ^ 63 then some (.ofInt n) else none

theorem getValue_contentLength {r : Response} : ∃ value,
    getValue (r.headers.map Header.toHttpHeader) contentLengthHeaderKey = some value ∧
      value ≠ [] ∧ (∀ c ∈ value, isDigit c = true) ∧ digitsToNat value = r.body.length := by
  have hany : (r.headers.find? Header.isContentLength).isSome = true := by
    rw [List.find?_isSome]
    exact List.any_eq_true.1 r.has_contentLength
  obtain ⟨header, hfind⟩ := Option.isSome_iff_exists.1 hany
  have hok := r.contentLength_ok header (List.mem_of_find?_eq_some hfind)
    (List.find?_some hfind)
  refine ⟨header.value, ?_, hok⟩
  unfold getValue
  rw [List.find?_map]
  have hsame : (fun header : HttpHeader =>
      equalsIgnoreCase header.name contentLengthHeaderKey) ∘ Header.toHttpHeader =
      Header.isContentLength := rfl
  rw [hsame, hfind]
  rfl

theorem tryParseInt32_status (h : info.Symbols) {status : ℕ} (hlt : status < 1000) :
    tryParseInt32 info (statusText status) = some (.ofInt status) := by
  have hdigits : ∀ c ∈ statusText status, isDigit c = true := fun c hc => (mem_statusText hlt hc).1
  have hne : statusText status ≠ [] := List.cons_ne_nil _ _
  rw [tryParseInt32, parseInteger_digits h hne hdigits, digitsToNat_statusText hlt, Option.bind_some,
    if_pos (by omega)]

theorem contentLength_eq (h : info.Symbols) (r : Response) :
    (getValue (r.headers.map Header.toHttpHeader) contentLengthHeaderKey).bind
      (tryParseInt64 info) = contentLengthOf r.body.length := by
  obtain ⟨value, hvalue, hne, hdigits, hlen⟩ := @getValue_contentLength r
  rw [hvalue, Option.bind_some, tryParseInt64, parseInteger_digits h hne hdigits, hlen,
    Option.bind_some]
  unfold contentLengthOf
  by_cases hlt : r.body.length < 2 ^ 63
  · rw [if_pos hlt, if_pos (by omega)]
  · rw [if_neg hlt, if_neg (by omega)]

/-! ## The response -/

/-- What the client returns for a response. -/
def Response.toHttpResponse (r : Response) : HttpResponse where
  statusCode := .ofInt r.status
  responseMessage := r.reason
  headers := r.headers.map Header.toHttpHeader
  content := ⟨contentLengthOf r.body.length⟩

theorem ascii_bytes {r : Response} : r.bytes ++ rest = ascii (text "HTTP/1.1") ++
    UInt8.ofNat (unit ' ').toNat :: (ascii (statusText r.status) ++ ([] ++ UInt8.ofNat (unit ' ').toNat ::
      (ascii (r.reason ++ crLf) ++ (ascii (headerLines r.headers) ++ (r.body ++ rest))))) := by
  have hversion : version = text "HTTP/1.1" ++ [unit ' '] := rfl
  unfold Response.bytes Response.head
  rw [hversion]
  simp only [ascii_append, ascii_cons, List.append_assoc, List.cons_append, List.nil_append]

theorem length_bytes {r : Response} : r.bytes.length =
    15 + r.reason.length + (headerLines r.headers).length + r.body.length := by
  have hversion : version.length = 9 := rfl
  have hcrlf : crLf.length = 2 := rfl
  have hstatus : (statusText r.status).length = 3 := rfl
  unfold Response.bytes Response.head
  simp only [List.length_append, List.length_cons, length_ascii]
  omega

theorem run_readResponseAsync (h : info.Symbols) (r : Response) {s : ByteStream}
    (hs : s.rest = r.bytes ++ rest) (hfuel : r.bytes.length < fuel) : ∃ s',
    runWith (readResponseAsync info fuel) (.start s) = (.ok r.toHttpResponse, s') ∧
      s'.stream.rest = r.body ++ rest := by
  rw [length_bytes] at hfuel
  have hstart : (Reading.start s).viewAt = ((0, r.bytes ++ rest), 0) :=
    Prod.ext (Prod.ext rfl hs) rfl
  rw [ascii_bytes] at hstart
  have hstatus : (statusText r.status).length = 3 := rfl
  -- up to the status code, the status code, up to the reason phrase
  have hskip := @yieldsAt_skipUntil (0)
    (ascii (statusText r.status) ++ ([] ++ UInt8.ofNat (unit ' ').toNat ::
      (ascii (r.reason ++ crLf) ++ (ascii (headerLines r.headers) ++ (r.body ++ rest)))))
    fuel 0 (ascii (text "HTTP/1.1")) (UInt8.ofNat (unit ' ').toNat) statusCodeStart rfl (by
      rw [length_ascii]
      show 8 + 1 < fuel
      omega)
  obtain ⟨s₁, hrun₁, hs₁⟩ := hskip _ hstart
  obtain ⟨d, hread⟩ := @yieldsAt_readStatusCode (asciiChar (UInt8.ofNat (unit ' ').toNat))
    (statusText r.status) [] ([] ++ UInt8.ofNat (unit ' ').toNat ::
      (ascii (r.reason ++ crLf) ++ (ascii (headerLines r.headers) ++ (r.body ++ rest))))
    fuel statusCodeStart (fun c hc => (mem_statusText r.status_lt hc).2) rfl (by omega)
  obtain ⟨s₂, hrun₂, hs₂⟩ := hread s₁ hs₁
  obtain ⟨s₃, hrun₃, hs₃⟩ := @yieldsAt_skipUntil d
    (ascii (r.reason ++ crLf) ++ (ascii (headerLines r.headers) ++ (r.body ++ rest)))
    fuel statusCodeEnd [] (UInt8.ofNat (unit ' ').toNat) startOfReasonPhrase rfl
    (by rw [List.length_nil]; omega) s₂ hs₂
  -- the reason phrase and the headers
  obtain ⟨e, t, hline⟩ : ∃ e t, r.reason ++ crLf = e :: t :=
    List.exists_cons_of_ne_nil (List.append_ne_nil_of_right_ne_nil _ (List.cons_ne_nil _ _))
  have he : e.toNat < 128 := ascii_line r.reason_ok e (by rw [hline]; exact List.mem_cons_self)
  have hview₃ := (Prod.mk.inj hs₃).1
  rw [hline] at hview₃
  obtain ⟨s₄, hrun₄, hs₄⟩ := yields_goNextChar he s₃ hview₃
  obtain ⟨s₅, hrun₅, hs₅⟩ := @yields_readUntilNewLine e [] r.reason t
    (ascii (headerLines r.headers) ++ (r.body ++ rest)) fuel hline r.reason_ok (by omega) s₄ hs₄
  obtain ⟨s₆, hrun₆, hs₆⟩ := @yields_readHeaders lineFeed (r.body ++ rest) fuel r.headers []
    (by omega) s₅ hs₅
  refine ⟨s₆, ?_, (Prod.mk.inj hs₆).2⟩
  rw [List.nil_append] at hrun₂ hrun₅ hrun₆
  unfold readResponseAsync
  refine runWith_bind_eq_ok.2 ⟨_, s₁, hrun₁, runWith_bind_eq_ok.2 ⟨_, s₂, hrun₂, ?_⟩⟩
  rw [tryParseInt32_status h r.status_lt]
  refine runWith_bind_eq_ok.2 ⟨_, s₃, hrun₃, runWith_bind_eq_ok.2 ⟨_, s₄, hrun₄, ?_⟩⟩
  refine runWith_bind_eq_ok.2 ⟨_, s₅, hrun₅, runWith_bind_eq_ok.2 ⟨_, s₆, hrun₆, ?_⟩⟩
  rw [contentLength_eq h r]
  rfl

/-! ## The body -/

variable {buffer : Buffer} {offset : ℕ}

/-- A read into the buffer. -/
theorem run_readAsync {s : ByteStream} {count : ℕ} (hs : s.rest = bytes ++ rest)
    (hcount : count ≤ bytes.length) (hfits : offset + count ≤ buffer.bytes.length) :
    ∃ first tail buffer' s', bytes = first ++ tail ∧ (0 < count → first ≠ []) ∧
      runWith (readAsync buffer offset count) s = (.ok (buffer', first.length), s') ∧
      buffer'.bytes = buffer.bytes.take offset ++ first ++
        buffer.bytes.drop (offset + first.length) ∧ s'.rest = tail ++ rest := by
  obtain ⟨tail, hbytes, hrest⟩ := ByteStream.read_prefix hs hcount
  have hbound : (0 : ℤ) ≤ count ∧ (offset : ℤ) + count ≤ buffer.bytes.length := by omega
  have hlen := @ByteStream.length_read_le s count
  refine ⟨(s.read count).1, tail, buffer.write offset (s.read count).1 (by omega),
    (s.read count).2, hbytes, fun hpos => ?_, ?_, rfl, hrest⟩
  · refine ByteStream.read_ne_nil ?_ hpos
    rw [hs]
    refine List.append_ne_nil_of_left_ne_nil (List.length_pos_iff.1 ?_) rest
    omega
  · unfold readAsync
    rw [dif_pos hbound]
    rfl

theorem run_copyLoop {s : ByteStream} (hs : s.rest = bytes ++ rest) (hfuel : bytes.length < fuel)
    (hfits : offset + bytes.length ≤ buffer.bytes.length) : ∃ buffer' s',
    runWith (copyLoop fuel buffer offset bytes.length) s = (.ok buffer', s') ∧
      buffer'.bytes = buffer.bytes.take offset ++ bytes ++
        buffer.bytes.drop (offset + bytes.length) ∧ s'.rest = rest := by
  induction fuel generalizing s bytes buffer offset with
  | zero => exact absurd hfuel (Nat.not_lt_zero _)
  | succ fuel ih =>
    have hlt := buffer.length_lt
    have hmin : min (bytes.length : ℤ) (2 ^ 31 - 1) = bytes.length := by omega
    obtain ⟨first, tail, buffer', s', hbytes, hfirst, hrun, hbuffer, hrest⟩ :=
      run_readAsync hs le_rfl hfits
    have hlen : bytes.length = first.length + tail.length := by rw [hbytes, List.length_append]
    have hwrite : (buffer.bytes.take offset ++ first).length = offset + first.length := by
      rw [List.length_append, List.length_take, Nat.min_eq_left (by omega)]
    by_cases hend : first.length = 0 ∨ (bytes.length : ℤ) - first.length ≤ 0
    · -- nothing is left, also where there was nothing to begin with
      obtain rfl : tail = [] := by
        rcases hend with hend | hend
        · refine List.eq_nil_of_length_eq_zero ?_
          have hzero : ¬ 0 < bytes.length := fun hpos =>
            hfirst hpos (List.eq_nil_of_length_eq_zero hend)
          omega
        · exact List.eq_nil_of_length_eq_zero (by omega)
      rw [List.append_nil] at hbytes
      refine ⟨buffer', s', ?_, by rw [hbuffer, hbytes], hrest⟩
      unfold copyLoop
      simp only [hmin]
      refine runWith_bind_eq_ok.2 ⟨_, s', hrun, ?_⟩
      simp only
      rw [if_pos hend]
      rfl
    · have hremaining : (bytes.length : ℤ) - first.length = tail.length := by omega
      have hfits' : offset + first.length + tail.length ≤ buffer'.bytes.length := by
        rw [hbuffer, List.length_append, hwrite, List.length_drop]
        omega
      obtain ⟨buffer'', s'', hrun', hbuffer', hrest'⟩ := ih hrest (by omega) hfits'
      refine ⟨buffer'', s'', ?_, ?_, hrest'⟩
      · unfold copyLoop
        simp only [hmin]
        refine runWith_bind_eq_ok.2 ⟨_, s', hrun, ?_⟩
        simp only
        rw [if_neg hend, hremaining]
        exact hrun'
      · have htake : buffer'.bytes.take (offset + first.length) = buffer.bytes.take offset ++ first := by
          rw [hbuffer, ← hwrite, List.take_left]
        have hdrop : buffer'.bytes.drop (offset + first.length + tail.length) =
            buffer.bytes.drop (offset + bytes.length) := by
          rw [hbuffer, ← hwrite, ← List.drop_drop, List.drop_left, hwrite, List.drop_drop, hlen,
            Nat.add_assoc]
        rw [hbuffer', htake, hdrop, hbytes, ← List.append_assoc]

/-- However the stream splits the bytes of a response, the client returns its status code, its
reason phrase and its headers, and leaves the stream at its body, which is what is copied into
a buffer of that size or more. -/
theorem readResponse_copyToAsync (h : info.Symbols) (r : Response) {s : ByteStream}
    (hs : s.rest = r.bytes ++ rest) (hfuel : r.bytes.length < fuel) : ∃ response s',
    runWith (readResponseAsync info fuel) (.start s) = (.ok response, s') ∧
      response.statusCode.toInt = r.status ∧ response.responseMessage = r.reason ∧
      response.headers = r.headers.map Header.toHttpHeader ∧ s'.stream.rest = r.body ++ rest ∧
      ∀ buffer : Buffer, r.body.length ≤ buffer.bytes.length → ∃ buffer' s'',
        runWith (response.content.copyToAsync fuel buffer) s'.stream = (.ok buffer', s'') ∧
          buffer'.bytes = r.body ++ buffer.bytes.drop r.body.length ∧ s''.rest = rest := by
  obtain ⟨s', hrun, hrest⟩ := run_readResponseAsync h r hs hfuel
  refine ⟨r.toHttpResponse, s', hrun, ?_, rfl, rfl, hrest, fun buffer hle => ?_⟩
  · have hlt := r.status_lt
    show (Int32.ofInt r.status).toInt = r.status
    exact Int32.toInt_ofInt_of_le (by omega) (by omega)
  · have hlt := buffer.length_lt
    rw [length_bytes] at hfuel
    obtain ⟨buffer', s'', hcopy, hbuffer, hrest'⟩ :=
      @run_copyLoop rest fuel r.body buffer 0 s'.stream hrest (by omega) (by omega)
    refine ⟨buffer', s'', ?_, ?_, hrest'⟩
    · have hlength : (Int64.ofInt r.body.length).toInt = r.body.length :=
        Int64.toInt_ofInt_of_le (by omega) (by omega)
      unfold StreamContent.copyToAsync Response.toHttpResponse contentLengthOf
      simp only [if_pos (by omega : r.body.length < 2 ^ 63), hlength]
      rw [if_neg (by omega)]
      exact hcopy
    · rw [hbuffer, List.take_zero, List.nil_append, Nat.zero_add]

def contentLengthHeader : Header where
  name := text "Content-Length"
  name_ne_nil := by decide
  name_ok := List.all_eq_true.1 (by decide)
  before := [unit ' ']
  before_ok := List.all_eq_true.1 (by decide)
  value := [unit '2']
  value_ok := List.all_eq_true.1 (by decide)
  value_head := by decide
  value_last := by decide
  after := []
  after_ok := nofun

/-- `HTTP/1.1 200 OK` with the body `{}`. -/
def okResponse : Response where
  status := 200
  status_lt := by decide
  reason := text "OK"
  reason_ok := List.all_eq_true.1 (by decide)
  headers := [contentLengthHeader]
  body := [0x7B, 0x7D]
  has_contentLength := by decide
  contentLength_ok header hmem _ := by
    obtain rfl := List.mem_singleton.1 hmem
    exact ⟨by decide, List.all_eq_true.1 (by decide), by decide⟩

theorem okResponse_read : ∃ response s',
    runWith (readResponseAsync .invariantInfo 50) (.start ⟨okResponse.bytes, fun k => k % 3⟩) =
        (.ok response, s') ∧
      response.statusCode.toInt = 200 ∧ response.responseMessage = [unit 'O', unit 'K'] ∧
      response.headers = [⟨text "Content-Length", [unit '2']⟩] ∧ s'.stream.rest = [0x7B, 0x7D] ∧
      ∀ buffer : Buffer, 2 ≤ buffer.bytes.length → ∃ buffer' s'',
        runWith (response.content.copyToAsync 50 buffer) s'.stream = (.ok buffer', s'') ∧
          buffer'.bytes = 0x7B :: 0x7D :: buffer.bytes.drop 2 ∧ s''.rest = [] :=
  readResponse_copyToAsync NumberFormatInfo.symbols_invariantInfo okResponse
    (List.append_nil _).symm (by decide)

end DdTrace.HttpOverStreams
