import DdTrace.Lib.Fields
import DdTrace.Native.Strings

/-!
# `GetEnvironmentValues`

The lists that the profiler reads from its environment (util.cpp). `Trim` leaves a string of
blanks alone, so that a blank piece becomes an element, and on Windows a value is read into a
buffer of a fixed size, which says nothing of a value that is too long. Otherwise the elements are
the fields of the value (`environmentValues_iff`).
-/

namespace DdTrace.Native.Strings

open Lib

/-- The variables, on Windows and elsewhere. -/
inductive Environment where
  | windows (getVariable : Text → Option Text)
  | other (miniutf : Miniutf) (getenv : List UInt8 → Option (List UInt8))

def maxBufSize : ℕ := 4096

/-- What is in the buffer after a call that failed. -/
abbrev Unspecified := {buf : Text // buf.length = maxBufSize}

/-- What `GetEnvironmentVariable` returns, and the buffer. -/
def getEnvironmentVariable (getVariable : Text → Option Text) (unspecified : Unspecified)
    (name : Text) : ℕ × Text :=
  match getVariable (cStr name) with
  | none => (0, unspecified)
  | some value =>
    if value.length < maxBufSize then (value.length, buffer maxBufSize (value ++ [0]))
    else (value.length + 1, unspecified)

def isBlankUnit (c : UInt16) : Bool := c == unit ' ' || c == unit '\t'

def findFirstNotOf (s : Text) : Option ℕ := s.findIdx? fun c => !isBlankUnit c

def findLastNotOf (s : Text) : Option ℕ :=
  (s.reverse.findIdx? fun c => !isBlankUnit c).map fun i => s.length - 1 - i

def trim (str : Text) : Text :=
  if str.length = 0 then []
  else
    let trimmed :=
      match findFirstNotOf str with
      | some lpos => if 0 < lpos then str.drop lpos else str
      | none => str
    match findLastNotOf trimmed with
    | some rpos => trimmed.take (rpos + 1)
    | none => trimmed

/-- The loop of `Split`, from `i` on, with what is left of the string. -/
def splitFrom (s : Text) (delim : ℕ) : Text → ℕ → ℕ → List Text
  | [], _, lpos => [s.drop lpos]
  | c :: rest, i, lpos =>
    if c.toNat = delim then
      (s.drop lpos).take (i - lpos) :: splitFrom s delim rest (i + 1) (i + 1)
    else splitFrom s delim rest (i + 1) lpos

def split (s : Text) (delim : ℕ) : List Text := splitFrom s delim s 0 0

def getEnvironmentValue (environment : Environment) (unspecified : Unspecified) (name : Text) :
    Text :=
  match environment with
  | .windows getVariable =>
    let (len, buf) := getEnvironmentVariable getVariable unspecified name
    trim (buf.take len)
  | .other miniutf getenv =>
    match getenv (toString (.other miniutf) name) with
    | none => []
    | some str => trim (toWSTRING (.other miniutf) str)

/-- With a delimiter of any width. -/
def getEnvironmentValues (environment : Environment) (unspecified : Unspecified) (name : Text)
    (delim : ℕ) : List Text :=
  ((split (getEnvironmentValue environment unspecified name) delim).map trim).filter
    fun s => !s.isEmpty

/-! ### What the list should be -/

def Environment.isWindows : Environment → Bool
  | .windows _ => true
  | .other _ _ => false

/-- The value of the variable, empty if there is none. -/
def Environment.value (environment : Environment) (name : Text) : Text :=
  match environment with
  | .windows getVariable => (getVariable (cStr name)).getD []
  | .other miniutf getenv =>
    ((getenv (toString (.other miniutf) name)).map (toWSTRING (.other miniutf))).getD []

def pieces (s : Text) (delim : ℕ) : List Text := s.splitOnP fun c => c.toNat == delim

/-- The pieces of the value, trimmed, but for those of which nothing is left. -/
def expectedValues (value : Text) (delim : ℕ) : List Text :=
  fields (fun c => c.toNat == delim) isBlankUnit value

structure Exact (environment : Environment) (unspecified : Unspecified) (name : Text)
    (delim : ℕ) : Prop where
  eq : getEnvironmentValues environment unspecified name delim
    = expectedValues (environment.value name) delim
  not_blank : ∀ s ∈ getEnvironmentValues environment unspecified name delim,
    s ≠ [] ∧ s.all isBlankUnit = false

/-- The value without the blanks at its ends, if it is anything but blanks. -/
def core (value : Text) : Text := if value.all isBlankUnit then value else strip isBlankUnit value

/-- No piece consists of blanks, but for those that are empty. -/
def NoBlankPiece (value : Text) (delim : ℕ) : Prop :=
  ∀ piece ∈ pieces (core value) delim, piece.all isBlankUnit = true → piece = []

/-! ### `Split` and `Trim` -/

variable {s rest piece : Text} {delim i lpos : ℕ}

theorem splitFrom_eq (hrest : s.drop i = rest) (hpos : lpos ≤ i) :
    splitFrom s delim rest i lpos
      = (pieces rest delim).modifyHead ((s.drop lpos).take (i - lpos) ++ ·) := by
  induction rest generalizing i lpos with
  | nil =>
    have hlen : s.length ≤ i := List.drop_eq_nil_iff.1 hrest
    rw [splitFrom, pieces, List.splitOnP_nil, List.modifyHead_cons, List.append_nil,
      List.take_of_length_le (by rw [List.length_drop]; omega)]
  | cons c rest ih =>
    have hnext : s.drop (i + 1) = rest := by
      rw [← List.drop_drop, hrest, List.drop_one, List.tail_cons]
    obtain ⟨p, ps, hp⟩ := List.exists_cons_of_ne_nil
      (List.splitOnP_ne_nil (fun c : UInt16 => c.toNat == delim) rest)
    rw [splitFrom, pieces, List.splitOnP_cons_eq_if_modifyHead, hp]
    split
    · rename_i hdelim
      rw [ih hnext (Nat.le_refl _), pieces, hp, if_pos (beq_iff_eq.2 hdelim), Nat.sub_self,
        List.take_zero, List.modifyHead_cons, List.modifyHead_cons, List.append_nil,
        List.nil_append]
    · rename_i hdelim
      have hc : (s.drop lpos)[i - lpos]? = some c := by
        rw [List.getElem?_drop, Nat.add_sub_cancel' hpos, ← List.head?_drop, hrest, List.head?_cons]
      rw [ih hnext (by omega), pieces, hp, if_neg (by simpa using hdelim), List.modifyHead_cons,
        List.modifyHead_cons, List.modifyHead_cons, Nat.sub_add_comm hpos, List.take_add_one, hc]
      simp

theorem split_eq (s : Text) (delim : ℕ) : split s delim = pieces s delim := by
  obtain ⟨p, ps, hp⟩ := List.exists_cons_of_ne_nil
    (List.splitOnP_ne_nil (fun c : UInt16 => c.toNat == delim) s)
  have hrest : s.drop 0 = s := List.drop_zero
  rw [split, splitFrom_eq hrest (Nat.le_refl 0), pieces, hp]
  rfl

theorem findFirstNotOf_eq (s : Text) : findFirstNotOf s =
    if s.all isBlankUnit then none else some (s.findIdx fun c => !isBlankUnit c) := by
  rw [findFirstNotOf]
  split
  · rename_i hall
    rw [List.findIdx?_eq_none_iff]
    intro c hc
    rw [List.all_eq_true.1 hall c hc, Bool.not_true]
  · rename_i hsome
    rw [List.findIdx?_eq_some_iff_findIdx_eq]
    refine ⟨?_, rfl⟩
    apply List.findIdx_lt_length_of_exists
    simpa using hsome

theorem findLastNotOf_eq (s : Text) : findLastNotOf s = (findFirstNotOf s.reverse).map
    fun i => s.length - 1 - i := rfl

theorem drop_findIdx (s : Text) :
    s.drop (s.findIdx fun c => !isBlankUnit c) = s.dropWhile isBlankUnit :=
  List.dropWhile_eq_drop_findIdx_not.symm

/-- `Trim` leaves a string of blanks alone. -/
theorem trim_eq_core (s : Text) : trim s = core s := by
  by_cases hempty : s.length = 0
  · rw [List.length_eq_zero_iff.1 hempty]
    rfl
  rw [trim, if_neg hempty, core]
  cases hall : s.all isBlankUnit with
  | true =>
    rw [findFirstNotOf_eq, hall, if_pos rfl, if_pos rfl]
    dsimp only
    rw [findLastNotOf_eq, findFirstNotOf_eq, List.all_reverse, hall, if_pos rfl]
    rfl
  | false =>
    have hdrop : (if 0 < s.findIdx fun c => !isBlankUnit c then
        s.drop (s.findIdx fun c => !isBlankUnit c) else s) = s.dropWhile isBlankUnit := by
      rw [← drop_findIdx]
      split
      · rfl
      · rename_i hzero
        rw [Nat.eq_zero_of_not_pos hzero, List.drop_zero]
    rw [findFirstNotOf_eq, hall, if_neg Bool.false_ne_true, if_neg Bool.false_ne_true]
    dsimp only
    rw [hdrop, strip, List.rdropWhile]
    -- what is left is not all blank
    have hrest : (s.dropWhile isBlankUnit).all isBlankUnit = false := by
      rw [Bool.eq_false_iff] at hall ⊢
      intro hrest
      apply hall
      rw [List.all_eq_true] at hrest ⊢
      apply strip_eq_nil_iff.1
      rw [strip, List.rdropWhile_eq_nil_iff]
      exact hrest
    generalize s.dropWhile isBlankUnit = t at hrest ⊢
    have hlt : (t.reverse.findIdx fun c => !isBlankUnit c) < t.length := by
      rw [← List.length_reverse]
      apply List.findIdx_lt_length_of_exists
      simpa using hrest
    have hlast : findLastNotOf t
        = some (t.length - 1 - t.reverse.findIdx fun c => !isBlankUnit c) := by
      rw [findLastNotOf_eq, findFirstNotOf_eq, List.all_reverse, hrest,
        if_neg Bool.false_ne_true, Option.map_some]
    rw [hlast]
    dsimp only
    rw [← drop_findIdx, List.drop_reverse, List.reverse_reverse]
    congr 1
    omega

/-! ### The elements -/

/-- The elements are the fields and the pieces of blanks. -/
theorem getEnvironmentValues_eq (environment : Environment) (unspecified : Unspecified)
    (name : Text) : getEnvironmentValues environment unspecified name delim =
      ((pieces (getEnvironmentValue environment unspecified name) delim).map core).filter
        fun s => !s.isEmpty := by
  rw [getEnvironmentValues, split_eq, funext trim_eq_core]

theorem core_of_blank (hs : s.all isBlankUnit = true) : core s = s := if_pos hs

/-- The value that is read has room in the buffer. -/
def Environment.Fits (environment : Environment) (name : Text) : Prop :=
  environment.isWindows = true → (environment.value name).length < maxBufSize

theorem getEnvironmentValue_of_fits {environment : Environment} {name : Text}
    (hfits : environment.Fits name) (unspecified : Unspecified) :
    getEnvironmentValue environment unspecified name = core (environment.value name) := by
  cases environment with
  | windows getVariable =>
    have hlen := hfits rfl
    rw [Environment.value] at hlen ⊢
    rw [getEnvironmentValue, getEnvironmentVariable]
    cases hvalue : getVariable (cStr name) with
    | none => rfl
    | some value =>
      rw [hvalue, Option.getD_some] at hlen
      dsimp only
      rw [if_pos hlen]
      dsimp only
      rw [buffer, List.append_assoc, List.take_left, trim_eq_core, Option.getD_some]
  | other miniutf getenv =>
    rw [getEnvironmentValue, Environment.value]
    cases getenv (toString (.other miniutf) name) with
    | none => rfl
    | some str => exact trim_eq_core _

/-- A value that is too long says nothing of what is read. -/
theorem getEnvironmentValue_of_not_fits {environment : Environment} {name : Text}
    (hfits : ¬ environment.Fits name) (unspecified : Unspecified) :
    getEnvironmentValue environment unspecified name = core unspecified := by
  rw [Environment.Fits, Classical.not_imp] at hfits
  cases environment with
  | other miniutf getenv => cases hfits.1
  | windows getVariable =>
    have hlen := hfits.2
    rw [Environment.value] at hlen
    rw [getEnvironmentValue, getEnvironmentVariable]
    cases hvalue : getVariable (cStr name) with
    | none =>
      rw [hvalue] at hlen
      exact absurd (by decide) hlen
    | some value =>
      rw [hvalue, Option.getD_some] at hlen
      have hbuf := unspecified.2
      dsimp only
      rw [if_neg hlen]
      dsimp only
      rw [List.take_of_length_le (by omega), trim_eq_core]

variable {environment : Environment} {unspecified : Unspecified} {name value : Text}

theorem mem_getEnvironmentValues (hpiece : piece ∈
      pieces (getEnvironmentValue environment unspecified name) delim)
    (hblank : piece.all isBlankUnit = true) (hne : piece ≠ []) :
    piece ∈ getEnvironmentValues environment unspecified name delim := by
  rw [getEnvironmentValues_eq, List.mem_filter, Bool.not_eq_true', List.isEmpty_eq_false_iff]
  exact ⟨List.mem_map.2 ⟨piece, hpiece, core_of_blank hblank⟩, hne⟩

/-- Where no piece consists of blanks, the elements are the fields. -/
theorem filter_core_eq (h : NoBlankPiece value delim) :
    ((pieces (core value) delim).map core).filter (fun s => !s.isEmpty)
      = expectedValues value delim := by
  have hcore : ∀ piece ∈ pieces (core value) delim, core piece = strip isBlankUnit piece := by
    intro piece hpiece
    rw [core]
    split
    · rename_i hblank
      rw [h piece hpiece hblank]
      rfl
    · rfl
  have hfields : expectedValues (core value) delim = expectedValues value delim := by
    rw [core]
    split
    · rfl
    · exact fields_strip value
  rw [List.map_congr_left hcore, ← hfields]
  rfl

theorem not_blank_of_mem_expectedValues (hs : s ∈ expectedValues value delim) :
    s ≠ [] ∧ s.all isBlankUnit = false := by
  rw [expectedValues, fields, List.mem_filter, Bool.not_eq_true', List.isEmpty_eq_false_iff] at hs
  obtain ⟨hmem, hne⟩ := hs
  obtain ⟨piece, -, rfl⟩ := List.mem_map.1 hmem
  refine ⟨hne, ?_⟩
  rw [Bool.eq_false_iff]
  intro hblank
  have hlast : ¬ isBlankUnit ((strip isBlankUnit piece).getLast hne) = true :=
    List.rdropWhile_last_not isBlankUnit _ hne
  exact hlast (List.all_eq_true.1 hblank _ (List.getLast_mem hne))

/-- A blank that is not the delimiter. -/
def otherBlank (delim : ℕ) : UInt16 := if delim = 9 then unit ' ' else unit '\t'

theorem otherBlank_spec (delim : ℕ) :
    isBlankUnit (otherBlank delim) = true ∧ (otherBlank delim).toNat ≠ delim := by
  rw [otherBlank]
  split
  · rename_i h
    rw [h]
    decide
  · rename_i h
    exact ⟨rfl, Ne.symm h⟩

/-- Whatever is in the buffer of a call that fails, the elements are the fields of the value and
none is blank, exactly if the value has room in the buffer and no piece of it consists of blanks,
but for those that are empty. -/
theorem environmentValues_iff (environment : Environment) (name : Text) (delim : ℕ) :
    (∀ unspecified, Exact environment unspecified name delim) ↔
      (environment.isWindows = true → (environment.value name).length < maxBufSize) ∧
        NoBlankPiece (environment.value name) delim := by
  constructor
  · intro h
    have hfits : environment.Fits name := by
      by_contra hnot
      -- the buffer is full of blanks
      obtain ⟨hblank, hdelim⟩ := otherBlank_spec delim
      have hall : (List.replicate maxBufSize (otherBlank delim)).all isBlankUnit = true := by
        rw [List.all_eq_true]
        intro c hc
        rw [List.eq_of_mem_replicate hc, hblank]
      have hpieces : pieces (List.replicate maxBufSize (otherBlank delim)) delim
          = [List.replicate maxBufSize (otherBlank delim)] := by
        apply List.splitOnP_eq_singleton
        intro c hc
        rw [List.eq_of_mem_replicate hc]
        exact beq_eq_false_iff_ne.2 hdelim
      have hmem : List.replicate maxBufSize (otherBlank delim) ∈ getEnvironmentValues environment
          ⟨List.replicate maxBufSize (otherBlank delim), List.length_replicate⟩ name delim := by
        apply mem_getEnvironmentValues _ hall (List.cons_ne_nil _ _)
        rw [getEnvironmentValue_of_not_fits hnot, core_of_blank hall, hpieces]
        exact List.mem_singleton_self _
      rw [((h _).not_blank _ hmem).2] at hall
      cases hall
    refine ⟨hfits, fun piece hpiece hblank => ?_⟩
    by_contra hne
    let unspecified : Unspecified := ⟨List.replicate maxBufSize 0, List.length_replicate⟩
    have hmem : piece ∈ getEnvironmentValues environment unspecified name delim := by
      apply mem_getEnvironmentValues _ hblank hne
      rw [getEnvironmentValue_of_fits hfits]
      exact hpiece
    rw [((h unspecified).not_blank piece hmem).2] at hblank
    cases hblank
  · rintro ⟨hfits, hnoblank⟩ unspecified
    have heq : getEnvironmentValues environment unspecified name delim
        = expectedValues (environment.value name) delim := by
      rw [getEnvironmentValues_eq, getEnvironmentValue_of_fits hfits]
      exact filter_core_eq hnoblank
    refine ⟨heq, ?_⟩
    rw [heq]
    exact fun s hs => not_blank_of_mem_expectedValues hs

/-- Windows with one value for every variable. -/
def oneValue (value : Text) : Environment := .windows fun _ => some value

/-- A blank between two delimiters becomes an element, and of a value of blanks that is too long
nothing is known. -/
theorem environmentValues_not_exact :
    (¬ ∀ environment unspecified name delim, Exact environment unspecified name delim) ∧
      (∀ unspecified, getEnvironmentValues (oneValue (text "a; ;b")) unspecified [] 59
        = [text "a", text " ", text "b"]) ∧
      ∀ unspecified : Unspecified, getEnvironmentValue
        (oneValue (List.replicate 4096 (unit ' '))) unspecified [] = trim unspecified := by
  have hblank : ∀ unspecified, getEnvironmentValues (oneValue (text "a; ;b")) unspecified [] 59
      = [text "a", text " ", text "b"] := by
    intro unspecified
    rw [getEnvironmentValues_eq, getEnvironmentValue_of_fits fun _ => by decide]
    decide
  refine ⟨fun h => ?_, hblank, fun unspecified => ?_⟩
  · let unspecified : Unspecified := ⟨List.replicate maxBufSize 0, List.length_replicate⟩
    have hexact := (h (oneValue (text "a; ;b")) unspecified [] 59).not_blank (text " ")
    rw [hblank] at hexact
    exact absurd (hexact (by decide)).2 (by decide)
  · rw [trim_eq_core, getEnvironmentValue_of_not_fits]
    intro hfits
    have hlen := hfits rfl
    rw [oneValue, Environment.value, Option.getD_some, List.length_replicate] at hlen
    exact absurd hlen (by decide)

end DdTrace.Native.Strings
