import DdTrace.Lib.Leftmost
import DdTrace.Lib.Text

/-!
# Branch and tag names

`CleanBranchAndTag` takes the prefix of a remote or of a kind of reference from the name of the
branch and from that of the tag, and moves the name of a tag that was given as a branch.
-/

namespace DdTrace.Ci

open Lib

/-! ## The code -/

def newLine : UInt16 := unit '\n'

/-- The alternatives of the regular expression, with the anchors where it has them. -/
def regex : List (LineAlternative UInt16) :=
  [⟨true, text "refs/heads/tags/", false⟩,
   ⟨false, text "refs/heads/", false⟩,
   ⟨false, text "refs/tags/", false⟩,
   ⟨false, text "refs/", false⟩,
   ⟨false, text "origin/tags/", false⟩,
   ⟨false, text "origin/", true⟩]

/-- `regex.Match(s)`: the group that took part, and its value. -/
def regexMatch (s : Text) : Option (ℕ × Text) := leftmost newLine regex true s

/-- `match.Groups[k].Value` -/
def groupValue (found : ℕ × Text) (k : ℕ) : Text := if found.1 = k then found.2 else []

def isNullOrEmpty (s : Option Text) : Bool := s.getD [] = []

def tagOfMatch (found : ℕ × Text) : Text :=
  if !isBlank (groupValue found 1) then groupValue found 1
  else if !isBlank (groupValue found 3) then groupValue found 3
  else if !isBlank (groupValue found 5) then groupValue found 5
  else if !isBlank (groupValue found 2) then groupValue found 2
  else groupValue found 4

def branchOfMatch (found : ℕ × Text) : Text :=
  if !isBlank (groupValue found 2) then groupValue found 2
  else if !isBlank (groupValue found 4) then groupValue found 4
  else groupValue found 6

/-- The tag that the name of a branch has in it. -/
def tagOfBranchMatch (found : ℕ × Text) : Text :=
  if !isBlank (groupValue found 1) then groupValue found 1
  else if !isBlank (groupValue found 3) then groupValue found 3
  else groupValue found 5

/-- The first `try`. -/
def cleanTag (tag : Option Text) : Option Text :=
  if isNullOrEmpty tag then tag
  else
    match regexMatch (tag.getD []) with
    | some found => some (tagOfMatch found)
    | none => tag

/-- The second `try`: the branch and the tag. -/
def cleanBranch (branch tag : Option Text) : Option Text × Option Text :=
  if isNullOrEmpty branch then (branch, tag)
  else
    match regexMatch (branch.getD []) with
    | some found =>
      (some (branchOfMatch found), if isNullOrEmpty tag then some (tagOfBranchMatch found) else tag)
    | none => (branch, tag)

def cleanBranchAndTag (branch tag : Option Text) : Option Text × Option Text :=
  cleanBranch branch (cleanTag tag)

/-! ## The purpose -/

/-- The prefixes of remotes and references; `refs` says whether a bare `refs/` is one. -/
def prefixes (refs : Bool) : List Text :=
  [text "origin/", text "origin/tags/", text "refs/heads/", text "refs/heads/tags/",
    text "refs/tags/", text "tags/"] ++ if refs then [text "refs/"] else []

/-- The prefixes of tags. -/
def tagPrefixes : List Text := [text "refs/heads/tags/", text "refs/tags/", text "origin/tags/"]

/-- Nothing but a prefix is gone. -/
def Stripped (refs : Bool) (name cleaned : Text) : Prop :=
  cleaned = name ∨ ∃ p ∈ prefixes refs, name = p ++ cleaned

instance (refs : Bool) (name cleaned : Text) : Decidable (Stripped refs name cleaned) :=
  inferInstanceAs (Decidable (_ ∨ _))

/-- A branch that is a tag is emptied, and is the tag from then on if there is none. -/
def StrippedOrMoved (refs : Bool) (branch tag branch' tag' : Text) : Prop :=
  Stripped refs branch branch' ∧ tag' = tag ∨
    ∃ p ∈ tagPrefixes, ∃ name, branch = p ++ name ∧ branch' = [] ∧
      tag' = if tag = [] then name else tag

/-- Neither step takes more than a prefix from a name, and a second time nothing changes. -/
structure PrefixStrip (refs : Bool) (branch tag : Option Text) : Prop where
  tagStep : Stripped refs (tag.getD []) ((cleanTag tag).getD [])
  branchStep : StrippedOrMoved refs (branch.getD []) ((cleanTag tag).getD [])
    ((cleanBranchAndTag branch tag).1.getD []) ((cleanBranchAndTag branch tag).2.getD [])
  idempotent : cleanBranchAndTag (cleanBranchAndTag branch tag).1 (cleanBranchAndTag branch tag).2 =
    cleanBranchAndTag branch tag

/-! ## Where it is one -/

/-- The name starts with the literal of the group, and with none of those before it. -/
def Leads (name : Text) (k : ℕ) (rest : Text) : Prop :=
  firstAt newLine true name 1 regex = some (k, rest)

/-- Behind the prefix there is one line, not all white space where the group asks for that, and
nothing that matches again. -/
structure OneLine (name : Text) (blankGroups : List ℕ) (k : ℕ) (rest : Text) : Prop where
  line : newLine ∉ name
  once : regexMatch rest = none
  blank : rest = [] ∨ k ∈ blankGroups ∨ isBlank rest = false

/-- Nothing matches, or a prefix that the name starts with, and not `origin/` with a name behind
it, whose group is left out. -/
def TagOk (refs : Bool) (tag : Text) : Prop :=
  regexMatch tag = none ∨ ∃ k rest, Leads tag k rest ∧ OneLine tag [4] k rest ∧
    (k = 4 → refs = true) ∧ (k = 6 → rest = [])

/-- The tag is empty, if need be once its prefix is gone. -/
def TagEmpty (tag : Text) : Prop := tag = [] ∨ ∃ k, Leads tag k []

def BranchOk (refs : Bool) (branch tag : Text) : Prop :=
  regexMatch branch = none ∨ ∃ k rest, Leads branch k rest ∧
    if k ∈ [1, 3, 5] then TagEmpty tag → OneLine branch [5] k rest
    else OneLine branch [6] k rest ∧ (k = 4 → refs = true)

/-! ## Matches -/

variable {refs : Bool} {name rest group : Text} {k : ℕ} {branch tag : Option Text}

theorem regex_literal_ne_nil : ∀ a ∈ regex, a.literal ≠ [] := by decide

theorem length_of_regexMatch (h : regexMatch name = some (k, group)) : group.length < name.length :=
  length_of_leftmost regex_literal_ne_nil h

theorem regexMatch_nil : regexMatch [] = none := by decide

/-- The literal of a group. -/
def literalOf (k : ℕ) : Text := ((regex[k - 1]?).map LineAlternative.literal).getD []

theorem firstAt_regex {atStart : Bool} (h : firstAt newLine atStart name 1 regex = some (k, group)) :
    k ∈ [1, 2, 3, 4, 5, 6] ∧ ∃ tail, name = literalOf k ++ (group ++ tail) ∧ newLine ∉ group ∧
      (newLine ∉ name → tail = []) := by
  obtain ⟨i, a, rfl, hi, hmatch⟩ := firstAt_eq_some h
  obtain ⟨-, tail, rfl, hnot, htail⟩ := LineAlternative.matchAt_eq_some hmatch
  have hlt : i < 6 := (List.getElem?_eq_some_iff.1 hi).1
  refine ⟨?_, tail, ?_, hnot, fun hline => ?_⟩
  · simp only [List.mem_cons, List.not_mem_nil, or_false]
    omega
  · rw [literalOf, Nat.add_sub_cancel_left, hi]
    rfl
  · rcases htail with rfl | ⟨t, rfl⟩
    · rfl
    · simp at hline

theorem Leads.eq (h : Leads name k rest) (hline : newLine ∉ name) :
    k ∈ [1, 2, 3, 4, 5, 6] ∧ name = literalOf k ++ rest := by
  obtain ⟨hk, tail, hname, -, htail⟩ := firstAt_regex h
  rw [htail hline, List.append_nil] at hname
  exact ⟨hk, hname⟩

theorem Leads.regexMatch (h : Leads name k rest) : regexMatch name = some (k, rest) :=
  leftmost_of_firstAt h

/-! ## Prefixes -/

theorem newLine_notMem_prefixes : ∀ refs, ∀ p ∈ prefixes refs, newLine ∉ p := by decide

/-- What is stripped to one line was one line. -/
theorem Stripped.line {cleaned : Text} (h : Stripped refs name cleaned) (hline : newLine ∉ cleaned) :
    newLine ∉ name := by
  rcases h with rfl | ⟨p, hp, rfl⟩
  · exact hline
  · rw [List.mem_append, not_or]
    exact ⟨newLine_notMem_prefixes refs p hp, hline⟩

/-- Every prefix but `tags/` starts with a literal. -/
theorem literal_of_prefix : ∀ refs, ∀ p ∈ prefixes refs, p ≠ text "tags/" →
    ∃ a ∈ regex, a.literal <+: p := by
  decide

theorem firstAt_ne_none {a : LineAlternative UInt16} (ha : a ∈ regex) (hline : newLine ∉ name)
    (h : a.literal <+: name) : firstAt newLine true name 1 regex ≠ none := by
  intro hnone
  have hmatch := firstAt_eq_none.1 hnone a ha
  obtain ⟨rest, hrest⟩ := h
  rw [LineAlternative.matchAt_of_notMem hline, Bool.not_true, Bool.and_false,
    if_neg Bool.false_ne_true, dropPrefix?_eq_some.2 hrest.symm] at hmatch
  cases hmatch

theorem length_literalOf : ∀ k ∈ [1, 2, 3, 4, 5, 6], 5 ≤ (literalOf k).length := by decide

/-- A name that has its match further behind loses more than a prefix. -/
theorem not_stripped_of_behind {c : UInt16} {front name' cleaned : Text}
    (hnone : firstAt newLine true (c :: (front ++ name')) 1 regex = none)
    (hmatch : firstAt newLine false name' 1 regex = some (k, group))
    (hline : newLine ∉ c :: (front ++ name')) (hlen : cleaned.length ≤ group.length) :
    ¬ Stripped refs (c :: (front ++ name')) cleaned := by
  obtain ⟨hk, tail, rfl, -, -⟩ := firstAt_regex hmatch
  have hliteral := length_literalOf k hk
  have hlong : cleaned.length + 6 ≤ (c :: (front ++ (literalOf k ++ (group ++ tail)))).length := by
    simp only [List.length_cons, List.length_append]
    omega
  rintro (rfl | ⟨p, hp, hname⟩)
  · omega
  by_cases htags : p = text "tags/"
  · subst htags
    rw [hname, List.length_append] at hlong
    have hfive : (text "tags/").length = 5 := rfl
    omega
  · obtain ⟨a, ha, hprefix⟩ := literal_of_prefix refs p hp htags
    refine firstAt_ne_none ha hline ?_ hnone
    rw [hname]
    exact hprefix.trans (List.prefix_append _ _)

/-- Where a match gave a name that is stripped, it stood at the start. -/
theorem leads_of_stripped {cleaned : Text} (h : regexMatch name = some (k, group))
    (hcleaned : cleaned = group ∨ cleaned = []) (hstripped : Stripped refs name cleaned) :
    newLine ∉ name ∧ Leads name k group := by
  have hgroup := newline_notMem_of_leftmost h
  have hline : newLine ∉ name := by
    refine hstripped.line ?_
    rcases hcleaned with rfl | rfl
    · exact hgroup
    · exact List.not_mem_nil
  rcases leftmost_eq_some h with hfirst | ⟨hnone, c, front, name', rfl, hfirst⟩
  · exact ⟨hline, hfirst⟩
  · refine absurd hstripped (not_stripped_of_behind hnone hfirst hline ?_)
    rcases hcleaned with rfl | rfl
    · exact le_rfl
    · exact Nat.zero_le _

theorem literalOf_mem : ∀ refs, ∀ k ∈ [1, 2, 3, 4, 5, 6],
    literalOf k ∈ prefixes refs ↔ (k = 4 → refs = true) := by
  decide

theorem stripped_rest (hk : k ∈ [1, 2, 3, 4, 5, 6]) :
    Stripped refs (literalOf k ++ rest) rest ↔ (k = 4 → refs = true) := by
  rw [← literalOf_mem refs k hk]
  constructor
  · rintro (hsame | ⟨p, hp, hname⟩)
    · have hlen := congrArg List.length hsame
      have hliteral := length_literalOf k hk
      rw [List.length_append] at hlen
      omega
    · rwa [List.append_cancel_right hname]
  · exact fun hmem => .inr ⟨_, hmem, rfl⟩

/-- Of a prefix alone nothing is left. -/
theorem leads_prefix : ∀ refs, ∀ p ∈ prefixes refs,
    (firstAt newLine true p 1 regex).all fun found => found.2 = [] := by
  decide

theorem stripped_nil (hleads : Leads name k rest) (hline : newLine ∉ name) :
    Stripped refs name [] ↔ rest = [] ∧ (k = 4 → refs = true) := by
  obtain ⟨hk, hname⟩ := hleads.eq hline
  constructor
  · rintro (hnil | ⟨p, hp, hp'⟩)
    · have hliteral := length_literalOf k hk
      rw [← hnil] at hname
      rw [(List.append_eq_nil_iff.1 hname.symm).1] at hliteral
      cases hliteral
    · rw [List.append_nil] at hp'
      have hall := leads_prefix refs p hp
      rw [← hp', hleads] at hall
      obtain rfl : rest = [] := by simpa using hall
      refine ⟨rfl, (literalOf_mem refs k hk).1 ?_⟩
      rwa [← hp', hname, List.append_nil] at hp
  · rintro ⟨rfl, hrefs⟩
    rw [hname]
    exact (stripped_rest hk).2 hrefs

/-! ## The values -/

theorem isBlank_nil : isBlank [] = true := rfl

theorem tagOfMatch_eq (hk : k ∈ [1, 2, 3, 4, 5, 6]) :
    tagOfMatch (k, group) = if k = 6 ∨ k ≠ 4 ∧ isBlank group = true then [] else group := by
  simp only [List.mem_cons, List.not_mem_nil, or_false] at hk
  rcases hk with rfl | rfl | rfl | rfl | rfl | rfl <;>
    cases h : isBlank group <;> simp [tagOfMatch, groupValue, isBlank_nil, h]

theorem branchOfMatch_eq (hk : k ∈ [1, 2, 3, 4, 5, 6]) : branchOfMatch (k, group) =
    if k ∈ [1, 3, 5] ∨ k ≠ 6 ∧ isBlank group = true then [] else group := by
  simp only [List.mem_cons, List.not_mem_nil, or_false] at hk
  rcases hk with rfl | rfl | rfl | rfl | rfl | rfl <;>
    cases h : isBlank group <;> simp [branchOfMatch, groupValue, isBlank_nil, h]

theorem tagOfBranchMatch_eq (hk : k ∈ [1, 2, 3, 4, 5, 6]) : tagOfBranchMatch (k, group) =
    if k ∈ [2, 4, 6] ∨ k ≠ 5 ∧ isBlank group = true then [] else group := by
  simp only [List.mem_cons, List.not_mem_nil, or_false] at hk
  rcases hk with rfl | rfl | rfl | rfl | rfl | rfl <;>
    cases h : isBlank group <;> simp [tagOfBranchMatch, groupValue, isBlank_nil, h]

theorem isNullOrEmpty_iff {s : Option Text} : isNullOrEmpty s = true ↔ s.getD [] = [] :=
  decide_eq_true_iff

/-- The tag behind the first step. -/
def tagText (tag : Text) : Text :=
  match regexMatch tag with
  | some found => tagOfMatch found
  | none => tag

theorem getD_cleanTag : (cleanTag tag).getD [] = tagText (tag.getD []) := by
  unfold cleanTag tagText isNullOrEmpty
  split
  · rename_i hempty
    rw [of_decide_eq_true hempty, regexMatch_nil]
  · cases hmatch : regexMatch (tag.getD []) <;> rfl

theorem tagText_of_none {tag : Text} (h : regexMatch tag = none) : tagText tag = tag := by
  unfold tagText
  rw [h]

theorem Leads.tagText {tag : Text} (h : Leads tag k rest) :
    tagText tag = if k = 6 ∨ k ≠ 4 ∧ isBlank rest = true then [] else rest := by
  unfold Ci.tagText
  rw [h.regexMatch]
  exact tagOfMatch_eq (firstAt_regex h).1

theorem group_of_regexMatch (h : regexMatch name = some (k, group)) : k ∈ [1, 2, 3, 4, 5, 6] := by
  rcases leftmost_eq_some h with hfirst | ⟨-, _, _, _, -, hfirst⟩
  · exact (firstAt_regex hfirst).1
  · exact (firstAt_regex hfirst).1

theorem tagText_of_ok {tag : Text} (hleads : Leads tag k rest) (hrest : OneLine tag [4] k rest)
    (hsix : k = 6 → rest = []) : tagText tag = rest := by
  rw [hleads.tagText]
  split
  · rename_i hdropped
    by_contra hne
    rcases hrest.blank with hnil | hfour | hblank
    · exact hne hnil.symm
    · obtain rfl := List.mem_singleton.1 hfour
      simp at hdropped
    · rcases hdropped with rfl | ⟨-, hblank'⟩
      · exact hne (hsix rfl).symm
      · exact Bool.noConfusion (hblank.symm.trans hblank')
  · rfl

/-- A step that strips, and that a second one leaves alone. -/
theorem tagOk_iff {tag : Text} : TagOk refs tag ↔
    Stripped refs tag (tagText tag) ∧ regexMatch (tagText tag) = none := by
  constructor
  · rintro (hnone | ⟨k, rest, hleads, hrest, hrefs, hsix⟩)
    · rw [tagText_of_none hnone]
      exact ⟨.inl rfl, hnone⟩
    · obtain ⟨hk, hname⟩ := hleads.eq hrest.line
      rw [tagText_of_ok hleads hrest hsix]
      refine ⟨?_, hrest.once⟩
      rw [hname]
      exact (stripped_rest hk).2 hrefs
  · rintro ⟨hstripped, honce⟩
    cases hmatch : regexMatch tag with
    | none => exact .inl hmatch
    | some found =>
      obtain ⟨k, group⟩ := found
      have hvalue : tagText tag = if k = 6 ∨ k ≠ 4 ∧ isBlank group = true then [] else group := by
        unfold tagText
        rw [hmatch]
        exact tagOfMatch_eq (group_of_regexMatch hmatch)
      have hcases : tagText tag = group ∨ tagText tag = [] := by
        rw [hvalue]
        exact (ite_eq_or_eq ..).symm
      obtain ⟨hline, hleads⟩ := leads_of_stripped hmatch hcases hstripped
      refine .inr ⟨k, group, hleads, ?_⟩
      split at hvalue
      · rw [hvalue] at hstripped
        obtain ⟨rfl, hrefs⟩ := (stripped_nil hleads hline).1 hstripped
        exact ⟨⟨hline, regexMatch_nil, .inl rfl⟩, hrefs, fun _ => rfl⟩
      · rename_i hkept
        rw [not_or, not_and_or, not_not, Bool.not_eq_true] at hkept
        rw [hvalue] at hstripped honce
        rw [(hleads.eq hline).2, stripped_rest (hleads.eq hline).1] at hstripped
        refine ⟨⟨hline, honce, .inr ?_⟩, hstripped, fun hsix => absurd hsix hkept.1⟩
        exact hkept.2.imp_left fun hfour => List.mem_singleton.2 hfour

theorem tagEmpty_iff {tag : Text} (h : TagOk refs tag) : TagEmpty tag ↔ tagText tag = [] := by
  constructor
  · rintro (rfl | ⟨k, hleads⟩)
    · exact tagText_of_none regexMatch_nil
    · rw [hleads.tagText, ite_self]
  · intro hempty
    rcases h with hnone | ⟨k, rest, hleads, hrest, -, hsix⟩
    · exact .inl ((tagText_of_none hnone).symm.trans hempty)
    · rw [tagText_of_ok hleads hrest hsix] at hempty
      exact .inr ⟨k, hempty ▸ hleads⟩

/-! ## The second step -/

def branchText (branch : Text) : Text :=
  match regexMatch branch with
  | some found => branchOfMatch found
  | none => branch

/-- The tag behind the second step, from the one behind the first. -/
def movedText (branch tag : Text) : Text :=
  match regexMatch branch with
  | some found => if tag = [] then tagOfBranchMatch found else tag
  | none => tag

theorem getD_cleanBranchAndTag : (cleanBranchAndTag branch tag).1.getD [] =
      branchText (branch.getD []) ∧
    (cleanBranchAndTag branch tag).2.getD [] =
      movedText (branch.getD []) (tagText (tag.getD [])) := by
  rw [← getD_cleanTag]
  unfold cleanBranchAndTag cleanBranch branchText movedText
  by_cases hempty : branch.getD [] = []
  · rw [if_pos (isNullOrEmpty_iff.2 hempty), hempty, regexMatch_nil]
    exact ⟨rfl, rfl⟩
  · rw [if_neg (mt isNullOrEmpty_iff.1 hempty)]
    cases hmatch : regexMatch (branch.getD []) with
    | none => exact ⟨rfl, rfl⟩
    | some found =>
      refine ⟨rfl, ?_⟩
      by_cases htag : (cleanTag tag).getD [] = []
      · simp [htag, isNullOrEmpty_iff.2 htag]
      · simp [htag, mt isNullOrEmpty_iff.1 htag]

theorem movedText_of_ne {branch tag : Text} (h : tag ≠ []) : movedText branch tag = tag := by
  unfold movedText
  split
  · exact if_neg h
  · rfl

/-- The prefix of a tag is the literal of its group. -/
theorem leads_tagPrefix {p : Text} (h : p ∈ tagPrefixes) :
    ∃ k ∈ [1, 3, 5], literalOf k = p ∧ Leads (p ++ name) k (name.takeWhile (· ≠ newLine)) := by
  simp only [tagPrefixes, List.mem_cons, List.not_mem_nil, or_false] at h
  rcases h with rfl | rfl | rfl
  · refine ⟨1, by decide, rfl, ?_⟩
    simp [Leads, firstAt, regex, LineAlternative.matchAt, text, unit, List.dropPrefix?]
  · refine ⟨3, by decide, rfl, ?_⟩
    simp [Leads, firstAt, regex, LineAlternative.matchAt, text, unit, List.dropPrefix?]
  · refine ⟨5, by decide, rfl, ?_⟩
    simp [Leads, firstAt, regex, LineAlternative.matchAt, text, unit, List.dropPrefix?]

theorem Leads.branchText {branch : Text} (h : Leads branch k rest) :
    branchText branch = if k ∈ [1, 3, 5] ∨ k ≠ 6 ∧ isBlank rest = true then [] else rest := by
  unfold Ci.branchText
  rw [h.regexMatch]
  exact branchOfMatch_eq (firstAt_regex h).1

theorem Leads.movedText {branch : Text} (h : Leads branch k rest) : movedText branch [] =
    if k ∈ [2, 4, 6] ∨ k ≠ 5 ∧ isBlank rest = true then [] else rest := by
  unfold Ci.movedText
  rw [h.regexMatch]
  exact tagOfBranchMatch_eq (firstAt_regex h).1

theorem not_both : ∀ k ∈ [1, 2, 3, 4, 5, 6], k ∈ [2, 4, 6] ↔ k ∉ [1, 3, 5] := by decide

theorem literalOf_tag : ∀ k ∈ [1, 3, 5], literalOf k ∈ tagPrefixes := by decide

/-- What the second step has to be, and that a second one leaves its results alone. -/
def BranchStep (refs : Bool) (branch tag : Text) : Prop :=
  StrippedOrMoved refs branch tag (branchText branch) (movedText branch tag) ∧
    regexMatch (branchText branch) = none ∧ (tag = [] → regexMatch (movedText branch tag) = none)

/-- A branch that is a tag. -/
theorem branchStep_moved {branch tag : Text} (hleads : Leads branch k rest) (hk : k ∈ [1, 3, 5])
    (h : tag = [] → OneLine branch [5] k rest) : BranchStep refs branch tag := by
  obtain ⟨-, tail, hname, -, -⟩ := firstAt_regex hleads
  have hbranch : branchText branch = [] := by rw [hleads.branchText, if_pos (.inl hk)]
  unfold BranchStep
  rw [hbranch]
  by_cases hempty : tag = []
  · subst hempty
    have hrest := h rfl
    have hmoved : movedText branch [] = rest := by
      rw [hleads.movedText]
      split
      · rename_i hdropped
        rcases hdropped with hk' | ⟨hfive, hblank'⟩
        · revert hk hk'
          simp only [List.mem_cons, List.not_mem_nil, or_false]
          omega
        · rcases hrest.blank with hnil | hfive' | hblank
          · exact hnil.symm
          · exact absurd (List.mem_singleton.1 hfive') hfive
          · exact Bool.noConfusion (hblank.symm.trans hblank')
      · rfl
    rw [hmoved]
    refine ⟨.inr ⟨literalOf k, literalOf_tag k hk, rest, (hleads.eq hrest.line).2, rfl, rfl⟩,
      regexMatch_nil, fun _ => hrest.once⟩
  · rw [movedText_of_ne hempty]
    refine ⟨.inr ⟨literalOf k, literalOf_tag k hk, _, hname, rfl, (if_neg hempty).symm⟩,
      regexMatch_nil, fun hnil => absurd hnil hempty⟩

/-- A branch that is none. -/
theorem branchStep_stripped {branch tag : Text} (hleads : Leads branch k rest)
    (hk : k ∉ [1, 3, 5]) (hrest : OneLine branch [6] k rest) (hrefs : k = 4 → refs = true) :
    BranchStep refs branch tag := by
  obtain ⟨hmem, hname⟩ := hleads.eq hrest.line
  have hbranch : branchText branch = rest := by
    rw [hleads.branchText]
    split
    · rename_i hdropped
      rcases hdropped with hk' | ⟨hsix, hblank'⟩
      · exact absurd hk' hk
      · rcases hrest.blank with hnil | hsix' | hblank
        · exact hnil.symm
        · exact absurd (List.mem_singleton.1 hsix') hsix
        · exact Bool.noConfusion (hblank.symm.trans hblank')
    · rfl
  have hmoved : movedText branch tag = tag := by
    by_cases hempty : tag = []
    · rw [hempty, hleads.movedText, if_pos (.inl ((not_both k hmem).2 hk))]
    · exact movedText_of_ne hempty
  unfold BranchStep
  rw [hbranch, hmoved]
  refine ⟨.inl ⟨?_, rfl⟩, hrest.once, fun hnil => hnil ▸ regexMatch_nil⟩
  rw [hname]
  exact (stripped_rest hmem).2 hrefs

theorem newLine_notMem_tagPrefixes : ∀ p ∈ tagPrefixes, newLine ∉ p := by decide

theorem branchStep_iff {branch tag : Text} {empty : Prop} (hempty : empty ↔ tag = []) :
    BranchStep refs branch tag ↔
      regexMatch branch = none ∨ ∃ k rest, Leads branch k rest ∧
        if k ∈ [1, 3, 5] then empty → OneLine branch [5] k rest
        else OneLine branch [6] k rest ∧ (k = 4 → refs = true) := by
  constructor
  · rintro ⟨hstep, honce, hmovedOnce⟩
    cases hmatch : regexMatch branch with
    | none => exact .inl rfl
    | some found =>
      obtain ⟨k, group⟩ := found
      refine .inr ⟨k, group, ?_⟩
      have hmem := group_of_regexMatch hmatch
      have hvalue : branchText branch =
          if k ∈ [1, 3, 5] ∨ k ≠ 6 ∧ isBlank group = true then [] else group := by
        unfold branchText
        rw [hmatch]
        exact branchOfMatch_eq hmem
      have hcases : branchText branch = group ∨ branchText branch = [] := by
        rw [hvalue]
        exact (ite_eq_or_eq ..).symm
      rcases hstep with ⟨hstripped, -⟩ | ⟨p, hp, name, rfl, -, hname⟩
      · obtain ⟨hline, hleads⟩ := leads_of_stripped hmatch hcases hstripped
        refine ⟨hleads, ?_⟩
        split at hvalue
        · rename_i hdropped
          rw [hvalue] at hstripped
          obtain ⟨rfl, hrefs⟩ := (stripped_nil hleads hline).1 hstripped
          split
          · exact fun _ => ⟨hline, regexMatch_nil, .inl rfl⟩
          · exact ⟨⟨hline, regexMatch_nil, .inl rfl⟩, hrefs⟩
        · rename_i hkept
          rw [not_or, not_and_or, not_not, Bool.not_eq_true] at hkept
          rw [if_neg hkept.1]
          rw [hvalue] at hstripped honce
          rw [(hleads.eq hline).2, stripped_rest hmem] at hstripped
          refine ⟨⟨hline, honce, .inr ?_⟩, hstripped⟩
          exact hkept.2.imp_left fun hsix => List.mem_singleton.2 hsix
      · obtain ⟨k', hk', rfl, hleads⟩ := @leads_tagPrefix name p hp
        obtain ⟨rfl, rfl⟩ := Prod.mk.inj (Option.some.inj (hleads.regexMatch.symm.trans hmatch))
        refine ⟨hleads, ?_⟩
        rw [if_pos hk']
        intro he
        obtain rfl := hempty.1 he
        rw [if_pos rfl] at hname
        have honce' := hmovedOnce rfl
        have hmoved := hleads.movedText
        rw [hname] at honce' hmoved
        have hliteral := newLine_notMem_tagPrefixes _ hp
        split at hmoved
        · subst hmoved
          rw [List.append_nil]
          exact ⟨hliteral, regexMatch_nil, .inl rfl⟩
        · rename_i hkept
          rw [not_or, not_and_or, not_not, Bool.not_eq_true] at hkept
          rw [← hmoved] at hkept ⊢
          refine ⟨?_, honce', .inr (hkept.2.imp_left fun hfive => List.mem_singleton.2 hfive)⟩
          rw [List.mem_append, not_or]
          refine ⟨hliteral, fun hmem => ?_⟩
          rw [hmoved] at hmem
          simpa using List.mem_takeWhile_imp hmem
  · rintro (hnone | ⟨k, rest, hleads, hrest⟩)
    · unfold BranchStep branchText movedText
      rw [hnone]
      exact ⟨.inl ⟨.inl rfl, rfl⟩, hnone, fun hnil => hnil ▸ regexMatch_nil⟩
    · split at hrest
      · exact branchStep_moved hleads ‹_› fun hnil => hrest (hempty.2 hnil)
      · exact branchStep_stripped hleads ‹_› hrest.1 hrest.2

/-! ## The law -/

theorem regexMatch_of_tagText {tag : Text} (h : tagText tag = tag) : regexMatch tag = none := by
  cases hmatch : regexMatch tag with
  | none => rfl
  | some found =>
    obtain ⟨k, group⟩ := found
    have hlen := length_of_regexMatch hmatch
    unfold tagText at h
    rw [hmatch] at h
    simp only [tagOfMatch_eq (group_of_regexMatch hmatch)] at h
    split at h
    · rw [← h] at hlen
      cases hlen
    · rw [h] at hlen
      omega

theorem regexMatch_of_branchText {branch : Text} (h : branchText branch = branch) :
    regexMatch branch = none := by
  cases hmatch : regexMatch branch with
  | none => rfl
  | some found =>
    obtain ⟨k, group⟩ := found
    have hlen := length_of_regexMatch hmatch
    unfold branchText at h
    rw [hmatch] at h
    simp only [branchOfMatch_eq (group_of_regexMatch hmatch)] at h
    split at h
    · rw [← h] at hlen
      cases hlen
    · rw [h] at hlen
      omega

/-- Only names without a match are left alone. -/
theorem cleanBranchAndTag_eq_self : cleanBranchAndTag branch tag = (branch, tag) ↔
    regexMatch (branch.getD []) = none ∧ regexMatch (tag.getD []) = none := by
  constructor
  · intro h
    obtain ⟨h1, h2⟩ := @getD_cleanBranchAndTag branch tag
    rw [h] at h1 h2
    have hbranch := regexMatch_of_branchText h1.symm
    refine ⟨hbranch, regexMatch_of_tagText ?_⟩
    unfold movedText at h2
    rw [hbranch] at h2
    exact h2.symm
  · rintro ⟨hbranch, htag⟩
    unfold cleanBranchAndTag cleanBranch cleanTag
    rw [hbranch, htag, ite_self, ite_self]

theorem prefixStrip_iff_steps : PrefixStrip refs branch tag ↔
    Stripped refs (tag.getD []) (tagText (tag.getD [])) ∧
    StrippedOrMoved refs (branch.getD []) (tagText (tag.getD [])) (branchText (branch.getD []))
      (movedText (branch.getD []) (tagText (tag.getD []))) ∧
    regexMatch (branchText (branch.getD [])) = none ∧
    regexMatch (movedText (branch.getD []) (tagText (tag.getD []))) = none := by
  obtain ⟨h1, h2⟩ := @getD_cleanBranchAndTag branch tag
  constructor
  · rintro ⟨htag, hbranch, hagain⟩
    rw [getD_cleanTag] at htag hbranch
    rw [h1, h2] at hbranch
    have hfixed := cleanBranchAndTag_eq_self.1 hagain
    rw [h1, h2] at hfixed
    exact ⟨htag, hbranch, hfixed⟩
  · rintro ⟨htag, hbranch, hfixed⟩
    refine ⟨?_, ?_, cleanBranchAndTag_eq_self.2 ?_⟩
    · rwa [getD_cleanTag]
    · rwa [getD_cleanTag, h1, h2]
    · rwa [h1, h2]

/-- Both readings of the prefixes, with a bare `refs/` among them or without it. -/
theorem cleanBranchAndTag_prefixStrip_iff (refs : Bool) (branch tag : Option Text) :
    PrefixStrip refs branch tag ↔
      TagOk refs (tag.getD []) ∧ BranchOk refs (branch.getD []) (tag.getD []) := by
  rw [prefixStrip_iff_steps]
  constructor
  · rintro ⟨htag, hbranch, honce, hmoved⟩
    have hok : TagOk refs (tag.getD []) := by
      refine tagOk_iff.2 ⟨htag, ?_⟩
      by_cases hempty : tagText (tag.getD []) = []
      · rw [hempty, regexMatch_nil]
      · rwa [movedText_of_ne hempty] at hmoved
    exact ⟨hok, (branchStep_iff (tagEmpty_iff hok)).1 ⟨hbranch, honce, fun _ => hmoved⟩⟩
  · rintro ⟨hok, hbranch⟩
    obtain ⟨hstep, honce, hmoved⟩ := (branchStep_iff (tagEmpty_iff hok)).2 hbranch
    obtain ⟨htag, htagOnce⟩ := tagOk_iff.1 hok
    refine ⟨htag, hstep, honce, ?_⟩
    by_cases hempty : tagText (tag.getD []) = []
    · exact hmoved hempty
    · rwa [movedText_of_ne hempty]

/-- `feature/origin/x`, where the word stands inside the name, and `origin/origin/x`, which loses
two prefixes in two calls. -/
theorem not_prefixStrip :
    cleanBranchAndTag (some (text "feature/origin/x")) none = (some (text "x"), some []) ∧
      (∀ refs, ¬ PrefixStrip refs (some (text "feature/origin/x")) none) ∧
      ∀ refs, ¬ PrefixStrip refs (some (text "origin/origin/x")) none := by
  refine ⟨by decide, fun refs h => ?_, fun refs h => ?_⟩
  · rcases h.branchStep with ⟨hstripped, -⟩ | ⟨p, hp, name, hname, -, -⟩
    · revert hstripped
      cases refs <;> decide
    · have hnot : ∀ p ∈ tagPrefixes, ¬ p <+: text "feature/origin/x" := by decide
      exact hnot p hp ⟨name, hname.symm⟩
  · exact absurd h.idempotent (by decide)

end DdTrace.Ci
