import DdTrace.Lib.Text
import Mathlib.Data.List.TakeWhile
import Mathlib.Tactic.Common

/-!
# The simplified route

The overloads of `AspNetCoreDiagnosticObserver.SimplifyRoutePattern` for a `RoutePattern` of
endpoint routing and for a `RouteTemplate`, and what the resource name of a route is to be:
`routeOf`, over the grammar of templates that both stand for.
-/

namespace DdTrace.DiagnosticListeners

open DdTrace.Lib

/-! ## The two overloads -/

inductive RoutePatternPart where
  /-- A literal or a separator. -/
  | content (content : Text)
  | parameter (name : Text) (isOptional isCatchAll encodeSlashes : Bool)

/-- A pattern that was not parsed has no raw text. -/
structure RoutePattern where
  pathSegments : List (List RoutePatternPart)
  rawText : Option Text

inductive TemplatePart where
  | literal (text : Text)
  | parameter (name : Text) (isOptional isCatchAll : Bool)

structure RouteTemplate where
  segments : List (List TemplatePart)
  templateText : Option Text

/-- The other arguments; of the route values only the keys are asked for. -/
structure RouteArguments where
  containsKey : Text → Bool
  areaName : Option Text
  controllerName : Option Text
  actionName : Option Text

/-- A character of the grammar of templates. -/
def isMark (c : UInt16) : Bool :=
  c == unit '/' || c == unit '{' || c == unit '}' || c == unit '*' || c == unit '?'

/-- `ToLowerInvariant`, which depends on the runtime's version of Unicode. -/
structure Casing where
  toLowerInvariant : Text → Text
  /-- What is no letter stays. -/
  filter_toLowerInvariant : ∀ s, (toLowerInvariant s).filter isMark = s.filter isMark

section

variable (casing : Casing) (r : RouteArguments)

/-- The body of the inner loop. -/
def appendPart (sb : Text) : RoutePatternPart → Text
  | .content content => sb ++ text "/" ++ content
  | .parameter name isOptional isCatchAll encodeSlashes =>
    if equalsIgnoreCase name (text "area") then sb ++ text "/" ++ r.areaName.getD []
    else if equalsIgnoreCase name (text "controller") then
      sb ++ text "/" ++ r.controllerName.getD []
    else if equalsIgnoreCase name (text "action") then sb ++ text "/" ++ r.actionName.getD []
    else if !isOptional || r.containsKey name then
      let sb := sb ++ text "/\x7b"
      let sb := if isCatchAll then if encodeSlashes then sb ++ text "**" else sb ++ text "*" else sb
      let sb := sb ++ name
      let sb := if isOptional then sb ++ text "?" else sb
      sb ++ text "\x7d"
    else sb

/-- The capacity of the builder is computed from the raw text, which must not be null. -/
def simplifyRoutePattern (routePattern : RoutePattern) : Option Text :=
  routePattern.rawText.map fun _ =>
    let simplifiedRoute := routePattern.pathSegments.foldl (fun sb pathSegment =>
      pathSegment.foldl (appendPart r) sb) []
    if simplifiedRoute = [] then text "/" else casing.toLowerInvariant simplifiedRoute

def appendTemplatePart (sb : Text) : TemplatePart → Text
  | .literal t => sb ++ text "/" ++ t
  | .parameter name isOptional isCatchAll =>
    if equalsIgnoreCase name (text "area") then sb ++ text "/" ++ r.areaName.getD []
    else if equalsIgnoreCase name (text "controller") then
      sb ++ text "/" ++ r.controllerName.getD []
    else if equalsIgnoreCase name (text "action") then sb ++ text "/" ++ r.actionName.getD []
    else if !isOptional || r.containsKey name then
      let sb := sb ++ text "/\x7b"
      let sb := if isCatchAll then sb ++ text "*" else sb
      let sb := sb ++ name
      let sb := if isOptional then sb ++ text "?" else sb
      sb ++ text "\x7d"
    else sb

def simplifyRouteTemplate (routePattern : RouteTemplate) : Option Text :=
  routePattern.templateText.map fun _ =>
    let simplifiedRoute := routePattern.segments.foldl (fun sb pathSegment =>
      pathSegment.foldl (appendTemplatePart r) sb) []
    if simplifiedRoute = [] then text "/" else casing.toLowerInvariant simplifiedRoute

end

/-! ## What the route is to be -/

/-- A part of a template, with the stars of a catch-all parameter. -/
inductive RoutePart where
  | literal (text : Text)
  | parameter (name : Text) (stars : ℕ) (isOptional : Bool)

/-- A catch-all parameter with one star encodes the slashes, one with two does not. -/
def RoutePatternPart.toPart : RoutePatternPart → RoutePart
  | .content t => .literal t
  | .parameter name isOptional isCatchAll encodeSlashes =>
    .parameter name (if isCatchAll then if encodeSlashes then 1 else 2 else 0) isOptional

/-- No part of a `RouteTemplate` has two stars. -/
def TemplatePart.toPart : TemplatePart → RoutePart
  | .literal t => .literal t
  | .parameter name isOptional isCatchAll =>
    .parameter name (if isCatchAll then 1 else 0) isOptional

def RoutePattern.parts (p : RoutePattern) : List (List RoutePart) :=
  p.pathSegments.map (·.map RoutePatternPart.toPart)

def RouteTemplate.parts (t : RouteTemplate) : List (List RoutePart) :=
  t.segments.map (·.map TemplatePart.toPart)

def closingOf (isOptional : Bool) : Text := if isOptional then text "?\x7d" else text "\x7d"

/-- The template of a parameter. -/
def bracesOf (name : Text) (stars : ℕ) (isOptional : Bool) : Text :=
  unit '{' :: (List.replicate stars (unit '*') ++ (name ++ closingOf isOptional))

/-- The value that stands for a parameter of one of the three names. -/
def RouteArguments.named (r : RouteArguments) (name : Text) : Option Text :=
  if equalsIgnoreCase name (text "area") then some (r.areaName.getD [])
  else if equalsIgnoreCase name (text "controller") then some (r.controllerName.getD [])
  else if equalsIgnoreCase name (text "action") then some (r.actionName.getD [])
  else none

/-- The text of a part that is kept. -/
def RouteArguments.written (r : RouteArguments) : RoutePart → Option Text
  | .literal t => some t
  | .parameter name stars isOptional =>
    match r.named name with
    | some value => some value
    | none =>
      if isOptional && !r.containsKey name then none else some (bracesOf name stars isOptional)

def RouteArguments.kept (r : RouteArguments) (segment : List RoutePart) : List Text :=
  segment.filterMap r.written

/-- One slash, and the parts that are kept; nothing if there are none. -/
def RouteArguments.segmentOf (r : RouteArguments) (segment : List RoutePart) : Text :=
  match r.kept segment with
  | [] => []
  | kept => unit '/' :: kept.flatten

def orSlash (casing : Casing) (route : Text) : Text :=
  if route = [] then text "/" else casing.toLowerInvariant route

def routeOf (casing : Casing) (r : RouteArguments) (segments : List (List RoutePart)) : Text :=
  orSlash casing (segments.flatMap r.segmentOf)

/-! ## What the overloads write -/

/-- The code writes two stars for one, and one for two. -/
def swapStars (stars : ℕ) : ℕ := if stars = 0 then 0 else 3 - stars

def RoutePart.withStars (f : ℕ → ℕ) : RoutePart → RoutePart
  | .literal t => .literal t
  | .parameter name stars isOptional => .parameter name (f stars) isOptional

namespace RouteArguments

variable (r : RouteArguments)

/-- A slash for the part itself. -/
def slashed (part : RoutePart) : Text :=
  match r.written part with
  | none => []
  | some t => unit '/' :: t

/-- The stars that a part shows. -/
def starsOf : RoutePart → ℕ
  | .literal _ => 0
  | .parameter name stars isOptional =>
    match r.named name with
    | some _ => 0
    | none => if isOptional && !r.containsKey name then 0 else stars

end RouteArguments

variable {casing : Casing} {r : RouteArguments} {sb : Text}

theorem appendTemplatePart_eq (part : TemplatePart) :
    appendTemplatePart r sb part = sb ++ r.slashed part.toPart := by
  cases part with
  | literal t => exact List.append_assoc _ _ _
  | parameter name isOptional isCatchAll =>
    rw [appendTemplatePart, RouteArguments.slashed, TemplatePart.toPart, RouteArguments.written,
      RouteArguments.named]
    split
    · exact List.append_assoc _ _ _
    · split
      · exact List.append_assoc _ _ _
      · split
        · exact List.append_assoc _ _ _
        · cases isOptional <;> cases isCatchAll <;> cases r.containsKey name <;>
            simp [bracesOf, closingOf, text]

theorem appendPart_eq (part : RoutePatternPart) :
    appendPart r sb part = sb ++ r.slashed (part.toPart.withStars swapStars) := by
  cases part with
  | content t => exact List.append_assoc _ _ _
  | parameter name isOptional isCatchAll encodeSlashes =>
    rw [appendPart, RouteArguments.slashed, RoutePatternPart.toPart, RoutePart.withStars,
      RouteArguments.written, RouteArguments.named]
    split
    · exact List.append_assoc _ _ _
    · split
      · exact List.append_assoc _ _ _
      · split
        · exact List.append_assoc _ _ _
        · cases isOptional <;> cases isCatchAll <;> cases encodeSlashes <;>
            cases r.containsKey name <;> simp [bracesOf, closingOf, text, swapStars, List.replicate]

/-- Both loops in one, over parts that are appended one by one. -/
theorem foldl_segments {α : Type} {append : Text → α → Text} {f : α → Text}
    (happend : ∀ sb a, append sb a = sb ++ f a) (segments : List (List α)) :
    segments.foldl (fun sb segment => segment.foldl append sb) [] =
      segments.flatten.flatMap f := by
  have hfold : append = fun sb a => sb ++ f a := funext fun sb => funext fun a => happend sb a
  rw [← List.foldl_flatten, hfold, List.foldl_append_eq_append, List.nil_append, List.flatMap_def]

theorem simplifyRoutePattern_eq (p : RoutePattern) : simplifyRoutePattern casing r p =
    p.rawText.map fun _ =>
      orSlash casing ((p.parts.flatten.map (·.withStars swapStars)).flatMap r.slashed) := by
  rw [simplifyRoutePattern, foldl_segments (fun sb part => appendPart_eq part), RoutePattern.parts,
    ← List.map_flatten, List.map_map, List.flatMap_map]
  rfl

theorem simplifyRouteTemplate_eq (t : RouteTemplate) : simplifyRouteTemplate casing r t =
    t.templateText.map fun _ => orSlash casing (t.parts.flatten.flatMap r.slashed) := by
  rw [simplifyRouteTemplate, foldl_segments (fun sb part => appendTemplatePart_eq part),
    RouteTemplate.parts, ← List.map_flatten, List.flatMap_map]
  rfl

/-! ## Stars -/

/-- A part is written in braces with its stars, or its stars do not matter. -/
theorem written_withStars (part : RoutePart) :
    (r.starsOf part = 0 ∧ ∀ f, r.written (part.withStars f) = r.written part) ∨
    ∃ name isOptional, r.written part = some (bracesOf name (r.starsOf part) isOptional) ∧
      ∀ f, r.written (part.withStars f) = some (bracesOf name (f (r.starsOf part)) isOptional) := by
  cases part with
  | literal t => exact .inl ⟨rfl, fun f => rfl⟩
  | parameter name stars isOptional =>
    simp only [RoutePart.withStars, RouteArguments.written, RouteArguments.starsOf]
    cases r.named name with
    | some value => exact .inl ⟨rfl, fun f => rfl⟩
    | none =>
      cases isOptional && !r.containsKey name with
      | true => exact .inl ⟨rfl, fun f => rfl⟩
      | false => exact .inr ⟨name, isOptional, rfl, fun f => rfl⟩

/-- Runs of one character in front of a text that ends with another one, whatever follows. -/
theorem replicate_append_inj {α : Type} {a c : α} {n x y : List α} {i j : ℕ} (hc : c ≠ a)
    (h : List.replicate i a ++ (n ++ c :: x) = List.replicate j a ++ (n ++ c :: y)) : i = j := by
  classical
  have hrun : ∀ x : List α, (n ++ c :: x).takeWhile (· = a) = n.takeWhile (· = a) := by
    intro x
    rw [List.takeWhile_append, List.takeWhile_cons_of_neg (by simpa using hc), List.append_nil]
    split
    · next hlen => exact ((List.takeWhile_prefix _).eq_of_length hlen).symm
    · rfl
  have hall : ∀ k, ∀ b ∈ List.replicate k a, decide (b = a) = true :=
    fun k b hb => decide_eq_true (List.eq_of_mem_replicate hb)
  have hlen := congrArg (fun l => (l.takeWhile (· = a)).length) h
  simp only [List.takeWhile_append_of_pos (hall _), hrun, List.length_append,
    List.length_replicate] at hlen
  omega

theorem filter_bracesOf {name : Text} {stars : ℕ} {isOptional : Bool} :
    (bracesOf name stars isOptional).filter isMark =
      unit '{' :: (List.replicate stars (unit '*') ++
        (name.filter isMark ++ closingOf isOptional)) := by
  have hstars : (List.replicate stars (unit '*')).filter isMark =
      List.replicate stars (unit '*') := by
    rw [List.filter_replicate, if_pos (by rfl)]
  have hclosing : (closingOf isOptional).filter isMark = closingOf isOptional := by
    cases isOptional <;> rfl
  rw [bracesOf, List.filter_cons_of_pos (by rfl), List.filter_append, List.filter_append, hstars,
    hclosing]

/-- The marks of two texts that begin with a template of one parameter tell its stars. -/
theorem stars_eq_of_filter {name rest rest' : Text} {stars stars' : ℕ} {isOptional : Bool}
    (h : (bracesOf name stars isOptional ++ rest).filter isMark =
      (bracesOf name stars' isOptional ++ rest').filter isMark) : stars = stars' := by
  have hclosing : ∃ c x, c ≠ unit '*' ∧ closingOf isOptional = c :: x := by
    cases isOptional with
    | true => exact ⟨unit '?', [unit '}'], by decide, rfl⟩
    | false => exact ⟨unit '}', [], by decide, rfl⟩
  obtain ⟨c, x, hc, hclosing⟩ := hclosing
  rw [List.filter_append, List.filter_append, filter_bracesOf, filter_bracesOf, hclosing] at h
  simp only [List.cons_append, List.append_assoc] at h
  exact replicate_append_inj hc (List.cons.inj h).2

theorem slashed_withStars {f : ℕ → ℕ} {part : RoutePart}
    (h : f (r.starsOf part) = r.starsOf part) :
    r.slashed (part.withStars f) = r.slashed part := by
  rw [RouteArguments.slashed, RouteArguments.slashed]
  rcases written_withStars (r := r) part with ⟨-, hsame⟩ | ⟨name, isOptional, hpart, hf⟩
  · rw [hsame]
  · rw [hf, hpart, h]

/-- Equal marks of the parts, whatever stars the code gives them. -/
theorem starsOf_of_filter_eq {f : ℕ → ℕ} (hf : f 0 = 0) {parts : List RoutePart}
    (h : ((parts.map (·.withStars f)).flatMap r.slashed).filter isMark =
      (parts.flatMap r.slashed).filter isMark) :
    ∀ part ∈ parts, f (r.starsOf part) = r.starsOf part := by
  induction parts with
  | nil => exact fun part hpart => nomatch hpart
  | cons part parts ih =>
    rw [List.map_cons, List.flatMap_cons, List.flatMap_cons] at h
    have hpart : f (r.starsOf part) = r.starsOf part := by
      rcases written_withStars (r := r) part with ⟨hzero, -⟩ | ⟨name, isOptional, hpart, hstars⟩
      · rw [hzero, hf]
      · rw [RouteArguments.slashed, RouteArguments.slashed, hstars, hpart] at h
        simp only [List.cons_append] at h
        rw [List.filter_cons_of_pos (by rfl), List.filter_cons_of_pos (by rfl)] at h
        exact stars_eq_of_filter (List.cons.inj h).2
    rw [slashed_withStars hpart, List.filter_append, List.filter_append,
      List.append_cancel_left_eq] at h
    exact List.forall_mem_cons.2 ⟨hpart, ih h⟩

theorem swapStars_eq_iff {stars : ℕ} : swapStars stars = stars ↔ stars = 0 := by
  unfold swapStars
  split <;> omega

/-! ## Slashes -/

theorem count_slashed_withStars (f : ℕ → ℕ) (part : RoutePart) :
    (r.slashed (part.withStars f)).count (unit '/') = (r.slashed part).count (unit '/') := by
  have hbraces : ∀ name stars isOptional, (bracesOf name stars isOptional).count (unit '/') =
      (name ++ closingOf isOptional).count (unit '/') := by
    intro name stars isOptional
    have hstars : (List.replicate stars (unit '*')).count (unit '/') = 0 := by
      rw [List.count_replicate, if_neg (by decide)]
    rw [bracesOf, List.count_cons_of_ne (by decide), List.count_append, hstars, Nat.zero_add]
  rw [RouteArguments.slashed, RouteArguments.slashed]
  rcases written_withStars (r := r) part with ⟨-, hsame⟩ | ⟨name, isOptional, hpart, hf⟩
  · rw [hsame]
  · rw [hf, hpart, List.count_cons_self, List.count_cons_self, hbraces, hbraces]

theorem flatMap_slashed (segment : List RoutePart) :
    segment.flatMap r.slashed = (r.kept segment).flatMap (unit '/' :: ·) := by
  induction segment with
  | nil => rfl
  | cons part segment ih =>
    rw [List.flatMap_cons, ih, RouteArguments.slashed, RouteArguments.kept, RouteArguments.kept]
    cases hpart : r.written part with
    | none => rw [List.filterMap_cons_none hpart, List.nil_append]
    | some t => rw [List.filterMap_cons_some hpart, List.flatMap_cons]

/-- The overloads write a slash too many for each further part that is kept. -/
theorem count_segment (segment : List RoutePart) :
    (segment.flatMap r.slashed).count (unit '/') =
      (r.segmentOf segment).count (unit '/') + ((r.kept segment).length - 1) := by
  have hcount : ∀ kept : List Text, (kept.flatMap (unit '/' :: ·)).count (unit '/') =
      kept.length + kept.flatten.count (unit '/') := by
    intro kept
    induction kept with
    | nil => rfl
    | cons t kept ih =>
      rw [List.flatMap_cons, List.count_append, List.count_cons_self, ih, List.flatten_cons,
        List.count_append, List.length_cons]
      omega
  rw [flatMap_slashed, hcount, RouteArguments.segmentOf]
  cases r.kept segment with
  | nil => rfl
  | cons t kept =>
    rw [List.count_cons_self, List.length_cons]
    omega

theorem segmentOf_of_le {segment : List RoutePart} (h : (r.kept segment).length ≤ 1) :
    r.segmentOf segment = segment.flatMap r.slashed := by
  rw [flatMap_slashed, RouteArguments.segmentOf]
  match r.kept segment, h with
  | [], _ => rfl
  | [t], _ => simp

/-- As many slashes as there are to be: no segment keeps two parts. -/
theorem length_kept_le_of_count {f : ℕ → ℕ} {segments : List (List RoutePart)}
    (h : ((segments.flatten.map (·.withStars f)).flatMap r.slashed).count (unit '/') =
      (segments.flatMap r.segmentOf).count (unit '/')) :
    ∀ segment ∈ segments, (r.kept segment).length ≤ 1 := by
  have hcount : ∀ segments : List (List RoutePart),
      ((segments.flatten.map (·.withStars f)).flatMap r.slashed).count (unit '/') =
        (segments.flatMap r.segmentOf).count (unit '/') +
          (segments.map fun segment => (r.kept segment).length - 1).sum := by
    intro segments
    induction segments with
    | nil => rfl
    | cons segment segments ih =>
      have hsegment : ((segment.map (·.withStars f)).flatMap r.slashed).count (unit '/') =
          (segment.flatMap r.slashed).count (unit '/') := by
        rw [List.count_flatMap, List.count_flatMap, List.map_map]
        congr 1
        exact List.map_congr_left fun part _ => count_slashed_withStars f part
      rw [List.flatten_cons, List.map_append, List.flatMap_append, List.count_append, hsegment,
        count_segment, ih, List.flatMap_cons, List.count_append, List.map_cons, List.sum_cons]
      omega
  rw [hcount] at h
  intro segment hsegment
  have hzero : (segments.map fun segment => (r.kept segment).length - 1).sum = 0 := by omega
  have := List.sum_eq_zero_iff_forall_eq_nat.1 hzero _ (List.mem_map.2 ⟨segment, hsegment, rfl⟩)
  omega

/-! ## When the route is right -/

theorem count_of_filter_eq {s t : Text} (h : s.filter isMark = t.filter isMark) :
    s.count (unit '/') = t.count (unit '/') := by
  rw [← List.count_filter (p := isMark) (l := s) (by rfl), h, List.count_filter (by rfl)]

theorem filter_orSlash_inj {s t : Text} (hempty : s = [] ↔ t = [])
    (h : orSlash casing s = orSlash casing t) : s.filter isMark = t.filter isMark := by
  rw [orSlash, orSlash] at h
  by_cases hs : s = []
  · rw [hs, hempty.1 hs]
  · rw [if_neg hs, if_neg fun ht => hs (hempty.2 ht)] at h
    rw [← casing.filter_toLowerInvariant s, h, casing.filter_toLowerInvariant]

theorem slashed_eq_nil_iff {part : RoutePart} : r.slashed part = [] ↔ r.written part = none := by
  rw [RouteArguments.slashed]
  cases r.written part with
  | none => exact iff_of_true rfl rfl
  | some t => exact iff_of_false nofun nofun

theorem flatMap_withStars_eq_nil_iff {f : ℕ → ℕ} {parts : List RoutePart} :
    (parts.map (·.withStars f)).flatMap r.slashed = [] ↔ parts.flatMap r.slashed = [] := by
  rw [List.flatMap_map, List.flatMap_eq_nil_iff, List.flatMap_eq_nil_iff]
  refine forall₂_congr fun part _ => ?_
  rw [slashed_eq_nil_iff, slashed_eq_nil_iff]
  rcases written_withStars (r := r) part with ⟨-, hsame⟩ | ⟨name, isOptional, hpart, hf⟩
  · rw [hsame]
  · rw [hf, hpart]
    exact iff_of_false nofun nofun

theorem segmentOf_eq_nil_iff {segment : List RoutePart} :
    r.segmentOf segment = [] ↔ segment.flatMap r.slashed = [] := by
  rw [flatMap_slashed, RouteArguments.segmentOf]
  cases r.kept segment with
  | nil => exact iff_of_true rfl rfl
  | cons t kept => exact iff_of_false nofun nofun

theorem flatMap_segmentOf_eq_nil_iff {segments : List (List RoutePart)} :
    segments.flatMap r.segmentOf = [] ↔ segments.flatten.flatMap r.slashed = [] := by
  rw [List.flatMap_eq_nil_iff, List.flatMap_eq_nil_iff]
  constructor
  · intro h part hpart
    obtain ⟨segment, hsegment, hpart⟩ := List.mem_flatten.1 hpart
    exact List.flatMap_eq_nil_iff.1 (segmentOf_eq_nil_iff.1 (h segment hsegment)) part hpart
  · intro h segment hsegment
    refine segmentOf_eq_nil_iff.2 (List.flatMap_eq_nil_iff.2 fun part hpart => ?_)
    exact h part (List.mem_flatten_of_mem hsegment hpart)

theorem map_withStars_eq {f : ℕ → ℕ} {parts : List RoutePart}
    (h : ∀ part ∈ parts, f (r.starsOf part) = r.starsOf part) :
    (parts.map (·.withStars f)).flatMap r.slashed = parts.flatMap r.slashed := by
  rw [List.flatMap_map]
  exact List.flatMap_congr fun part hpart => slashed_withStars (h part hpart)

theorem orSlash_withStars_eq_iff {f : ℕ → ℕ} (hf : f 0 = 0) {parts : List RoutePart} :
    orSlash casing ((parts.map (·.withStars f)).flatMap r.slashed) =
        orSlash casing (parts.flatMap r.slashed) ↔
      ∀ part ∈ parts, f (r.starsOf part) = r.starsOf part := by
  constructor
  · intro h
    exact starsOf_of_filter_eq hf (filter_orSlash_inj flatMap_withStars_eq_nil_iff h)
  · intro h
    rw [map_withStars_eq h]

/-- The route is right where the slashes are, and the stars. -/
theorem orSlash_slashed_eq_iff {f : ℕ → ℕ} (hf : f 0 = 0) {segments : List (List RoutePart)} :
    orSlash casing ((segments.flatten.map (·.withStars f)).flatMap r.slashed) =
        routeOf casing r segments ↔
      (∀ segment ∈ segments, (r.kept segment).length ≤ 1) ∧
      ∀ part ∈ segments.flatten, f (r.starsOf part) = r.starsOf part := by
  have hroute : (∀ segment ∈ segments, (r.kept segment).length ≤ 1) →
      segments.flatMap r.segmentOf = segments.flatten.flatMap r.slashed := by
    intro h
    rw [List.flatMap_congr fun segment hsegment => segmentOf_of_le (h segment hsegment),
      ← List.flatMap_id, List.flatMap_assoc]
    rfl
  constructor
  · intro h
    have hkept : ∀ segment ∈ segments, (r.kept segment).length ≤ 1 :=
      length_kept_le_of_count (count_of_filter_eq (filter_orSlash_inj
        (flatMap_withStars_eq_nil_iff.trans flatMap_segmentOf_eq_nil_iff.symm) h))
    rw [routeOf, hroute hkept] at h
    exact ⟨hkept, (orSlash_withStars_eq_iff hf).1 h⟩
  · rintro ⟨hkept, hstars⟩
    rw [routeOf, hroute hkept]
    exact (orSlash_withStars_eq_iff hf).2 hstars

/-- Both overloads are right where there is a raw text and no segment keeps two parts, that for
a `RoutePattern` also needs that no catch-all parameter is kept, and so does their agreement. -/
theorem routes_simplified_iff (casing : Casing) (r : RouteArguments) :
    (∀ p : RoutePattern, simplifyRoutePattern casing r p = some (routeOf casing r p.parts) ↔
      p.rawText ≠ none ∧ (∀ segment ∈ p.parts, (r.kept segment).length ≤ 1) ∧
        ∀ part ∈ p.parts.flatten, r.starsOf part = 0) ∧
    (∀ t : RouteTemplate, simplifyRouteTemplate casing r t = some (routeOf casing r t.parts) ↔
      t.templateText ≠ none ∧ ∀ segment ∈ t.parts, (r.kept segment).length ≤ 1) ∧
    (∀ p t, p.rawText = t.templateText → p.parts = t.parts →
      (simplifyRoutePattern casing r p = simplifyRouteTemplate casing r t ↔
        p.rawText = none ∨ ∀ part ∈ p.parts.flatten, r.starsOf part = 0)) := by
  have hstars : ∀ parts : List RoutePart,
      (∀ part ∈ parts, swapStars (r.starsOf part) = r.starsOf part) ↔
        ∀ part ∈ parts, r.starsOf part = 0 :=
    fun parts => forall₂_congr fun part _ => swapStars_eq_iff
  have hid : ∀ parts : List RoutePart, parts.map (·.withStars id) = parts := by
    intro parts
    refine List.map_id'' (fun part => ?_) parts
    cases part <;> rfl
  refine ⟨fun p => ?_, fun t => ?_, fun p t htext hparts => ?_⟩
  · rw [simplifyRoutePattern_eq]
    cases p.rawText with
    | none => exact iff_of_false nofun fun h => h.1 rfl
    | some rawText =>
      rw [Option.map_some, Option.some_inj, orSlash_slashed_eq_iff (by rfl), hstars]
      exact (and_iff_right nofun).symm
  · rw [simplifyRouteTemplate_eq]
    cases t.templateText with
    | none => exact iff_of_false nofun fun h => h.1 rfl
    | some templateText =>
      rw [Option.map_some, Option.some_inj, ← hid t.parts.flatten,
        orSlash_slashed_eq_iff (by rfl)]
      exact ⟨fun h => ⟨nofun, h.1⟩, fun h => ⟨h.2, fun _ _ => rfl⟩⟩
  · rw [simplifyRoutePattern_eq, simplifyRouteTemplate_eq, ← htext, ← hparts]
    cases p.rawText with
    | none => exact iff_of_true rfl (.inl rfl)
    | some rawText =>
      rw [Option.map_some, Option.map_some, Option.some_inj, orSlash_withStars_eq_iff (by rfl),
        hstars]
      exact (or_iff_right nofun).symm

/-! ## Two routes -/

theorem isMark_toLowerAscii (c : UInt16) :
    isMark (toLowerAscii c) = isMark c ∧ (isMark c → toLowerAscii c = c) := by
  unfold toLowerAscii
  split
  · next hupper =>
    have hletter : ∀ d : UInt16, 0x40 < d.toNat ∧ d.toNat < 0x7B → isMark d = false := by
      intro d hd
      rw [Bool.eq_false_iff]
      intro hmark
      simp only [isMark, Bool.or_eq_true, beq_iff_eq] at hmark
      rcases hmark with (((rfl | rfl) | rfl) | rfl) | rfl <;> exact absurd hd (by decide)
    simp only [Bool.and_eq_true, decide_eq_true_eq, UInt16.le_iff_toNat_le] at hupper
    have hlow : 0x41 ≤ c.toNat := hupper.1
    have hhigh : c.toNat ≤ 0x5A := hupper.2
    have hsum : (c + 0x20).toNat = c.toNat + 0x20 := by
      rw [UInt16.toNat_add]
      show (c.toNat + 0x20) % 2 ^ 16 = c.toNat + 0x20
      omega
    have hc := hletter c (by omega)
    rw [hletter (c + 0x20) (by omega), hc]
    exact ⟨rfl, fun h => by cases h⟩
  · exact ⟨rfl, fun _ => rfl⟩

/-- `ToLowerInvariant` as long as all the letters are ASCII. -/
def asciiCasing : Casing where
  toLowerInvariant := List.map toLowerAscii
  filter_toLowerInvariant s := by
    have hcomp : isMark ∘ toLowerAscii = isMark := funext fun c => (isMark_toLowerAscii c).1
    rw [List.filter_map, hcomp]
    refine (List.map_congr_left fun c hc => ?_).trans (List.map_id _)
    exact (isMark_toLowerAscii c).2 (List.mem_filter.1 hc).2

/-- No route values. -/
def noValues : RouteArguments where
  containsKey _ := false
  areaName := none
  controllerName := none
  actionName := none

/-- `{a}-{b}` -/
def rangePattern : RoutePattern where
  pathSegments := [[.parameter (text "a") false false true, .content (text "-"),
    .parameter (text "b") false false true]]
  rawText := some (text "{a}-{b}")

/-- `{*rest}` -/
def restPattern : RoutePattern where
  pathSegments := [[.parameter (text "rest") false true true]]
  rawText := some (text "{*rest}")

def restTemplate : RouteTemplate where
  segments := [[.parameter (text "rest") false true]]
  templateText := some (text "{*rest}")

/-- A slash in front of each part, and two stars for one. -/
theorem routes_not_simplified :
    simplifyRoutePattern asciiCasing noValues rangePattern = some (text "/{a}/-/{b}") ∧
    routeOf asciiCasing noValues rangePattern.parts = text "/{a}-{b}" ∧
    simplifyRoutePattern asciiCasing noValues restPattern = some (text "/{**rest}") ∧
    routeOf asciiCasing noValues restPattern.parts = text "/{*rest}" ∧
    restPattern.parts = restTemplate.parts ∧
    simplifyRoutePattern asciiCasing noValues restPattern ≠
      simplifyRouteTemplate asciiCasing noValues restTemplate := by
  refine ⟨?_, ?_, ?_, ?_, rfl, ?_⟩ <;> decide

end DdTrace.DiagnosticListeners
