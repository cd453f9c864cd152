import DdTrace.Native.Layout

/-!
# The exception regions of a rewritten body

The clauses of a body name its regions by instructions, so the code that is emitted around
and between them can change what they contain. After the rewriting every region is the hull
of what it was, unless it was a try region that ended at the end of the code or before a
return that got a store.
-/

namespace DdTrace.Native

namespace EHClause

/-- `m_pFilter`, if the clause is a filter clause. -/
def filter (c : EHClause) : Option InstrPtr :=
  if c.flags &&& COR_ILEXCEPTION_CLAUSE_FILTER = 0 then none
  else
    match c.classTokenOrFilter with
    | .target p => some p
    | .arg _ => none

theorem filter_of_none {c : EHClause} (h : c.flags = COR_ILEXCEPTION_CLAUSE_NONE) :
    c.filter = none := if_pos (by rw [h]; decide)

theorem filter_of_finally {c : EHClause} (h : c.flags = COR_ILEXCEPTION_CLAUSE_FINALLY) :
    c.filter = none := if_pos (by rw [h]; decide)

end EHClause

namespace ILRewriter

variable {r r' : ILRewriter} {m : FunctionInfo} {t : CallTargetTokens} {li la : List ILInstr}
  {k : Places} {store : ℕ → ℕ} {c d : EHClause}

def tryRange (r : ILRewriter) (c : EHClause) : Set InstrPtr :=
  Lib.between r.il c.tryBegin c.tryEnd

def handlerRange (r : ILRewriter) (c : EHClause) : Set InstrPtr :=
  Lib.upTo r.il c.handlerBegin c.handlerEnd

/-- The filter comes directly before its handler. -/
def filterRange (r : ILRewriter) (c : EHClause) : List (Set InstrPtr) :=
  c.filter.toList.map fun p => Lib.between r.il p c.handlerBegin

def ranges (r : ILRewriter) (c : EHClause) : List (Set InstrPtr) :=
  r.tryRange c :: r.handlerRange c :: r.filterRange c

/-- The ranges of any two clauses are disjoint or nested, and no clause comes before one
that lies inside it. -/
def Nested (r : ILRewriter) : List EHClause → Prop :=
  List.Pairwise fun c d => ∀ R ∈ r.ranges c, ∀ S ∈ r.ranges d,
    (Disjoint R S ∨ R ⊆ S ∨ S ⊆ R) ∧ ¬ S ⊂ R

/-- The clause refers to instructions of the list, and no range is empty. -/
structure ValidClause (r : ILRewriter) (c : EHClause) : Prop where
  tryBegin : c.tryBegin ∈ r.il
  tryEnd : c.tryEnd ∈ r.il ∨ c.tryEnd = m_IL
  try_nonempty : r.il.idxOf c.tryBegin < r.il.idxOf c.tryEnd
  handlerBegin : c.handlerBegin ∈ r.il
  handlerEnd : c.handlerEnd ∈ r.il
  handler_nonempty : r.il.idxOf c.handlerBegin ≤ r.il.idxOf c.handlerEnd
  filter : ∀ p, c.filter = some p → p ∈ r.il ∧ r.il.idxOf p < r.il.idxOf c.handlerBegin

/-- An imported body: there is code, the clauses are nested with the inner ones first, and
no `RET` stands in a region. -/
structure ValidBody (r : ILRewriter) : Prop where
  wf : r.WellFormed
  nonempty : r.il ≠ []
  clause : ∀ c ∈ r.eh, r.ValidClause c
  nested : r.Nested r.eh
  ret_outside : ∀ p ∈ r.il, (r.instr p).opcode = CEE_RET → ∀ c ∈ r.eh, ∀ R ∈ r.ranges c, p ∉ R

/-- `r'` has the clauses of `r` with what they contained, and four new ones; all are nested
with the inner ones first, and the new catch and finally go around the body. -/
def RegionsWellFormed (r r' : ILRewriter) : Prop :=
  ∃ beginMethodExClause endMethodExClause exClause finallyClause : EHClause,
    r'.eh = r.eh ++ [beginMethodExClause, endMethodExClause, exClause, finallyClause] ∧
    exClause.flags = COR_ILEXCEPTION_CLAUSE_NONE ∧
    finallyClause.flags = COR_ILEXCEPTION_CLAUSE_FINALLY ∧
    (∀ c ∈ r.eh, Lib.Keeps r.il r'.il (r.tryRange c) (r'.tryRange c) ∧
      Lib.Keeps r.il r'.il (r.handlerRange c) (r'.handlerRange c)) ∧
    r'.Nested r'.eh ∧
    ∀ p ∈ r.il, p ∈ r'.tryRange exClause ∧ p ∈ r'.tryRange finallyClause

/-- The try region ends before the end of the code, and not before a return that gets a
store. -/
def EndsInside (r : ILRewriter) (m : FunctionInfo) (c : EHClause) : Prop :=
  c.tryEnd ≠ m_IL ∧ (m.isVoid = true ∨ (r.instr c.tryEnd).opcode ≠ CEE_RET)

/-- The position of the first instruction after the body. -/
def bodyEnd (r : ILRewriter) (m : FunctionInfo) (t : CallTargetTokens) (li la : List ILInstr)
    (store : ℕ → ℕ) : ℕ :=
  (m.beginCode t li la).length + 3 + (Lib.expand (r.stores m store) r.il).length

theorem ranges_of_idxOf {a b x y : ℕ} (hf : c.filter = none) (h1 : r.il.idxOf c.tryBegin = a)
    (h2 : r.il.idxOf c.tryEnd = b) (h3 : r.il.idxOf c.handlerBegin = x)
    (h4 : r.il.idxOf c.handlerEnd + 1 = y) :
    r.ranges c = [Lib.span r.il a b, Lib.span r.il x y] := by
  subst h1 h2 h3 h4
  simp [ranges, tryRange, handlerRange, filterRange, hf, Lib.between_eq_span, Lib.upTo_eq_span]

namespace Layout

variable (h : Layout r m t r' li la k store)
include h

theorem isExtension : Lib.Extends r.il r'.il where
  sublist := by
    rw [h.il]
    exact ((Lib.sublist_expand.trans (List.sublist_append_right ..)).trans
      (List.sublist_append_left ..)).trans (List.sublist_append_left ..)
  nodup := h.wf.nodup

theorem m_IL_notMem : m_IL ∉ r'.il := fun hm => absurd (h.wf.pos _ hm) (by decide)

/-- A store is put directly before every return of a method that is not void. -/
theorem tight_iff {e : InstrPtr} (hr : r.WellFormed) (he : e ∈ r.il) (hpos : 0 < r.il.idxOf e) :
    Lib.Extends.Tight r.il r'.il e ↔ m.isVoid = true ∨ (r.instr e).opcode ≠ CEE_RET := by
  -- `e` and the instruction before it
  obtain ⟨pre, post, hil⟩ := List.append_of_mem he
  rcases List.eq_nil_or_concat pre with rfl | ⟨pre, y, rfl⟩
  · simp [hil] at hpos
  have hil' : r'.il = (List.range' k.first ((m.beginCode t li la).length + 3) ++
      Lib.expand (r.stores m store) pre ++ r.stores m store y) ++ y :: (r.stores m store e ++ e ::
        (Lib.expand (r.stores m store) post ++ (List.range' k.catchStart ((m.endCode t li).length +
          if m.isVoid then 6 else 7) ++ [k.methodReturn]))) := by
    rw [h.il, hil]
    simp
  by_cases hret : (r.instr e).opcode = CEE_RET ∧ m.isVoid = false
  · rw [show r.stores m store e = [store e] from if_pos hret] at hil'
    have hnext := Lib.idxOf_succ_of_append h.wf.nodup (hil'.trans (List.append_cons ..))
    have hnew : store e ∉ r.il := fun hs =>
      absurd (hr.le _ hs) (Nat.not_le.2 (h.store e he hret.1 hret.2).1)
    rw [Lib.Extends.tight_iff (by simp [hil']) hnext]
    simp [hnew, hret]
  · rw [show r.stores m store e = [] from if_neg hret] at hil'
    have hnext := Lib.idxOf_succ_of_append h.wf.nodup hil'
    rw [Lib.Extends.tight_iff (by simp [hil']) hnext]
    refine iff_of_true (by simp [hil]) ?_
    cases hv : m.isVoid with
    | true => exact .inl rfl
    | false => exact .inr fun h => hret ⟨h, hv⟩

/-- The return that is emitted last comes after the body. -/
theorem not_tight_end (hr : r.WellFormed) : ¬ Lib.Extends.Tight r.il r'.il m_IL := by
  have hnew : k.methodReturn ∉ r.il := fun hm => by
    have := hr.le _ hm
    rw [h.places, Places.of_methodReturn] at this
    omega
  have hmem : k.methodReturn ∈ r'.il := by simp [h.il]
  have hlast : r'.il.idxOf k.methodReturn + 1 = r'.il.idxOf m_IL := by
    rw [List.idxOf_of_notMem h.m_IL_notMem, Lib.idxOf_of_append h.wf.nodup h.il, h.il]
    simp
    omega
  rwa [Lib.Extends.tight_iff hmem hlast]

/-! ### The regions of the body -/

/-- The positions of the addresses before the body. -/
theorem idxOf_before {j : ℕ} (hj : j < (m.beginCode t li la).length + 3) :
    r'.il.idxOf (k.first + j) = j := by
  have hil := h.il
  rw [List.append_assoc, List.append_assoc] at hil
  have hil' : r'.il = [] ++ (List.range' k.first ((m.beginCode t li la).length + 3) ++ _) := hil
  simpa using Lib.idxOf_range'_of_append h.wf.nodup hil' hj

/-- The positions of the body lie between. -/
theorem idxOf_body {p : InstrPtr} (hp : p ∈ Lib.expand (r.stores m store) r.il) :
    (m.beginCode t li la).length + 3 ≤ r'.il.idxOf p ∧
      r'.il.idxOf p < bodyEnd r m t li la store := by
  obtain ⟨pre, post, hpp⟩ := List.append_of_mem hp
  have hil := h.il
  rw [hpp, List.append_assoc, List.append_assoc, List.append_assoc, ← List.append_assoc,
    List.cons_append] at hil
  rw [Lib.idxOf_of_append h.wf.nodup hil, bodyEnd, hpp]
  simp

/-- The positions of the addresses after it. -/
theorem idxOf_after {j : ℕ} (hj : j < (m.endCode t li).length + if m.isVoid then 6 else 7) :
    r'.il.idxOf (k.catchStart + j) = bodyEnd r m t li la store + j := by
  have hil := h.il
  rw [List.append_assoc] at hil
  simpa [bodyEnd] using Lib.idxOf_range'_of_append h.wf.nodup hil hj

/-! ### The new clauses -/

theorem idxOf_first : r'.il.idxOf k.first = 0 := h.idxOf_before (j := 0) (by omega)

theorem idxOf_beginCatch : r'.il.idxOf k.beginCatch = (m.beginCode t li la).length + 1 := by
  rw [← h.idxOf_before (j := (m.beginCode t li la).length + 1) (by omega), h.places]
  congr 1
  exact show (_ : ℕ) = _ by simp; omega

theorem idxOf_beginLeave : r'.il.idxOf k.beginLeave = (m.beginCode t li la).length + 2 := by
  rw [← h.idxOf_before (j := (m.beginCode t li la).length + 2) (by omega), h.places]
  congr 1
  exact show (_ : ℕ) = _ by simp; omega

theorem idxOf_catchStart : r'.il.idxOf k.catchStart = bodyEnd r m t li la store :=
  h.idxOf_after (j := 0) (by split <;> omega)

theorem idxOf_rethrow : r'.il.idxOf k.rethrow = bodyEnd r m t li la store + 1 := by
  rw [← h.idxOf_after (j := 1) (by split <;> omega), h.places]
  rfl

theorem idxOf_tryStart : r'.il.idxOf k.tryStart = bodyEnd r m t li la store + 2 := by
  rw [← h.idxOf_after (j := 2) (by split <;> omega), h.places]
  rfl

theorem idxOf_endCatch :
    r'.il.idxOf k.endCatch = bodyEnd r m t li la store + ((m.endCode t li).length + 3) := by
  rw [← h.idxOf_after (j := (m.endCode t li).length + 3) (by split <;> omega), h.places]
  congr 1
  exact show (_ : ℕ) = _ by simp; omega

theorem idxOf_endLeave :
    r'.il.idxOf k.endLeave = bodyEnd r m t li la store + ((m.endCode t li).length + 4) := by
  rw [← h.idxOf_after (j := (m.endCode t li).length + 4) (by split <;> omega), h.places]
  congr 1
  exact show (_ : ℕ) = _ by simp; omega

theorem idxOf_endFinally :
    r'.il.idxOf k.endFinally = bodyEnd r m t li la store + ((m.endCode t li).length + 5) := by
  rw [← h.idxOf_after (j := (m.endCode t li).length + 5) (by split <;> omega), h.places]
  congr 1
  exact show (_ : ℕ) = _ by simp; omega

theorem ranges_beginMethodExClause : r'.ranges (k.beginMethodExClause t) =
    [Lib.span r'.il 0 ((m.beginCode t li la).length + 1),
      Lib.span r'.il ((m.beginCode t li la).length + 1) ((m.beginCode t li la).length + 3)] :=
  ranges_of_idxOf (EHClause.filter_of_none rfl) h.idxOf_first h.idxOf_beginCatch h.idxOf_beginCatch
    (congrArg (· + 1) h.idxOf_beginLeave)

theorem ranges_endMethodExClause : r'.ranges (k.endMethodExClause t) =
    [Lib.span r'.il (bodyEnd r m t li la store + 2)
        (bodyEnd r m t li la store + ((m.endCode t li).length + 3)),
      Lib.span r'.il (bodyEnd r m t li la store + ((m.endCode t li).length + 3))
        (bodyEnd r m t li la store + ((m.endCode t li).length + 5))] :=
  ranges_of_idxOf (EHClause.filter_of_none rfl) h.idxOf_tryStart h.idxOf_endCatch h.idxOf_endCatch
    (congrArg (· + 1) h.idxOf_endLeave)

theorem ranges_exClause : r'.ranges (k.exClause t) =
    [Lib.span r'.il 0 (bodyEnd r m t li la store),
      Lib.span r'.il (bodyEnd r m t li la store) (bodyEnd r m t li la store + 2)] :=
  ranges_of_idxOf (EHClause.filter_of_none rfl) h.idxOf_first h.idxOf_catchStart h.idxOf_catchStart
    (congrArg (· + 1) h.idxOf_rethrow)

theorem ranges_finallyClause : r'.ranges k.finallyClause =
    [Lib.span r'.il 0 (bodyEnd r m t li la store + 2),
      Lib.span r'.il (bodyEnd r m t li la store + 2)
        (bodyEnd r m t li la store + ((m.endCode t li).length + 6))] :=
  ranges_of_idxOf (EHClause.filter_of_finally rfl) h.idxOf_first h.idxOf_tryStart h.idxOf_tryStart
    (congrArg (· + 1) h.idxOf_endFinally)

/-! ### The regions of the body -/

theorem handlerRange_eq_hull (hc : r.ValidClause c) :
    r'.handlerRange c = Lib.hull r'.il (r.handlerRange c) :=
  h.isExtension.upTo_eq_hull hc.handlerBegin hc.handlerEnd hc.handler_nonempty

/-- A try region is the hull of what it was if, and only if, it ends inside. -/
theorem tryRange_eq_hull_iff (hr : r.WellFormed) (hc : r.ValidClause c) :
    r'.tryRange c = Lib.hull r'.il (r.tryRange c) ↔ r.EndsInside m c := by
  have hend : c.tryEnd ∈ r.il ∨ c.tryEnd ∉ r'.il :=
    hc.tryEnd.imp_right fun he => by rw [he]; exact h.m_IL_notMem
  refine (h.isExtension.between_eq_hull_iff hc.tryBegin hend hc.try_nonempty).trans ?_
  rcases hc.tryEnd with he | he
  · have hne : c.tryEnd ≠ m_IL := Nat.ne_of_gt (hr.pos _ he)
    rw [h.tight_iff hr he (Nat.zero_lt_of_lt hc.try_nonempty)]
    exact (and_iff_right hne).symm
  · rw [he]
    exact iff_of_false (h.not_tight_end hr) fun h => h.1 he

theorem ranges_eq_hull (hr : r.WellFormed) (hc : r.ValidClause c) (he : r.EndsInside m c)
    (hret : (r.instr c.handlerBegin).opcode ≠ CEE_RET) :
    r'.ranges c = (r.ranges c).map (Lib.hull r'.il) := by
  have hfilter : r'.filterRange c = (r.filterRange c).map (Lib.hull r'.il) := by
    unfold filterRange
    rw [List.map_map]
    refine List.map_congr_left fun p hp => ?_
    obtain ⟨hp, hlt⟩ := hc.filter p (Option.mem_toList.1 hp)
    refine (h.isExtension.between_eq_hull_iff hp (.inl hc.handlerBegin) hlt).2 ?_
    rw [h.tight_iff hr hc.handlerBegin (Nat.zero_lt_of_lt hlt)]
    exact .inr hret
  rw [ranges, ranges, (h.tryRange_eq_hull_iff hr hc).2 he, h.handlerRange_eq_hull hc, hfilter]
  rfl

theorem hull_subset_body {R : Set InstrPtr} (hR : Lib.Stretch r.il R) :
    Lib.hull r'.il R ⊆ Lib.span r'.il ((m.beginCode t li la).length + 3)
      (bodyEnd r m t li la store) := by
  rintro p ⟨hp, a, ha, b, hb, h1, h2⟩
  have hexp : ∀ q ∈ r.il, q ∈ Lib.expand (r.stores m store) r.il :=
    fun q hq => Lib.sublist_expand.subset hq
  have ha := h.idxOf_body (hexp a (hR.subset a ha))
  have hb := h.idxOf_body (hexp b (hR.subset b hb))
  exact ⟨hp, by omega, by omega⟩

end Layout

theorem mem_ranges {R : Set InstrPtr} : R ∈ r.ranges c ↔
    R = r.tryRange c ∨ R = r.handlerRange c ∨
      ∃ p, c.filter = some p ∧ R = Lib.between r.il p c.handlerBegin := by
  simp [ranges, filterRange, eq_comm]

theorem ranges_nonempty (hc : r.ValidClause c) : ∀ R ∈ r.ranges c, R.Nonempty := by
  intro R hR
  rcases mem_ranges.1 hR with rfl | rfl | ⟨p, hp, rfl⟩
  · exact ⟨c.tryBegin, hc.tryBegin, le_rfl, hc.try_nonempty⟩
  · exact ⟨c.handlerBegin, hc.handlerBegin, le_rfl, hc.handler_nonempty⟩
  · exact ⟨p, (hc.filter p hp).1, le_rfl, (hc.filter p hp).2⟩

theorem stretch_ranges : ∀ R ∈ r.ranges c, Lib.Stretch r.il R := by
  intro R hR
  rcases mem_ranges.1 hR with rfl | rfl | ⟨p, _, rfl⟩
  · exact Lib.stretch_between
  · exact Lib.stretch_upTo
  · exact Lib.stretch_between

/-- Instead of `Nested`: of two ranges the first is apart from the second or inside it. -/
def InnerFirst (r : ILRewriter) : List EHClause → Prop :=
  List.Pairwise fun c d => ∀ R ∈ r.ranges c, ∀ S ∈ r.ranges d, Disjoint R S ∨ R ⊆ S

theorem nested_iff {eh : List EHClause} (hne : ∀ c ∈ eh, ∀ R ∈ r.ranges c, R.Nonempty) :
    r.Nested eh ↔ r.InnerFirst eh := by
  refine List.Pairwise.iff_of_mem fun {c d} _ hd => ?_
  refine forall₂_congr fun R _ => forall₂_congr fun S hS => ?_
  exact (Lib.disjoint_or_subset_iff (hne d hd S hS)).symm

theorem le_bodyEnd : (m.beginCode t li la).length + 3 ≤ bodyEnd r m t li la store :=
  Nat.le_add_right ..

namespace Layout

variable (h : Layout r m t r' li la k store)
include h

/-- The four new clauses among themselves. -/
theorem innerFirst_new : r'.InnerFirst
    [k.beginMethodExClause t, k.endMethodExClause t, k.exClause t, k.finallyClause] := by
  have := @le_bodyEnd r m t li la store
  simp only [InnerFirst, List.pairwise_cons, List.mem_cons, List.not_mem_nil, or_false,
    forall_eq_or_imp, forall_eq, h.ranges_beginMethodExClause, h.ranges_endMethodExClause,
    h.ranges_exClause, h.ranges_finallyClause, false_imp_iff, implies_true, List.Pairwise.nil,
    and_true]
  and_intros
  all_goals exact Lib.disjoint_or_span_subset (by omega)

/-- A range of the body against those of the new clauses. -/
theorem inner_new {R S : Set InstrPtr} (hR : R ⊆ Lib.span r'.il
    ((m.beginCode t li la).length + 3) (bodyEnd r m t li la store))
    (hd : d ∈ [k.beginMethodExClause t, k.endMethodExClause t, k.exClause t, k.finallyClause])
    (hS : S ∈ r'.ranges d) : Disjoint R S ∨ R ⊆ S := by
  suffices hs : Disjoint (Lib.span r'.il ((m.beginCode t li la).length + 3)
      (bodyEnd r m t li la store)) S ∨ Lib.span r'.il ((m.beginCode t li la).length + 3)
      (bodyEnd r m t li la store) ⊆ S from
    hs.imp (fun h => h.mono_left hR) fun h => hR.trans h
  revert S
  revert d
  simp only [List.mem_cons, List.not_mem_nil, or_false, forall_eq_or_imp, forall_eq,
    h.ranges_beginMethodExClause, h.ranges_endMethodExClause, h.ranges_exClause,
    h.ranges_finallyClause]
  and_intros
  all_goals exact Lib.disjoint_or_span_subset (by omega)

theorem length_il : r'.il.length = bodyEnd r m t li la store +
    ((m.endCode t li).length + if m.isVoid then 6 else 7) + 1 := by
  rw [h.il, bodyEnd]
  simp
  omega

theorem nonempty_new
    (hd : d ∈ [k.beginMethodExClause t, k.endMethodExClause t, k.exClause t, k.finallyClause]) :
    ∀ S ∈ r'.ranges d, S.Nonempty := by
  have hpos := @le_bodyEnd r m t li la store
  have hlen : bodyEnd r m t li la store + (m.endCode t li).length + 7 ≤ r'.il.length := by
    rw [h.length_il]
    split <;> omega
  revert d
  simp only [List.mem_cons, List.not_mem_nil, or_false, forall_eq_or_imp, forall_eq,
    h.ranges_beginMethodExClause, h.ranges_endMethodExClause, h.ranges_exClause,
    h.ranges_finallyClause]
  and_intros
  all_goals exact Lib.span_nonempty h.wf.nodup (by omega) (by omega)

theorem body_mem_try {p : InstrPtr} (hp : p ∈ r.il) :
    p ∈ r'.tryRange (k.exClause t) ∧ p ∈ r'.tryRange k.finallyClause := by
  have hpos := h.idxOf_body (Lib.sublist_expand.subset hp)
  have hmem := h.isExtension.mem hp
  constructor
  · refine ⟨hmem, ?_, ?_⟩
    · exact h.idxOf_first.le.trans (Nat.zero_le _)
    · exact hpos.2.trans_eq h.idxOf_catchStart.symm
  · refine ⟨hmem, ?_, ?_⟩
    · exact h.idxOf_first.le.trans (Nat.zero_le _)
    · refine lt_of_lt_of_eq ?_ h.idxOf_tryStart.symm
      exact Nat.lt_add_right _ hpos.2

end Layout

/-- The regions stay well formed exactly when every try region of the body ends inside. -/
theorem regions_well_formed (hr : r.ValidBody)
    (h : r.callTargetRewriterCallback m t = some r') :
    RegionsWellFormed r r' ↔ ∀ c ∈ r.eh, r.EndsInside m c := by
  obtain ⟨li, la, k, store, h⟩ := callTargetRewriterCallback_layout hr.wf hr.nonempty h
  have hx := h.isExtension
  constructor
  · rintro ⟨b, e, ex, fin, _, _, _, hkeep, _⟩ c hc
    have heq := (hx.keeps_iff Lib.stretch_between Lib.stretch_between).1 (hkeep c hc).1
    exact (h.tryRange_eq_hull_iff hr.wf (hr.clause c hc)).1 heq
  · intro hends
    have hret : ∀ c ∈ r.eh, (r.instr c.handlerBegin).opcode ≠ CEE_RET := by
      intro c hc hret
      have hv := hr.clause c hc
      exact hr.ret_outside _ hv.handlerBegin hret c hc (r.handlerRange c)
        (mem_ranges.2 (.inr (.inl rfl))) ⟨hv.handlerBegin, le_rfl, hv.handler_nonempty⟩
    have hranges : ∀ c ∈ r.eh, r'.ranges c = (r.ranges c).map (Lib.hull r'.il) := fun c hc =>
      h.ranges_eq_hull hr.wf (hr.clause c hc) (hends c hc) (hret c hc)
    have hinner : r'.InnerFirst r'.eh := by
      rw [h.eh, InnerFirst, List.pairwise_append]
      refine ⟨?_, h.innerFirst_new, fun c hc d hd R' hR' S hS => ?_⟩
      · have hold := (nested_iff fun c hc => ranges_nonempty (hr.clause c hc)).1 hr.nested
        refine List.Pairwise.imp_of_mem (fun {c d} hc hd hcd R' hR' S' hS' => ?_) hold
        rw [hranges c hc] at hR'
        rw [hranges d hd] at hS'
        obtain ⟨R, hR, rfl⟩ := List.mem_map.1 hR'
        obtain ⟨S, hS, rfl⟩ := List.mem_map.1 hS'
        refine (hcd R hR S hS).imp (fun hRS => ?_) Lib.hull_mono
        exact hx.hull_disjoint (stretch_ranges R hR) (stretch_ranges S hS) hRS
      · rw [hranges c hc] at hR'
        obtain ⟨R, hR, rfl⟩ := List.mem_map.1 hR'
        exact h.inner_new (h.hull_subset_body (stretch_ranges R hR)) hd hS
    have hne : ∀ c ∈ r'.eh, ∀ R ∈ r'.ranges c, R.Nonempty := by
      intro c hc R' hR'
      rw [h.eh] at hc
      rcases List.mem_append.1 hc with hc | hc
      · rw [hranges c hc] at hR'
        obtain ⟨R, hR, rfl⟩ := List.mem_map.1 hR'
        obtain ⟨x, hxR⟩ := ranges_nonempty (hr.clause c hc) R hR
        exact ⟨x, (hx.mem_hull_iff (stretch_ranges R hR) ((stretch_ranges R hR).subset x hxR)).2 hxR⟩
      · exact h.nonempty_new hc R' hR'
    refine ⟨_, _, _, _, h.eh, rfl, rfl, fun c hc => ⟨?_, ?_⟩, ?_, fun p hp => h.body_mem_try hp⟩
    · exact (hx.keeps_iff Lib.stretch_between Lib.stretch_between).2
        ((h.tryRange_eq_hull_iff hr.wf (hr.clause c hc)).2 (hends c hc))
    · exact (hx.keeps_iff Lib.stretch_upTo Lib.stretch_upTo).2
        (h.handlerRange_eq_hull (hr.clause c hc))
    · exact (nested_iff hne).2 hinner

/-- A method that runs `try { } catch { }` in the order handler, return, try region. With
`il` the code ends there, or there is a branch behind the try region. -/
def tryAtEnd (il : List InstrPtr) (tryEnd : InstrPtr) : ILRewriter where
  tkLocalVarSig := 0
  maxStack := 8
  flags := 0
  generateTinyHeader := false
  il := il
  instr
    | 1 => ⟨CEE_BR_S, .target 5⟩
    | 2 => ⟨CEE_POP, .arg 0⟩
    | 3 => ⟨CEE_LEAVE_S, .target 4⟩
    | 4 => ⟨CEE_RET, .arg 0⟩
    | 5 => ⟨CEE_LEAVE_S, .target 4⟩
    | _ => ⟨CEE_BR_S, .target 4⟩
  eh := [⟨COR_ILEXCEPTION_CLAUSE_NONE, 5, tryEnd, 2, 3, .arg 0⟩]
  nInstrs := il.length

/-- A static method without arguments. -/
def staticMethod (isVoid : Bool) : FunctionInfo where
  isStatic := true
  isVoid := isVoid
  valueType := false
  isGeneric := false
  typeId := 0
  typeSpec := none
  arguments := []
  numLocals := 0

def sampleTokens : CallTargetTokens := ⟨1, 2, 3, 4, 5, 6, 7, 8, 9⟩

theorem validBody_tryAtEnd {il : List InstrPtr} {tryEnd : InstrPtr}
    (h : (il, tryEnd) ∈ [([1, 2, 3, 4, 5], m_IL), ([1, 2, 3, 4, 5, 6], 6)]) :
    (tryAtEnd il tryEnd).ValidBody := by
  simp only [List.mem_cons, List.not_mem_nil, or_false, Prod.mk.injEq] at h
  rcases h with ⟨rfl, rfl⟩ | ⟨rfl, rfl⟩
  all_goals
    refine ⟨⟨by decide, by decide, by decide⟩, by decide, fun c hc => ?_,
      List.pairwise_singleton .., fun p hp hret c hc R hR => ?_⟩
    · rw [List.mem_singleton.1 hc]
      exact ⟨by decide, by decide, by decide, by decide, by decide, by decide, nofun⟩
    · obtain rfl : p = 4 := by revert p; decide
      rw [List.mem_singleton.1 hc] at hR
      rcases mem_ranges.1 hR with rfl | rfl | ⟨_, h, _⟩
      · exact fun h => absurd h.2.1 (by decide)
      · exact fun h => absurd h.2.2 (by decide)
      · cases h

theorem regions_well_formed_catch : ∃ r',
    (tryAtEnd [1, 2, 3, 4, 5, 6] 6).callTargetRewriterCallback (staticMethod false) sampleTokens =
      some r' ∧ RegionsWellFormed (tryAtEnd [1, 2, 3, 4, 5, 6] 6) r' := by
  obtain ⟨r', h⟩ := Option.isSome_iff_exists.1 (show ((tryAtEnd [1, 2, 3, 4, 5, 6]
    6).callTargetRewriterCallback (staticMethod false) sampleTokens).isSome from rfl)
  refine ⟨r', h, (regions_well_formed (validBody_tryAtEnd (by simp)) h).2 fun c hc => ?_⟩
  rw [List.mem_singleton.1 hc]
  exact ⟨by decide, .inr (by decide)⟩

/-- A try region that ends at the end of the code goes on to the end of the new code. -/
theorem try_region_overruns : ¬ ∀ (r r' : ILRewriter) (m : FunctionInfo) (t : CallTargetTokens),
    r.ValidBody → r.callTargetRewriterCallback m t = some r' → RegionsWellFormed r r' := by
  intro hall
  obtain ⟨r', h⟩ := Option.isSome_iff_exists.1 (show ((tryAtEnd [1, 2, 3, 4, 5]
    m_IL).callTargetRewriterCallback (staticMethod true) sampleTokens).isSome from rfl)
  obtain ⟨_, _, _, _, _, _, _, hkeep, _⟩ := hall _ _ _ _ (validBody_tryAtEnd (by simp)) h
  have hil : ((tryAtEnd [1, 2, 3, 4, 5] m_IL).callTargetRewriterCallback (staticMethod true)
      sampleTokens).map ILRewriter.il = some [6, 7, 8, 9, 10, 11, 12, 13, 14, 15, 1, 2, 3, 4, 5, 17, 18,
        19, 20, 21, 22, 23, 24, 25, 26, 27, 16] := by decide +kernel
  rw [h] at hil
  have hil := Option.some.inj hil
  -- the return that was emitted last, and what should come after it
  have hlast : 16 ∈ Lib.between r'.il 5 m_IL := by
    rw [hil]
    exact ⟨by decide, by decide, by decide⟩
  obtain ⟨_, _, b, ⟨hb, _⟩, _, hlt⟩ := (hkeep _ (List.mem_singleton.2 rfl)).1.between 16 hlast
    (by decide)
  rw [hil] at hlt
  revert b
  decide

end ILRewriter

end DdTrace.Native
