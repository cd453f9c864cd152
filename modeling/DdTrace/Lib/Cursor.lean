import Mathlib.Algebra.Order.Ring.Nat
import Mathlib.Data.List.GetD

/-!
# Readers of a memory

A `Reader` moves a cursor over a memory and logs every address it reads. It may fail, or
run out of fuel. `Ok` is its outcome when it succeeds, `Reads` the addresses it reads,
`Stuck` that it runs out of fuel; each has one rule per way to build a reader. `seg a b` are
the bytes from address `a` to before `b`.
-/

namespace DdTrace.Lib

inductive Outcome (α : Type) where
  | ok (a : α) (cur : ℕ)
  | failed
  | outOfFuel
  deriving DecidableEq

/-- From a memory and a cursor, the addresses read and the outcome. -/
def Reader (β : Type*) (α : Type) := (ℕ → β) → ℕ → List ℕ × Outcome α

namespace Reader

variable {β : Type*} {α γ : Type} {mem : ℕ → β} {cur cur' i n : ℕ} {a : α} {c : γ}
  {p : Reader β α} {f : α → Reader β γ}

def fail : Reader β α := fun _ _ => ([], .failed)
def outOfFuel : Reader β α := fun _ _ => ([], .outOfFuel)
/-- Where the cursor stands. -/
def cursor : Reader β ℕ := fun _ cur => ([], .ok cur cur)
/-- The element at the cursor. -/
def deref {β : Type} : Reader β β := fun mem cur => ([cur], .ok (mem cur) cur)
def skip : Reader β Unit := fun _ cur => ([], .ok () (cur + 1))

instance : Monad (Reader β) where
  pure a := fun _ cur => ([], .ok a cur)
  bind p f := fun mem cur =>
    match p mem cur with
    | (reads, .ok a cur') => (reads ++ (f a mem cur').1, (f a mem cur').2)
    | (reads, .failed) => (reads, .failed)
    | (reads, .outOfFuel) => (reads, .outOfFuel)

/-- `p` `n` times. -/
def times (p : Reader β Unit) : ℕ → Reader β Unit
  | 0 => pure ()
  | n + 1 => do
    p
    times p n

def Ok (p : Reader β α) (mem : ℕ → β) (cur : ℕ) (a : α) (cur' : ℕ) : Prop :=
  (p mem cur).2 = .ok a cur'

def Reads (p : Reader β α) (mem : ℕ → β) (cur i : ℕ) : Prop := i ∈ (p mem cur).1

def Stuck (p : Reader β α) (mem : ℕ → β) (cur : ℕ) : Prop := (p mem cur).2 = .outOfFuel

/-! ## Success -/

theorem Ok.unique {b : α} {cur'' : ℕ} (h : Ok p mem cur a cur') (h' : Ok p mem cur b cur'') :
    a = b ∧ cur' = cur'' := by
  have := h.symm.trans h'
  injection this with h1 h2
  exact ⟨h1, h2⟩

@[simp] theorem ok_pure {b : α} : Ok (pure b : Reader β α) mem cur a cur' ↔ b = a ∧ cur = cur' := by
  show Outcome.ok b cur = .ok a cur' ↔ _
  rw [Outcome.ok.injEq]

@[simp] theorem ok_fail : ¬ Ok (fail : Reader β α) mem cur a cur' := nofun
@[simp] theorem ok_outOfFuel : ¬ Ok (outOfFuel : Reader β α) mem cur a cur' := nofun

@[simp] theorem ok_cursor : Ok (cursor : Reader β ℕ) mem cur n cur' ↔ cur = n ∧ cur = cur' := by
  show Outcome.ok cur cur = .ok n cur' ↔ _
  rw [Outcome.ok.injEq]

@[simp] theorem ok_deref {β : Type} {mem : ℕ → β} {b : β} : Ok deref mem cur b cur' ↔ mem cur = b ∧ cur = cur' := by
  show Outcome.ok (mem cur) cur = .ok b cur' ↔ _
  rw [Outcome.ok.injEq]

@[simp] theorem ok_skip {u : Unit} : Ok (skip : Reader β Unit) mem cur u cur' ↔ cur + 1 = cur' := by
  show Outcome.ok () (cur + 1) = .ok u cur' ↔ _
  simp

@[simp] theorem ok_bind :
    Ok (p >>= f) mem cur c cur' ↔ ∃ a cur₁, Ok p mem cur a cur₁ ∧ Ok (f a) mem cur₁ c cur' := by
  show (match p mem cur with
    | (reads, .ok a cur') => (reads ++ (f a mem cur').1, (f a mem cur').2)
    | (reads, .failed) => (reads, .failed)
    | (reads, .outOfFuel) => (reads, .outOfFuel)).2 = _ ↔ _
  unfold Ok
  rcases p mem cur with ⟨reads, a | _ | _⟩
  · constructor
    · intro h
      exact ⟨_, _, rfl, h⟩
    · rintro ⟨_, _, h1, h2⟩
      cases h1
      exact h2
  · simp
  · simp

/-! ## Reads -/

@[simp] theorem reads_pure : ¬ Reads (pure a : Reader β α) mem cur i := List.not_mem_nil
@[simp] theorem reads_fail : ¬ Reads (fail : Reader β α) mem cur i := List.not_mem_nil
@[simp] theorem reads_outOfFuel : ¬ Reads (outOfFuel : Reader β α) mem cur i := List.not_mem_nil
@[simp] theorem reads_cursor : ¬ Reads (cursor : Reader β ℕ) mem cur i := List.not_mem_nil
@[simp] theorem reads_skip : ¬ Reads (skip : Reader β Unit) mem cur i := List.not_mem_nil
@[simp] theorem reads_deref {β : Type} {mem : ℕ → β} :
    Reads (deref : Reader β β) mem cur i ↔ i = cur :=
  List.mem_singleton

@[simp] theorem reads_bind : Reads (p >>= f) mem cur i ↔
    Reads p mem cur i ∨ ∃ a cur₁, Ok p mem cur a cur₁ ∧ Reads (f a) mem cur₁ i := by
  show i ∈ (match p mem cur with
    | (reads, .ok a cur') => (reads ++ (f a mem cur').1, (f a mem cur').2)
    | (reads, .failed) => (reads, .failed)
    | (reads, .outOfFuel) => (reads, .outOfFuel)).1 ↔ _
  unfold Reads Ok
  rcases p mem cur with ⟨reads, a | _ | _⟩
  · rw [List.mem_append]
    refine or_congr_right ⟨fun h => ⟨_, _, rfl, h⟩, ?_⟩
    rintro ⟨_, _, h1, h2⟩
    cases h1
    exact h2
  · simp
  · simp

/-! ## Fuel -/

@[simp] theorem stuck_pure : ¬ Stuck (pure a : Reader β α) mem cur := nofun
@[simp] theorem stuck_fail : ¬ Stuck (fail : Reader β α) mem cur := nofun
@[simp] theorem stuck_cursor : ¬ Stuck (cursor : Reader β ℕ) mem cur := nofun
@[simp] theorem stuck_skip : ¬ Stuck (skip : Reader β Unit) mem cur := nofun
@[simp] theorem stuck_deref {β : Type} {mem : ℕ → β} : ¬ Stuck (deref : Reader β β) mem cur := nofun

@[simp] theorem stuck_bind : Stuck (p >>= f) mem cur ↔
    Stuck p mem cur ∨ ∃ a cur₁, Ok p mem cur a cur₁ ∧ Stuck (f a) mem cur₁ := by
  show (match p mem cur with
    | (reads, .ok a cur') => (reads ++ (f a mem cur').1, (f a mem cur').2)
    | (reads, .failed) => (reads, .failed)
    | (reads, .outOfFuel) => (reads, .outOfFuel)).2 = _ ↔ _
  unfold Stuck Ok
  rcases p mem cur with ⟨reads, a | _ | _⟩
  · simp
  · simp
  · simp

/-! ## Staying within a limit -/

/-- `p` reads below `limit` only, and has fuel enough. -/
def Within (p : Reader β α) (mem : ℕ → β) (limit cur : ℕ) : Prop :=
  (∀ i, Reads p mem cur i → i < limit) ∧ ¬ Stuck p mem cur

variable {limit : ℕ}

theorem Within.pure : Within (pure a : Reader β α) mem limit cur :=
  ⟨fun _ h => absurd h reads_pure, stuck_pure⟩

theorem Within.fail : Within (fail : Reader β α) mem limit cur :=
  ⟨fun _ h => absurd h reads_fail, stuck_fail⟩

theorem Within.cursor : Within (cursor : Reader β ℕ) mem limit cur :=
  ⟨fun _ h => absurd h reads_cursor, stuck_cursor⟩

theorem Within.skip : Within (skip : Reader β Unit) mem limit cur :=
  ⟨fun _ h => absurd h reads_skip, stuck_skip⟩

theorem Within.deref {β : Type} {mem : ℕ → β} (h : cur < limit) :
    Within (deref : Reader β β) mem limit cur :=
  ⟨fun _ hi => (reads_deref.1 hi).trans_lt h, stuck_deref⟩

theorem Within.bind (hp : Within p mem limit cur)
    (hf : ∀ a cur₁, Ok p mem cur a cur₁ → Within (f a) mem limit cur₁) :
    Within (p >>= f) mem limit cur := by
  constructor
  · intro i hi
    rcases reads_bind.1 hi with hi | ⟨a, cur₁, hok, hi⟩
    · exact hp.1 i hi
    · exact (hf a cur₁ hok).1 i hi
  · intro hs
    rcases stuck_bind.1 hs with hs | ⟨a, cur₁, hok, hs⟩
    · exact hp.2 hs
    · exact (hf a cur₁ hok).2 hs

theorem Within.ite {q : Prop} [Decidable q] {p₁ p₂ : Reader β α}
    (h₁ : q → Within p₁ mem limit cur) (h₂ : ¬ q → Within p₂ mem limit cur) :
    Within (if q then p₁ else p₂) mem limit cur := by
  split
  · exact h₁ ‹_›
  · exact h₂ ‹_›

/-- `p` reads at `limit` or behind it. -/
def Over (p : Reader β α) (mem : ℕ → β) (limit cur : ℕ) : Prop := ∃ i, limit ≤ i ∧ Reads p mem cur i

theorem Within.not_over (h : Within p mem limit cur) : ¬ Over p mem limit cur :=
  fun ⟨i, hle, hi⟩ => absurd (h.1 i hi) (not_lt.2 hle)

@[simp] theorem over_pure : ¬ Over (pure a : Reader β α) mem limit cur := Within.pure.not_over
@[simp] theorem over_fail : ¬ Over (fail : Reader β α) mem limit cur := Within.fail.not_over
@[simp] theorem over_outOfFuel : ¬ Over (outOfFuel : Reader β α) mem limit cur :=
  fun ⟨_, _, h⟩ => reads_outOfFuel h

@[simp] theorem over_cursor : ¬ Over (cursor : Reader β ℕ) mem limit cur := Within.cursor.not_over
@[simp] theorem over_skip : ¬ Over (skip : Reader β Unit) mem limit cur := Within.skip.not_over

@[simp] theorem over_deref {β : Type} {mem : ℕ → β} :
    Over (deref : Reader β β) mem limit cur ↔ limit ≤ cur := by
  simp [Over]

@[simp] theorem over_bind : Over (p >>= f) mem limit cur ↔
    Over p mem limit cur ∨ ∃ a cur₁, Ok p mem cur a cur₁ ∧ Over (f a) mem limit cur₁ := by
  constructor
  · rintro ⟨i, hle, hi⟩
    rcases reads_bind.1 hi with hi | ⟨a, cur₁, hok, hi⟩
    · exact .inl ⟨i, hle, hi⟩
    · exact .inr ⟨a, cur₁, hok, i, hle, hi⟩
  · rintro (⟨i, hle, hi⟩ | ⟨a, cur₁, hok, i, hle, hi⟩)
    · exact ⟨i, hle, reads_bind.2 (.inl hi)⟩
    · exact ⟨i, hle, reads_bind.2 (.inr ⟨a, cur₁, hok, hi⟩)⟩

/-- One of the rounds of `times` is the first to read too far. -/
theorem over_times {p : Reader β Unit} : Over (times p n) mem limit cur ↔
    ∃ k < n, ∃ cur₁, Ok (times p k) mem cur () cur₁ ∧ Over p mem limit cur₁ := by
  induction n generalizing cur with
  | zero => simp [times]
  | succ n ih =>
    rw [times, over_bind]
    constructor
    · rintro (h | ⟨⟨⟩, c, hok, h⟩)
      · exact ⟨0, Nat.succ_pos n, cur, ok_pure.2 ⟨rfl, rfl⟩, h⟩
      · obtain ⟨k, hk, c', hok', h⟩ := ih.1 h
        exact ⟨k + 1, Nat.succ_lt_succ hk, c', ok_bind.2 ⟨(), c, hok, hok'⟩, h⟩
    · rintro ⟨k, hk, c', hok, h⟩
      cases k with
      | zero =>
        obtain ⟨-, rfl⟩ := ok_pure.1 hok
        exact .inl h
      | succ k =>
        obtain ⟨⟨⟩, c, hok, hok'⟩ := ok_bind.1 hok
        exact .inr ⟨(), c, hok, ih.2 ⟨k, Nat.lt_of_succ_lt_succ hk, c', hok', h⟩⟩

theorem stuck_times {p : Reader β Unit} (inv : ℕ → Prop) (hp : ∀ cur, inv cur → ¬ Stuck p mem cur)
    (hinv : ∀ cur cur', inv cur → Ok p mem cur () cur' → inv cur') (h : inv cur) :
    ¬ Stuck (times p n) mem cur := by
  induction n generalizing cur with
  | zero => exact stuck_pure
  | succ n ih =>
    rw [times, stuck_bind, not_or]
    refine ⟨hp cur h, ?_⟩
    rintro ⟨_, cur', hok, hs⟩
    exact ih (hinv cur cur' h hok) hs

end Reader

/-! ## Segments -/

section Segments

variable {β : Type*} {mem : ℕ → β} {a b c : ℕ} {l l' : List β} {x : β}

def seg (mem : ℕ → β) (a b : ℕ) : List β := (List.range' a (b - a)).map mem

@[simp] theorem length_seg : (seg mem a b).length = b - a := by simp [seg]

@[simp] theorem seg_self : seg mem a a = [] := by simp [seg]

theorem seg_append (hab : a ≤ b) (hbc : b ≤ c) : seg mem a b ++ seg mem b c = seg mem a c := by
  obtain ⟨j, rfl⟩ := Nat.exists_eq_add_of_le hab
  obtain ⟨k, rfl⟩ := Nat.exists_eq_add_of_le hbc
  have hac : a + j + k - a = j + k := by omega
  simp only [seg, ← List.map_append, Nat.add_sub_cancel_left, hac, List.range'_append_1]

theorem seg_cons (h : a < b) : seg mem a b = mem a :: seg mem (a + 1) b := by
  obtain ⟨k, rfl⟩ := Nat.exists_eq_add_of_lt h
  simp only [seg, Nat.add_assoc, Nat.add_sub_cancel_left, List.range'_succ, List.map_cons]
  congr 3
  omega

theorem seg_succ : seg mem a (a + 1) = [mem a] := by
  rw [seg_cons (Nat.lt_succ_self a), seg_self]

/-- The parts of a segment are segments. -/
theorem seg_eq_append (h : seg mem a c = l ++ l') (hac : a ≤ c) :
    a + l.length ≤ c ∧ seg mem a (a + l.length) = l ∧ seg mem (a + l.length) c = l' := by
  have hlen := congrArg List.length h
  rw [length_seg, List.length_append] at hlen
  have hle : a + l.length ≤ c := by omega
  rw [← seg_append (Nat.le_add_right ..) hle] at h
  obtain ⟨h1, h2⟩ := List.append_inj h (by simp)
  exact ⟨hle, h1, h2⟩

theorem seg_eq_cons (h : seg mem a c = x :: l) (hac : a ≤ c) :
    a < c ∧ mem a = x ∧ seg mem (a + 1) c = l := by
  have hlt : a < c := by
    have hlen := congrArg List.length h
    rw [length_seg, List.length_cons] at hlen
    omega
  rw [seg_cons hlt] at h
  injection h with h1 h2
  exact ⟨hlt, h1, h2⟩

theorem seg_eq_nil (h : seg mem a b = []) (hab : a ≤ b) : a = b := by
  have hlen := congrArg List.length h
  rw [length_seg, List.length_nil] at hlen
  omega

theorem seg_eq_of_getD {d : β} (h : ∀ i < l.length, mem i = l.getD i d) : seg mem 0 l.length = l := by
  refine List.ext_getElem (by simp) fun i hi hi' => ?_
  simp only [seg, List.getElem_map, List.getElem_range']
  rw [Nat.zero_add, Nat.one_mul, h i hi', List.getD_eq_getElem _ _ hi']

namespace Reader

variable {p : Reader β Unit} {n limit : ℕ} {pieces : List (List β)}

/-- The pieces that `times p n` consumes, and an invariant of where the cursor stands. -/
theorem ok_times_pieces {inv : ℕ → Prop} {P : List β → Prop}
    (hp : ∀ {a b}, Ok p mem a () b → a ≤ b ∧ inv b ∧ P (seg mem a b)) (ha : inv a)
    (h : Ok (times p n) mem a () b) : a ≤ b ∧ inv b ∧
      ∃ pieces : List (List β), pieces.length = n ∧ (∀ l ∈ pieces, P l) ∧
        seg mem a b = pieces.flatten := by
  induction n generalizing a with
  | zero =>
    obtain ⟨-, rfl⟩ := ok_pure.1 h
    exact ⟨le_rfl, ha, [], rfl, by simp, seg_self⟩
  | succ n ih =>
    rw [times, ok_bind] at h
    obtain ⟨⟨⟩, c, h1, h2⟩ := h
    obtain ⟨hac, hc, hP⟩ := hp h1
    obtain ⟨hcb, hb, pieces, hlen, hall, hseg⟩ := ih hc h2
    refine ⟨hac.trans hcb, hb, seg mem a c :: pieces, by simp [hlen], ?_, ?_⟩
    · exact List.forall_mem_cons.2 ⟨hP, hall⟩
    · rw [List.flatten_cons, ← hseg, seg_append hac hcb]

theorem ok_times_of_pieces
    (hp : ∀ l ∈ pieces, ∀ x y, a ≤ x → x ≤ y → y ≤ limit → seg mem x y = l → Ok p mem x () y)
    (hab : a ≤ b) (hb : b ≤ limit) (h : seg mem a b = pieces.flatten) :
    Ok (times p pieces.length) mem a () b := by
  induction pieces generalizing a with
  | nil =>
    have hlen := congrArg List.length h
    rw [length_seg, List.flatten_nil, List.length_nil] at hlen
    exact ok_pure.2 ⟨rfl, by omega⟩
  | cons l pieces ih =>
    rw [List.flatten_cons] at h
    obtain ⟨hle, h1, h2⟩ := seg_eq_append h hab
    rw [List.length_cons, times, ok_bind]
    refine ⟨(), a + l.length, ?_, ?_⟩
    · exact hp l List.mem_cons_self a _ le_rfl (Nat.le_add_right ..) (hle.trans hb) h1
    · refine ih (fun l hl x y hx => hp l (List.mem_cons_of_mem _ hl) x y ?_) hle h2
      exact (Nat.le_add_right ..).trans hx

/-! ## Exact consumption -/

/-- Where it finds `bytes`, `p` consumes exactly them and returns `a`, if `good`; otherwise it
does not succeed. -/
def Takes (good : Prop) (p : Reader β α) (bytes : List β) (a : α) : Prop :=
  ∀ (mem : ℕ → β) (cur : ℕ), seg mem cur (cur + bytes.length) = bytes →
    ∀ (x : α) (cur' : ℕ), Ok p mem cur x cur' ↔ good ∧ x = a ∧ cur' = cur + bytes.length

variable {α γ : Type} {good good' : Prop} {q : Reader β α} {f : α → Reader β γ} {x : α} {y : γ}

theorem Takes.ok (h : Takes True q l x) (hseg : seg mem a (a + l.length) = l) :
    Ok q mem a x (a + l.length) :=
  (h mem a hseg x _).2 ⟨trivial, rfl, rfl⟩

theorem Takes.congr (h : Takes good q l x) (hgood : good ↔ good') : Takes good' q l x := by
  intro mem a hseg b c
  rw [h mem a hseg, hgood]

theorem takes_pure : Takes True (pure x : Reader β α) [] x := by
  intro mem a _ b c
  rw [ok_pure]
  constructor
  · rintro ⟨rfl, rfl⟩
    exact ⟨trivial, rfl, rfl⟩
  · rintro ⟨-, rfl, rfl⟩
    exact ⟨rfl, rfl⟩

theorem takes_fail : Takes False (fail : Reader β α) l x :=
  fun _ _ _ _ _ => ⟨fun h => absurd h ok_fail, fun h => h.1.elim⟩

theorem takes_skip {e : β} : Takes True (skip : Reader β Unit) [e] () := by
  intro mem a _ b c
  rw [ok_skip]
  exact ⟨fun h => ⟨trivial, rfl, h.symm⟩, fun h => h.2.2.symm⟩

/-- The parts of a segment that starts at `a`. -/
theorem seg_append_split (h : seg mem a (a + (l ++ l').length) = l ++ l') :
    seg mem a (a + l.length) = l ∧ seg mem (a + l.length) (a + l.length + l'.length) = l' := by
  obtain ⟨-, h1, h2⟩ := seg_eq_append h (Nat.le_add_right ..)
  rw [List.length_append, ← Nat.add_assoc] at h2
  exact ⟨h1, h2⟩

theorem seg_cons_split {e : β} (h : seg mem a (a + (e :: l).length) = e :: l) :
    mem a = e ∧ seg mem (a + 1) (a + 1 + l.length) = l := by
  obtain ⟨-, h1, h2⟩ := seg_eq_cons h (Nat.le_add_right ..)
  rw [List.length_cons, Nat.add_comm l.length, ← Nat.add_assoc] at h2
  exact ⟨h1, h2⟩

theorem Takes.bind (hq : Takes good q l x) (hf : good → Takes good' (f x) l' y) :
    Takes (good ∧ good') (q >>= f) (l ++ l') y := by
  intro mem a hseg b c
  obtain ⟨h1, h2⟩ := seg_append_split hseg
  rw [ok_bind, List.length_append, ← Nat.add_assoc]
  constructor
  · rintro ⟨x', a', hok, hok'⟩
    obtain ⟨hgood, rfl, rfl⟩ := (hq mem a h1 x' a').1 hok
    obtain ⟨hgood', hb, hc⟩ := (hf hgood mem _ h2 b c).1 hok'
    exact ⟨⟨hgood, hgood'⟩, hb, hc⟩
  · rintro ⟨⟨hgood, hgood'⟩, hb, hc⟩
    refine ⟨x, a + l.length, (hq mem a h1 x _).2 ⟨hgood, rfl, rfl⟩, ?_⟩
    exact (hf hgood mem _ h2 b c).2 ⟨hgood', hb, hc⟩

/-- Behind a part that is always there. -/
theorem Takes.then (hq : Takes True q l x) (hf : Takes good (f x) l' y) :
    Takes good (q >>= f) (l ++ l') y :=
  (hq.bind fun _ => hf).congr (iff_of_eq (true_and good))

/-- A look at the first element. -/
theorem Takes.deref {β : Type} {e : β} {l : List β} {f : β → Reader β γ}
    (h : Takes good (f e) (e :: l) y) : Takes good (Reader.deref >>= f) (e :: l) y := by
  intro mem a hseg b c
  obtain ⟨rfl, -⟩ := seg_cons_split hseg
  rw [← h mem a hseg b c, ok_bind]
  constructor
  · rintro ⟨e, a', hok, hok'⟩
    obtain ⟨rfl, rfl⟩ := ok_deref.1 hok
    exact hok'
  · intro hok
    exact ⟨_, _, ok_deref.2 ⟨rfl, rfl⟩, hok⟩

theorem Takes.skip {e : β} {f : Unit → Reader β γ} (h : Takes good (f ()) l y) :
    Takes good (Reader.skip >>= f) (e :: l) y :=
  takes_skip.then h

theorem takes_times (h : ∀ l ∈ pieces, Takes True p l ()) :
    Takes True (times p pieces.length) pieces.flatten () := by
  induction pieces with
  | nil => exact takes_pure
  | cons l pieces ih =>
    rw [List.length_cons, times, List.flatten_cons]
    refine (h l List.mem_cons_self).then (ih fun l hl => ?_)
    exact h l (List.mem_cons_of_mem _ hl)

end Reader

end Segments

end DdTrace.Lib
