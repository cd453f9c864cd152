import Mathlib.Data.List.Forall2

/-!
# Computations that throw and change a state

`Throwing ε σ` is `ExceptT ε (StateM σ)`: what a computation wrote before it
threw stays written. `runWith` runs one from a state; its simp lemmas follow a
`do` block with `try` and `catch` statement by statement.
-/

namespace DdTrace.Lib

abbrev Throwing (ε σ : Type) := ExceptT ε (StateM σ)

namespace Throwing

variable {ε σ α β : Type} (s : σ)

/-- The value or the exception, and the state at the end. -/
def runWith (m : Throwing ε σ α) (s : σ) : Except ε α × σ := m.run.run s

@[simp] theorem runWith_pure (a : α) : runWith (pure a : Throwing ε σ α) s = (.ok a, s) := rfl

@[simp] theorem runWith_throw (e : ε) :
    runWith (throw e : Throwing ε σ α) s = (.error e, s) := rfl

@[simp] theorem runWith_modify (f : σ → σ) :
    runWith (modify f : Throwing ε σ Unit) s = (.ok (), f s) := rfl

@[simp] theorem runWith_get : runWith (get : Throwing ε σ σ) s = (.ok s, s) := rfl

@[simp] theorem runWith_set (s' : σ) :
    runWith (set s' : Throwing ε σ Unit) s = (.ok (), s') := rfl

@[simp] theorem runWith_bind (m : Throwing ε σ α) (f : α → Throwing ε σ β) :
    runWith (m >>= f) s = match runWith m s with
      | (.ok a, s) => runWith (f a) s
      | (.error e, s) => (.error e, s) := by
  show StateT.run (ExceptT.run (m >>= f)) s = _
  simp only [ExceptT.run_bind, StateT.run_bind, runWith]
  rcases (ExceptT.run m).run s with ⟨_ | _, _⟩ <;> rfl

@[simp] theorem runWith_map (f : α → β) (m : Throwing ε σ α) :
    runWith (f <$> m) s = match runWith m s with
      | (.ok a, s) => (.ok (f a), s)
      | (.error e, s) => (.error e, s) := by
  rw [map_eq_pure_bind, runWith_bind]
  rfl

@[simp] theorem runWith_tryCatch (m : Throwing ε σ α) (f : ε → Throwing ε σ α) :
    runWith (tryCatch m f) s = match runWith m s with
      | (.ok a, s) => (.ok a, s)
      | (.error e, s) => runWith (f e) s := by
  have h : (tryCatch m f : Throwing ε σ α).run = m.run >>= fun r : Except ε α =>
      match r with
      | .ok a => pure (.ok a)
      | .error e => (f e).run := rfl
  rw [runWith, h, StateT.run_bind, runWith]
  rcases m.run.run s with ⟨_ | _, _⟩ <;> rfl

theorem runWith_bind_eq_ok {m : Throwing ε σ α} {f : α → Throwing ε σ β} {s s' : σ} {b : β} :
    runWith (m >>= f) s = (.ok b, s') ↔
      ∃ a s₁, runWith m s = (.ok a, s₁) ∧ runWith (f a) s₁ = (.ok b, s') := by
  rw [runWith_bind]
  rcases runWith m s with ⟨e | a, s₁⟩
  · simp
  · constructor
    · intro h
      exact ⟨a, s₁, rfl, h⟩
    · rintro ⟨_, _, h1, h2⟩
      cases h1
      exact h2

theorem runWith_bind_of_ok {m : Throwing ε σ α} {f : α → Throwing ε σ β} {s : σ} {a : α}
    (h : (runWith m s).1 = .ok a) : runWith (m >>= f) s = runWith (f a) (runWith m s).2 := by
  rw [runWith_bind]
  rcases hrun : runWith m s with ⟨result, s₁⟩
  rw [hrun] at h
  obtain rfl : result = .ok a := h
  rfl

theorem runWith_bind_of_error {m : Throwing ε σ α} {f : α → Throwing ε σ β} {s : σ} {e : ε}
    (h : (runWith m s).1 = .error e) : (runWith (m >>= f) s).1 = .error e := by
  rw [runWith_bind]
  rcases hrun : runWith m s with ⟨result, s₁⟩
  rw [hrun] at h
  obtain rfl : result = .error e := h
  rfl

/-! ## What holds between the first state and the last -/

/-- However `m` ends, its states are related. -/
def Always (R : σ → σ → Prop) (m : Throwing ε σ α) : Prop := ∀ s, R s (runWith m s).2

variable {R : σ → σ → Prop}

theorem Always.bind (htrans : ∀ {s t u}, R s t → R t u → R s u) {m : Throwing ε σ α}
    {f : α → Throwing ε σ β} (hm : Always R m) (hf : ∀ a, Always R (f a)) : Always R (m >>= f) := by
  intro s
  have h := hm s
  rw [runWith_bind]
  rcases hrun : runWith m s with ⟨e | a, s₁⟩
  · rwa [hrun] at h
  · rw [hrun] at h
    exact htrans h (hf a s₁)

/-! ## What is returned -/

/-- Run from `s`, the computation returns a value of which `Q` holds. -/
def Returns (m : Throwing ε σ α) (s : σ) (Q : α → Prop) : Prop :=
  ∃ a, (runWith m s).1 = .ok a ∧ Q a

section Returns

variable {s} {Q : α → Prop}

@[simp] theorem returns_pure (a : α) : Returns (pure a : Throwing ε σ α) s Q ↔ Q a := by
  simp [Returns]

@[simp] theorem not_returns_throw (e : ε) : ¬ Returns (throw e : Throwing ε σ α) s Q := by
  simp [Returns]

theorem returns_bind {m : Throwing ε σ β} {f : β → Throwing ε σ α} :
    Returns (m >>= f) s Q ↔ ∃ b s', runWith m s = (.ok b, s') ∧ Returns (f b) s' Q := by
  constructor
  · rintro ⟨a, ha, hq⟩
    obtain ⟨b, s', hm, hf⟩ := runWith_bind_eq_ok.1 (Prod.ext ha rfl)
    exact ⟨b, s', hm, a, by rw [hf], hq⟩
  · rintro ⟨b, s', hm, a, ha, hq⟩
    exact ⟨a, by rw [runWith_bind, hm]; exact ha, hq⟩

/-- Values are returned from `m` and from what follows it. -/
theorem returns_bind_pure {m : Throwing ε σ β} {f : β → α} :
    Returns (m >>= fun b => pure (f b)) s Q ↔ Returns m s fun b => Q (f b) := by
  rw [returns_bind]
  constructor
  · rintro ⟨b, s', hm, hq⟩
    exact ⟨b, by rw [hm], returns_pure (f b) |>.1 hq⟩
  · rintro ⟨b, hm, hq⟩
    exact ⟨b, _, Prod.ext hm rfl, returns_pure (f b) |>.2 hq⟩

/-- What a computation writes at its end does not change what it returns. -/
theorem returns_bind_modify {m : Throwing ε σ α} {f : α → σ → σ} :
    Returns (m >>= fun a => modify (f a) >>= fun _ => pure a) s Q ↔ Returns m s Q := by
  rw [returns_bind]
  constructor
  · rintro ⟨a, s', hm, b, hb, hq⟩
    rw [runWith_bind, runWith_modify] at hb
    cases hb
    exact ⟨a, by rw [hm], hq⟩
  · rintro ⟨a, hm, hq⟩
    exact ⟨a, _, Prod.ext hm rfl, a, by simp, hq⟩

/-- Where what each item returns is settled from every state, so is what the list returns. -/
theorem returns_mapM_iff {γ : Type} {f : α → Throwing ε σ β} {g : α → γ} {R : γ → β → Prop}
    {P : α → Prop} (xs : List α) (h : ∀ x ∈ xs, ∀ s, Returns (f x) s (R (g x)) ↔ P x) (s : σ) :
    Returns (xs.mapM f) s (List.Forall₂ R (xs.map g)) ↔ ∀ x ∈ xs, P x := by
  induction xs generalizing s with
  | nil => simp
  | cons x xs ih =>
    have hx := h x List.mem_cons_self
    have ih := ih fun y hy => h y (List.mem_cons_of_mem x hy)
    rw [List.mapM_cons, returns_bind, List.forall_mem_cons]
    constructor
    · rintro ⟨b, s', hb, hrest⟩
      rw [returns_bind] at hrest
      obtain ⟨bs, s'', hbs, hall⟩ := hrest
      rw [returns_pure, List.map_cons, List.forall₂_cons] at hall
      exact ⟨(hx s).1 ⟨b, by rw [hb], hall.1⟩, (ih s').1 ⟨bs, by rw [hbs], hall.2⟩⟩
    · rintro ⟨hpx, hpxs⟩
      obtain ⟨b, hb, hrb⟩ := (hx s).2 hpx
      obtain ⟨bs, hbs, hrbs⟩ := (ih (runWith (f x) s).2).2 hpxs
      refine ⟨b, _, Prod.ext hb rfl, returns_bind.2 ⟨bs, _, Prod.ext hbs rfl, ?_⟩⟩
      rw [returns_pure, List.map_cons, List.forall₂_cons]
      exact ⟨hrb, hrbs⟩

end Returns

/-! ## What is written to a log -/

section Appends

variable {τ : Type}

/-- Where `m` returns `a`, it has appended `h a` to the log. -/
def Appends (m : Throwing ε (List τ) α) (h : α → List τ) : Prop :=
  ∀ s a s', runWith m s = (.ok a, s') → s' = s ++ h a

variable {h : α → List τ}

theorem Appends.pure {a : α} (ha : h a = []) : Appends (pure a : Throwing ε (List τ) α) h := by
  intro s b s' hrun
  rw [runWith_pure] at hrun
  cases hrun
  rw [ha, List.append_nil]

theorem Appends.throw (e : ε) : Appends (throw e : Throwing ε (List τ) α) h := by
  intro s a s' hrun
  rw [runWith_throw] at hrun
  cases hrun

theorem Appends.bind_pure {m : Throwing ε (List τ) β} {f : β → α}
    (hm : Appends m fun b => h (f b)) : Appends (m >>= fun b => Pure.pure (f b)) h := by
  intro s a s' hrun
  obtain ⟨b, s₁, hb, hrest⟩ := runWith_bind_eq_ok.1 hrun
  rw [runWith_pure] at hrest
  cases hrest
  exact hm s b s' hb

theorem Appends.bind_modify {m : Throwing ε (List τ) α} {f : α → τ} (hm : Appends m h) :
    Appends (m >>= fun a => modify (· ++ [f a]) >>= fun _ => Pure.pure a)
      (fun a => h a ++ [f a]) := by
  intro s a s' hrun
  obtain ⟨b, s₁, hb, hrest⟩ := runWith_bind_eq_ok.1 hrun
  rw [runWith_bind, runWith_modify] at hrest
  cases hrest
  show s₁ ++ [f a] = s ++ (h a ++ [f a])
  rw [hm s a s₁ hb, List.append_assoc]

theorem Appends.mapM {f : β → Throwing ε (List τ) α} (hf : ∀ b, Appends (f b) h) (bs : List β) :
    Appends (bs.mapM f) fun as => as.flatMap h := by
  induction bs with
  | nil =>
    rw [List.mapM_nil]
    exact .pure rfl
  | cons b bs ih =>
    intro s as s' hrun
    rw [List.mapM_cons] at hrun
    obtain ⟨a, s₁, ha, hrest⟩ := runWith_bind_eq_ok.1 hrun
    obtain ⟨rest, s₂, hbs, hend⟩ := runWith_bind_eq_ok.1 hrest
    rw [runWith_pure] at hend
    cases hend
    show s' = s ++ (a :: rest).flatMap h
    rw [ih s₁ rest s' hbs, hf b s a s₁ ha, List.flatMap_cons, List.append_assoc]

end Appends

/-! ## Up to a view of the state -/

section View

variable {τ : Type} {view : σ → τ} {v v₁ v₂ : τ} {a : α} {b : β} {m : Throwing ε σ α}
  {f : α → Throwing ε σ β}

/-- From every state that looks like `v`, the computation returns `a` and leaves a state that
looks like `v₁`. -/
def Yields (view : σ → τ) (m : Throwing ε σ α) (v : τ) (a : α) (v₁ : τ) : Prop :=
  ∀ s, view s = v → ∃ s', runWith m s = (.ok a, s') ∧ view s' = v₁

theorem Yields.pure (a : α) : Yields view (pure a : Throwing ε σ α) v a v :=
  fun s hs => ⟨s, rfl, hs⟩

theorem Yields.bind (hm : Yields view m v a v₁) (hf : Yields view (f a) v₁ b v₂) :
    Yields view (m >>= f) v b v₂ := by
  intro s hs
  obtain ⟨s₁, hrun, hs₁⟩ := hm s hs
  obtain ⟨s₂, hrun', hs₂⟩ := hf s₁ hs₁
  exact ⟨s₂, runWith_bind_eq_ok.2 ⟨a, s₁, hrun, hrun'⟩, hs₂⟩

/-- What a computation does may depend on the state it starts from. -/
theorem Yields.get_bind {f : σ → Throwing ε σ β}
    (hf : ∀ s, view s = v → ∃ s', runWith (f s) s = (.ok b, s') ∧ view s' = v₁) :
    Yields view ((get : Throwing ε σ σ) >>= f) v b v₁ := by
  intro s hs
  obtain ⟨s', hrun, hs'⟩ := hf s hs
  exact ⟨s', runWith_bind_eq_ok.2 ⟨s, s, rfl, hrun⟩, hs'⟩

end View

/-! ## What is never thrown -/

section Avoids

variable {e : ε} {P : α → Prop} {Q : β → Prop} {m : Throwing ε σ α}

/-- From no state does `m` throw `e`, and what it returns satisfies `P`. -/
def Avoids (e : ε) (m : Throwing ε σ α) (P : α → Prop) : Prop :=
  ∀ s, (runWith m s).1 ≠ .error e ∧ ∀ a, (runWith m s).1 = .ok a → P a

theorem Avoids.pure {a : α} (h : P a) : Avoids e (pure a : Throwing ε σ α) P := by
  intro s
  refine ⟨nofun, fun b hb => ?_⟩
  obtain rfl := Except.ok.inj hb
  exact h

theorem Avoids.throw {e' : ε} (h : e' ≠ e) : Avoids e (throw e' : Throwing ε σ α) P := by
  intro s
  refine ⟨fun heq => h (Except.error.inj heq), nofun⟩

theorem Avoids.get : Avoids e (get : Throwing ε σ σ) fun _ => True := by
  intro s
  exact ⟨nofun, fun _ _ => trivial⟩

theorem Avoids.modify {f : σ → σ} : Avoids e (modify f : Throwing ε σ Unit) fun _ => True := by
  intro s
  exact ⟨nofun, fun _ _ => trivial⟩

theorem Avoids.bind {f : α → Throwing ε σ β} (hm : Avoids e m P)
    (hf : ∀ a, P a → Avoids e (f a) Q) : Avoids e (m >>= f) Q := by
  intro s
  obtain ⟨hne, hok⟩ := hm s
  rw [runWith_bind]
  rcases hrun : runWith m s with ⟨e' | a, s₁⟩
  · rw [hrun] at hne
    exact ⟨fun heq => hne (congrArg _ (Except.error.inj heq)), nofun⟩
  · exact hf a (hok a (by rw [hrun])) s₁

theorem Avoids.tryCatch {f : ε → Throwing ε σ α} (hm : Avoids e m P)
    (hf : ∀ e', e' ≠ e → Avoids e (f e') P) : Avoids e (tryCatch m f) P := by
  intro s
  have hs := hm s
  rw [runWith_tryCatch]
  rcases hrun : runWith m s with ⟨e' | a, s₁⟩
  · rw [hrun] at hs
    exact hf e' (fun heq => hs.1 (congrArg _ heq)) s₁
  · rwa [hrun] at hs

theorem Avoids.mono {P' : α → Prop} (hm : Avoids e m P) (h : ∀ a, P a → P' a) : Avoids e m P' :=
  fun s => ⟨(hm s).1, fun a ha => h a ((hm s).2 a ha)⟩

end Avoids

/-! ## On a part of the state -/

section Part

variable {τ : Type} (part : σ → τ) (put : τ → σ → σ)

/-- `m`, on the part of the state that `part` reads and `put` writes. -/
def onPart (m : Throwing ε τ α) : Throwing ε σ α := ExceptT.mk fun s =>
  ((runWith m (part s)).1, put (runWith m (part s)).2 s)

@[simp] theorem runWith_onPart (m : Throwing ε τ α) : runWith (onPart part put m) s =
    ((runWith m (part s)).1, put (runWith m (part s)).2 s) := rfl

theorem Avoids.onPart {e : ε} {P : α → Prop} {m : Throwing ε τ α} (h : Avoids e m P) :
    Avoids e (onPart part put m) P := fun s => h (part s)

end Part

end Throwing

end DdTrace.Lib
