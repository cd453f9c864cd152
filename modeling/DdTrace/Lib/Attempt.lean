import DdTrace.Lib.Cursor

/-!
# Readers that look ahead

`attempt p` runs `p` and puts the cursor back: it tells where `p` ended, or that it failed.
`Failed` is that a reader fails, as opposed to running out of fuel.
-/

namespace DdTrace.Lib.Reader

variable {β : Type*} {α γ : Type} {mem : ℕ → β} {cur cur' stop : ℕ} {p : Reader β α}
  {q : Reader β Unit}

def attempt (p : Reader β Unit) : Reader β (Option ℕ) := fun mem cur =>
  match p mem cur with
  | (reads, .ok () cur') => (reads, .ok (some cur') cur)
  | (reads, .failed) => (reads, .ok none cur)
  | (reads, .outOfFuel) => (reads, .outOfFuel)

def seek (cur : ℕ) : Reader β Unit := fun _ _ => ([], .ok () cur)

/-- The elements from one address to before another. -/
def slice {β : Type} (start stop : ℕ) : Reader β (List β) := fun mem cur =>
  (List.range' start (stop - start), .ok (seg mem start stop) cur)

def Failed (p : Reader β α) (mem : ℕ → β) (cur : ℕ) : Prop := (p mem cur).2 = .failed

@[simp] theorem ok_attempt_some :
    Ok (attempt q) mem cur (some stop) cur' ↔ Ok q mem cur () stop ∧ cur' = cur := by
  unfold Ok attempt
  rcases q mem cur with ⟨reads, ⟨⟩ | _ | _⟩
  · simp [eq_comm]
  · simp
  · simp

@[simp] theorem ok_attempt_none :
    Ok (attempt q) mem cur none cur' ↔ Failed q mem cur ∧ cur' = cur := by
  unfold Ok Failed attempt
  rcases q mem cur with ⟨reads, ⟨⟩ | _ | _⟩
  · simp
  · simp [eq_comm]
  · simp

@[simp] theorem ok_seek {u : Unit} : Ok (seek stop : Reader β Unit) mem cur u cur' ↔ cur' = stop := by
  show Outcome.ok () stop = .ok u cur' ↔ _
  simp [eq_comm]

@[simp] theorem ok_slice {β : Type} {mem : ℕ → β} {start : ℕ} {l : List β} :
    Ok (slice start stop) mem cur l cur' ↔ l = seg mem start stop ∧ cur' = cur := by
  show Outcome.ok (seg mem start stop) cur = .ok l cur' ↔ _
  simp [eq_comm]

/-- Where it finds `l`, `q` fails. -/
def Fails (q : Reader β Unit) (mem : ℕ → β) (l : List β) : Prop :=
  ∀ cur, seg mem cur (cur + l.length) = l → Failed q mem cur

theorem failed_iff : Failed p mem cur ↔ (∀ a cur', ¬ Ok p mem cur a cur') ∧ ¬ Stuck p mem cur := by
  unfold Failed Ok Stuck
  rcases p mem cur with ⟨reads, a | _ | _⟩ <;> simp

theorem failed_bind {f : α → Reader β γ} (h : Failed p mem cur) : Failed (p >>= f) mem cur := by
  unfold Failed at h ⊢
  rcases hp : p mem cur with ⟨reads, a | _ | _⟩ <;> simp_all [bind]

theorem failed_bind_of_ok {f : α → Reader β γ} {a : α} (hok : Ok p mem cur a cur')
    (h : Failed (f a) mem cur') : Failed (p >>= f) mem cur := by
  rw [failed_iff] at h ⊢
  simp only [ok_bind, stuck_bind]
  refine ⟨?_, ?_⟩
  · rintro b c ⟨a', c', hok', hb⟩
    obtain ⟨rfl, rfl⟩ := hok.unique hok'
    exact h.1 b c hb
  · rintro (hstuck | ⟨a', c', hok', hstuck⟩)
    · cases hok.symm.trans hstuck
    · obtain ⟨rfl, rfl⟩ := hok.unique hok'
      exact h.2 hstuck

/-- One piece that is not taken ends the rounds. -/
theorem failed_times {pieces : List (List β)} {n : ℕ}
    (hpieces : ∀ l ∈ pieces, Takes True q l () ∨ Fails q mem l)
    (hbad : ∃ l ∈ pieces, Fails q mem l) (hn : pieces.length ≤ n)
    (hseg : seg mem cur (cur + pieces.flatten.length) = pieces.flatten) :
    Failed (times q n) mem cur := by
  induction pieces generalizing cur n with
  | nil =>
    obtain ⟨l, hl, -⟩ := hbad
    cases hl
  | cons l pieces ih =>
    obtain ⟨n, rfl⟩ := Nat.exists_eq_add_of_lt (Nat.lt_of_lt_of_le (Nat.succ_pos _) hn)
    rw [List.flatten_cons] at hseg
    obtain ⟨h1, h2⟩ := seg_append_split hseg
    rcases hpieces l List.mem_cons_self with htakes | hfails
    · refine failed_bind_of_ok (htakes.ok h1) ?_
      by_cases hbad' : ∃ l ∈ pieces, Fails q mem l
      · refine ih (fun l hl => hpieces l (List.mem_cons_of_mem _ hl)) hbad' ?_ h2
        rw [List.length_cons] at hn
        omega
      · obtain ⟨bad, hmem, hbad⟩ := hbad
        rcases List.mem_cons.1 hmem with rfl | hmem
        · cases (hbad cur h1).symm.trans (htakes.ok h1)
        · exact absurd ⟨bad, hmem, hbad⟩ hbad'
    · exact failed_bind (hfails cur h1)

end DdTrace.Lib.Reader
