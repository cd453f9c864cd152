import Mathlib.Data.List.Basic

/-!
# Memo tables

A table filled by get-or-add: a request with key `k` gets the value stored for `k`, and
stores its own when there is none. After any requests the table holds, for each key, what
the first request with that key made (`Holds`), and that is what every request gets
(`Holds.answer_eq`).
-/

namespace DdTrace.Lib.Memo

variable {κ ν ι : Type*} [DecidableEq κ]

def getOrAdd (table : κ → Option ν) (k : κ) (v : ν) : (κ → Option ν) × ν :=
  match table k with
  | some w => (table, w)
  | none => (fun k' => if k' = k then some v else table k', v)

variable (key : ι → κ) (value : ι → ν)

/-- The table holds what the first of the requests with each key made. -/
def Holds (reqs : List ι) (table : κ → Option ν) : Prop :=
  ∀ k, table k = (reqs.find? (fun r => decide (key r = k))).map value

variable {key value} {reqs : List ι} {table : κ → Option ν} {r : ι} {k : κ} {v : ν}

theorem holds_nil : Holds key value [] (fun _ => none) := fun _ => rfl

theorem getOrAdd_stored (h : table k = some v) (w : ν) : getOrAdd table k w = (table, v) := by
  unfold getOrAdd
  rw [h]

theorem getOrAdd_at (table : κ → Option ν) (k : κ) (v : ν) :
    (getOrAdd table k v).1 k = some (getOrAdd table k v).2 := by
  unfold getOrAdd
  cases h : table k with
  | some w => exact h
  | none => simp

/-- What is stored stays. -/
theorem getOrAdd_keeps {k' : κ} {w : ν} (h : table k' = some w) (k : κ) (v : ν) :
    (getOrAdd table k v).1 k' = some w := by
  unfold getOrAdd
  cases hk : table k with
  | some _ => exact h
  | none =>
    have hne : k' ≠ k := by
      rintro rfl
      rw [hk] at h
      cases h
    simp only [hne, if_false]
    exact h

/-- A request gets what the first request with its key made, itself included. -/
theorem Holds.answer_eq (h : Holds key value reqs table) {q : ι}
    (hq : (reqs ++ [r]).find? (fun q => decide (key q = key r)) = some q) :
    (getOrAdd table (key r) (value r)).2 = value q := by
  unfold getOrAdd
  rw [h (key r)]
  rw [List.find?_append] at hq
  cases hf : reqs.find? (fun q => decide (key q = key r)) with
  | some p =>
    rw [hf] at hq
    cases hq
    rfl
  | none =>
    rw [hf] at hq
    simp only [List.find?_singleton, decide_true, if_true, Option.none_or, Option.some_inj] at hq
    rw [← hq]
    rfl

theorem Holds.exists_answer (h : Holds key value reqs table) (r : ι) :
    ∃ q ∈ reqs ++ [r], key q = key r ∧ (getOrAdd table (key r) (value r)).2 = value q := by
  have hsome : ((reqs ++ [r]).find? (fun q => decide (key q = key r))).isSome = true := by
    simp
  obtain ⟨q, hq⟩ := Option.isSome_iff_exists.1 hsome
  exact ⟨q, List.mem_of_find?_eq_some hq, by simpa using List.find?_some hq, h.answer_eq hq⟩

theorem Holds.getOrAdd (h : Holds key value reqs table) (r : ι) :
    Holds key value (reqs ++ [r]) (getOrAdd table (key r) (value r)).1 := by
  intro k
  rw [List.find?_append, List.find?_singleton]
  unfold Memo.getOrAdd
  cases ht : table (key r) with
  | some w =>
    -- an earlier request has the key, so the new one is never the first
    show table k = _
    rw [h k]
    cases hf : reqs.find? (fun q => decide (key q = k)) with
    | some q => rfl
    | none =>
      have hne : key r ≠ k := by
        rintro rfl
        rw [h (key r), hf] at ht
        cases ht
      simp [hne]
  | none =>
    have hr : reqs.find? (fun q => decide (key q = key r)) = none := by
      have := h (key r)
      rw [ht] at this
      simpa using this.symm
    by_cases hk : k = key r
    · subst hk
      simp [hr]
    · have hk' : key r ≠ k := fun e => hk e.symm
      simp [hk, hk', h k]

end DdTrace.Lib.Memo
