import Mathlib.Data.List.Basic

/-!
# `EnumeratorIterator`

The iteration over the tokens of a metadata enumerator (clr_helpers.h). The enumerator writes the
items to an array of `kEnumeratorMax` slots, a chunk at a call, and says in a last call that there
are no more. The iteration visits the chunks one behind the other (`iterate_chunk`).
-/

namespace DdTrace.Native.Enumeration

abbrev HRESULT := Int32

def S_OK : HRESULT := 0
def S_FALSE : HRESULT := 1

def kEnumeratorMax : ℕ := 256

/-- The callback of an enumerator, with the state behind its `HCORENUM`: a call returns a status
and writes items to the array. -/
structure Enumerator (σ T : Type) where
  callback : σ → HRESULT × List T × σ

structure EnumeratorIterator (T : Type) where
  status : HRESULT
  arr : List T
  idx : UInt32
  sz : UInt32

variable {σ T : Type}

/-- The array with items written to it. -/
def write (arr items : List T) : List T := items ++ arr.drop items.length

/-- `Next`, and the test behind it. -/
def EnumeratorIterator.refill (enumerator : Enumerator σ T) (s : σ) (it : EnumeratorIterator T) :
    EnumeratorIterator T × σ :=
  let (status, items, s) := enumerator.callback s
  let sz := UInt32.ofNat items.length
  let status := if status = S_OK ∧ sz = 0 then S_FALSE else status
  (⟨status, write it.arr items, it.idx, sz⟩, s)

/-- `begin()` -/
def EnumeratorIterator.first [Inhabited T] (enumerator : Enumerator σ T) (s : σ) :
    EnumeratorIterator T × σ :=
  refill enumerator s ⟨S_FALSE, List.replicate kEnumeratorMax default, 0, 0⟩

/-- It differs from the iterator of `end()`, whose status is not `S_OK`. -/
def EnumeratorIterator.ne_end (it : EnumeratorIterator T) : Bool := it.status = S_OK

/-- `operator*`, with `none` for an index outside the array. -/
def EnumeratorIterator.deref (it : EnumeratorIterator T) : Option T := it.arr[it.idx.toNat]?

/-- `operator++` -/
def EnumeratorIterator.advance (enumerator : Enumerator σ T) (s : σ) (it : EnumeratorIterator T) :
    EnumeratorIterator T × σ :=
  if it.idx < it.sz - 1 then ({ it with idx := it.idx + 1 }, s)
  else refill enumerator s { it with idx := 0 }

/-- The items that a `for` loop over the enumerator visits, with `none` if the fuel runs out. -/
def iterate (enumerator : Enumerator σ T) : ℕ → EnumeratorIterator T × σ → Option (List T)
  | 0, _ => none
  | fuel + 1, (it, s) =>
    if it.ne_end then do
      let item ← it.deref
      let items ← iterate enumerator fuel (it.advance enumerator s)
      return item :: items
    else some []

/-- From this state the enumerator delivers these items: in chunks that are not empty, and at last
none. -/
inductive Delivers (enumerator : Enumerator σ T) : σ → List T → Prop where
  | exhausted {s s' : σ} {status : HRESULT} (h : enumerator.callback s = (status, [], s')) :
      Delivers enumerator s []
  | chunk {s s' : σ} {chunk items : List T} (h : enumerator.callback s = (S_OK, chunk, s'))
      (hne : chunk ≠ []) (hle : chunk.length ≤ kEnumeratorMax)
      (hrest : Delivers enumerator s' items) : Delivers enumerator s (chunk ++ items)

/-! ### A chunk -/

variable {enumerator : Enumerator σ T} {s s' : σ} {it : EnumeratorIterator T}
  {chunk items : List T}

/-- The iterator is at the `i`-th item of the chunk. -/
structure AtItem (chunk : List T) (i : ℕ) (it : EnumeratorIterator T) : Prop where
  status : it.status = S_OK
  arr : ∃ rest, it.arr = chunk ++ rest
  idx : it.idx.toNat = i
  sz : it.sz.toNat = chunk.length

theorem atItem_refill (hidx : it.idx = 0) (h : enumerator.callback s = (S_OK, chunk, s'))
    (hne : chunk ≠ []) (hle : chunk.length ≤ kEnumeratorMax) :
    ∃ it', it.refill enumerator s = (it', s') ∧ AtItem chunk 0 it' := by
  have hmax : kEnumeratorMax = 256 := rfl
  have hsz : (UInt32.ofNat chunk.length).toNat = chunk.length := by
    apply UInt32.toNat_ofNat_of_lt'
    show chunk.length < 2 ^ 32
    omega
  have hpos : ¬ (S_OK = S_OK ∧ UInt32.ofNat chunk.length = 0) := by
    rintro ⟨-, hzero⟩
    rw [hzero] at hsz
    exact hne (List.length_eq_zero_iff.1 hsz.symm)
  refine ⟨⟨S_OK, write it.arr chunk, it.idx, UInt32.ofNat chunk.length⟩, ?_, rfl, ⟨_, rfl⟩, ?_, hsz⟩
  · rw [EnumeratorIterator.refill, h]
    dsimp only
    rw [if_neg hpos]
  · rw [hidx]
    rfl

/-- From an item to the next, or from the last to the next chunk. -/
theorem advance_of_atItem {i : ℕ} (hit : AtItem chunk i it) (hi : i < chunk.length) :
    (i + 1 < chunk.length ∧
      ∃ it', it.advance enumerator s = (it', s) ∧ AtItem chunk (i + 1) it') ∨
    i + 1 = chunk.length ∧
      ∃ it' : EnumeratorIterator T,
        it.advance enumerator s = it'.refill enumerator s ∧ it'.idx = 0 := by
  have hidx := hit.idx
  have hsz := hit.sz
  have hone : (1 : UInt32).toNat = 1 := rfl
  have hlast : (it.sz - 1).toNat = chunk.length - 1 := by
    rw [UInt32.toNat_sub_of_le _ _ (by rw [UInt32.le_iff_toNat_le]; omega), hsz, hone]
  have hlt : it.idx < it.sz - 1 ↔ i + 1 < chunk.length := by
    rw [UInt32.lt_iff_toNat_lt, hlast, hidx]
    omega
  rcases Nat.lt_or_ge (i + 1) chunk.length with hmore | hend
  · refine .inl ⟨hmore, { it with idx := it.idx + 1 }, if_pos (hlt.2 hmore), hit.status, hit.arr,
      ?_, hsz⟩
    have hsize := it.sz.toNat_lt
    rw [UInt32.toNat_add, hidx, hone]
    omega
  · exact .inr ⟨by omega, { it with idx := 0 }, if_neg fun h => by have := hlt.1 h; omega, rfl⟩

/-- What is left of the chunk is visited, then what comes after it. -/
theorem iterate_chunk {i : ℕ} (hit : AtItem chunk i it) (hi : i < chunk.length) :
    ∃ it' : EnumeratorIterator T, it'.idx = 0 ∧ ∀ fuel,
      iterate enumerator (fuel + (chunk.length - i)) (it, s) = (iterate enumerator fuel (it'.refill enumerator s)).map (chunk.drop i ++ ·) := by
  induction hn : chunk.length - i generalizing i it with
  | zero => omega
  | succ n ih =>
    have hderef : it.deref = some chunk[i] := by
      obtain ⟨rest, harr⟩ := hit.arr
      rw [EnumeratorIterator.deref, hit.idx, harr, List.getElem?_append_left hi,
        List.getElem?_eq_getElem hi]
    have hstep : ∀ fuel, iterate enumerator (fuel + 1) (it, s)
        = (iterate enumerator fuel (it.advance enumerator s)).map (chunk[i] :: ·) := by
      intro fuel
      have hne : it.ne_end = true := decide_eq_true hit.status
      rw [iterate, if_pos hne, hderef]
      cases iterate enumerator fuel (it.advance enumerator s) <;> rfl
    have hcases := @advance_of_atItem _ _ enumerator s _ _ i hit hi
    rcases hcases with ⟨hmore, it', hadvance, hit'⟩ | ⟨hend, it', hadvance, hzero⟩
    · obtain ⟨it'', hzero, hrest⟩ := ih hit' hmore (by omega)
      refine ⟨it'', hzero, fun fuel => ?_⟩
      rw [← Nat.add_assoc, hstep, hadvance, hrest, Option.map_map, List.drop_eq_getElem_cons hi]
      rfl
    · refine ⟨it', hzero, fun fuel => ?_⟩
      obtain rfl : n = 0 := by omega
      rw [Nat.zero_add, hstep, hadvance, List.drop_eq_getElem_cons hi,
        List.drop_eq_nil_of_le (by omega)]
      rfl

/-! ### All chunks -/

theorem iterate_refill (hidx : it.idx = 0) (h : Delivers enumerator s items) :
    ∃ n, ∀ fuel, n ≤ fuel → iterate enumerator fuel (it.refill enumerator s) = some items := by
  induction h generalizing it with
  | @exhausted s s' status h =>
    refine ⟨1, fun fuel hfuel => ?_⟩
    obtain ⟨fuel, rfl⟩ := Nat.exists_eq_add_of_le' hfuel
    have hend : (it.refill enumerator s).1.ne_end = false := by
      rw [EnumeratorIterator.refill, h]
      by_cases hstatus : status = S_OK
      · rw [hstatus]
        rfl
      · exact decide_eq_false (by simp [hstatus])
    rw [iterate, hend, if_neg Bool.false_ne_true]
  | @chunk s s' chunk items h hne hle _ ih =>
    obtain ⟨it', hrefill, hit⟩ := atItem_refill hidx h hne hle
    obtain ⟨it'', hzero, hchunk⟩ := iterate_chunk hit (List.length_pos_of_ne_nil hne)
    obtain ⟨n, hn⟩ := ih hzero
    refine ⟨n + chunk.length, fun fuel hfuel => ?_⟩
    obtain ⟨fuel, rfl⟩ := Nat.exists_eq_add_of_le' hfuel
    rw [hrefill, ← Nat.add_assoc, ← Nat.sub_zero chunk.length, hchunk, hn _ (by omega),
      List.drop_zero]
    rfl

/-- However the enumerator delivers its items, the iteration from `begin()` to `end()` visits each
of them once, in order, and stops. -/
theorem iterate_complete [Inhabited T] (enumerator : Enumerator σ T) (s : σ) (items : List T)
    (h : Delivers enumerator s items) : ∃ n, ∀ fuel, n ≤ fuel →
      iterate enumerator fuel (EnumeratorIterator.first enumerator s) = some items :=
  iterate_refill rfl h

/-- An enumerator that delivers so many items at a call. -/
def inChunks (size : ℕ) : Enumerator (List ℕ) ℕ where
  callback s := (if s = [] then S_FALSE else S_OK, s.take size, s.drop size)

theorem delivers_three : Delivers (inChunks 2) [1, 2, 3] [1, 2, 3] := by
  have hlast : Delivers (inChunks 2) [3] [3] :=
    @Delivers.chunk _ _ (inChunks 2) [3] [] [3] [] rfl (by decide) (by decide) (.exhausted rfl)
  exact @Delivers.chunk _ _ (inChunks 2) [1, 2, 3] [3] [1, 2] [3] rfl (by decide) (by decide) hlast

theorem iterate_three : ∃ n, ∀ fuel, n ≤ fuel → iterate (inChunks 2) fuel
    (EnumeratorIterator.first (inChunks 2) [1, 2, 3]) = some [1, 2, 3] :=
  iterate_complete (inChunks 2) [1, 2, 3] [1, 2, 3] delivers_three

end DdTrace.Native.Enumeration
