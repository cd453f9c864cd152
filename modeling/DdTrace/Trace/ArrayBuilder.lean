import Mathlib.Algebra.Ring.Nat
import Mathlib.Data.List.Basic

/-!
# ArrayBuilder

`Util/ArrayBuilder.cs`: an array that doubles when it is full. Lengths are 32-bit integers, and the
runtime has a longest array. `array` is `_array` (`none` is the null of
`default(ArrayBuilder<T>)`), its slots past `count` hold leftovers. An index outside the array or
a length that the runtime refuses is an exception (`none`). `add_spec` says what an `Add` that
returns does, `add_isSome_iff` when one returns.
-/

namespace DdTrace.Trace

variable {T : Type*}

/-- The length of the longest array. -/
abbrev MaxLength := {n : ℕ // n < 2 ^ 31}

structure ArrayBuilder (T : Type*) where
  array : Option (List T)
  count : Nat

section
variable [Inhabited T]

/-- `new T[length]`. -/
def newArray (limit : MaxLength) (length : Int32) : Option (List T) :=
  if 0 ≤ length ∧ length.toInt ≤ limit.1 then some (List.replicate length.toInt.toNat default)
  else none

end

namespace ArrayBuilder

def defaultInitialCapacity : Nat := 4

/-- `default(ArrayBuilder<T>)`. -/
def empty : ArrayBuilder T := ⟨none, 0⟩

/-- The elements of the `ArraySegment` handed out by `GetArray`. -/
def getArray (b : ArrayBuilder T) : List T := (b.array.getD []).take b.count

section
variable [Inhabited T]

/-- `new ArrayBuilder<T>(initialCapacity)`, for a length that the runtime has. -/
def withCapacity (initialCapacity : Nat) : ArrayBuilder T :=
  ⟨some (List.replicate initialCapacity default), 0⟩

def growIfNeeded (limit : MaxLength) (b : ArrayBuilder T) : Option (ArrayBuilder T) :=
  match b.array with
  | none => (newArray limit (.ofNat defaultInitialCapacity)).map fun array =>
      { b with array := some array }
  | some a =>
    if b.count < a.length then some b
    else (newArray limit (.ofNat a.length * 2)).map fun newArray =>
      { b with array := some (a ++ newArray.drop a.length) }

def add (limit : MaxLength) (b : ArrayBuilder T) (item : T) : Option (ArrayBuilder T) := do
  let b ← b.growIfNeeded limit
  match b.array with
  | none => none
  | some a =>
    if b.count < a.length then some ⟨some (a.set b.count item), b.count + 1⟩ else none

end

/-- The count stays inside the array; an array has a slot at least, and a length that there is. -/
structure Valid (limit : MaxLength) (b : ArrayBuilder T) : Prop where
  count_le : b.count ≤ (b.array.getD []).length
  ne_nil : b.array ≠ some []
  length_le : (b.array.getD []).length ≤ limit.1

variable {limit : MaxLength} {b b' : ArrayBuilder T} {item : T}

theorem length_getArray (h : b.Valid limit) : b.getArray.length = b.count := by
  have := h.count_le
  simp only [getArray, List.length_take]
  omega

@[simp] theorem getArray_empty : (empty : ArrayBuilder T).getArray = [] := rfl

theorem valid_empty : (empty : ArrayBuilder T).Valid limit :=
  ⟨Nat.le_refl 0, by simp [empty], Nat.zero_le _⟩

theorem getArray_set {a : List T} {count : ℕ} (hlt : count < a.length) (item : T) :
    getArray ⟨some (a.set count item), count + 1⟩ = a.take count ++ [item] := by
  rw [getArray, Option.getD_some, List.take_add_one, List.take_set_of_le (Nat.le_refl _),
    List.getElem?_set_self hlt]
  rfl

/-- `Add` has a slot, or the runtime an array of twice the length. -/
def CanAdd (limit : MaxLength) (b : ArrayBuilder T) : Prop :=
  match b.array with
  | none => defaultInitialCapacity ≤ limit.1
  | some a => b.count < a.length ∨ 2 * a.length ≤ limit.1

/-- There is room if twice as many elements as there are have an array. -/
theorem canAdd_of_count (h : b.Valid limit) (hfour : defaultInitialCapacity ≤ limit.1)
    (hroom : 2 * b.count ≤ limit.1) : b.CanAdd limit := by
  obtain ⟨array, count⟩ := b
  have hle := h.count_le
  cases array with
  | none => exact hfour
  | some a =>
    rw [Option.getD_some] at hle
    rcases Nat.lt_or_eq_of_le hle with hlt | rfl
    · exact .inl hlt
    · exact .inr hroom

variable [Inhabited T]

@[simp] theorem getArray_withCapacity (n : Nat) :
    (withCapacity n : ArrayBuilder T).getArray = [] := by
  simp [withCapacity, getArray]

theorem valid_withCapacity {n : Nat} (hn : 0 < n) (hle : n ≤ limit.1) :
    (withCapacity n : ArrayBuilder T).Valid limit :=
  ⟨Nat.zero_le _, by simp [withCapacity]; omega, by simpa [withCapacity] using hle⟩

/-! ### One element -/

/-- The product of 32 bits is negative if it is too large. -/
theorem newArray_double {n : ℕ} (hn : n < 2 ^ 31) : newArray (T := T) limit (.ofNat n * 2)
    = if 2 * n ≤ limit.1 then some (List.replicate (n * 2) default) else none := by
  have hlimit := limit.2
  have hmul : (Int32.ofNat n * 2).toInt = (2 * (n : Int)).bmod (2 ^ 32) := by
    rw [Int32.toInt_mul, Int32.toInt_ofNat_of_lt hn, Int.mul_comm]
    rfl
  have hfits : (0 ≤ Int32.ofNat n * 2 ∧ (Int32.ofNat n * 2).toInt ≤ limit.1) ↔
      2 * n ≤ limit.1 := by
    rw [Int32.le_iff_toInt_le, hmul]
    show 0 ≤ _ ∧ _ ↔ _
    rw [Int.bmod_def]
    split <;> omega
  rw [newArray]
  simp only [hfits]
  split
  · rename_i hle
    have hlength : (Int32.ofNat n * 2).toInt = 2 * (n : Int) := by
      rw [hmul, Int.bmod_def]
      split <;> omega
    rw [hlength, show (2 * (n : Int)).toNat = n * 2 by omega]
  · rfl

theorem add_of_lt {a : List T} {count : ℕ} (hlt : count < a.length) (item : T) :
    add limit ⟨some a, count⟩ item = some ⟨some (a.set count item), count + 1⟩ := by
  have hgrow : growIfNeeded limit ⟨some a, count⟩ = some ⟨some a, count⟩ := if_pos hlt
  rw [add, hgrow, Option.bind_eq_bind, Option.bind_some]
  exact if_pos hlt

/-- A full array is doubled, if the runtime has an array so long. -/
theorem add_of_full {a : List T} (hlen : a.length ≤ limit.1) (item : T) :
    add limit ⟨some a, a.length⟩ item =
      if 0 < a.length ∧ 2 * a.length ≤ limit.1 then
        some ⟨some ((a ++ List.replicate a.length default).set a.length item), a.length + 1⟩
      else none := by
  have hlimit := limit.2
  have hgrow : growIfNeeded limit ⟨some a, a.length⟩ = (newArray limit (.ofNat a.length * 2)).map
      fun newArray => ⟨some (a ++ newArray.drop a.length), a.length⟩ :=
    if_neg (Nat.lt_irrefl _)
  rw [add, hgrow, newArray_double (by omega)]
  by_cases hle : 2 * a.length ≤ limit.1
  · rw [if_pos hle, Option.map_some, Option.bind_eq_bind, Option.bind_some, List.drop_replicate,
      show a.length * 2 - a.length = a.length by omega]
    dsimp only
    rw [List.length_append, List.length_replicate]
    by_cases hpos : 0 < a.length
    · rw [if_pos (by omega), if_pos ⟨hpos, hle⟩]
    · rw [if_neg (by omega), if_neg fun h => hpos h.1]
  · rw [if_neg hle, if_neg fun h => hle h.2]
    rfl

/-- The first `Add` of the default value. -/
theorem add_empty (item : T) : add limit empty item =
    if defaultInitialCapacity ≤ limit.1 then
      some ⟨some ((List.replicate defaultInitialCapacity default).set 0 item), 1⟩
    else none := by
  rw [add, growIfNeeded, empty, newArray]
  have hlength : (Int32.ofNat defaultInitialCapacity).toInt = 4 := by decide
  have hpos : 0 ≤ Int32.ofNat defaultInitialCapacity := by decide
  rw [hlength]
  by_cases hle : defaultInitialCapacity ≤ limit.1
  · rw [if_pos hle, if_pos ⟨hpos, Int.ofNat_le.2 hle⟩]
    rfl
  · rw [if_neg hle, if_neg fun h => hle (Int.ofNat_le.1 h.2)]
    rfl

/-- An `Add` that returns has appended its item. -/
structure Added (limit : MaxLength) (b : ArrayBuilder T) (item : T) (b' : ArrayBuilder T) :
    Prop where
  valid : b'.Valid limit
  getArray : b'.getArray = b.getArray ++ [item]
  count : b'.count = b.count + 1

/-- `Add` on a valid builder appends its item or throws. -/
theorem add_spec (h : b.Valid limit) (hadd : b.add limit item = some b') :
    Added limit b item b' := by
  obtain ⟨array, count⟩ := b
  obtain ⟨hle, hne, hlen⟩ := h
  cases array with
  | none =>
    obtain rfl : count = 0 := Nat.le_zero.1 hle
    rw [show (⟨none, 0⟩ : ArrayBuilder T) = empty from rfl, add_empty] at hadd
    split at hadd
    · rename_i hfour
      cases hadd
      have hfull : some ((List.replicate defaultInitialCapacity default).set 0 item) ≠ some [] := by
        intro h
        cases h
      exact ⟨⟨(Nat.le_add_left 1 3 : 1 ≤ 4), hfull, hfour⟩, rfl, rfl⟩
    · cases hadd
  | some a =>
    rw [Option.getD_some] at hle hlen
    rcases Nat.lt_or_eq_of_le hle with hlt | rfl
    · rw [add_of_lt hlt] at hadd
      cases hadd
      refine ⟨⟨?_, fun h => ?_, ?_⟩, getArray_set hlt item, rfl⟩
      · rw [Option.getD_some, List.length_set]
        exact hlt
      · have hnil := congrArg List.length (Option.some.inj h)
        rw [List.length_set, List.length_nil] at hnil
        omega
      · rw [Option.getD_some, List.length_set]
        exact hlen
    · rw [add_of_full hlen] at hadd
      split at hadd
      · rename_i hdouble
        cases hadd
        have hlength : ((a ++ List.replicate a.length default).set a.length item).length
            = 2 * a.length := by
          rw [List.length_set, List.length_append, List.length_replicate]
          omega
        refine ⟨⟨?_, fun h => ?_, ?_⟩, ?_, rfl⟩
        · rw [Option.getD_some, hlength]
          show a.length + 1 ≤ _
          omega
        · have hnil := congrArg List.length (Option.some.inj h)
          rw [hlength, List.length_nil] at hnil
          omega
        · rw [Option.getD_some, hlength]
          exact hdouble.2
        · rw [getArray_set (by rw [List.length_append, List.length_replicate]; omega),
            List.take_left, getArray, Option.getD_some, List.take_length]
      · cases hadd

theorem add_isSome_iff (h : b.Valid limit) (item : T) :
    (b.add limit item).isSome = true ↔ b.CanAdd limit := by
  obtain ⟨array, count⟩ := b
  obtain ⟨hle, hne, hlen⟩ := h
  cases array with
  | none =>
    obtain rfl : count = 0 := Nat.le_zero.1 hle
    rw [show (⟨none, 0⟩ : ArrayBuilder T) = empty from rfl, add_empty]
    by_cases hfour : defaultInitialCapacity ≤ limit.1
    · rw [if_pos hfour]
      exact iff_of_true rfl hfour
    · rw [if_neg hfour]
      exact iff_of_false (by simp) hfour
  | some a =>
    rw [Option.getD_some] at hle hlen
    rcases Nat.lt_or_eq_of_le hle with hlt | rfl
    · rw [add_of_lt hlt]
      exact iff_of_true rfl (.inl hlt)
    · have hpos : 0 < a.length := List.length_pos_of_ne_nil fun hnil => hne (by rw [hnil])
      rw [add_of_full hlen]
      by_cases hdouble : 2 * a.length ≤ limit.1
      · rw [if_pos ⟨hpos, hdouble⟩]
        exact iff_of_true rfl (.inr hdouble)
      · rw [if_neg fun h => hdouble h.2]
        exact iff_of_false (by simp) fun h => h.elim (Nat.lt_irrefl _) hdouble

end ArrayBuilder

end DdTrace.Trace
