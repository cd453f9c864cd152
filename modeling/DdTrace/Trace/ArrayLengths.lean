import DdTrace.Trace.ArrayBuilder

/-!
# The lengths of an `ArrayBuilder`

The lengths are the first one and its doubles. A builder keeps as many elements as the longest of
them that the runtime has: none if the first length is zero.
-/

namespace DdTrace.Trace

variable {T : Type*} [Inhabited T]

namespace ArrayBuilder

/-- The constructor, or the default value. -/
def start (limit : MaxLength) : Option Int32 → Option (ArrayBuilder T)
  | none => some empty
  | some initialCapacity => (newArray limit initialCapacity).map fun array => ⟨some array, 0⟩

/-- The items are all added behind those there are. -/
def Appends (limit : MaxLength) (b : ArrayBuilder T) (items : List T) : Prop :=
  ∃ b', items.foldlM (add limit) b = some b' ∧ b'.getArray = b.getArray ++ items ∧
    b'.count = b.count + items.length

/-- No `Add` throws, and the array is that of the items. -/
def KeepsElements (limit : MaxLength) (b : ArrayBuilder T) (items : List T) : Prop :=
  ∃ b', items.foldlM (add limit) b = some b' ∧ b'.getArray = items ∧ b'.count = items.length

/-- The length of the first array. -/
def firstLength : Option Int32 → ℕ
  | none => defaultInitialCapacity
  | some initialCapacity => initialCapacity.toInt.toNat

/-- There is an array for so many elements, of the first length or one of its doubles. -/
def HasRoom (limit : MaxLength) (length count : ℕ) : Prop :=
  ∃ j, count ≤ length * 2 ^ j ∧ length * 2 ^ j ≤ limit.1

variable {limit : MaxLength} {b b' : ArrayBuilder T} {items : List T} {item : T}

/-! ### All elements -/

theorem appends_nil : Appends limit b [] :=
  ⟨b, rfl, (List.append_nil _).symm, rfl⟩

theorem appends_cons (hadd : add limit b item = some b')
    (harray : b'.getArray = b.getArray ++ [item]) (hcount : b'.count = b.count + 1) :
    Appends limit b (item :: items) ↔ Appends limit b' items := by
  rw [Appends, Appends, List.foldlM_cons, hadd, Option.bind_eq_bind, Option.bind_some, harray,
    hcount, List.length_cons, List.append_assoc, List.singleton_append, Nat.add_assoc,
    Nat.add_comm 1]

theorem not_appends_cons (hadd : add limit b item = none) :
    ¬ Appends limit b (item :: items) := by
  rintro ⟨b', hfold, -⟩
  rw [List.foldlM_cons, hadd] at hfold
  cases hfold

omit [Inhabited T] in
theorem hasRoom_double {length count : ℕ} (hlt : length < count) :
    HasRoom limit length count ↔ HasRoom limit (2 * length) count := by
  constructor
  · rintro ⟨j, hcount, hle⟩
    cases j with
    | zero =>
      rw [Nat.pow_zero, Nat.mul_one] at hcount
      omega
    | succ j =>
      have hpow : length * 2 ^ (j + 1) = 2 * length * 2 ^ j := by
        rw [Nat.pow_succ, Nat.mul_comm (2 ^ j), ← Nat.mul_assoc, Nat.mul_comm length]
      rw [hpow] at hcount hle
      exact ⟨j, hcount, hle⟩
  · rintro ⟨j, hcount, hle⟩
    have hpow : 2 * length * 2 ^ j = length * 2 ^ (j + 1) := by
      rw [Nat.pow_succ, Nat.mul_comm (2 ^ j), ← Nat.mul_assoc, Nat.mul_comm length]
    rw [hpow] at hcount hle
    exact ⟨j + 1, hcount, hle⟩

omit [Inhabited T] in
/-- A length is within that of the longest array if there is room for more. -/
theorem le_of_hasRoom {length count : ℕ} (hroom : HasRoom limit length count) :
    length ≤ limit.1 ∧ (0 < count → 0 < length) := by
  obtain ⟨j, hcount, hle⟩ := hroom
  have hpow : 0 < 2 ^ j := Nat.two_pow_pos j
  refine ⟨Nat.le_trans (Nat.le_mul_of_pos_right length hpow) hle, fun hpos => ?_⟩
  rcases Nat.eq_zero_or_pos length with rfl | h
  · rw [Nat.zero_mul] at hcount
    omega
  · exact h

theorem appends_iff {a : List T} {count : ℕ} (hcount : count ≤ a.length)
    (hlen : a.length ≤ limit.1) (items : List T) : Appends limit ⟨some a, count⟩ items ↔
      items = [] ∨ HasRoom limit a.length (count + items.length) := by
  induction items generalizing a count with
  | nil => exact ⟨fun _ => .inl rfl, fun _ => appends_nil⟩
  | cons item items ih =>
    rw [or_iff_right (List.cons_ne_nil item items), List.length_cons]
    rcases Nat.lt_or_eq_of_le hcount with hlt | rfl
    · -- the array has a free slot
      have hlength : (a.set count item).length = a.length := List.length_set
      rw [appends_cons (add_of_lt hlt item) (getArray_set hlt item) rfl,
        ih (by rw [hlength]; exact hlt) (by rw [hlength]; exact hlen), hlength, Nat.add_assoc,
        Nat.add_comm 1]
      constructor
      · rintro (rfl | hroom)
        · exact ⟨0, by rw [Nat.pow_zero, Nat.mul_one]; exact hlt,
            by rw [Nat.pow_zero, Nat.mul_one]; exact hlen⟩
        · exact hroom
      · exact .inr
    · have hadd := add_of_full hlen item
      rw [hasRoom_double (by omega)]
      by_cases hdouble : 0 < a.length ∧ 2 * a.length ≤ limit.1
      · rw [if_pos hdouble] at hadd
        have hlength : ((a ++ List.replicate a.length default).set a.length item).length
            = 2 * a.length := by
          rw [List.length_set, List.length_append, List.length_replicate]
          omega
        have harray : getArray ⟨some ((a ++ List.replicate a.length default).set a.length item),
            a.length + 1⟩ = getArray ⟨some a, a.length⟩ ++ [item] := by
          rw [getArray_set (by rw [List.length_append, List.length_replicate]; omega),
            List.take_left, getArray, Option.getD_some, List.take_length]
        rw [appends_cons hadd harray rfl, ih (by rw [hlength]; omega)
          (by rw [hlength]; exact hdouble.2), hlength, Nat.add_assoc, Nat.add_comm 1]
        constructor
        · rintro (rfl | hroom)
          · exact ⟨0, by rw [Nat.pow_zero, List.length_nil]; omega,
              by rw [Nat.pow_zero, Nat.mul_one]; exact hdouble.2⟩
          · exact hroom
        · exact .inr
      · rw [if_neg hdouble] at hadd
        constructor
        · exact fun h => absurd h (not_appends_cons hadd)
        · intro hroom
          obtain ⟨hle, hpos⟩ := le_of_hasRoom hroom
          exact absurd ⟨by have := hpos (by omega); omega, hle⟩ hdouble

/-! ### From the start -/

theorem keepsElements_iff_appends (harray : b.getArray = []) (hcount : b.count = 0) :
    KeepsElements limit b items ↔ Appends limit b items := by
  rw [KeepsElements, Appends, harray, hcount, List.nil_append, Nat.zero_add]

theorem newArray_eq_some {length : Int32} {array : List T}
    (h : newArray limit length = some array) :
    array = List.replicate length.toInt.toNat default ∧ length.toInt.toNat ≤ limit.1 := by
  rw [newArray] at h
  split at h
  · rename_i hle
    cases h
    exact ⟨rfl, by omega⟩
  · cases h

/-- A builder keeps its elements exactly if there are none, or the runtime has an array for so
many, of the first length or one of its doubles. -/
theorem keepsElements_iff (limit : MaxLength) (initialCapacity : Option Int32)
    (hstart : start limit initialCapacity = some b) (items : List T) :
    KeepsElements limit b items ↔
      items = [] ∨ HasRoom limit (firstLength initialCapacity) items.length := by
  cases initialCapacity with
  | none =>
    cases hstart
    rw [keepsElements_iff_appends rfl rfl]
    cases items with
    | nil => exact ⟨fun _ => .inl rfl, fun _ => appends_nil⟩
    | cons item items =>
      have hadd : add limit empty item = _ := add_empty item
      rw [or_iff_right (List.cons_ne_nil item items), List.length_cons]
      by_cases hle : defaultInitialCapacity ≤ limit.1
      · rw [if_pos hle] at hadd
        have hlength : ((List.replicate defaultInitialCapacity (default : T)).set 0 item).length
            = defaultInitialCapacity := rfl
        rw [appends_cons hadd rfl rfl, appends_iff (by rw [hlength]; decide)
          (by rw [hlength]; exact hle), hlength, firstLength, Nat.add_comm 1]
        constructor
        · rintro (rfl | hroom)
          · exact ⟨0, (by decide : 1 ≤ defaultInitialCapacity * 2 ^ 0), hle⟩
          · exact hroom
        · exact .inr
      · rw [if_neg hle] at hadd
        exact ⟨fun h => absurd h (not_appends_cons hadd), fun h => absurd (le_of_hasRoom h).1 hle⟩
  | some initialCapacity =>
    obtain ⟨array, harray, rfl⟩ := Option.map_eq_some_iff.1 hstart
    obtain ⟨rfl, hle⟩ := newArray_eq_some harray
    rw [keepsElements_iff_appends rfl rfl, firstLength, appends_iff (Nat.zero_le _)
      (by rw [List.length_replicate]; exact hle), List.length_replicate, Nat.zero_add]

/-- The longest array of bytes. -/
def maxByteArray : MaxLength := ⟨0x7FFFFFC7, by decide⟩

theorem keepsElements_three : KeepsElements maxByteArray ⟨some [0, 0], 0⟩ [1, 2, 3] ↔
    [1, 2, 3] = [] ∨ HasRoom maxByteArray (firstLength (some 2)) [1, 2, 3].length :=
  keepsElements_iff maxByteArray (some 2) rfl [1, 2, 3]

/-- Twice no slot is no slot. -/
theorem loses_first_element :
    (¬ ∀ (limit : MaxLength) (initialCapacity : Option Int32) (b : ArrayBuilder ℕ),
      start limit initialCapacity = some b → ∀ items, KeepsElements limit b items) ∧
      start maxByteArray (some 0) = some (⟨some [], 0⟩ : ArrayBuilder ℕ) ∧
      add maxByteArray (⟨some [], 0⟩ : ArrayBuilder ℕ) 1 = none := by
  have hstart : start maxByteArray (some 0) = some (⟨some [], 0⟩ : ArrayBuilder ℕ) := rfl
  have hadd : add maxByteArray (⟨some [], 0⟩ : ArrayBuilder ℕ) 1 = none := rfl
  refine ⟨fun h => ?_, hstart, hadd⟩
  obtain ⟨b, hfold, -⟩ := h maxByteArray (some 0) ⟨some [], 0⟩ hstart [1]
  rw [List.foldlM_cons, hadd] at hfold
  cases hfold

end ArrayBuilder

end DdTrace.Trace
