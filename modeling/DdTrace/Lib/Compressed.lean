import DdTrace.Lib.Bytes

/-!
# Compressed integers

The unsigned integers of metadata signatures: up to 7 bits in one byte, up to 14 in two
that start with `10`, up to 29 in four that start with `110`.
-/

namespace DdTrace.Lib

variable {n m : ℕ} {bytes rest : List UInt8} {b b1 b2 b3 b4 : UInt8}

/-- The shortest encoding, if there is one. -/
def compress (n : ℕ) : Option (List UInt8) :=
  if n < 2 ^ 7 then some (bigEndian 1 n)
  else if n < 2 ^ 14 then some (bigEndian 2 (2 ^ 15 + n))
  else if n < 2 ^ 29 then some (bigEndian 4 (2 ^ 31 + 2 ^ 30 + n))
  else none

/-- The sign of `w` bits, moved to the lowest bit. -/
def rotateSign (w : ℕ) (i : ℤ) : ℕ :=
  if 0 ≤ i then (2 * i).toNat else (2 * (i + 2 ^ (w - 1)) + 1).toNat

/-- The shortest encoding of a signed integer, if there is one. -/
def compressSigned (i : ℤ) : Option (List UInt8) :=
  if -2 ^ 6 ≤ i ∧ i < 2 ^ 6 then some (bigEndian 1 (rotateSign 7 i))
  else if -2 ^ 13 ≤ i ∧ i < 2 ^ 13 then some (bigEndian 2 (2 ^ 15 + rotateSign 14 i))
  else if -2 ^ 28 ≤ i ∧ i < 2 ^ 28 then some (bigEndian 4 (2 ^ 31 + 2 ^ 30 + rotateSign 29 i))
  else none

/-- The number at the start of the bytes, and what comes behind it. -/
def uncompress : List UInt8 → Option (ℕ × List UInt8)
  | b1 :: bytes =>
    if b1 < 0x80 then some (b1.toNat, bytes)
    else if b1 < 0xC0 then
      match bytes with
      | b2 :: rest => some (ofBigEndian [b1, b2] - 2 ^ 15, rest)
      | _ => none
    else if b1 < 0xE0 then
      match bytes with
      | b2 :: b3 :: b4 :: rest => some (ofBigEndian [b1, b2, b3, b4] - (2 ^ 31 + 2 ^ 30), rest)
      | _ => none
    else none
  | [] => none

theorem ofBigEndian_pair : ofBigEndian [b1, b2] = b1.toNat * 256 + b2.toNat := by
  simp [ofBigEndian]
  ring

theorem ofBigEndian_four : ofBigEndian [b1, b2, b3, b4] =
    b1.toNat * 2 ^ 24 + b2.toNat * 2 ^ 16 + b3.toNat * 2 ^ 8 + b4.toNat := by
  simp [ofBigEndian]
  ring

theorem uncompress_one (h : b1 < 0x80) : uncompress (b1 :: rest) = some (b1.toNat, rest) :=
  if_pos h

theorem uncompress_two (h1 : ¬ b1 < 0x80) (h2 : b1 < 0xC0) :
    uncompress (b1 :: b2 :: rest) = some (ofBigEndian [b1, b2] - 2 ^ 15, rest) := by
  rw [uncompress, if_neg h1, if_pos h2]

theorem uncompress_four (h1 : ¬ b1 < 0xC0) (h2 : b1 < 0xE0) :
    uncompress (b1 :: b2 :: b3 :: b4 :: rest) =
      some (ofBigEndian [b1, b2, b3, b4] - (2 ^ 31 + 2 ^ 30), rest) := by
  have h0 : ¬ b1 < 0x80 := fun h => h1 (UInt8.lt_trans h (by decide))
  rw [uncompress, if_neg h0, if_neg h1, if_pos h2]

theorem uncompress_bigEndian_one (h : n < 2 ^ 7) :
    uncompress (bigEndian 1 n ++ rest) = some (n, rest) := by
  have hb : (UInt8.ofNat (n / 256 ^ 0)).toNat = n := by simp; omega
  have hlt : UInt8.ofNat (n / 256 ^ 0) < 0x80 := by rw [UInt8.lt_iff_toNat_lt, hb]; assumption
  rw [bigEndian, bigEndian, List.singleton_append, uncompress_one hlt, hb]

theorem uncompress_bigEndian_two (h : n < 2 ^ 14) :
    uncompress (bigEndian 2 (2 ^ 15 + n) ++ rest) = some (n, rest) := by
  have hb : (UInt8.ofNat ((2 ^ 15 + n) / 256 ^ 1)).toNat = 128 + n / 256 := by simp; omega
  have hval := @ofBigEndian_bigEndian (2 ^ 15 + n) 2 (by omega)
  rw [bigEndian, bigEndian, bigEndian] at hval ⊢
  rw [List.cons_append, List.singleton_append, uncompress_two, hval, Nat.add_sub_cancel_left]
  · rw [UInt8.lt_iff_toNat_lt, hb]; simp
  · rw [UInt8.lt_iff_toNat_lt, hb]; simp; omega

theorem uncompress_bigEndian_four (h : n < 2 ^ 29) :
    uncompress (bigEndian 4 (2 ^ 31 + 2 ^ 30 + n) ++ rest) = some (n, rest) := by
  have hb : (UInt8.ofNat ((2 ^ 31 + 2 ^ 30 + n) / 256 ^ 3)).toNat = 192 + n / 2 ^ 24 := by
    simp; omega
  have hval := @ofBigEndian_bigEndian (2 ^ 31 + 2 ^ 30 + n) 4 (by omega)
  rw [bigEndian, bigEndian, bigEndian, bigEndian, bigEndian] at hval ⊢
  rw [List.cons_append, List.cons_append, List.cons_append, List.singleton_append,
    uncompress_four, hval, Nat.add_sub_cancel_left]
  · rw [UInt8.lt_iff_toNat_lt, hb]; simp
  · rw [UInt8.lt_iff_toNat_lt, hb]; simp; omega

theorem uncompress_compress (h : compress n = some bytes) :
    uncompress (bytes ++ rest) = some (n, rest) := by
  unfold compress at h
  split at h
  · obtain rfl := Option.some.inj h
    exact uncompress_bigEndian_one ‹_›
  split at h
  · obtain rfl := Option.some.inj h
    exact uncompress_bigEndian_two ‹_›
  split at h
  · obtain rfl := Option.some.inj h
    exact uncompress_bigEndian_four ‹_›
  · cases h

/-- A signed integer is encoded as an unsigned one, its sign in the lowest bit. -/
theorem uncompress_compressSigned {i : ℤ} (h : compressSigned i = some bytes) :
    ∃ n, uncompress (bytes ++ rest) = some (n, rest) := by
  unfold compressSigned at h
  split at h
  · obtain rfl := Option.some.inj h
    refine ⟨_, uncompress_bigEndian_one ?_⟩
    unfold rotateSign
    split <;> omega
  split at h
  · obtain rfl := Option.some.inj h
    refine ⟨_, uncompress_bigEndian_two ?_⟩
    unfold rotateSign
    split <;> omega
  split at h
  · obtain rfl := Option.some.inj h
    refine ⟨_, uncompress_bigEndian_four ?_⟩
    unfold rotateSign
    split <;> omega
  · cases h

/-- What lies behind the number plays no role. -/
theorem uncompress_append (h : uncompress bytes = some (n, rest)) (more : List UInt8) :
    uncompress (bytes ++ more) = some (n, rest ++ more) := by
  match bytes with
  | [] => cases h
  | b1 :: bytes =>
    rw [List.cons_append]
    simp only [uncompress] at h ⊢
    split_ifs at h ⊢
    · cases h
      rfl
    · match bytes with
      | [] => cases h
      | b2 :: bytes =>
        obtain ⟨rfl, rfl⟩ := Prod.mk.inj (Option.some.inj h)
        rfl
    · match bytes with
      | [] => cases h
      | [b2] => cases h
      | [b2, b3] => cases h
      | b2 :: b3 :: b4 :: bytes =>
        obtain ⟨rfl, rfl⟩ := Prod.mk.inj (Option.some.inj h)
        rfl

theorem compress_of_lt (h : n < 2 ^ 29) : ∃ bytes, compress n = some bytes := by
  unfold compress
  rw [if_pos h]
  split
  · exact ⟨_, rfl⟩
  split
  · exact ⟨_, rfl⟩
  · exact ⟨_, rfl⟩

/-- How many bytes the shortest encoding takes. -/
def compressedLength (n : ℕ) : ℕ := if n < 2 ^ 7 then 1 else if n < 2 ^ 14 then 2 else 4

theorem length_compress (h : compress n = some bytes) : bytes.length = compressedLength n := by
  unfold compress at h
  unfold compressedLength
  split at h
  · obtain rfl := Option.some.inj h
    rw [if_pos ‹_›, length_bigEndian]
  rw [if_neg ‹_›]
  split at h
  · obtain rfl := Option.some.inj h
    rw [if_pos ‹_›, length_bigEndian]
  rw [if_neg ‹_›]
  split at h
  · obtain rfl := Option.some.inj h
    rw [length_bigEndian]
  · cases h

theorem compressedLength_le (n : ℕ) : compressedLength n ≤ 4 := by
  unfold compressedLength
  split_ifs <;> omega

theorem length_compress_of_lt (hn : n < 2 ^ 7) (h : compress n = some bytes) : bytes.length = 1 := by
  rw [length_compress h, compressedLength, if_pos hn]

end DdTrace.Lib
