import DdTrace.Ci.GitPackageOffset
import DdTrace.Lib.Varint

/-!
# The header of an object in a pack

`TryGetFromPackageOffset` reads a pack file at the offset of an object: the header with the
object's size, the magic number of zlib, and then the deflated object. `packHeader` is the
header as git writes it: the type and four bits of the size in the first byte, the rest of the
size in groups of seven bits.
-/

namespace DdTrace.Ci

open Lib Lib.Tables

variable {file data before : List UInt8} {pos size shift : ℕ}

/-! ### Reading the header -/

/-- The exceptions of the reading, caught by the method. -/
inductive HeaderError where
  | indexOutOfRange
  | endOfStream
  deriving DecidableEq, Repr

/-- `<<` on an `int`, of which only the low five bits of the count matter. -/
def shiftLeft (n : ℤ) (shift : ℕ) : ℤ := int32 (n * 2 ^ (shift % 32))

/-- An element of an array that was read. -/
def elementAt (packData : List UInt8) (i : ℕ) : Except HeaderError UInt8 :=
  match packData[i]? with
  | some b => .ok b
  | none => .error .indexOutOfRange

/-- The `do` loop, on what is left of the stream from `pos` on. -/
def readGroups (pos : ℕ) (objectSize : ℤ) (shift : ℕ) :
    List UInt8 → Except HeaderError (ℤ × ℕ)
  | [] => .error .endOfStream
  | pData :: rest =>
    let shift := shift + 7
    let objectSize := int32 (objectSize + shiftLeft (pData &&& 0x7F).toNat shift)
    if pData ≥ 128 then readGroups (pos + 1) objectSize shift rest
    else .ok (objectSize, pos + 1)

/-- The object's size and the position behind what was read for it. -/
def readObjectSize (file : List UInt8) (pos : ℕ) : Except HeaderError (ℤ × ℕ) := do
  let (packData, pos) := readBytes file pos 2
  let first ← elementAt packData 0
  let objectSize : ℤ := (first &&& 0x0F).toNat
  if first ≥ 128 then
    let shift := 4
    let second ← elementAt packData 1
    let objectSize := int32 (objectSize + shiftLeft (second &&& 0x7F).toNat shift)
    if second ≥ 128 then readGroups pos objectSize shift (file.drop pos)
    else return (objectSize, pos)
  else return (objectSize, pos)

/-- What the method does with the entry: it inflates a buffer of `size` bytes from a position,
or warns. -/
inductive PackEntry where
  | inflate (size : ℤ) (pos : ℕ)
  | noMagicNumber
  | sizeOutOfRange (objectSize : ℤ)
  deriving DecidableEq, Repr

/-- The reading up to the `DeflateStream`. `ReadUInt16` is not overridden, so that the low byte
of the magic number is its first. -/
def readPackEntry (file : List UInt8) (offset : ℕ) : Except HeaderError PackEntry := do
  let (objectSize, pos) ← readObjectSize file offset
  if 0 < objectSize ∧ objectSize < 65535 then
    match readBytes file pos 2 with
    | ([low, _], pos) =>
      return if low = 0x78 then .inflate objectSize pos else .noMagicNumber
    | _ => throw .endOfStream
  else return .sizeOutOfRange objectSize

/-! ### The header git writes -/

inductive ObjectType where
  | commit
  | tree
  | blob
  | tag
  | ofsDelta
  | refDelta
  deriving DecidableEq, Repr

def ObjectType.code : ObjectType → ℕ
  | commit => 1
  | tree => 2
  | blob => 3
  | tag => 4
  | ofsDelta => 6
  | refDelta => 7

theorem ObjectType.code_lt (type : ObjectType) : type.code < 8 := by
  cases type <;> decide

def packHeader (type : ObjectType) (size : ℕ) : List UInt8 :=
  if size < 16 then [UInt8.ofNat (type.code * 16 + size)]
  else UInt8.ofNat (128 + type.code * 16 + size % 16) :: varint (size / 16)

/-! ### What is read from such a header -/

theorem shiftLeft_eq {n : ℕ} (hshift : shift < 32) (h : n * 2 ^ shift < 2 ^ 31) :
    shiftLeft n shift = (n * 2 ^ shift : ℕ) := by
  have hcast : ((n * 2 ^ shift : ℕ) : ℤ) < 2 ^ 31 := by exact_mod_cast h
  rw [shiftLeft, Nat.mod_eq_of_lt hshift, ← Nat.cast_ofNat, ← Nat.cast_pow, ← Nat.cast_mul]
  exact int32_eq (by omega) hcast

/-- One group added to the size. -/
theorem int32_add_shiftLeft {acc n : ℕ} (hshift : shift < 32) (h : acc + n * 2 ^ shift < 2 ^ 31) :
    int32 (acc + shiftLeft n shift) = (acc + n * 2 ^ shift : ℕ) := by
  rw [shiftLeft_eq hshift (by omega), ← Nat.cast_add]
  apply int32_eq
  · omega
  · exact_mod_cast h

theorem marked_iff {n : ℕ} (h : n < 256) : UInt8.ofNat n ≥ 128 ↔ 128 ≤ n := by
  rw [ge_iff_le, UInt8.le_iff_toNat_le, UInt8.toNat_ofNat_of_lt' h]
  rfl

/-- The low groups and the high ones. -/
theorem groups_eq (shift acc n : ℕ) :
    acc + n % 128 * 2 ^ shift + n / 128 * 2 ^ (shift + 7) = acc + n * 2 ^ shift := by
  have hn : n = n % 128 + 128 * (n / 128) := (Nat.mod_add_div n 128).symm
  calc acc + n % 128 * 2 ^ shift + n / 128 * 2 ^ (shift + 7)
      = acc + (n % 128 + 128 * (n / 128)) * 2 ^ shift := by ring
    _ = acc + n * 2 ^ shift := by rw [← hn]

/-- A number that is not zero is shifted by less than 31. -/
theorem shift_lt {acc n : ℕ} (hn : 0 < n) (h : acc + n * 2 ^ shift < 2 ^ 31) : shift < 31 := by
  have hpow : 2 ^ shift ≤ n * 2 ^ shift := Nat.le_mul_of_pos_left _ hn
  exact (Nat.pow_lt_pow_iff_right (by norm_num)).1 (by omega : 2 ^ shift < 2 ^ 31)

theorem readGroups_varint {n : ℕ} (hn : 0 < n) {acc : ℕ}
    (h : acc + n * 2 ^ (shift + 7) < 2 ^ 31) :
    readGroups pos acc shift (varint n ++ data)
      = .ok (((acc + n * 2 ^ (shift + 7) : ℕ) : ℤ), pos + (varint n).length) := by
  induction n using varint_induction generalizing pos shift acc with
  | last n hlt =>
    have hshift := shift_lt hn h
    rw [varint_of_lt hlt, List.singleton_append, readGroups]
    simp only [low_bits_ofNat (by omega : n < 256), Nat.mod_eq_of_lt hlt,
      int32_add_shiftLeft (by omega : shift + 7 < 32) h]
    rw [if_neg (by rw [marked_iff (by omega)]; omega)]
    rfl
  | more n hle ih =>
    have hshift := shift_lt hn h
    have hsplit := groups_eq (shift + 7) acc n
    have hlow : acc + n % 128 * 2 ^ (shift + 7) < 2 ^ 31 := by omega
    rw [varint_of_le hle, List.cons_append, readGroups]
    simp only [low_bits_ofNat (by omega : n % 128 + 128 < 256),
      (by omega : (n % 128 + 128) % 128 = n % 128),
      int32_add_shiftLeft (by omega : shift + 7 < 32) hlow]
    rw [if_pos (by rw [marked_iff (by omega)]; omega), ih (by omega) (by omega), hsplit,
      List.length_cons, Nat.add_assoc, Nat.add_comm 1]

theorem readBytes_two (before : List UInt8) (b c : UInt8) (rest : List UInt8) :
    readBytes (before ++ b :: c :: rest) before.length 2 = ([b, c], before.length + 2) := by
  have h : slice (before ++ b :: c :: rest) before.length 2 = [b, c] :=
    slice_append before [b, c] rest
  rw [readBytes, h]
  rfl

/-- What is read of a header whose size has more than four bits. -/
theorem readObjectSize_marked {first second : UInt8} (hfirst : first ≥ 128) :
    readObjectSize (before ++ first :: second :: data) before.length =
      let size := int32 ((first &&& 0x0F).toNat + shiftLeft (second &&& 0x7F).toNat 4)
      if second ≥ 128 then readGroups (before.length + 2) size 4 data
      else .ok (size, before.length + 2) := by
  have hdrop : (before ++ first :: second :: data).drop (before.length + 2) = data := by
    rw [List.drop_append]
    simp
  simp only [readObjectSize, readBytes_two, elementAt, List.getElem?_cons_zero,
    List.getElem?_cons_succ]
  simp only [bind, Except.bind, if_pos hfirst, hdrop]
  rfl

theorem first_low (type : ObjectType) (size : ℕ) :
    (UInt8.ofNat (128 + type.code * 16 + size % 16) &&& 0x0F).toNat = size % 16 := by
  have hcode := type.code_lt
  have hmask : (0x0F : UInt8).toNat = 2 ^ 4 - 1 := rfl
  rw [UInt8.toNat_and, hmask, Nat.and_two_pow_sub_one_eq_mod,
    UInt8.toNat_ofNat_of_lt' (by omega : 128 + type.code * 16 + size % 16 < 256)]
  omega

theorem first_marked (type : ObjectType) (size : ℕ) :
    UInt8.ofNat (128 + type.code * 16 + size % 16) ≥ 128 := by
  have hcode := type.code_lt
  rw [marked_iff (by omega)]
  omega

/-- The size of an object whose header has at least two bytes. -/
theorem readObjectSize_long (type : ObjectType) (hsize : 16 ≤ size) (hmax : size < 2 ^ 31) :
    readObjectSize (before ++ (packHeader type size ++ data)) before.length
      = .ok ((size : ℤ), before.length + (packHeader type size).length) := by
  have hparts : size % 16 + size / 16 * 2 ^ 4 = size := by omega
  rw [packHeader, if_neg (by omega)]
  by_cases hshort : size / 16 < 128
  · rw [varint_of_lt hshort, List.cons_append, List.singleton_append,
      readObjectSize_marked (first_marked type size), first_low,
      low_bits_ofNat (by omega : size / 16 < 256), Nat.mod_eq_of_lt hshort,
      int32_add_shiftLeft (by omega) (by omega), hparts]
    exact if_neg (by rw [marked_iff (by omega)]; omega)
  · have hgroups := groups_eq 4 (size % 16) (size / 16)
    rw [varint_of_le (by omega), List.cons_append, List.cons_append,
      readObjectSize_marked (first_marked type size), first_low,
      low_bits_ofNat (by omega : size / 16 % 128 + 128 < 256),
      (by omega : (size / 16 % 128 + 128) % 128 = size / 16 % 128),
      int32_add_shiftLeft (by omega) (by omega)]
    refine (if_pos (by rw [marked_iff (by omega)]; omega)).trans ?_
    rw [readGroups_varint (by omega) (by omega), hgroups, hparts, List.length_cons,
      List.length_cons]
    congr 2
    omega

/-- A size of four bits is read right, but a second byte is taken with it. -/
theorem readObjectSize_short (type : ObjectType) (hsize : size < 16) {b : UInt8} :
    readObjectSize (before ++ (packHeader type size ++ b :: data)) before.length
      = .ok ((size : ℤ), before.length + (packHeader type size).length + 1) := by
  have hcode := type.code_lt
  have hmask : (0x0F : UInt8).toNat = 2 ^ 4 - 1 := rfl
  have hlow : (UInt8.ofNat (type.code * 16 + size) &&& 0x0F).toNat = size := by
    rw [UInt8.toNat_and, hmask, Nat.and_two_pow_sub_one_eq_mod,
      UInt8.toNat_ofNat_of_lt' (by omega : type.code * 16 + size < 256)]
    omega
  have hmarked : ¬UInt8.ofNat (type.code * 16 + size) ≥ 128 := by
    rw [marked_iff (by omega)]
    omega
  rw [packHeader, if_pos hsize, List.singleton_append]
  simp only [readObjectSize, readBytes_two, elementAt, List.getElem?_cons_zero]
  simp only [bind, Except.bind, if_neg hmarked, hlow]
  rfl

/-- For every object of more than four bits of size, whatever its type, the header git writes
is read as that size, and the reader stands at the first byte behind the header. -/
theorem readObjectSize_packHeader (type : ObjectType) (before data : List UInt8) (size : ℕ)
    (hsize : 16 ≤ size) (hmax : size ≤ 2147483647) :
    readObjectSize (before ++ (packHeader type size ++ data)) before.length
      = .ok ((size : ℤ), before.length + (packHeader type size).length) :=
  readObjectSize_long type hsize (by omega)

theorem readObjectSize_packHeader_blob :
    16 ≤ 300 ∧ 300 ≤ 2147483647 ∧
      readObjectSize ([7] ++ (packHeader .blob 300 ++ [0x78, 0x9C])) 1 = .ok (300, 3) := by
  have h := readObjectSize_packHeader .blob [7] [0x78, 0x9C] 300 (by decide) (by decide)
  have hlen : (packHeader .blob 300).length = 2 := by simp [packHeader, varint]
  rw [hlen] at h
  exact ⟨by decide, by decide, h⟩

/-- The type is not among what is read: it cannot be told from it. -/
theorem type_not_read :
    ¬∃ typeOf : Except HeaderError (ℤ × ℕ) → Option ObjectType,
      ∀ type before data size, 1 ≤ size → size ≤ 2147483647 →
        typeOf (readObjectSize (before ++ (packHeader type size ++ data)) before.length)
          = some type := by
  rintro ⟨typeOf, h⟩
  have hread : ∀ type, readObjectSize ([] ++ (packHeader type 300 ++ [])) ([] : List UInt8).length
      = .ok (300, 2) := by
    intro type
    rw [readObjectSize_long type (by decide) (by decide), packHeader, varint_of_lt (by decide)]
    rfl
  have hcommit := h .commit [] [] 300 (by decide) (by decide)
  have hblob := h .blob [] [] 300 (by decide) (by decide)
  rw [hread] at hcommit hblob
  rw [hcommit] at hblob
  cases hblob

/-- An object in a pack that is small enough is inflated from behind the magic number, into a
buffer of its size. -/
theorem readPackEntry_packHeader (type : ObjectType) (hsize : 16 ≤ size) (hmax : size < 65535)
    (flags : UInt8) :
    readPackEntry (before ++ (packHeader type size ++ 0x78 :: flags :: data)) before.length
      = .ok (.inflate size (before.length + (packHeader type size).length + 2)) := by
  have hread := readBytes_two (before ++ packHeader type size) 0x78 flags data
  rw [List.append_assoc, List.length_append] at hread
  rw [readPackEntry, readObjectSize_long type hsize (by omega)]
  simp only [bind, Except.bind]
  rw [if_pos (by omega), hread]
  rfl

end DdTrace.Ci
