import DdTrace.Lib.Bytes
import DdTrace.Lib.Integers
import DdTrace.Lib.Tables

/-!
# The lookup of an object in a pack index

`TryGetPackageOffset` reads an index file of version 2: a fan-out table, the names of the
objects in order, their checksums, their offsets of 31 bits, and a table of offsets of 64 bits
that the former can point into. `PackIndex` is such a file, `PackIndex.bytes` its content.
-/

namespace DdTrace.Ci

open Lib Lib.Tables

/-! ### Streams, numbers and text -/

/-- The exceptions of the stream and the reader, caught by the lookup. -/
inductive ReadError where
  | seekBeforeBegin
  | endOfStream
  | tooFewBytes
  deriving DecidableEq, Repr

/-- `Seek` relative to the current position. -/
def seek (pos : ℕ) (offset : ℤ) : Except ReadError ℕ :=
  if (pos : ℤ) + offset < 0 then .error .seekBeforeBegin else .ok ((pos : ℤ) + offset).toNat

/-- `ReadBytes`, with the position after it. -/
def readBytes (file : List UInt8) (pos n : ℕ) : List UInt8 × ℕ :=
  (slice file pos n, pos + (slice file pos n).length)

/-- `BigEndianBinaryReader.ReadUInt32` -/
def readUInt32 (file : List UInt8) (pos : ℕ) : Except ReadError (UInt32 × ℕ) :=
  let (data, pos) := readBytes file pos 4
  if data.length = 4 then .ok (UInt32.ofNat (ofBigEndian data), pos) else .error .tooFewBytes

/-- `BinaryReader.ReadUInt64`, which `BigEndianBinaryReader` does not override. -/
def readUInt64 (file : List UInt8) (pos : ℕ) : Except ReadError (UInt64 × ℕ) :=
  let (data, pos) := readBytes file pos 8
  if data.length = 8 then .ok (UInt64.ofNat (ofBigEndian data.reverse), pos) else .error .endOfStream

/-- A digit of `BitConverter.ToString`. -/
def hexDigit (n : ℕ) : UInt16 := if n < 10 then .ofNat (48 + n) else .ofNat (55 + n)

/-- `BitConverter.ToString(bytes).Replace("-", string.Empty)` -/
def hexText (bytes : List UInt8) : Text :=
  bytes.flatMap fun b => [hexDigit (b.toNat / 16), hexDigit (b.toNat % 16)]

def hexValue (c : UInt16) : Option ℕ :=
  if unit '0' ≤ c ∧ c ≤ unit '9' then some (c.toNat - 48)
  else if unit 'a' ≤ c ∧ c ≤ unit 'f' then some (c.toNat - 87)
  else if unit 'A' ≤ c ∧ c ≤ unit 'F' then some (c.toNat - 55)
  else none

/-- The exceptions thrown before the `try`. -/
inductive ShaError where
  | argumentOutOfRange
  | format
  deriving DecidableEq, Repr

def parseDigits (n : ℕ) : Text → Except ShaError ℕ
  | [] => .ok n
  | c :: cs =>
    match hexValue c with
    | some d => parseDigits (16 * n + d) cs
    | none => .error .format

/-- `int.Parse` with `NumberStyles.HexNumber`, on texts too short to overflow. -/
def parseHexNumber (s : Text) : Except ShaError ℕ :=
  match ((s.dropWhile isNumberWhite).reverse.dropWhile isNumberWhite).reverse with
  | [] => .error .format
  | digits => parseDigits 0 digits

/-! ### `TryGetPackageOffset` -/

/-- The loop over the names of a folder: the index of the name that matches, and the position
behind it. -/
def findCommit (file : List UInt8) (commitSha : Text) (numberOfObjectsInPreviousIndex : UInt32) :
    ℕ → UInt32 → ℕ → Option (UInt32 × ℕ)
  | 0, _, _ => none
  | n + 1, i, pos =>
    let (name, pos) := readBytes file pos 20
    if equalsIgnoreCase (hexText name) commitSha then
      some (numberOfObjectsInPreviousIndex + i, pos)
    else findCommit file commitSha numberOfObjectsInPreviousIndex n (i + 1) pos

/-- The offset of a found name, read from behind the name. The products with a `uint` factor
are 32-bit. -/
def readPackOffset (file : List UInt8) (totalNumberOfObjects indexOfCommit : UInt32) (pos : ℕ) :
    Except ReadError (Option Int64) := do
  let pos ← seek pos (20 * (totalNumberOfObjects - (indexOfCommit + 1))).toNat
  let pos ← seek pos (4 * totalNumberOfObjects).toNat
  let pos ← seek pos (4 * indexOfCommit).toNat
  let (offset, pos) ← readUInt32 file pos
  if (offset >>> 31) &&& 1 = 0 then
    return some offset.toUInt64.toInt64
  else
    let offset := offset &&& 0x7FFFFFFF
    let pos ← seek pos (4 * (totalNumberOfObjects - (indexOfCommit + 1))).toNat
    let pos ← seek pos (8 * offset).toNat
    let (packOffset, _) ← readUInt64 file pos
    return some packOffset.toInt64

/-- The `try` block. -/
def lookupOffset (file : List UInt8) (commitSha : Text) (folderIndex previousIndex : ℤ) :
    Except ReadError (Option Int64) := do
  let pos := 8
  let (numberOfObjectsInPreviousIndex, pos) ←
    if -1 < previousIndex then do
      let pos ← seek pos (previousIndex * 4)
      readUInt32 file pos
    else pure (0, pos)
  let (numberOfObjects, pos) ← readUInt32 file pos
  let numberOfObjectsInIndex := numberOfObjects - numberOfObjectsInPreviousIndex
  let pos ← seek pos ((255 - (folderIndex + 1)) * 4)
  let (totalNumberOfObjects, pos) ← readUInt32 file pos
  let pos ← seek pos (20 * numberOfObjectsInPreviousIndex.toInt32).toInt
  match findCommit file commitSha numberOfObjectsInPreviousIndex numberOfObjectsInIndex.toNat 0 pos with
  | none => return none
  | some (indexOfCommit, pos) => readPackOffset file totalNumberOfObjects indexOfCommit pos

/-- `some offset` is `true` with that offset, `none` is `false`. -/
def tryGetPackageOffset (file : List UInt8) (commitSha : Text) :
    Except ShaError (Option Int64) := do
  if commitSha.length < 2 then throw .argumentOutOfRange
  let folderIndex ← parseHexNumber (commitSha.take 2)
  let previousIndex : ℤ := if 0 < folderIndex then folderIndex - 1 else folderIndex
  match lookupOffset file commitSha folderIndex previousIndex with
  | .ok result => return result
  | .error _ => return none

/-! ### Pack indexes -/

/-- The entry of an object in the fourth layer: its offset, or an index into the fifth. -/
inductive OffsetEntry where
  | inLayer (offset : ℕ)
  | inTable (index : ℕ)
  deriving DecidableEq, Repr

structure PackObject where
  sha : List UInt8
  crc : ℕ
  entry : OffsetEntry
  deriving DecidableEq, Repr

def OffsetEntry.bytes : OffsetEntry → List UInt8
  | inLayer offset => bigEndian 4 offset
  | inTable index => bigEndian 4 (2 ^ 31 + index)

/-- The first byte of a name. -/
def folder (sha : List UInt8) : ℕ := (sha.headD 0).toNat

structure PackIndex where
  objects : List PackObject
  large : List ℕ
  trailer : List UInt8
  length_sha : ∀ o ∈ objects, o.sha.length = 20
  sorted : (objects.map PackObject.sha).Pairwise (· < ·)
  length_lt : objects.length < 2 ^ 32
  inLayer_lt : ∀ o ∈ objects, ∀ n, o.entry = .inLayer n → n < 2 ^ 31
  inTable_lt : ∀ o ∈ objects, ∀ i, o.entry = .inTable i → i < large.length
  large_lt : ∀ n ∈ large, n < 2 ^ 64
  length_large : large.length ≤ 2 ^ 31

namespace PackIndex

/-- The fan-out: how many names begin with a byte up to `k`. -/
def upTo (idx : PackIndex) (k : ℕ) : ℕ :=
  idx.objects.countP fun o => decide (folder o.sha ≤ k)

/-- Magic number and version. -/
def header : List UInt8 := [0xFF, 0x74, 0x4F, 0x63, 0, 0, 0, 2]

def bytes (idx : PackIndex) : List UInt8 :=
  header ++ ((List.range 256).flatMap (fun k => bigEndian 4 (idx.upTo k)) ++
    (idx.objects.flatMap PackObject.sha ++ (idx.objects.flatMap (fun o => bigEndian 4 o.crc) ++
      (idx.objects.flatMap (fun o => o.entry.bytes) ++
        (idx.large.flatMap (bigEndian 8) ++ idx.trailer)))))

def offsetOf (idx : PackIndex) : OffsetEntry → ℕ
  | .inLayer n => n
  | .inTable i => idx.large.getD i 0

/-- The offset the index records for a name. -/
def recorded (idx : PackIndex) (sha : List UInt8) : Option ℕ :=
  (idx.objects.find? fun o => decide (o.sha = sha)).map fun o => idx.offsetOf o.entry

end PackIndex

/-- The text is the name in hexadecimal, in either case. -/
def Writes (commitSha : Text) (sha : List UInt8) : Prop :=
  equalsIgnoreCase commitSha (hexText sha) = true

/-- The lookup gives what the index records. -/
def Correct (idx : PackIndex) (sha : List UInt8) (commitSha : Text) : Prop :=
  tryGetPackageOffset idx.bytes commitSha =
    .ok ((idx.recorded sha).map fun n => (UInt64.ofNat n).toInt64)

/-- No 32-bit product overflows on the way to an object and its offset. -/
structure NoOverflow (idx : PackIndex) (sha : List UInt8) : Prop where
  names : 20 * idx.upTo (folder sha - 1) < 2 ^ 31
  rest : folder sha ≠ 0 → ∀ j o, idx.objects[j]? = some o → o.sha = sha →
    20 * (idx.objects.length - (j + 1)) < 2 ^ 32 ∧ 4 * idx.objects.length < 2 ^ 32 ∧
      ∀ i, o.entry = .inTable i → 8 * i < 2 ^ 32

/-- The name is among the bytes that are compared with one that begins with 00: for each name
that begins with 01, the 20 bytes after its fourth. -/
def Misread (idx : PackIndex) (sha : List UInt8) : Prop :=
  folder sha = 0 ∧ ∃ i < idx.upTo 1 - idx.upTo 0,
    slice idx.bytes (8 + 4 * 256 + 4 + 20 * (idx.upTo 0 + i)) 20 = sha

/-- A name that begins with 00 is not in the index; the offset of another name is in the
fourth layer, or its eight bytes read the same backwards. -/
structure Served (idx : PackIndex) (sha : List UInt8) : Prop where
  zero : folder sha = 0 → idx.recorded sha = none
  large : folder sha ≠ 0 → ∀ o ∈ idx.objects, o.sha = sha → ∀ i, o.entry = .inTable i →
    (bigEndian 8 (idx.offsetOf o.entry)).reverse = bigEndian 8 (idx.offsetOf o.entry)

/-! ### The text of a name -/

theorem hexValue_hexDigit : ∀ n < 16, hexValue (hexDigit n) = some n := by decide

theorem byte_digits (b : UInt8) : b.toNat / 16 < 16 ∧ b.toNat % 16 < 16 := by
  have := b.toNat_lt
  omega

theorem hexValue_toLowerAscii (c : UInt16) : hexValue (toLowerAscii c) = hexValue c := by
  have hsmall : ∀ n < 91, hexValue (toLowerAscii (.ofNat n)) = hexValue (.ofNat n) := by decide
  by_cases hc : c.toNat < 91
  · have hvalue := hsmall c.toNat hc
    rwa [UInt16.ofNat_toNat] at hvalue
  · rw [toLowerAscii_eq_self (by omega)]

theorem hexValues_inj {xs ys : List UInt8}
    (h : (hexText xs).map hexValue = (hexText ys).map hexValue) : xs = ys := by
  induction xs generalizing ys with
  | nil =>
    cases ys with
    | nil => rfl
    | cons y ys => cases h
  | cons x xs ih =>
    cases ys with
    | nil => cases h
    | cons y ys =>
      obtain ⟨hx1, hx2⟩ := byte_digits x
      obtain ⟨hy1, hy2⟩ := byte_digits y
      have h : hexValue (hexDigit (x.toNat / 16)) :: hexValue (hexDigit (x.toNat % 16)) ::
          (hexText xs).map hexValue = hexValue (hexDigit (y.toNat / 16)) ::
            hexValue (hexDigit (y.toNat % 16)) :: (hexText ys).map hexValue := h
      rw [hexValue_hexDigit _ hx1, hexValue_hexDigit _ hx2, hexValue_hexDigit _ hy1,
        hexValue_hexDigit _ hy2, List.cons_eq_cons, List.cons_eq_cons, Option.some.injEq,
        Option.some.injEq] at h
      have hxy : x = y := UInt8.toNat_inj.1 (by omega)
      rw [hxy, ih h.2.2]

theorem hexText_inj {xs ys : List UInt8}
    (h : (hexText xs).map toLowerAscii = (hexText ys).map toLowerAscii) : xs = ys := by
  apply hexValues_inj
  have hvalues := congrArg (List.map hexValue) h
  simpa only [List.map_map, Function.comp_def, hexValue_toLowerAscii] using hvalues

variable {commitSha : Text} {sha name : List UInt8}

theorem Writes.eq_iff (h : Writes commitSha sha) :
    equalsIgnoreCase (hexText name) commitSha = true ↔ name = sha := by
  rw [Writes, equalsIgnoreCase, beq_iff_eq] at h
  rw [equalsIgnoreCase, beq_iff_eq, h]
  exact ⟨hexText_inj, fun e => by rw [e]⟩

theorem isNumberWhite_of_hexValue {c : UInt16} {n : ℕ} (h : hexValue c = some n) :
    isNumberWhite c = false := by
  have hsmall : ∀ n < 33, hexValue (.ofNat n) = none := by decide
  rw [Bool.eq_false_iff]
  intro hwhite
  have hlt : c.toNat < 33 := by
    simp only [isNumberWhite, Bool.or_eq_true, Bool.and_eq_true, beq_iff_eq, decide_eq_true_eq,
      UInt16.le_iff_toNat_le, ← UInt16.toNat_inj] at hwhite
    simp at hwhite
    omega
  have hnone := hsmall c.toNat hlt
  rw [UInt16.ofNat_toNat, h] at hnone
  cases hnone

theorem parseHexNumber_pair {c d : UInt16} {m n : ℕ} (hc : hexValue c = some m)
    (hd : hexValue d = some n) : parseHexNumber [c, d] = .ok (16 * m + n) := by
  have hcw := isNumberWhite_of_hexValue hc
  have hdw := isNumberWhite_of_hexValue hd
  simp [parseHexNumber, hcw, hdw, parseDigits, hc, hd]

/-- The first two characters of a written name are its first byte. -/
theorem Writes.parseHexNumber (h : Writes commitSha sha) (hlen : sha.length = 20) :
    parseHexNumber (commitSha.take 2) = .ok (folder sha) ∧ ¬ commitSha.length < 2 := by
  obtain ⟨b, sha, rfl⟩ := List.exists_cons_of_length_eq_add_one hlen
  obtain ⟨h1, h2⟩ := byte_digits b
  rw [Writes, equalsIgnoreCase, beq_iff_eq] at h
  have h : commitSha.map toLowerAscii = toLowerAscii (hexDigit (b.toNat / 16)) ::
      toLowerAscii (hexDigit (b.toNat % 16)) :: (hexText sha).map toLowerAscii := h
  obtain ⟨c, rest, rfl, hc, h⟩ := List.map_eq_cons_iff.1 h
  obtain ⟨d, rest, rfl, hd, -⟩ := List.map_eq_cons_iff.1 h
  have hc : hexValue c = some (b.toNat / 16) := by
    rw [← hexValue_toLowerAscii, hc, hexValue_toLowerAscii, hexValue_hexDigit _ h1]
  have hd : hexValue d = some (b.toNat % 16) := by
    rw [← hexValue_toLowerAscii, hd, hexValue_toLowerAscii, hexValue_hexDigit _ h2]
  refine ⟨?_, by simp⟩
  rw [show (c :: d :: rest).take 2 = [c, d] from rfl, parseHexNumber_pair hc hd]
  congr 1
  show 16 * (b.toNat / 16) + b.toNat % 16 = b.toNat
  omega

/-! ### Reading tables -/

variable {file : List UInt8} {pos n : ℕ}

theorem seek_eq {offset : ℤ} {t : ℕ} (h : (pos : ℤ) + offset = t) : seek pos offset = .ok t := by
  unfold seek
  rw [if_neg (by omega), h]
  rfl

theorem readUInt32_eq (hn : n < 2 ^ 32) (h : slice file pos 4 = bigEndian 4 n) :
    readUInt32 file pos = .ok (UInt32.ofNat n, pos + 4) := by
  simp only [readUInt32, readBytes, h, length_bigEndian, if_true]
  rw [ofBigEndian_bigEndian (by omega)]

theorem readUInt64_eq (h : slice file pos 8 = bigEndian 8 n) :
    readUInt64 file pos = .ok (UInt64.ofNat (ofBigEndian (bigEndian 8 n).reverse), pos + 8) := by
  simp only [readUInt64, readBytes, h, length_bigEndian, if_true]

theorem toNat_ofNat (h : n < 2 ^ 32) : (UInt32.ofNat n).toNat = n := by
  rw [UInt32.toNat_ofNat']
  exact Nat.mod_eq_of_lt h

/-- The product with an `int` factor. -/
theorem toInt_mul_toInt32 (h : 20 * n < 2 ^ 31) :
    (20 * (UInt32.ofNat n).toInt32).toInt = (20 * n : ℕ) := by
  have hn : (UInt32.ofNat n).toInt32.toInt = n := by
    have hbmod : (UInt32.ofNat n).toInt32.toInt = ((UInt32.ofNat n).toNat : ℤ).bmod (2 ^ 32) :=
      BitVec.toInt_eq_toNat_bmod _
    rw [hbmod, toNat_ofNat (by omega)]
    exact Int.bmod_eq_of_le (by omega) (by omega)
  rw [Int32.toInt_mul, hn]
  have : (20 : Int32).toInt = 20 := rfl
  rw [this]
  push_cast
  exact Int.bmod_eq_of_le (by omega) (by omega)

variable {prev i : UInt32}

/-- No name on the way matches, also where the file ends. -/
theorem findCommit_none (hw : Writes commitSha sha) (hlen : sha.length = 20)
    (h : ∀ k < n, slice file (pos + 20 * k) 20 ≠ sha) :
    findCommit file commitSha prev n i pos = none := by
  induction n generalizing i pos with
  | zero => rfl
  | succ n ih =>
    have h0 : slice file pos 20 ≠ sha := h 0 (by omega)
    rw [findCommit]
    simp only [readBytes, hw.eq_iff, h0, if_false]
    refine ih fun k hk => ?_
    by_cases hfull : (slice file pos 20).length = 20
    · rw [hfull]
      have := h (k + 1) (by omega)
      rwa [show pos + 20 * (k + 1) = pos + 20 + 20 * k by ring] at this
    · -- a name cut short is the last there is
      rw [length_slice] at hfull
      rw [slice_of_length_le (by rw [length_slice]; omega)]
      rintro rfl
      cases hlen

theorem findCommit_some (hw : Writes commitSha sha) {k : ℕ} (hk : k < n)
    (h : ∀ j < k, slice file (pos + 20 * j) 20 ≠ sha)
    (hlen : ∀ j ≤ k, (slice file (pos + 20 * j) 20).length = 20)
    (hfound : slice file (pos + 20 * k) 20 = sha) :
    findCommit file commitSha prev n i pos =
      some (prev + (i + UInt32.ofNat k), pos + 20 * (k + 1)) := by
  induction k generalizing n i pos with
  | zero =>
    obtain ⟨n, rfl⟩ : ∃ m, n = m + 1 := ⟨n - 1, by omega⟩
    have h0 : slice file pos 20 = sha := hfound
    have hlen0 : (slice file pos 20).length = 20 := hlen 0 le_rfl
    rw [findCommit]
    simp only [readBytes, hw.eq_iff, h0, if_true]
    rw [← h0, hlen0]
    simp
  | succ k ih =>
    obtain ⟨n, rfl⟩ : ∃ m, n = m + 1 := ⟨n - 1, by omega⟩
    have h0 : slice file pos 20 ≠ sha := h 0 (by omega)
    have hlen0 : (slice file pos 20).length = 20 := hlen 0 (by omega)
    have hpos : ∀ j, pos + 20 * (j + 1) = pos + 20 + 20 * j := fun j => by ring
    rw [findCommit]
    simp only [readBytes, hw.eq_iff, h0, if_false, hlen0]
    rw [ih (by omega) (fun j hj => by rw [← hpos]; exact h (j + 1) (by omega))
      (fun j hj => by rw [← hpos]; exact hlen (j + 1) (by omega)) (by rw [← hpos]; exact hfound)]
    have hindex : i + 1 + UInt32.ofNat k = i + UInt32.ofNat (k + 1) := by
      rw [UInt32.ofNat_add, UInt32.add_assoc, UInt32.add_comm (UInt32.ofNat k)]
      rfl
    rw [hindex, ← hpos]

namespace PackIndex

variable {idx : PackIndex} {k j : ℕ} {o : PackObject}

theorem slice_fanout (idx : PackIndex) (hk : k < 256) :
    slice idx.bytes (8 + 4 * k) 4 = bigEndian 4 (idx.upTo k) := by
  have hi : (List.range 256)[k]? = some k := by simp [hk]
  exact slice_entry header _ (fun _ _ => length_bigEndian) hi

def fanout (idx : PackIndex) : List UInt8 :=
  (List.range 256).flatMap fun k => bigEndian 4 (idx.upTo k)

theorem length_fanout (idx : PackIndex) : (header ++ idx.fanout).length = 1032 := by
  rw [List.length_append, fanout, length_table (w := 4) (fun _ _ => length_bigEndian),
    List.length_range]
  rfl

theorem slice_name (idx : PackIndex) (hj : idx.objects[j]? = some o) :
    slice idx.bytes (1032 + 20 * j) 20 = o.sha := by
  have := slice_entry (header ++ idx.fanout)
    (idx.objects.flatMap (fun o => bigEndian 4 o.crc) ++
      (idx.objects.flatMap (fun o => o.entry.bytes) ++ (idx.large.flatMap (bigEndian 8) ++ idx.trailer)))
    idx.length_sha hj
  rw [length_fanout] at this
  rw [← this, bytes, List.append_assoc]
  rfl

theorem OffsetEntry.length_bytes (e : OffsetEntry) : e.bytes.length = 4 := by
  cases e <;> exact length_bigEndian

def namesAndCrcs (idx : PackIndex) : List UInt8 :=
  header ++ (idx.fanout ++ (idx.objects.flatMap PackObject.sha ++
    idx.objects.flatMap fun o => bigEndian 4 o.crc))

theorem length_namesAndCrcs (idx : PackIndex) :
    idx.namesAndCrcs.length = 1032 + 24 * idx.objects.length := by
  have h := length_fanout idx
  rw [List.length_append] at h
  rw [namesAndCrcs, List.length_append, List.length_append, List.length_append,
    length_table idx.length_sha, length_table (w := 4) (fun _ _ => length_bigEndian)]
  omega

theorem slice_entry_bytes (idx : PackIndex) (hj : idx.objects[j]? = some o) :
    slice idx.bytes (1032 + 24 * idx.objects.length + 4 * j) 4 = o.entry.bytes := by
  have := slice_entry idx.namesAndCrcs (idx.large.flatMap (bigEndian 8) ++ idx.trailer)
    (f := fun o : PackObject => o.entry.bytes) (w := 4) (fun o _ => OffsetEntry.length_bytes o.entry) hj
  rw [length_namesAndCrcs] at this
  rw [← this, bytes, namesAndCrcs]
  simp only [List.append_assoc]
  rfl

theorem slice_large (idx : PackIndex) {i n : ℕ} (hi : idx.large[i]? = some n) :
    slice idx.bytes (1032 + 28 * idx.objects.length + 8 * i) 8 = bigEndian 8 n := by
  have := slice_entry (idx.namesAndCrcs ++ idx.objects.flatMap fun o => o.entry.bytes) idx.trailer
    (f := bigEndian 8) (w := 8) (fun _ _ => length_bigEndian) hi
  rw [List.length_append, length_namesAndCrcs,
    length_table (w := 4) (fun o _ => OffsetEntry.length_bytes o.entry)] at this
  rw [show 1032 + 28 * idx.objects.length + 8 * i =
    1032 + 24 * idx.objects.length + 4 * idx.objects.length + 8 * i by ring]
  rw [← this, bytes, namesAndCrcs]
  simp only [List.append_assoc]
  rfl

/-! ### Counts -/

theorem upTo_le (idx : PackIndex) (k : ℕ) : idx.upTo k ≤ idx.objects.length := List.countP_le_length

theorem upTo_lt (idx : PackIndex) (k : ℕ) : idx.upTo k < 2 ^ 32 :=
  (idx.upTo_le k).trans_lt idx.length_lt

theorem upTo_mono (idx : PackIndex) {k l : ℕ} (h : k ≤ l) : idx.upTo k ≤ idx.upTo l := by
  refine List.countP_mono_left fun o _ ho => ?_
  rw [decide_eq_true_eq] at ho ⊢
  omega

theorem upTo_last (idx : PackIndex) : idx.upTo 255 = idx.objects.length := by
  rw [upTo, List.countP_eq_length]
  intro o _
  have := (o.sha.headD 0).toNat_lt
  rw [decide_eq_true_eq, folder]
  omega

theorem folder_le_of_lt {xs ys : List UInt8} (h : xs < ys) (hx : xs ≠ []) : folder xs ≤ folder ys := by
  match xs, ys, h, hx with
  | x :: xs, y :: ys, h, _ =>
    rw [List.cons_lt_cons_iff] at h
    show x.toNat ≤ y.toNat
    obtain h | ⟨rfl, -⟩ := h
    · exact (UInt8.lt_iff_toNat_lt.1 h).le
    · exact le_rfl

theorem sorted_folder (idx : PackIndex) :
    idx.objects.Pairwise fun a b => folder a.sha ≤ folder b.sha := by
  refine (List.pairwise_map.1 idx.sorted).imp_of_mem fun {a b} ha _ h => folder_le_of_lt h ?_
  intro hnil
  have := idx.length_sha a ha
  rw [hnil] at this
  cases this

/-- An object's position is in the range the fan-out gives for its first byte. -/
theorem position_mem (idx : PackIndex) (hj : idx.objects[j]? = some o) (h0 : folder o.sha ≠ 0) :
    idx.upTo (folder o.sha - 1) ≤ j ∧ j < idx.upTo (folder o.sha) := by
  have h := range_of_sorted idx.sorted_folder hj
  refine ⟨le_trans (le_of_eq ?_) h.1, h.2⟩
  exact List.countP_congr fun b _ => by
    rw [decide_eq_true_eq, decide_eq_true_eq]
    omega

/-- No two objects have one name. -/
theorem sha_ne {i : ℕ} {p : PackObject} (hij : i < j) (hi : idx.objects[i]? = some p)
    (hj : idx.objects[j]? = some o) : p.sha ≠ o.sha := by
  have hi' : (idx.objects.map PackObject.sha)[i]? = some p.sha := by simp [hi]
  have hj' : (idx.objects.map PackObject.sha)[j]? = some o.sha := by simp [hj]
  obtain ⟨hil, hip⟩ := List.getElem?_eq_some_iff.1 hi'
  obtain ⟨hjl, hjo⟩ := List.getElem?_eq_some_iff.1 hj'
  have hlt := List.pairwise_iff_getElem.1 idx.sorted i j hil hjl hij
  rw [hip, hjo] at hlt
  intro he
  rw [he] at hlt
  exact List.lt_irrefl _ hlt

theorem recorded_of_mem (hj : idx.objects[j]? = some o) :
    idx.recorded o.sha = some (idx.offsetOf o.entry) := by
  have hmem : o ∈ idx.objects := List.mem_of_getElem? hj
  unfold recorded
  cases hf : idx.objects.find? (fun p => decide (p.sha = o.sha)) with
  | none =>
    rw [List.find?_eq_none] at hf
    exact absurd (hf o hmem) (by simp)
  | some p =>
    have hp : p.sha = o.sha := by simpa using List.find?_some hf
    obtain ⟨i, hi⟩ := List.getElem?_of_mem (List.mem_of_find?_eq_some hf)
    obtain hlt | rfl | hlt := Nat.lt_trichotomy i j
    · exact absurd hp (sha_ne hlt hi hj)
    · rw [hi] at hj
      cases hj
      rfl
    · exact absurd hp.symm (sha_ne hlt hj hi)

theorem recorded_eq_none (h : ∀ o ∈ idx.objects, o.sha ≠ sha) : idx.recorded sha = none := by
  rw [recorded, List.find?_eq_none.2 fun o ho => by simpa using h o ho]
  rfl

end PackIndex

/-! ### The offset of a name that was found -/

theorem toNat_mul_ofNat {c : UInt32} {k : ℕ} (hc : c.toNat = k) (hn : n < 2 ^ 32)
    (h : k * n < 2 ^ 32) : (c * UInt32.ofNat n).toNat = k * n := by
  rw [UInt32.toNat_mul, toNat_ofNat hn, hc, Nat.mod_eq_of_lt h]

theorem toNat_mul_rest {c : UInt32} {k total j : ℕ} (hc : c.toNat = k) (hj : j < total)
    (ht : total < 2 ^ 32) (h : k * (total - (j + 1)) < 2 ^ 32) :
    (c * (UInt32.ofNat total - (UInt32.ofNat j + 1))).toNat = k * (total - (j + 1)) := by
  have h1 : (UInt32.ofNat j + 1).toNat = j + 1 := by
    rw [UInt32.toNat_add, toNat_ofNat (by omega)]
    exact Nat.mod_eq_of_lt (by rw [UInt32.toNat_one]; omega)
  have hle : UInt32.ofNat j + 1 ≤ UInt32.ofNat total := by
    rw [UInt32.le_iff_toNat_le, h1, toNat_ofNat ht]
    omega
  rw [UInt32.toNat_mul, UInt32.toNat_sub_of_le _ _ hle, h1, toNat_ofNat ht, hc, Nat.mod_eq_of_lt h]

theorem highBit_eq_zero (h : n < 2 ^ 31) : (UInt32.ofNat n >>> 31) &&& 1 = 0 := by
  have hshift : UInt32.ofNat n >>> 31 = 0 := by
    rw [← UInt32.toNat_inj, UInt32.toNat_shiftRight, toNat_ofNat (by omega)]
    exact Nat.shiftRight_eq_zero n 31 h
  rw [hshift]
  rfl

theorem highBit_ne_zero (h : n < 2 ^ 31) : ¬ (UInt32.ofNat (2 ^ 31 + n) >>> 31) &&& 1 = 0 := by
  have hshift : UInt32.ofNat (2 ^ 31 + n) >>> 31 = 1 := by
    rw [← UInt32.toNat_inj, UInt32.toNat_shiftRight, toNat_ofNat (by omega)]
    show (2 ^ 31 + n) >>> 31 = 1
    rw [Nat.shiftRight_eq_div_pow]
    omega
  rw [hshift]
  decide

theorem lowBits_eq (h : n < 2 ^ 31) : UInt32.ofNat (2 ^ 31 + n) &&& 0x7FFFFFFF = UInt32.ofNat n := by
  rw [← UInt32.toNat_inj, UInt32.toNat_and, toNat_ofNat (by omega), toNat_ofNat (by omega)]
  show (2 ^ 31 + n) &&& (2 ^ 31 - 1) = n
  rw [Nat.and_two_pow_sub_one_eq_mod]
  omega

theorem ofNat_toUInt64 (h : n < 2 ^ 32) : (UInt32.ofNat n).toUInt64 = UInt64.ofNat n := by
  rw [← UInt64.toNat_inj, UInt32.toNat_toUInt64, toNat_ofNat h, UInt64.toNat_ofNat']
  exact (Nat.mod_eq_of_lt (by omega)).symm

namespace PackIndex

variable {idx : PackIndex} {j : ℕ} {o : PackObject}

/-- The number the lookup returns for an entry: an offset of 64 bits is read in the byte
order of the machine. -/
def offsetRead (idx : PackIndex) : OffsetEntry → ℕ
  | .inLayer n => n
  | .inTable i => ofBigEndian (bigEndian 8 (idx.large.getD i 0)).reverse

theorem readPackOffset_eq (hj : idx.objects[j]? = some o)
    (hnames : 20 * (idx.objects.length - (j + 1)) < 2 ^ 32) (hcrcs : 4 * idx.objects.length < 2 ^ 32)
    (htable : ∀ i, o.entry = .inTable i → 8 * i < 2 ^ 32) :
    readPackOffset idx.bytes (UInt32.ofNat idx.objects.length) (UInt32.ofNat j)
      (1032 + 20 * (j + 1)) = .ok (some (UInt64.ofNat (idx.offsetRead o.entry)).toInt64) := by
  have hlt : j < idx.objects.length := (List.getElem?_eq_some_iff.1 hj).1
  have hmem : o ∈ idx.objects := List.mem_of_getElem? hj
  have hlen := idx.length_lt
  have h1 : seek (1032 + 20 * (j + 1))
      (20 * (UInt32.ofNat idx.objects.length - (UInt32.ofNat j + 1))).toNat =
      .ok (1032 + 20 * idx.objects.length) := by
    rw [toNat_mul_rest (k := 20) rfl hlt hlen hnames]
    refine seek_eq ?_
    push_cast [Nat.cast_sub (show j + 1 ≤ idx.objects.length from hlt)]
    ring
  have h2 : seek (1032 + 20 * idx.objects.length) (4 * UInt32.ofNat idx.objects.length).toNat =
      .ok (1032 + 24 * idx.objects.length) := by
    rw [toNat_mul_ofNat (k := 4) rfl hlen hcrcs]
    refine seek_eq ?_
    push_cast
    ring
  have h3 : seek (1032 + 24 * idx.objects.length) (4 * UInt32.ofNat j).toNat =
      .ok (1032 + 24 * idx.objects.length + 4 * j) := by
    rw [toNat_mul_ofNat (k := 4) rfl (by omega) (by omega)]
    exact seek_eq (by push_cast; rfl)
  have hslice := slice_entry_bytes idx hj
  unfold readPackOffset
  rw [h1]
  simp only [bind, Except.bind]
  rw [h2]
  simp only []
  rw [h3]
  simp only []
  cases he : o.entry with
  | inLayer n =>
    have hn := idx.inLayer_lt o hmem n he
    rw [he] at hslice
    rw [readUInt32_eq (by omega) hslice]
    simp only [highBit_eq_zero hn, if_true, pure, Except.pure]
    rw [ofNat_toUInt64 (by omega)]
    rfl
  | inTable i =>
    have hi := idx.inTable_lt o hmem i he
    have hlarge := idx.length_large
    rw [he] at hslice
    rw [readUInt32_eq (by omega) hslice]
    have h4 : seek (1032 + 24 * idx.objects.length + 4 * j + 4)
        (4 * (UInt32.ofNat idx.objects.length - (UInt32.ofNat j + 1))).toNat =
        .ok (1032 + 28 * idx.objects.length) := by
      rw [toNat_mul_rest (k := 4) rfl hlt hlen (by omega)]
      refine seek_eq ?_
      push_cast [Nat.cast_sub (show j + 1 ≤ idx.objects.length from hlt)]
      ring
    have h5 : seek (1032 + 28 * idx.objects.length) (8 * UInt32.ofNat i).toNat =
        .ok (1032 + 28 * idx.objects.length + 8 * i) := by
      rw [toNat_mul_ofNat (k := 8) rfl (by omega) (htable i he)]
      exact seek_eq (by push_cast; rfl)
    have hentry : idx.large[i]? = some (idx.large.getD i 0) := by
      rw [List.getD_eq_getElem?_getD, List.getElem?_eq_getElem hi]
      rfl
    simp only [highBit_ne_zero (show i < 2 ^ 31 by omega), lowBits_eq (show i < 2 ^ 31 by omega),
      if_false, h4, h5, readUInt64_eq (slice_large idx hentry), pure, Except.pure]
    rfl

/-! ### The lookup -/

variable {commitSha : Text} {sha : List UInt8} {f : ℕ}

/-- For a name that does not begin with 00 the counts are those of its folder. -/
theorem lookupOffset_folder (idx : PackIndex) (commitSha : Text) (h0 : f ≠ 0) (hf : f < 256)
    (hover : 20 * idx.upTo (f - 1) < 2 ^ 31) :
    lookupOffset idx.bytes commitSha f (f - 1) =
      match findCommit idx.bytes commitSha (UInt32.ofNat (idx.upTo (f - 1)))
          (idx.upTo f - idx.upTo (f - 1)) 0 (1032 + 20 * idx.upTo (f - 1)) with
      | none => .ok none
      | some (indexOfCommit, pos) =>
        readPackOffset idx.bytes (UInt32.ofNat idx.objects.length) indexOfCommit pos := by
  have hprev := slice_fanout idx (show f - 1 < 256 by omega)
  have hthis := slice_fanout idx hf
  have hlast := slice_fanout idx (show 255 < 256 by omega)
  have hpos : 8 + 4 * f = 8 + 4 * (f - 1) + 4 := by omega
  have h1 : seek 8 (((f : ℤ) - 1) * 4) = .ok (8 + 4 * (f - 1)) := seek_eq (by omega)
  have h2 : seek (8 + 4 * (f - 1) + 4 + 4) ((255 - ((f : ℤ) + 1)) * 4) = .ok (8 + 4 * 255) :=
    seek_eq (by omega)
  have h3 : seek (8 + 4 * 255 + 4) ((20 * idx.upTo (f - 1) : ℕ) : ℤ) =
      .ok (1032 + 20 * idx.upTo (f - 1)) := seek_eq (by push_cast; ring)
  have hcount : (UInt32.ofNat (idx.upTo f) - UInt32.ofNat (idx.upTo (f - 1))).toNat =
      idx.upTo f - idx.upTo (f - 1) := by
    have hle := idx.upTo_mono (show f - 1 ≤ f by omega)
    have h1 := idx.upTo_lt f
    have h2 := idx.upTo_lt (f - 1)
    rw [UInt32.toNat_sub_of_le, toNat_ofNat h1, toNat_ofNat h2]
    rw [UInt32.le_iff_toNat_le, toNat_ofNat h1, toNat_ofNat h2]
    exact hle
  have hif : (-1 : ℤ) < f - 1 := by omega
  rw [hpos] at hthis
  unfold lookupOffset
  simp only [hif, if_true, h1, bind, Except.bind, readUInt32_eq (idx.upTo_lt _) hprev,
    readUInt32_eq (idx.upTo_lt _) hthis, h2, readUInt32_eq (idx.upTo_lt _) hlast,
    toInt_mul_toInt32 hover, h3, hcount, upTo_last, pure, Except.pure]

/-- For a name that begins with 00 the code takes the counts of folder 01 and the first bytes
of the names for the total. Nothing is found, unless the name stands there. -/
theorem lookupOffset_zero (idx : PackIndex) (hw : Writes commitSha sha) (hlen : sha.length = 20)
    (hover : 20 * idx.upTo 0 < 2 ^ 31)
    (hmis : ∀ i < idx.upTo 1 - idx.upTo 0,
      slice idx.bytes (8 + 4 * 256 + 4 + 20 * (idx.upTo 0 + i)) 20 ≠ sha) :
    lookupOffset idx.bytes commitSha 0 0 = .ok none ∨
      ∃ e, lookupOffset idx.bytes commitSha 0 0 = .error e := by
  have hfirst := slice_fanout idx (show 0 < 256 by omega)
  have hsecond := slice_fanout idx (show 1 < 256 by omega)
  have h1 : seek 8 (0 * 4) = .ok 8 := seek_eq (by norm_num)
  have h2 : seek 16 ((255 - (0 + 1)) * 4) = .ok 1032 := seek_eq (by norm_num)
  have h3 : ∀ pos : ℕ, seek pos ((20 * idx.upTo 0 : ℕ) : ℤ) = .ok (pos + 20 * idx.upTo 0) :=
    fun pos => seek_eq (by push_cast; ring)
  have hcount : (UInt32.ofNat (idx.upTo 1) - UInt32.ofNat (idx.upTo 0)).toNat =
      idx.upTo 1 - idx.upTo 0 := by
    have hle := idx.upTo_mono (show 0 ≤ 1 by omega)
    have h1 := idx.upTo_lt 1
    have h2 := idx.upTo_lt 0
    rw [UInt32.toNat_sub_of_le, toNat_ofNat h1, toNat_ofNat h2]
    rw [UInt32.le_iff_toNat_le, toNat_ofNat h1, toNat_ofNat h2]
    exact hle
  have hif : (-1 : ℤ) < 0 := by norm_num
  have hnone : findCommit idx.bytes commitSha (UInt32.ofNat (idx.upTo 0))
      (idx.upTo 1 - idx.upTo 0) 0 (1036 + 20 * idx.upTo 0) = none := by
    refine findCommit_none hw hlen fun i hi => ?_
    rw [show 1036 + 20 * idx.upTo 0 + 20 * i = 8 + 4 * 256 + 4 + 20 * (idx.upTo 0 + i) by ring]
    exact hmis i hi
  unfold lookupOffset
  simp only [hif, if_true, h1, bind, Except.bind, readUInt32_eq (idx.upTo_lt _) hfirst,
    readUInt32_eq (idx.upTo_lt _) hsecond, h2]
  -- the four bytes behind the fan-out, whatever they are
  unfold readUInt32 readBytes
  by_cases hfour : (slice idx.bytes 1032 4).length = 4
  · left
    simp only [hfour, if_true, toInt_mul_toInt32 hover, h3, hcount, hnone, pure, Except.pure]
  · right
    simp only [hfour, if_false]
    exact ⟨_, rfl⟩

theorem tryGetPackageOffset_eq (file : List UInt8) (hw : Writes commitSha sha)
    (hlen : sha.length = 20) :
    tryGetPackageOffset file commitSha =
      match lookupOffset file commitSha (folder sha)
          (if 0 < folder sha then (folder sha : ℤ) - 1 else folder sha) with
      | .ok result => .ok result
      | .error _ => .ok none := by
  obtain ⟨hparse, hshort⟩ := hw.parseHexNumber hlen
  unfold tryGetPackageOffset
  simp only [hshort, if_false, hparse, bind, Except.bind, pure, Except.pure]

/-- A name that begins with 00 is never found. -/
theorem tryGetPackageOffset_zero (hw : Writes commitSha sha) (hlen : sha.length = 20)
    (h0 : folder sha = 0) (hover : NoOverflow idx sha) (hmis : ¬ Misread idx sha) :
    tryGetPackageOffset idx.bytes commitSha = .ok none := by
  have hnames := hover.names
  rw [h0] at hnames
  rw [tryGetPackageOffset_eq _ hw hlen, h0]
  have hzero := lookupOffset_zero idx hw hlen hnames fun i hi e => hmis ⟨h0, i, hi, e⟩
  obtain hr | ⟨e, hr⟩ := hzero
  · simp [hr]
  · simp [hr]

theorem lookup_previous (hf : folder sha ≠ 0) :
    (if 0 < folder sha then (folder sha : ℤ) - 1 else folder sha) = folder sha - 1 :=
  if_pos (Nat.pos_of_ne_zero hf)

theorem folder_lt (sha : List UInt8) : folder sha < 256 := (sha.headD 0).toNat_lt

/-- Another name that is not in the index is not found. -/
theorem tryGetPackageOffset_absent (hw : Writes commitSha sha) (hlen : sha.length = 20)
    (hf : folder sha ≠ 0) (hover : NoOverflow idx sha) (habs : ∀ o ∈ idx.objects, o.sha ≠ sha) :
    tryGetPackageOffset idx.bytes commitSha = .ok none := by
  rw [tryGetPackageOffset_eq _ hw hlen, lookup_previous hf,
    lookupOffset_folder idx commitSha hf (folder_lt sha) hover.names, findCommit_none hw hlen]
  intro k hk
  have hlt : idx.upTo (folder sha - 1) + k < idx.objects.length := by
    have := idx.upTo_le (folder sha)
    omega
  have hj := List.getElem?_eq_getElem hlt
  rw [show 1032 + 20 * idx.upTo (folder sha - 1) + 20 * k =
    1032 + 20 * (idx.upTo (folder sha - 1) + k) by ring, slice_name idx hj]
  exact habs _ (List.getElem_mem hlt)

/-- An object whose name does not begin with 00 is found, and its offset read. -/
theorem tryGetPackageOffset_present (hj : idx.objects[j]? = some o)
    (hw : Writes commitSha o.sha) (hf : folder o.sha ≠ 0) (hover : NoOverflow idx o.sha) :
    tryGetPackageOffset idx.bytes commitSha =
      .ok (some (UInt64.ofNat (idx.offsetRead o.entry)).toInt64) := by
  have hmem : o ∈ idx.objects := List.mem_of_getElem? hj
  have hlen := idx.length_sha o hmem
  obtain ⟨hlow, hhigh⟩ := position_mem idx hj hf
  have hjlt : j < idx.objects.length := (List.getElem?_eq_some_iff.1 hj).1
  obtain ⟨hnames, hcrcs, htable⟩ := hover.rest hf j o hj rfl
  -- position `k` of the folder is position `p + k` of the table
  have hpos : ∀ k, 1032 + 20 * idx.upTo (folder o.sha - 1) + 20 * k =
      1032 + 20 * (idx.upTo (folder o.sha - 1) + k) := fun k => by ring
  have hsome : findCommit idx.bytes commitSha (UInt32.ofNat (idx.upTo (folder o.sha - 1)))
      (idx.upTo (folder o.sha) - idx.upTo (folder o.sha - 1)) 0
      (1032 + 20 * idx.upTo (folder o.sha - 1)) =
      some (UInt32.ofNat (idx.upTo (folder o.sha - 1)) +
          (0 + UInt32.ofNat (j - idx.upTo (folder o.sha - 1))),
        1032 + 20 * idx.upTo (folder o.sha - 1) + 20 * (j - idx.upTo (folder o.sha - 1) + 1)) := by
    refine findCommit_some hw (by omega) (fun k hk => ?_) (fun k hk => ?_) ?_
    · have hlt : idx.upTo (folder o.sha - 1) + k < idx.objects.length := by omega
      rw [hpos, slice_name idx (List.getElem?_eq_getElem hlt)]
      exact sha_ne (by omega) (List.getElem?_eq_getElem hlt) hj
    · have hlt : idx.upTo (folder o.sha - 1) + k < idx.objects.length := by omega
      rw [hpos, slice_name idx (List.getElem?_eq_getElem hlt)]
      exact idx.length_sha _ (List.getElem_mem hlt)
    · rw [hpos, show idx.upTo (folder o.sha - 1) + (j - idx.upTo (folder o.sha - 1)) = j by omega,
        slice_name idx hj]
  have hindex : UInt32.ofNat (idx.upTo (folder o.sha - 1)) +
      (0 + UInt32.ofNat (j - idx.upTo (folder o.sha - 1))) = UInt32.ofNat j := by
    rw [UInt32.zero_add, ← UInt32.ofNat_add]
    congr 1
    omega
  have hend : 1032 + 20 * idx.upTo (folder o.sha - 1) + 20 * (j - idx.upTo (folder o.sha - 1) + 1) =
      1032 + 20 * (j + 1) := by omega
  rw [hindex, hend] at hsome
  rw [tryGetPackageOffset_eq _ hw hlen, lookup_previous hf,
    lookupOffset_folder idx commitSha hf (folder_lt o.sha) hover.names, hsome]
  simp only [readPackOffset_eq hj hnames hcrcs htable]

theorem offsetOf_lt (hmem : o ∈ idx.objects) : idx.offsetOf o.entry < 2 ^ 64 := by
  cases he : o.entry with
  | inLayer n =>
    have := idx.inLayer_lt o hmem n he
    show n < 2 ^ 64
    omega
  | inTable i =>
    have hi := idx.inTable_lt o hmem i he
    show idx.large.getD i 0 < 2 ^ 64
    rw [List.getD_eq_getElem?_getD, List.getElem?_eq_getElem hi]
    exact idx.large_lt _ (List.getElem_mem hi)

theorem offsetRead_lt (hmem : o ∈ idx.objects) : idx.offsetRead o.entry < 2 ^ 64 := by
  cases he : o.entry with
  | inLayer n =>
    have := idx.inLayer_lt o hmem n he
    show n < 2 ^ 64
    omega
  | inTable i =>
    have := ofBigEndian_lt (bigEndian 8 (idx.large.getD i 0)).reverse
    rw [List.length_reverse, length_bigEndian] at this
    exact this

theorem toInt64_inj {m n : ℕ} (hm : m < 2 ^ 64) (hn : n < 2 ^ 64) :
    (UInt64.ofNat m).toInt64 = (UInt64.ofNat n).toInt64 ↔ m = n := by
  refine ⟨fun h => ?_, fun h => by rw [h]⟩
  have h64 : UInt64.ofNat m = UInt64.ofNat n := by
    have := congrArg Int64.toUInt64 h
    simpa using this
  have := congrArg UInt64.toNat h64
  rwa [UInt64.toNat_ofNat', UInt64.toNat_ofNat', Nat.mod_eq_of_lt hm, Nat.mod_eq_of_lt hn] at this

/-- Read backwards an offset is the same exactly when its bytes are. -/
theorem offsetRead_eq_iff (hmem : o ∈ idx.objects) :
    idx.offsetRead o.entry = idx.offsetOf o.entry ↔ ∀ i, o.entry = .inTable i →
      (bigEndian 8 (idx.offsetOf o.entry)).reverse = bigEndian 8 (idx.offsetOf o.entry) := by
  have hlt := offsetOf_lt hmem
  cases he : o.entry with
  | inLayer n =>
    refine ⟨fun _ i hi => ?_, fun _ => rfl⟩
    cases hi
  | inTable i =>
    rw [he] at hlt
    have hback : ofBigEndian (bigEndian 8 (idx.offsetOf (.inTable i))) = idx.offsetOf (.inTable i) :=
      ofBigEndian_bigEndian (by omega)
    constructor
    · rintro h - -
      refine ofBigEndian_inj (by rw [List.length_reverse]) ?_
      rw [hback]
      exact h
    · intro h
      show ofBigEndian (bigEndian 8 (idx.offsetOf (.inTable i))).reverse = _
      rw [h i rfl, hback]

/-- Without overflow and misread names the lookup is right for exactly the names served. -/
theorem correct_iff_served (hw : Writes commitSha sha) (hlen : sha.length = 20)
    (hover : NoOverflow idx sha) (hmis : ¬ Misread idx sha) :
    Correct idx sha commitSha ↔ Served idx sha := by
  unfold Correct
  by_cases hf : folder sha = 0
  · rw [tryGetPackageOffset_zero hw hlen hf hover hmis]
    constructor
    · intro h
      refine ⟨fun _ => ?_, fun hne => absurd hf hne⟩
      cases hr : idx.recorded sha with
      | none => rfl
      | some n => rw [hr] at h; cases h
    · intro h
      rw [h.zero hf]
      rfl
  · by_cases habs : ∀ o ∈ idx.objects, o.sha ≠ sha
    · rw [tryGetPackageOffset_absent hw hlen hf hover habs, recorded_eq_none habs]
      refine ⟨fun _ => ⟨fun h0 => absurd h0 hf, fun _ o ho he => absurd he (habs o ho)⟩, fun _ => rfl⟩
    · obtain ⟨o, hmem, rfl⟩ : ∃ o ∈ idx.objects, o.sha = sha := by simpa using habs
      obtain ⟨j, hj⟩ := List.getElem?_of_mem hmem
      rw [tryGetPackageOffset_present hj hw hf hover, recorded_of_mem hj]
      rw [Option.map_some, Except.ok.injEq, Option.some_inj,
        toInt64_inj (offsetRead_lt hmem) (offsetOf_lt hmem), offsetRead_eq_iff hmem]
      constructor
      · intro h
        refine ⟨fun h0 => absurd h0 hf, fun _ p hp hsha => ?_⟩
        -- the object is the only one of its name
        obtain ⟨i, hi⟩ := List.getElem?_of_mem hp
        obtain hlt | rfl | hlt := Nat.lt_trichotomy i j
        · exact absurd hsha (sha_ne hlt hi hj)
        · rw [hi] at hj
          cases hj
          exact h
        · exact absurd hsha.symm (sha_ne hlt hj hi)
      · intro h
        exact h.large hf o hmem rfl

end PackIndex

/-- For every name, in the index or not, the lookup gives what the index records if no product
overflows, the name is not misread and it is served; and apart from overflows and misread
names it does so for no other name. -/
theorem tryGetPackageOffset_correct (idx : PackIndex) (sha : List UInt8) (commitSha : Text)
    (hlen : sha.length = 20) (hw : Writes commitSha sha) :
    (NoOverflow idx sha ∧ ¬ Misread idx sha ∧ Served idx sha → Correct idx sha commitSha) ∧
      (Correct idx sha commitSha → Served idx sha ∨ ¬ NoOverflow idx sha ∨ Misread idx sha) := by
  constructor
  · rintro ⟨hover, hmis, hserved⟩
    exact (PackIndex.correct_iff_served hw hlen hover hmis).2 hserved
  · intro h
    by_cases hover : NoOverflow idx sha
    · by_cases hmis : Misread idx sha
      · exact .inr (.inr hmis)
      · exact .inl ((PackIndex.correct_iff_served hw hlen hover hmis).1 h)
    · exact .inr (.inl hover)

/-- An index of one object at offset 12, named by `first` and 19 zero bytes. -/
def singleIndex (first : UInt8) : PackIndex where
  objects := [⟨first :: List.replicate 19 0, 0, .inLayer 12⟩]
  large := []
  trailer := []
  length_sha := by simp
  sorted := by simp
  length_lt := by simp
  inLayer_lt := by simp
  inTable_lt := by simp
  large_lt := by simp
  length_large := by simp

theorem noOverflow_single (first : UInt8) : NoOverflow (singleIndex first) (first :: List.replicate 19 0) where
  names := by
    have := (singleIndex first).upTo_le (folder (first :: List.replicate 19 0) - 1)
    have : (singleIndex first).objects.length = 1 := rfl
    omega
  rest := by
    intro _ j o hj _
    have : (singleIndex first).objects.length = 1 := rfl
    refine ⟨by omega, by omega, fun i hi => ?_⟩
    have hmem : o ∈ (singleIndex first).objects := List.mem_of_getElem? hj
    rw [List.mem_singleton.1 hmem] at hi
    cases hi

/-- An object whose name begins with 00 is reported missing. -/
theorem tryGetPackageOffset_zeros :
    Writes (List.replicate 40 (unit '0')) (List.replicate 20 0) ∧
      ¬ Correct (singleIndex 0) (List.replicate 20 0) (List.replicate 40 (unit '0')) := by
  have hw : Writes (List.replicate 40 (unit '0')) (List.replicate 20 0) := by unfold Writes; decide
  refine ⟨hw, fun h => ?_⟩
  have hnone : tryGetPackageOffset (singleIndex 0).bytes (List.replicate 40 (unit '0')) = .ok none := by
    refine PackIndex.tryGetPackageOffset_zero hw rfl rfl (noOverflow_single 0) ?_
    rintro ⟨-, i, hi, -⟩
    have : (singleIndex 0).upTo 1 - (singleIndex 0).upTo 0 = 0 := by decide
    omega
  rw [Correct, hnone] at h
  revert h
  decide

theorem tryGetPackageOffset_correct_single :
    Correct (singleIndex 1) (1 :: List.replicate 19 0) (unit '0' :: unit '1' :: List.replicate 38 (unit '0')) := by
  have hserved : Served (singleIndex 1) (1 :: List.replicate 19 0) := by
    refine ⟨fun h => absurd h (by decide), fun _ o ho _ i hi => ?_⟩
    rw [List.mem_singleton.1 ho] at hi
    cases hi
  refine (tryGetPackageOffset_correct (singleIndex 1) (1 :: List.replicate 19 0)
    (unit '0' :: unit '1' :: List.replicate 38 (unit '0')) rfl (by unfold Writes; decide)).1
    ⟨noOverflow_single 1, fun h => ?_, hserved⟩
  cases h.1

end DdTrace.Ci
