import DdTrace.Lib.MessagePack
import DdTrace.Lib.Utf16
import DdTrace.MessagePack.SpanBuffer
import Mathlib.Tactic.IntervalCases
import Mathlib.Tactic.Positivity
import Mathlib.Tactic.Zify

/-!
# MessagePackBinary

The writers of `MessagePackBinary.cs` that a span needs. Each calls `EnsureCapacity`, which may
grow the array, and writes at an offset; `Emits` says what a sequence of such calls appends to
the bytes written so far, and how much room it needs to succeed.
-/

namespace DdTrace.MessagePack

open Lib Lib.MessagePack

def MessagePackCode.MaxFixInt : ℕ := 0x7F
def MessagePackCode.MinFixMap : ℕ := 0x80
def MessagePackCode.MinFixStr : ℕ := 0xA0
def MessagePackCode.Float64 : ℕ := 0xCB
def MessagePackCode.UInt8 : ℕ := 0xCC
def MessagePackCode.UInt16 : ℕ := 0xCD
def MessagePackCode.UInt32 : ℕ := 0xCE
def MessagePackCode.UInt64 : ℕ := 0xCF
def MessagePackCode.Int8 : ℕ := 0xD0
def MessagePackCode.Int16 : ℕ := 0xD1
def MessagePackCode.Int32 : ℕ := 0xD2
def MessagePackCode.Int64 : ℕ := 0xD3
def MessagePackCode.Str8 : ℕ := 0xD9
def MessagePackCode.Str16 : ℕ := 0xDA
def MessagePackCode.Str32 : ℕ := 0xDB
def MessagePackCode.Map16 : ℕ := 0xDE
def MessagePackCode.Map32 : ℕ := 0xDF

def MessagePackRange.MinFixNegativeInt : ℤ := -32
def MessagePackRange.MaxFixPositiveInt : ℕ := 127
def MessagePackRange.MaxFixStringLength : ℕ := 31
def MessagePackRange.MaxFixMapCount : ℕ := 15

/-! ## The array -/

/-- `FastResize`; no larger array can be allocated. -/
def fastResize (bytes : List UInt8) (newSize : ℤ) : Option (List UInt8) :=
  if 0 ≤ newSize ∧ newSize ≤ ArrayMaxSize then
    some (bytes.take newSize.toNat ++ List.replicate (newSize.toNat - bytes.length) 0)
  else none

def ensureCapacity (bytes : List UInt8) (offset appendLength : ℕ) : Option (List UInt8) :=
  let newLength := int32 (offset + appendLength)
  if newLength ≤ bytes.length then some bytes
  else if newLength < 256 then fastResize bytes 256
  else if bytes.length = ArrayMaxSize then none
  else
    let newSize := int32 (bytes.length * 2)
    fastResize bytes (if newSize < 0 then ArrayMaxSize else max newLength newSize)

/-- The array, and the offset up to which it has been written. -/
structure Buffer where
  bytes : List UInt8
  offset : ℕ

namespace Buffer

structure Valid (b : Buffer) : Prop where
  offset_le : b.offset ≤ b.bytes.length
  length_le : b.bytes.length ≤ ArrayMaxSize

def written (b : Buffer) : List UInt8 := b.bytes.take b.offset

end Buffer

/-- A sequence of writes, with the offset as it advances. -/
abbrev Write := StateT Buffer Option

/-- `EnsureCapacity` for `reserve` bytes, and the block written at the position. -/
def writeAt (position reserve : ℕ) (block : List UInt8) : Write Unit := fun b =>
  (ensureCapacity b.bytes position reserve).bind fun bytes =>
    (blockCopy block bytes position).map fun bytes => ((), { b with bytes := bytes })

/-- `offset += Write(ref bytes, offset, ..)`; room for `reserve` bytes is made first. -/
def emit (reserve : ℕ) (block : List UInt8) : Write Unit := fun b =>
  (writeAt b.offset reserve block b).map fun r =>
    (r.1, { r.2 with offset := b.offset + block.length })

def currentOffset : Write ℕ := fun b => some (b.offset, b)

/-! ## The writers -/

def writeNil : Write Unit := emit 1 [MessagePackCode.Nil]

def code (c : ℕ) : UInt8 := UInt8.ofNat c

def mapHeader (count : ℕ) : List UInt8 :=
  if count ≤ MessagePackRange.MaxFixMapCount then [code (MessagePackCode.MinFixMap ||| count)]
  else if count ≤ 65535 then code MessagePackCode.Map16 :: bigEndian 2 count
  else code MessagePackCode.Map32 :: bigEndian 4 count

def writeMapHeader (count : ℕ) : Write Unit := emit (mapHeader count).length (mapHeader count)

def mapHeader32 (count : ℕ) : List UInt8 := code MessagePackCode.Map32 :: bigEndian 4 count

def writeMapHeaderForceMap32Block (count : ℕ) : Write Unit := emit 5 (mapHeader32 count)

/-- A map whose count is known only once its entries are written: the header is written for no
entry, and again over the first one if there are any. -/
def writeCounted (entries : Write ℕ) : Write Unit := do
  let countOffset ← currentOffset
  writeMapHeaderForceMap32Block 0
  let count ← entries
  if count > 0 then writeAt countOffset 5 (mapHeader32 count)

def byteBlock (value : ℕ) : List UInt8 :=
  if value ≤ MessagePackCode.MaxFixInt then bigEndian 1 value
  else code MessagePackCode.UInt8 :: bigEndian 1 value

def writeByte (value : UInt8) : Write Unit :=
  emit (byteBlock value.toNat).length (byteBlock value.toNat)

def uint64Block (value : ℕ) : List UInt8 :=
  if value ≤ MessagePackRange.MaxFixPositiveInt then bigEndian 1 value
  else if value ≤ 0xFF then code MessagePackCode.UInt8 :: bigEndian 1 value
  else if value ≤ 0xFFFF then code MessagePackCode.UInt16 :: bigEndian 2 value
  else if value ≤ 0xFFFFFFFF then code MessagePackCode.UInt32 :: bigEndian 4 value
  else code MessagePackCode.UInt64 :: bigEndian 8 value

def writeUInt64 (value : UInt64) : Write Unit :=
  emit (uint64Block value.toNat).length (uint64Block value.toNat)

/-- The low bytes of a negative integer. -/
def twosComplement (k : ℕ) (value : ℤ) : List UInt8 := bigEndian k (value % 256 ^ k).toNat

def int64Block (value : ℤ) : List UInt8 :=
  if 0 ≤ value then uint64Block value.toNat
  else if MessagePackRange.MinFixNegativeInt ≤ value then twosComplement 1 value
  else if -2 ^ 7 ≤ value then code MessagePackCode.Int8 :: twosComplement 1 value
  else if -2 ^ 15 ≤ value then code MessagePackCode.Int16 :: twosComplement 2 value
  else if -2 ^ 31 ≤ value then code MessagePackCode.Int32 :: twosComplement 4 value
  else code MessagePackCode.Int64 :: twosComplement 8 value

def writeInt64 (value : Int64) : Write Unit :=
  emit (int64Block value.toInt).length (int64Block value.toInt)

/-- A double, as its bits. -/
abbrev Double := UInt64

def writeDouble (value : Double) : Write Unit :=
  emit 9 (code MessagePackCode.Float64 :: bigEndian 8 value.toNat)

def stringBlock (utf8 : List UInt8) : List UInt8 :=
  let byteCount := utf8.length
  if byteCount ≤ MessagePackRange.MaxFixStringLength then
    code (MessagePackCode.MinFixStr ||| byteCount) :: utf8
  else if byteCount ≤ 0xFF then code MessagePackCode.Str8 :: (bigEndian 1 byteCount ++ utf8)
  else if byteCount ≤ 0xFFFF then code MessagePackCode.Str16 :: (bigEndian 2 byteCount ++ utf8)
  else code MessagePackCode.Str32 :: (bigEndian 4 byteCount ++ utf8)

def writeStringBytes (utf8 : List UInt8) : Write Unit :=
  emit (stringBlock utf8).length (stringBlock utf8)

/-- `UTF8.GetMaxByteCount`. -/
def getMaxByteCount (charCount : ℕ) : Option ℕ :=
  let byteCount := (charCount + 1) * 3
  if byteCount < 2 ^ 31 then some byteCount else none

/-- The bytes that `WriteString` makes room for. -/
def stringRoom : Option Text → ℕ
  | none => 1
  | some s => (s.length + 1) * 3 + 5

/-- `WriteString` makes room for the longest encoding that a string of this length may have. -/
def writeString : Option Text → Write Unit
  | none => writeNil
  | some s => do
    let maxByteCount ← StateT.lift (getMaxByteCount s.length)
    emit (maxByteCount + 5) (stringBlock (utf8 s))

/-! ## What they write -/

theorem fastResize_eq_some {bytes bytes' : List UInt8} {newSize : ℤ}
    (h : fastResize bytes newSize = some bytes') (hle : bytes.length ≤ newSize) :
    bytes <+: bytes' ∧ (bytes'.length : ℤ) = newSize ∧ bytes'.length ≤ ArrayMaxSize := by
  unfold fastResize at h
  split_ifs at h with hsize
  obtain rfl := Option.some.inj h
  have hlen : bytes.length ≤ newSize.toNat := by omega
  refine ⟨⟨List.replicate (newSize.toNat - bytes.length) 0, ?_⟩, ?_, ?_⟩
  · rw [List.take_of_length_le hlen]
  · simp
    omega
  · simp
    omega

/-- The array keeps its content, and never exceeds the largest one. -/
theorem ensureCapacity_eq_some {bytes bytes' : List UInt8} {offset n : ℕ}
    (h : ensureCapacity bytes offset n = some bytes') (hle : bytes.length ≤ ArrayMaxSize) :
    bytes <+: bytes' ∧ bytes'.length ≤ ArrayMaxSize := by
  unfold ensureCapacity at h
  dsimp only at h
  split_ifs at h with h1 h2 h3 h4
  · obtain rfl := Option.some.inj h
    exact ⟨List.prefix_rfl, hle⟩
  · obtain ⟨hp, -, hmax⟩ := fastResize_eq_some h (by omega)
    exact ⟨hp, hmax⟩
  · obtain ⟨hp, -, hmax⟩ := fastResize_eq_some h (by exact_mod_cast hle)
    exact ⟨hp, hmax⟩
  · obtain ⟨hp, -, hmax⟩ := fastResize_eq_some h (by omega)
    exact ⟨hp, hmax⟩

/-- Up to half of the largest array, doubling the array gives one that can be allocated. -/
theorem ensureCapacity_succeeds {bytes : List UInt8} {offset n : ℕ}
    (hle : bytes.length ≤ ArrayMaxSize) (h : offset + n ≤ ArrayMaxSize / 2) :
    ∃ bytes', ensureCapacity bytes offset n = some bytes' ∧ offset + n ≤ bytes'.length := by
  have hmax : ArrayMaxSize = 2147483591 := rfl
  have hnew : int32 (offset + n) = offset + n := int32_eq (by omega) (by omega)
  have hresize : ∀ newSize : ℤ, (offset + n : ℤ) ≤ newSize → newSize ≤ ArrayMaxSize →
      ∃ bytes', fastResize bytes newSize = some bytes' ∧ offset + n ≤ bytes'.length := by
    intro newSize h1 h2
    refine ⟨_, if_pos ⟨by omega, h2⟩, ?_⟩
    simp
    omega
  unfold ensureCapacity
  dsimp only
  rw [hnew]
  split_ifs with h1 h2 h3 h4
  · exact ⟨bytes, rfl, by omega⟩
  · exact hresize 256 (by omega) (by omega)
  · omega
  · exact hresize _ (by omega) le_rfl
  · have hdouble : int32 (bytes.length * 2) = bytes.length * 2 := int32_eq (by omega) (by omega)
    rw [hdouble]
    exact hresize _ (by omega) (by omega)

/-- `w` returns `a` and appends the block to what has been written; it throws only if less than
`room` is left up to half of the largest array. -/
structure Emits {α : Type} (w : Write α) (a : α) (block : List UInt8) (room : ℕ) : Prop where
  emits : ∀ b a' b', b.Valid → w b = some (a', b') →
    a' = a ∧ b'.Valid ∧ b'.written = b.written ++ block
  succeeds : ∀ b, b.Valid → b.offset + room ≤ ArrayMaxSize / 2 → (w b).isSome
  length_le : block.length ≤ room

variable {α β : Type} {w : Write α} {f : α → Write β} {a : α} {c : β} {block block' : List UInt8}
  {room room' : ℕ}

theorem Buffer.Valid.length_written {b : Buffer} (h : b.Valid) : b.written.length = b.offset := by
  rw [Buffer.written, List.length_take, Nat.min_eq_left h.offset_le]

theorem Emits.pure (a : α) : Emits (pure a) a [] 0 where
  emits b a' b' hb h := by
    obtain ⟨rfl, rfl⟩ := Prod.mk.inj (Option.some.inj h)
    exact ⟨rfl, hb, by simp⟩
  succeeds _ _ _ := rfl
  length_le := Nat.le_refl 0

theorem Emits.bind (h : Emits w a block room) (h' : Emits (f a) c block' room') :
    Emits (w >>= f) c (block ++ block') (room + room') where
  emits b c' b'' hb hw := by
    obtain ⟨⟨a', b'⟩, hw, hf⟩ := Option.bind_eq_some_iff.1 hw
    obtain ⟨rfl, hb', hwritten⟩ := h.emits b a' b' hb hw
    obtain ⟨rfl, hb'', hwritten'⟩ := h'.emits b' c' b'' hb' hf
    exact ⟨rfl, hb'', by rw [hwritten', hwritten, List.append_assoc]⟩
  succeeds b hb hroom := by
    obtain ⟨⟨a', b'⟩, hw⟩ := Option.isSome_iff_exists.1 (h.succeeds b hb (by omega))
    obtain ⟨rfl, hb', hwritten⟩ := h.emits b a' b' hb hw
    have hoffset : b'.offset = b.offset + block.length := by
      rw [← hb'.length_written, hwritten, List.length_append, hb.length_written]
    have hle := h.length_le
    have hf := h'.succeeds b' hb' (by omega)
    show ((w b).bind fun r => f r.1 r.2).isSome
    rwa [hw]
  length_le := by
    have h1 := h.length_le
    have h2 := h'.length_le
    rw [List.length_append]
    omega

/-- A write at a position that has been allocated. -/
theorem writeAt_eq_some {b b' : Buffer} {position reserve : ℕ} {u : Unit} (hb : b.Valid)
    (hw : writeAt position reserve block b = some (u, b')) :
    ∃ bytes, b.bytes <+: bytes ∧ bytes.length ≤ ArrayMaxSize ∧
      blockCopy block bytes position = some b'.bytes ∧ b'.offset = b.offset := by
  unfold writeAt at hw
  obtain ⟨bytes, hbytes, hw⟩ := Option.bind_eq_some_iff.1 hw
  obtain ⟨bytes', hcopy, hw⟩ := Option.map_eq_some_iff.1 hw
  obtain ⟨-, rfl⟩ := Prod.mk.inj hw
  obtain ⟨hp, hle⟩ := ensureCapacity_eq_some hbytes hb.length_le
  exact ⟨bytes, hp, hle, hcopy, rfl⟩

theorem writeAt_succeeds {b : Buffer} {position reserve : ℕ} (hb : b.Valid)
    (hblock : block.length ≤ reserve) (h : position + reserve ≤ ArrayMaxSize / 2) :
    (writeAt position reserve block b).isSome := by
  obtain ⟨bytes, hbytes, hle⟩ := ensureCapacity_succeeds hb.length_le h
  unfold writeAt
  rw [hbytes, Option.bind_some, blockCopy_of_le (by omega)]
  rfl

theorem emits_emit (h : block.length ≤ room) : Emits (emit room block) () block room where
  emits b _ b' hb hw := by
    unfold emit at hw
    obtain ⟨⟨u, b₁⟩, hwrite, hr⟩ := Option.map_eq_some_iff.1 hw
    obtain ⟨-, rfl⟩ := Prod.mk.inj hr
    obtain ⟨bytes, hp, hle, hcopy, -⟩ := writeAt_eq_some hb hwrite
    have hlen := length_of_blockCopy hcopy
    have hend := (blockCopy_eq_some hcopy).1
    refine ⟨rfl, ⟨?_, ?_⟩, ?_⟩
    · show b.offset + block.length ≤ b₁.bytes.length
      rwa [hlen]
    · show b₁.bytes.length ≤ ArrayMaxSize
      rwa [hlen]
    · show b₁.bytes.take (b.offset + block.length) = b.written ++ block
      rw [take_of_blockCopy hcopy, Buffer.written]
      obtain ⟨tail, rfl⟩ := hp
      rw [List.take_append_of_le_length hb.offset_le]
  succeeds b hb hroom := by
    unfold emit
    rw [Option.isSome_map]
    exact writeAt_succeeds hb h hroom
  length_le := h

theorem Emits.mono (h : Emits w a block room) (hroom : room ≤ room') : Emits w a block room' where
  emits := h.emits
  succeeds b hb hle := h.succeeds b hb (by omega)
  length_le := h.length_le.trans hroom

/-- A header overwritten by one of the same length. -/
theorem writeAt_patch {b b' : Buffer} {before header header' : List UInt8} {reserve : ℕ} {u : Unit}
    (hb : b.Valid) (hlen : header'.length = header.length)
    (h : b.written = before ++ (header ++ block))
    (hw : writeAt before.length reserve header' b = some (u, b')) :
    b'.Valid ∧ b'.written = before ++ (header' ++ block) := by
  obtain ⟨bytes, hp, hle, hcopy, hoffset⟩ := writeAt_eq_some hb hw
  have hcount : (before ++ (header' ++ block)).length = b'.offset := by
    rw [hoffset, ← hb.length_written, h]
    simp [hlen]
  have hlength := length_of_blockCopy hcopy
  obtain ⟨tail, rfl⟩ := (List.take_prefix b.offset b.bytes).trans hp
  rw [← Buffer.written, h, List.append_assoc, List.append_assoc, blockCopy_append hlen,
    ← List.append_assoc header', ← List.append_assoc before] at hcopy
  have hbytes := (Option.some.inj hcopy).symm
  refine ⟨⟨?_, by rwa [hlength]⟩, ?_⟩
  · rw [hbytes, List.length_append, hcount]
    exact Nat.le_add_right _ _
  · rw [Buffer.written, hbytes, List.take_left' hcount]

theorem bind_currentOffset (w : Write Unit) (f : Write α) (g : ℕ → α → Write β) (b : Buffer) :
    (do let position ← currentOffset; w; let a ← f; g position a : Write β) b =
      ((w >>= fun _ => f) b).bind fun r => g b.offset r.1 r.2 :=
  (Option.bind_assoc (w b) (fun r => f r.2) fun r => g b.offset r.1 r.2).symm

theorem emits_writeCounted {entries : Write ℕ} {n : ℕ} (h : Emits entries n block room) :
    Emits (writeCounted entries) () (mapHeader32 n ++ block) (5 + room) := by
  have hheader : Emits (writeMapHeaderForceMap32Block 0) () (mapHeader32 0) 5 :=
    emits_emit (by simp [mapHeader32])
  have hentries : Emits (writeMapHeaderForceMap32Block 0 >>= fun _ => entries) n
      (mapHeader32 0 ++ block) (5 + room) := hheader.bind h
  have hlen : (mapHeader32 n).length = 5 := by simp [mapHeader32]
  constructor
  · intro b u b' hb hw
    rw [writeCounted, bind_currentOffset] at hw
    obtain ⟨⟨count, b₁⟩, hw₁, hpatch⟩ := Option.bind_eq_some_iff.1 hw
    obtain ⟨rfl, hb₁, hwritten⟩ := hentries.emits b count b₁ hb hw₁
    refine ⟨rfl, ?_⟩
    dsimp only at hpatch
    split_ifs at hpatch with hpos
    · rw [← hb.length_written] at hpatch
      exact writeAt_patch hb₁ (by simp [mapHeader32]) hwritten hpatch
    · obtain ⟨-, rfl⟩ := Prod.mk.inj (Option.some.inj hpatch)
      obtain rfl : count = 0 := by omega
      exact ⟨hb₁, hwritten⟩
  · intro b hb hroom
    obtain ⟨⟨count, b₁⟩, hw₁⟩ := Option.isSome_iff_exists.1 (hentries.succeeds b hb hroom)
    obtain ⟨rfl, hb₁, -⟩ := hentries.emits b count b₁ hb hw₁
    rw [writeCounted, bind_currentOffset, hw₁, Option.bind_some]
    dsimp only
    split_ifs
    · exact writeAt_succeeds hb₁ (by rw [hlen]) (by omega)
    · rfl
  · have hle := h.length_le
    rw [List.length_append]
    omega

/-! ## The values they write -/

/-- `w` writes one value, as long as an array can hold it. -/
def Writes (depth : ℕ) (w : Write Unit) (v : Value) (room : ℕ) : Prop :=
  ∃ block, Emits w () block room ∧ (block.length ≤ ArrayMaxSize → Encoding depth v block)

/-- `w` returns `a` and writes the entries. -/
def WritesEntries (depth : ℕ) (w : Write α) (a : α) (entries : List (Value × Value)) (room : ℕ) :
    Prop :=
  ∃ block, Emits w a block room ∧
    (block.length ≤ ArrayMaxSize → Entries depth entries block ∧ entries.length ≤ block.length)

variable {depth count : ℕ} {v key value : Value} {entries entries' : List (Value × Value)}

theorem code_toNat {c : ℕ} (h : c < 256) : (code c).toNat = c := by
  simp [code, Nat.mod_eq_of_lt h]

theorem ofCode_fixint {n : ℕ} (h : n ≤ 127) : Format.ofCode (code n) = some (.fixint n) := by
  unfold Format.ofCode
  rw [code_toNat (by omega)]
  exact if_pos (by omega)

theorem ofCode_fixMap {n : ℕ} (h : n ≤ 15) :
    Format.ofCode (code (MessagePackCode.MinFixMap ||| n)) = some (.map (.fixed n)) := by
  interval_cases n <;> rfl

theorem ofCode_fixStr {n : ℕ} (h : n ≤ 31) :
    Format.ofCode (code (MessagePackCode.MinFixStr ||| n)) = some (.str (.fixed n)) := by
  interval_cases n <;> rfl

theorem bigEndian_one (n : ℕ) : bigEndian 1 n = [code n] := by
  simp [bigEndian, code]

theorem encoding_uint64Block {n : ℕ} (h : n < 2 ^ 64) :
    Encoding (depth + 1) (.int n) (uint64Block n) := by
  unfold uint64Block MessagePackRange.MaxFixPositiveInt
  split_ifs
  · rw [bigEndian_one]
    exact .fixint (ofCode_fixint ‹_›)
  · exact .uint rfl (by omega)
  · exact .uint rfl (by omega)
  · exact .uint rfl (by omega)
  · exact .uint rfl (by omega)

/-- A negative integer in a field of `k` bytes. -/
theorem encoding_twosComplement {c : UInt8} {k : ℕ} {i : ℤ}
    (hcode : Format.ofCode c = some (.int k)) (h1 : -(256 ^ k) ≤ 2 * i) (h2 : 2 * i < 256 ^ k) :
    Encoding (depth + 1) (.int i) (c :: twosComplement k i) := by
  have hpos : (0 : ℤ) < 256 ^ k := by positivity
  have hnonneg := Int.emod_nonneg i hpos.ne'
  have hlt := Int.emod_lt_of_pos i hpos
  have hcast : ((256 ^ k : ℕ) : ℤ) = 256 ^ k := by push_cast; rfl
  refine .int hcode ?_ ?_
  · zify
    rwa [Int.toNat_of_nonneg hnonneg]
  · rw [Int.toNat_of_nonneg hnonneg, ← hcast, Int.emod_bmod]
    exact Int.bmod_eq_of_le_mul_two (by omega) (by omega)

theorem ofCode_negative {i : ℤ} (h1 : -32 ≤ i) (h2 : i < 0) :
    Format.ofCode (code (i % 256).toNat) = some (.fixint i) := by
  have hmod : i % 256 = i + 256 := by omega
  have hcode : (code (i % 256).toNat).toNat = (i + 256).toNat := by
    rw [hmod, code_toNat (by omega)]
  unfold Format.ofCode
  dsimp only
  rw [hcode, if_neg (by omega), if_neg (by omega), if_neg (by omega), if_neg (by omega),
    if_pos (by omega), Int.toNat_of_nonneg (by omega), add_sub_cancel_right]

theorem encoding_int64Block {i : ℤ} (h1 : -2 ^ 63 ≤ i) (h2 : i < 2 ^ 63) :
    Encoding (depth + 1) (.int i) (int64Block i) := by
  unfold int64Block MessagePackRange.MinFixNegativeInt
  split_ifs with hpos
  · have h : Encoding (depth + 1) (.int i.toNat) (uint64Block i.toNat) :=
      encoding_uint64Block (by omega)
    rwa [Int.toNat_of_nonneg hpos] at h
  · rw [twosComplement, bigEndian_one]
    exact .fixint (ofCode_negative ‹_› (by omega))
  · exact encoding_twosComplement rfl (by omega) (by omega)
  · exact encoding_twosComplement rfl (by omega) (by omega)
  · exact encoding_twosComplement rfl (by omega) (by omega)
  · exact encoding_twosComplement rfl (by omega) (by omega)

theorem encoding_stringBlock {utf8 : List UInt8} (h : utf8.length ≤ ArrayMaxSize) :
    Encoding (depth + 1) (.str utf8) (stringBlock utf8) := by
  have hmax : ArrayMaxSize = 2147483591 := rfl
  unfold stringBlock MessagePackRange.MaxFixStringLength
  dsimp only
  split_ifs
  · exact .str (ofCode_fixStr ‹_›) (.fixed _)
  · exact .str rfl (.bytes (by omega))
  · exact .str rfl (.bytes (by omega))
  · exact .str rfl (.bytes (by omega))

theorem Writes.of_emit {reserve : ℕ} (hle : reserve ≤ room) (hblock : block.length ≤ reserve)
    (h : block.length ≤ ArrayMaxSize → Encoding depth v block) :
    Writes depth (emit reserve block) v room :=
  ⟨block, (emits_emit hblock).mono hle, h⟩

theorem Writes.mono {w : Write Unit} (h : Writes depth w v room) (hroom : room ≤ room') :
    Writes depth w v room' := by
  obtain ⟨block, hemits, hencoding⟩ := h
  exact ⟨block, hemits.mono hroom, hencoding⟩

theorem writes_nil : Writes (depth + 1) writeNil .nil 1 := .of_emit le_rfl le_rfl fun _ => .nil

theorem length_uint64Block (n : ℕ) : (uint64Block n).length ≤ 9 := by
  unfold uint64Block
  split_ifs <;> simp

theorem length_int64Block (i : ℤ) : (int64Block i).length ≤ 9 := by
  unfold int64Block twosComplement
  split_ifs
  · exact length_uint64Block _
  all_goals simp

theorem length_stringBlock (utf8 : List UInt8) :
    utf8.length < (stringBlock utf8).length ∧ (stringBlock utf8).length ≤ utf8.length + 5 := by
  unfold stringBlock
  dsimp only
  split_ifs <;> simp <;> omega

theorem writes_uint64 (n : UInt64) : Writes (depth + 1) (writeUInt64 n) (.int n.toNat) 9 := by
  have hlt : n.toNat < 2 ^ 64 := n.toNat_lt
  exact .of_emit (length_uint64Block _) le_rfl fun _ => encoding_uint64Block hlt

theorem writes_int64 (i : Int64) : Writes (depth + 1) (writeInt64 i) (.int i.toInt) 9 :=
  .of_emit (length_int64Block _) le_rfl fun _ => encoding_int64Block i.le_toInt i.toInt_lt

theorem writes_double (d : Double) : Writes (depth + 1) (writeDouble d) (.float 8 d.toNat) 9 := by
  have hlt : d.toNat < 256 ^ 8 := d.toNat_lt
  exact .of_emit le_rfl (by simp) fun _ => .float rfl hlt

theorem writes_byte (n : UInt8) : Writes (depth + 1) (writeByte n) (.int n.toNat) 2 := by
  have hlt : n.toNat < 256 := n.toNat_lt
  have hcode : (byteBlock n.toNat).length ≤ 2 ∧ Encoding (depth + 1) (.int n.toNat) (byteBlock n.toNat) := by
    unfold byteBlock MessagePackCode.MaxFixInt
    split_ifs
    · rw [bigEndian_one]
      exact ⟨by simp, .fixint (ofCode_fixint ‹_›)⟩
    · exact ⟨by simp, .uint rfl (by omega)⟩
  exact .of_emit hcode.1 le_rfl fun _ => hcode.2

theorem writes_stringBytes (utf8 : List UInt8) :
    Writes (depth + 1) (writeStringBytes utf8) (.str utf8) (utf8.length + 5) := by
  obtain ⟨hlt, hle⟩ := length_stringBlock utf8
  exact .of_emit hle le_rfl fun hblock => encoding_stringBlock (by omega)

/-- The value that stands for a string, or for its absence. -/
def stringValue : Option Text → Value
  | none => .nil
  | some s => .str (utf8 s)

theorem Emits.lift {o : Option β} {f : β → Write α} (hlen : block.length ≤ room)
    (h : ∀ x, o = some x → Emits (f x) a block room) (hnone : o = none → ArrayMaxSize / 2 < room) :
    Emits (StateT.lift o >>= f) a block room := by
  cases o with
  | some x => exact h x rfl
  | none =>
    have hroom := hnone rfl
    exact ⟨fun _ _ _ _ hw => (by cases hw), fun _ _ hle => by omega, hlen⟩

theorem writes_string (s : Option Text) :
    Writes (depth + 1) (writeString s) (stringValue s) (stringRoom s) := by
  cases s with
  | none => exact writes_nil
  | some s =>
    obtain ⟨hlt, hle⟩ := length_stringBlock (utf8 s)
    have hutf8 := length_utf8_le s
    have hmax : ArrayMaxSize / 2 < 2 ^ 31 := by decide
    have hroom : stringRoom (some s) = (s.length + 1) * 3 + 5 := rfl
    rw [hroom]
    refine ⟨stringBlock (utf8 s), .lift (by omega) ?_ ?_, fun _ => encoding_stringBlock (by omega)⟩
    · intro n hn
      unfold getMaxByteCount at hn
      dsimp only at hn
      split_ifs at hn
      obtain rfl := Option.some.inj hn
      exact emits_emit (by omega)
    · intro hnone
      unfold getMaxByteCount at hnone
      dsimp only at hnone
      split_ifs at hnone
      omega

/-! ## The entries of a map -/

theorem WritesEntries.pure (a : α) : WritesEntries depth (pure a) a [] 0 :=
  ⟨[], .pure a, fun _ => ⟨.nil, Nat.le_refl 0⟩⟩

theorem WritesEntries.bind (h : WritesEntries depth w a entries room)
    (h' : WritesEntries depth (f a) c entries' room') :
    WritesEntries depth (w >>= f) c (entries ++ entries') (room + room') := by
  obtain ⟨block, hemits, hentries⟩ := h
  obtain ⟨block', hemits', hentries'⟩ := h'
  refine ⟨block ++ block', hemits.bind hemits', fun hlen => ?_⟩
  rw [List.length_append] at hlen
  obtain ⟨h, hle⟩ := hentries (by omega)
  obtain ⟨h', hle'⟩ := hentries' (by omega)
  refine ⟨h.append h', ?_⟩
  simp only [List.length_append]
  omega

/-- A key and its value. -/
theorem WritesEntries.entry {wkey wvalue : Write Unit} (hkey : Writes depth wkey key room)
    (hvalue : Writes depth wvalue value room') :
    WritesEntries depth (wkey >>= fun _ => wvalue) () [(key, value)] (room + room') := by
  obtain ⟨block, hemits, hencoding⟩ := hkey
  obtain ⟨block', hemits', hencoding'⟩ := hvalue
  refine ⟨block ++ block', hemits.bind hemits', fun hlen => ?_⟩
  rw [List.length_append] at hlen
  have h := hencoding (by omega)
  have h' := hencoding' (by omega)
  have hpos := h.length_pos
  have hcons := Entries.cons h h' .nil
  rw [List.append_nil] at hcons
  refine ⟨hcons, ?_⟩
  simp
  omega

theorem WritesEntries.cons {wkey wvalue : Write Unit} {room'' : ℕ} (hkey : Writes depth wkey key room)
    (hvalue : Writes depth wvalue value room') (h : WritesEntries depth w a entries room'') :
    WritesEntries depth (wkey >>= fun _ => wvalue >>= fun _ => w) a ((key, value) :: entries)
      (room + room' + room'') := by
  rw [← bind_assoc wkey (fun _ => wvalue) fun _ => w]
  exact (WritesEntries.entry hkey hvalue).bind h

theorem WritesEntries.mono (h : WritesEntries depth w a entries room) (hroom : room ≤ room') :
    WritesEntries depth w a entries room' := by
  obtain ⟨block, hemits, hentries⟩ := h
  exact ⟨block, hemits.mono hroom, hentries⟩

theorem WritesEntries.map {entriesWriter : Write Unit}
    (h : WritesEntries depth entriesWriter () entries room) (hcount : entries.length ≤ 15) :
    Writes (depth + 1) (writeMapHeader entries.length >>= fun _ => entriesWriter) (.map entries)
      (1 + room) := by
  obtain ⟨block, hemits, hentries⟩ := h
  have hheader : mapHeader entries.length =
      [code (MessagePackCode.MinFixMap ||| entries.length)] := if_pos hcount
  have hemit : Emits (writeMapHeader entries.length) () (mapHeader entries.length) 1 := by
    unfold writeMapHeader
    rw [hheader]
    exact emits_emit le_rfl
  refine ⟨_, hemit.bind hemits, fun hlen => ?_⟩
  rw [List.length_append] at hlen
  rw [hheader]
  exact .map (ofCode_fixMap hcount) (.fixed _) (hentries (by omega)).1

theorem WritesEntries.counted {entriesWriter : Write ℕ}
    (h : WritesEntries depth entriesWriter entries.length entries room) :
    Writes (depth + 1) (writeCounted entriesWriter) (.map entries) (5 + room) := by
  have hmax : ArrayMaxSize = 2147483591 := rfl
  obtain ⟨block, hemits, hentries⟩ := h
  refine ⟨_, emits_writeCounted hemits, fun hlen => ?_⟩
  rw [List.length_append] at hlen
  obtain ⟨h, hle⟩ := hentries (by omega)
  exact .map rfl (.bytes (by omega)) h

end DdTrace.MessagePack
