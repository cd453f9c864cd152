import DdTrace.Lib.Bytes

/-!
# The MessagePack format

`Format.ofCode` is the table of the specification, from the first byte of a value to its
format, and `decode` reads one value, to a given depth of nesting. `Encoding` says that bytes
are read as a value whatever follows them, with a rule for each format; `Entries` says the
same of the entries of a map.
-/

namespace DdTrace.Lib.MessagePack

inductive Value where
  | nil
  | bool (b : Bool)
  | int (n : ℤ)
  /-- A float of 4 or 8 bytes, as its bits. -/
  | float (k bits : ℕ)
  | str (utf8 : List UInt8)
  | bin (bytes : List UInt8)
  | ext (type bytes : List UInt8)
  | array (items : List Value)
  | map (entries : List (Value × Value))

/-- A length in the code itself, or in the bytes that follow it. -/
inductive Length where
  | fixed (n : ℕ)
  | bytes (k : ℕ)

inductive Format where
  | nil
  | bool (b : Bool)
  | fixint (n : ℤ)
  | uint (k : ℕ)
  | int (k : ℕ)
  | float (k : ℕ)
  | str (l : Length)
  | bin (l : Length)
  | ext (l : Length)
  | array (l : Length)
  | map (l : Length)

/-- The overview table of the specification; 0xC1 is never used. -/
def Format.ofCode (code : UInt8) : Option Format :=
  let c := code.toNat
  if c < 0x80 then some (.fixint c)
  else if c < 0x90 then some (.map (.fixed (c - 0x80)))
  else if c < 0xA0 then some (.array (.fixed (c - 0x90)))
  else if c < 0xC0 then some (.str (.fixed (c - 0xA0)))
  else if 0xE0 ≤ c then some (.fixint (c - 256))
  else match c with
    | 0xC0 => some .nil
    | 0xC2 => some (.bool false)
    | 0xC3 => some (.bool true)
    | 0xC4 => some (.bin (.bytes 1))
    | 0xC5 => some (.bin (.bytes 2))
    | 0xC6 => some (.bin (.bytes 4))
    | 0xC7 => some (.ext (.bytes 1))
    | 0xC8 => some (.ext (.bytes 2))
    | 0xC9 => some (.ext (.bytes 4))
    | 0xCA => some (.float 4)
    | 0xCB => some (.float 8)
    | 0xCC => some (.uint 1)
    | 0xCD => some (.uint 2)
    | 0xCE => some (.uint 4)
    | 0xCF => some (.uint 8)
    | 0xD0 => some (.int 1)
    | 0xD1 => some (.int 2)
    | 0xD2 => some (.int 4)
    | 0xD3 => some (.int 8)
    | 0xD4 => some (.ext (.fixed 1))
    | 0xD5 => some (.ext (.fixed 2))
    | 0xD6 => some (.ext (.fixed 4))
    | 0xD7 => some (.ext (.fixed 8))
    | 0xD8 => some (.ext (.fixed 16))
    | 0xD9 => some (.str (.bytes 1))
    | 0xDA => some (.str (.bytes 2))
    | 0xDB => some (.str (.bytes 4))
    | 0xDC => some (.array (.bytes 2))
    | 0xDD => some (.array (.bytes 4))
    | 0xDE => some (.map (.bytes 2))
    | 0xDF => some (.map (.bytes 4))
    | _ => none

/-! ## Decoding -/

/-- What a part of the decoder finds, and the bytes it leaves. -/
def Read (α : Type) := List UInt8 → Option (α × List UInt8)

instance : Monad Read where
  pure a := fun bytes => some (a, bytes)
  bind read next := fun bytes => (read bytes).bind fun r => next r.1 r.2

def readBytes (n : ℕ) : Read (List UInt8) := fun bytes =>
  if n ≤ bytes.length then some (bytes.take n, bytes.drop n) else none

def readUInt (k : ℕ) : Read ℕ := do
  let field ← readBytes k
  return ofBigEndian field

def Length.read : Length → Read ℕ
  | fixed n => pure n
  | bytes k => readUInt k

def readPair {α : Type} (item : Read α) : Read (α × α) := do
  let key ← item
  let value ← item
  return (key, value)

def readMany {α : Type} (item : Read α) : ℕ → Read (List α)
  | 0 => pure []
  | n + 1 => do
    let a ← item
    let as ← readMany item n
    return a :: as

/-- A value of the format, its items read by `item`. -/
def Format.read (item : Read Value) : Format → Read Value
  | nil => pure .nil
  | bool b => pure (.bool b)
  | fixint n => pure (.int n)
  | uint k => do
    let n ← readUInt k
    return .int n
  | int k => do
    let n ← readUInt k
    return .int ((n : ℤ).bmod (256 ^ k))
  | float k => do
    let bits ← readUInt k
    return .float k bits
  | str l => do
    let n ← l.read
    let utf8 ← readBytes n
    return .str utf8
  | bin l => do
    let n ← l.read
    let content ← readBytes n
    return .bin content
  | ext l => do
    let n ← l.read
    let type ← readBytes 1
    let content ← readBytes n
    return .ext type content
  | array l => do
    let n ← l.read
    let items ← readMany item n
    return .array items
  | map l => do
    let n ← l.read
    let entries ← readMany (readPair item) n
    return .map entries

/-- One value with at most `depth` levels, and the bytes after it. -/
def decode : ℕ → Read Value
  | 0 => fun _ => none
  | depth + 1 => fun
    | [] => none
    | code :: bytes => (Format.ofCode code).bind fun format => format.read (decode depth) bytes

/-- The bytes are exactly one value. -/
def Decodes (bytes : List UInt8) (v : Value) : Prop := ∃ depth, decode depth bytes = some (v, [])

/-! ## The depth does not matter -/

/-- The second reader finds what the first one finds. -/
def Agrees {α : Type} (read read' : Read α) : Prop :=
  ∀ bytes r, read bytes = some r → read' bytes = some r

variable {α β : Type} {reader reader' : Read α} {next next' : α → Read β} {item item' : Read Value}
  {depth : ℕ} {bytes rest : List UInt8} {v : Value}

theorem bind_of_eq_some {a : α} (h : reader bytes = some (a, rest)) :
    (reader >>= next) bytes = next a rest := by
  show (reader bytes).bind _ = _
  rw [h, Option.bind_some]

theorem Agrees.refl (reader : Read α) : Agrees reader reader := fun _ _ => id

theorem Agrees.bind (h : Agrees reader reader') (hnext : ∀ a, Agrees (next a) (next' a)) :
    Agrees (reader >>= next) (reader' >>= next') := by
  intro bytes r hr
  obtain ⟨⟨a, rest⟩, ha, hr⟩ := Option.bind_eq_some_iff.1 hr
  rw [bind_of_eq_some (h _ _ ha)]
  exact hnext a rest r hr

theorem Agrees.readPair (h : Agrees reader reader') : Agrees (readPair reader) (readPair reader') :=
  h.bind fun _ => h.bind fun _ => .refl _

theorem Agrees.readMany (h : Agrees reader reader') (n : ℕ) :
    Agrees (readMany reader n) (readMany reader' n) := by
  induction n with
  | zero => exact .refl _
  | succ n ih => exact h.bind fun _ => ih.bind fun _ => .refl _

theorem Agrees.format (h : Agrees item item') (format : Format) :
    Agrees (format.read item) (format.read item') := by
  cases format with
  | array l => exact (Agrees.refl _).bind fun n => (h.readMany n).bind fun _ => .refl _
  | map l => exact (Agrees.refl _).bind fun n => (h.readPair.readMany n).bind fun _ => .refl _
  | _ => exact .refl _

theorem decode_succ (depth : ℕ) : Agrees (decode depth) (decode (depth + 1)) := by
  induction depth with
  | zero => exact fun _ _ h => by cases h
  | succ depth ih =>
    intro bytes r h
    cases bytes with
    | nil => cases h
    | cons code bytes =>
      obtain ⟨format, hformat, h⟩ := Option.bind_eq_some_iff.1 h
      exact Option.bind_eq_some_iff.2 ⟨format, hformat, ih.format format _ _ h⟩

theorem decode_mono {depth' : ℕ} (h : depth ≤ depth') : Agrees (decode depth) (decode depth') := by
  induction h with
  | refl => exact .refl _
  | step _ ih => exact fun _ _ hr => decode_succ _ _ _ (ih _ _ hr)

theorem Decodes.unique {v' : Value} (h : Decodes bytes v) (h' : Decodes bytes v') : v = v' := by
  obtain ⟨depth, h⟩ := h
  obtain ⟨depth', h'⟩ := h'
  have hd := decode_mono (Nat.le_max_left depth depth') _ _ h
  have hd' := decode_mono (Nat.le_max_right depth depth') _ _ h'
  rw [hd] at hd'
  exact (Prod.mk.inj (Option.some.inj hd')).1

/-! ## Encodings -/

/-- The bytes are read as the value, whatever follows them. -/
def Encoding (depth : ℕ) (v : Value) (bytes : List UInt8) : Prop :=
  ∀ rest, decode depth (bytes ++ rest) = some (v, rest)

theorem Encoding.decodes (h : Encoding depth v bytes) : Decodes bytes v :=
  ⟨depth, by simpa using h []⟩

theorem Encoding.length_pos (h : Encoding depth v bytes) : 0 < bytes.length := by
  cases bytes with
  | nil => cases depth <;> cases h []
  | cons => exact Nat.succ_pos _

theorem readBytes_append (bytes rest : List UInt8) :
    readBytes bytes.length (bytes ++ rest) = some (bytes, rest) := by
  simp [readBytes]

theorem readUInt_bigEndian {k n : ℕ} (h : n < 256 ^ k) (rest : List UInt8) :
    readUInt k (bigEndian k n ++ rest) = some (n, rest) := by
  have hread := readBytes_append (bigEndian k n) rest
  rw [length_bigEndian] at hread
  rw [readUInt, bind_of_eq_some hread, ofBigEndian_bigEndian h]
  rfl

/-- The bytes of a length, behind the code. -/
inductive Length.Field : Length → ℕ → List UInt8 → Prop where
  | fixed (n : ℕ) : Field (.fixed n) n []
  | bytes {k n : ℕ} (h : n < 256 ^ k) : Field (.bytes k) n (bigEndian k n)

theorem Length.Field.read_append {l : Length} {n : ℕ} {field : List UInt8} (h : l.Field n field)
    (rest : List UInt8) : l.read (field ++ rest) = some (n, rest) := by
  cases h with
  | fixed => rfl
  | bytes h => exact readUInt_bigEndian h rest

/-- A code followed by what its format reads. -/
theorem Encoding.of_format {code : UInt8} {format : Format} (hcode : Format.ofCode code = some format)
    (h : ∀ rest, format.read (decode depth) (bytes ++ rest) = some (v, rest)) :
    Encoding (depth + 1) v (code :: bytes) := by
  intro rest
  show (Format.ofCode code).bind (fun format => format.read (decode depth) (bytes ++ rest)) = _
  rw [hcode, Option.bind_some, h]

variable {code : UInt8} {k n : ℕ}

theorem Encoding.nil : Encoding (depth + 1) .nil [0xC0] := .of_format rfl fun _ => rfl

theorem Encoding.fixint {n : ℤ} (hcode : Format.ofCode code = some (.fixint n)) :
    Encoding (depth + 1) (.int n) [code] :=
  .of_format hcode fun _ => rfl

theorem Encoding.uint (hcode : Format.ofCode code = some (.uint k)) (h : n < 256 ^ k) :
    Encoding (depth + 1) (.int n) (code :: bigEndian k n) := by
  refine .of_format hcode fun rest => ?_
  rw [Format.read, bind_of_eq_some (readUInt_bigEndian h rest)]
  rfl

/-- A signed field holds the low bytes of the integer. -/
theorem Encoding.int {i : ℤ} (hcode : Format.ofCode code = some (.int k)) (h : n < 256 ^ k)
    (hi : (n : ℤ).bmod (256 ^ k) = i) : Encoding (depth + 1) (.int i) (code :: bigEndian k n) := by
  refine .of_format hcode fun rest => ?_
  rw [Format.read, bind_of_eq_some (readUInt_bigEndian h rest), hi]
  rfl

theorem Encoding.float (hcode : Format.ofCode code = some (.float k)) (h : n < 256 ^ k) :
    Encoding (depth + 1) (.float k n) (code :: bigEndian k n) := by
  refine .of_format hcode fun rest => ?_
  rw [Format.read, bind_of_eq_some (readUInt_bigEndian h rest)]
  rfl

theorem Encoding.str {l : Length} {field utf8 : List UInt8}
    (hcode : Format.ofCode code = some (.str l)) (h : l.Field utf8.length field) :
    Encoding (depth + 1) (.str utf8) (code :: (field ++ utf8)) := by
  refine .of_format hcode fun rest => ?_
  rw [Format.read, List.append_assoc, bind_of_eq_some (h.read_append _),
    bind_of_eq_some (readBytes_append utf8 rest)]
  rfl

/-! ## Maps -/

/-- The bytes are read as the entries of a map, whatever follows them. -/
def Entries (depth : ℕ) (entries : List (Value × Value)) (bytes : List UInt8) : Prop :=
  ∀ rest, readMany (readPair (decode depth)) entries.length (bytes ++ rest) = some (entries, rest)

variable {entries entries' : List (Value × Value)} {block block' : List UInt8}

theorem Entries.nil : Entries depth [] [] := fun _ => rfl

theorem Entries.cons {key value : Value} {keyBytes valueBytes : List UInt8}
    (hkey : Encoding depth key keyBytes) (hvalue : Encoding depth value valueBytes)
    (h : Entries depth entries block) :
    Entries depth ((key, value) :: entries) (keyBytes ++ (valueBytes ++ block)) := by
  intro rest
  have hpair : readPair (decode depth) (keyBytes ++ (valueBytes ++ (block ++ rest))) =
      some ((key, value), block ++ rest) := by
    rw [readPair, bind_of_eq_some (hkey _), bind_of_eq_some (hvalue _)]
    rfl
  rw [List.length_cons, readMany, List.append_assoc, List.append_assoc, bind_of_eq_some hpair,
    bind_of_eq_some (h rest)]
  rfl

theorem readMany_append {item : Read α} {as as' : List α} {bytes bytes' rest : List UInt8}
    (h : readMany item as.length bytes = some (as, bytes'))
    (h' : readMany item as'.length bytes' = some (as', rest)) :
    readMany item (as ++ as').length bytes = some (as ++ as', rest) := by
  induction as generalizing bytes with
  | nil =>
    obtain ⟨-, rfl⟩ := Prod.mk.inj (Option.some.inj h)
    exact h'
  | cons a as ih =>
    obtain ⟨⟨b, bytes₁⟩, hb, h⟩ := Option.bind_eq_some_iff.1 h
    obtain ⟨⟨bs, bytes₂⟩, hbs, h⟩ := Option.bind_eq_some_iff.1 h
    obtain ⟨⟨rfl, rfl⟩, rfl⟩ := (Prod.mk.inj (Option.some.inj h)).imp_left List.cons_eq_cons.1
    rw [List.cons_append, List.length_cons, readMany, bind_of_eq_some hb, bind_of_eq_some (ih hbs)]
    rfl

theorem Entries.append (h : Entries depth entries block) (h' : Entries depth entries' block') :
    Entries depth (entries ++ entries') (block ++ block') := by
  intro rest
  rw [List.append_assoc]
  exact readMany_append (h _) (h' rest)

theorem Encoding.map {l : Length} {field : List UInt8} (hcode : Format.ofCode code = some (.map l))
    (hfield : l.Field entries.length field) (h : Entries depth entries block) :
    Encoding (depth + 1) (.map entries) (code :: (field ++ block)) := by
  refine .of_format hcode fun rest => ?_
  rw [Format.read, List.append_assoc, bind_of_eq_some (hfield.read_append _), bind_of_eq_some (h rest)]
  rfl

end DdTrace.Lib.MessagePack
