import DdTrace.Lib.Throwing
import Mathlib.Data.List.TakeDrop
import Mathlib.Data.Rat.Defs

/-!
# The encoder of the arguments of the WAF

`encodeInternal` turns a tree of .NET values into native objects (Encoder.cs). A `Value` is what
the type switch can see of an object: the kinds of containers it has an arm for, and the rest.
`Value.json` forgets the kinds, `cut` applies the three limits, and `Represents` says which native
object stands for a JSON value.

Marshalling a string and `ToString` belong to the runtime and are the fields of `Runtime`.
-/

namespace DdTrace.AppSec

open DdTrace.Lib DdTrace.Lib.Throwing

/-- The UTF-16 code units of a string. -/
abbrev Text := List UInt16

/-- The number types that the type switch has no arm for. -/
inductive NumericType
  | sbyte | byte | short | ushort | float | double | decimal | bigInteger
  deriving DecidableEq, Repr

def NumericType.name : NumericType → String
  | .sbyte => "System.SByte"
  | .byte => "System.Byte"
  | .short => "System.Int16"
  | .ushort => "System.UInt16"
  | .float => "System.Single"
  | .double => "System.Double"
  | .decimal => "System.Decimal"
  | .bigInteger => "System.Numerics.BigInteger"

/-- A boxed number or boolean. -/
inductive Scalar
  | bool (b : Bool)
  | int (i : Int32)
  | long (i : Int64)
  | uint (i : UInt32)
  | ulong (i : UInt64)
  | number (type : NumericType) (value : ℚ)

/-- What `JValue.Value` holds. -/
inductive JValue
  | null
  | string (s : Text)
  | scalar (x : Scalar)

/-- The element type `T` of an `IList<T>`. -/
inductive ListKind
  | tokens | strings | objects
  | other (type : String)
  deriving DecidableEq, Repr

/-- The value type `T` of an `IEnumerable<KeyValuePair<string, T>>`. -/
inductive DictionaryKind
  | tokens | strings | stringLists | objects
  | other (type : String)
  deriving DecidableEq, Repr

/-- An object as the type switch sees it. A `JArray` is a list of tokens, a `JObject` a
dictionary of them; a member's name can be null. -/
inductive Value
  | null
  | string (s : Text)
  | jValue (value : JValue)
  | scalar (x : Scalar)
  | list (kind : ListKind) (items : List Value)
  | dictionary (kind : DictionaryKind) (members : List (Option Text × Value))

/-- A native object. -/
inductive Obj
  | signed (value : Int64)
  | unsigned (value : UInt64)
  | string (bytes : List UInt8)
  | array (items : List Obj)
  | map (entries : List (List UInt8 × Obj))

inductive Exception
  | couldNotEncode (type : String)
  | nullReference
  deriving DecidableEq, Repr

def Exception.message : Exception → String
  | .couldNotEncode type => "Couldn't encode type: " ++ type
  | .nullReference => "Object reference not set to an instance of an object."

/-- What the encoder leaves to the runtime. -/
structure Runtime where
  /-- The bytes native code is given for a string. -/
  marshal : Text → List UInt8
  marshal_nil : marshal [] = []
  /-- `ToString` in the current culture. -/
  scalarToString : Scalar → Text

def maxStringLength : ℕ := 4096
def maxObjectDepth : ℕ := 15
def maxMapOrArrayLength : ℕ := 1500

variable (rt : Runtime)

/-! ### Encoder.cs -/

def objectStringLength (s : Text) (length : ℕ) : Obj := .string ((rt.marshal s).take length)

/-- The name of an entry: a length of 0 makes the native code look for the final zero. -/
def objectMapName (entryName : Text) (entryNameLength : ℕ) : List UInt8 :=
  if entryNameLength = 0 then (rt.marshal entryName).takeWhile (· != 0)
  else (rt.marshal entryName).take entryNameLength

def trunacteLongString (s : Text) : Text :=
  if s.length > maxStringLength then s.take maxStringLength else s

def createNativeString (s : Text) : Obj :=
  let s := trunacteLongString s
  objectStringLength rt s s.length

/-- `jv.Value.ToString()` -/
def JValue.toString : JValue → Except Exception Text
  | .null => .error .nullReference
  | .string s => .ok s
  | .scalar x => .ok (rt.scalarToString x)

/-- `o?.GetType()` for the scalars. -/
def Scalar.type : Scalar → String
  | .bool _ => "System.Boolean"
  | .int _ => "System.Int32"
  | .long _ => "System.Int64"
  | .uint _ => "System.UInt32"
  | .ulong _ => "System.UInt64"
  | .number type _ => type.name

def truncateLongList {α : Type} (items : List α) : List α :=
  if items.length > maxMapOrArrayLength then items.take maxMapOrArrayLength else items

/-- The loop over the members; one with a null name is skipped with a warning. -/
def addMembers (encode : Value → Throwing Exception (List Obj) Obj) :
    List (Option Text × Value) → Throwing Exception (List Obj) (List (List UInt8 × Obj))
  | [] => pure []
  | (none, _) :: members => addMembers encode members
  | (some name, o) :: members => do
    let value ← encode o
    let entries ← addMembers encode members
    pure ((objectMapName rt name name.length, value) :: entries)

mutual

/-- The state is `argCache`, to which every object built is added. -/
def encodeInternal (o : Value) (remainingDepth : ℕ) : Throwing Exception (List Obj) Obj := do
  let value ← (match o with
    | .string s => pure (createNativeString rt s)
    | .jValue jv => match jv.toString rt with
      | .ok s => pure (createNativeString rt s)
      | .error e => throw e
    | .scalar (.int i) => pure (.signed i.toInt64)
    | .scalar (.long i) => pure (.signed i)
    | .scalar (.uint i) => pure (.unsigned i.toUInt64)
    | .scalar (.ulong i) => pure (.unsigned i)
    | .dictionary .tokens objDict => encodeDictionary objDict remainingDepth
    | .dictionary .strings objDict => encodeDictionary objDict remainingDepth
    | .dictionary .stringLists objDict => encodeDictionary objDict remainingDepth
    | .dictionary .objects objDict => encodeDictionary objDict remainingDepth
    | .list .tokens objs => encodeList objs remainingDepth
    | .list .strings objs => encodeList objs remainingDepth
    | .list .objects objs => encodeList objs remainingDepth
    | .null => throw (.couldNotEncode "")
    | .scalar x => throw (.couldNotEncode x.type)
    | .dictionary (.other type) _ => throw (.couldNotEncode type)
    | .list (.other type) _ => throw (.couldNotEncode type) :
      Throwing Exception (List Obj) Obj)
  modify (· ++ [value])
  pure value
termination_by (remainingDepth, 1)

def encodeList (objEnumerator : List Value) (remainingDepth : ℕ) :
    Throwing Exception (List Obj) Obj :=
  match remainingDepth with
  | 0 => pure (.array [])
  | remainingDepth + 1 => do
    let items ← (truncateLongList objEnumerator).mapM fun o => encodeInternal o remainingDepth
    pure (.array items)
termination_by (remainingDepth, 0)

def encodeDictionary (objDictEnumerator : List (Option Text × Value)) (remainingDepth : ℕ) :
    Throwing Exception (List Obj) Obj :=
  match remainingDepth with
  | 0 => pure (.map [])
  | remainingDepth + 1 => do
    let entries ← addMembers rt (fun o => encodeInternal o remainingDepth)
      (truncateLongList objDictEnumerator)
    pure (.map entries)
termination_by (remainingDepth, 0)

end

def encode (o : Value) : Throwing Exception (List Obj) Obj := encodeInternal rt o maxObjectDepth

/-! ### JSON values and their native objects -/

/-- A JSON value; a name is missing where a dictionary has a null one. -/
inductive Json
  | null
  | bool (b : Bool)
  | number (q : ℚ)
  | string (s : Text)
  | array (items : List Json)
  | object (members : List (Option Text × Json))

def Scalar.json : Scalar → Json
  | .bool b => .bool b
  | .int i => .number i.toInt
  | .long i => .number i.toInt
  | .uint i => .number i.toNat
  | .ulong i => .number i.toNat
  | .number _ value => .number value

def JValue.json : JValue → Json
  | .null => .null
  | .string s => .string s
  | .scalar x => x.json

mutual

def Value.json : Value → Json
  | .null => .null
  | .string s => .string s
  | .jValue v => v.json
  | .scalar x => x.json
  | .list _ items => .array (Value.jsonItems items)
  | .dictionary _ members => .object (Value.jsonMembers members)

def Value.jsonItems : List Value → List Json
  | [] => []
  | o :: items => o.json :: Value.jsonItems items

def Value.jsonMembers : List (Option Text × Value) → List (Option Text × Json)
  | [] => []
  | (name, o) :: members => (name, o.json) :: Value.jsonMembers members

end

/-- A JSON value cut to `depth` levels of containers, and to the limits of items and of
characters. -/
def cut (depth : ℕ) : Json → Json
  | .string s => .string (s.take maxStringLength)
  | .array items => match depth with
    | 0 => .array []
    | depth + 1 => .array ((items.take maxMapOrArrayLength).map (cut depth))
  | .object members => match depth with
    | 0 => .object []
    | depth + 1 => .object ((members.take maxMapOrArrayLength).map fun m => (m.1, cut depth m.2))
  | json => json

mutual

/-- The native object stands for the JSON value. Native code has no null and no boolean. -/
inductive Represents : Json → Obj → Prop
  | signed (i : Int64) : Represents (.number i.toInt) (.signed i)
  | unsigned (i : UInt64) : Represents (.number i.toNat) (.unsigned i)
  | string (s : Text) : Represents (.string s) (.string (rt.marshal s))
  | array {items : List Json} {objs : List Obj} :
      List.Forall₂ Represents items objs → Represents (.array items) (.array objs)
  | map {members : List (Option Text × Json)} {entries : List (List UInt8 × Obj)} :
      List.Forall₂ RepresentsMember members entries → Represents (.object members) (.map entries)

inductive RepresentsMember : Option Text × Json → List UInt8 × Obj → Prop
  | member (name : Text) {json : Json} {obj : Obj} :
      Represents json obj → RepresentsMember (some name, json) (rt.marshal name, obj)

end

/-- The value is encoded, as the object of the JSON value cut to the limits. -/
def Correct (o : Value) (argCache : List Obj) : Prop :=
  Returns (encode rt o) argCache (Represents rt (cut maxObjectDepth o.json))

/-- The bytes of the string are no more than its code units, which the encoder gives as length. -/
def Fits (s : Text) : Prop := (rt.marshal s).length ≤ s.length

/-- The numbers with an arm in the type switch. -/
def Scalar.Listed : Scalar → Prop
  | .int _ | .long _ | .uint _ | .ulong _ => True
  | .bool _ | .number _ _ => False

def ListKind.Listed : ListKind → Prop
  | .tokens | .strings | .objects => True
  | .other _ => False

def DictionaryKind.Listed : DictionaryKind → Prop
  | .tokens | .strings | .stringLists | .objects => True
  | .other _ => False

/-- What is kept of the value within `depth` levels of containers is strings, listed numbers and
listed containers, whose members have names. -/
def Expressible (depth : ℕ) : Value → Prop
  | .null => False
  | .string s => Fits rt (s.take maxStringLength)
  | .jValue (.string s) => Fits rt (s.take maxStringLength)
  | .jValue _ => False
  | .scalar x => x.Listed
  | .list kind items => kind.Listed ∧ match depth with
    | 0 => True
    | depth + 1 => ∀ o ∈ items.take maxMapOrArrayLength, Expressible depth o
  | .dictionary kind members => kind.Listed ∧ match depth with
    | 0 => True
    | depth + 1 => ∀ m ∈ members.take maxMapOrArrayLength,
        (∃ name, m.1 = some name ∧ Fits rt name) ∧ Expressible depth m.2

/-! ### Strings and names -/

variable {rt}

theorem trunacteLongString_eq (s : Text) : trunacteLongString s = s.take maxStringLength := by
  unfold trunacteLongString
  split
  · rfl
  · rw [List.take_of_length_le (by omega)]

theorem truncateLongList_eq {α : Type} (items : List α) :
    truncateLongList items = items.take maxMapOrArrayLength := by
  unfold truncateLongList
  split
  · rfl
  · rw [List.take_of_length_le (by omega)]

theorem represents_string_iff {s : Text} {bytes : List UInt8} :
    Represents rt (.string s) (.string bytes) ↔ bytes = rt.marshal s := by
  constructor
  · rintro ⟨⟩
    rfl
  · rintro rfl
    exact .string s

theorem represents_createNativeString (s : Text) :
    Represents rt (.string (s.take maxStringLength)) (createNativeString rt s) ↔
      Fits rt (s.take maxStringLength) := by
  unfold createNativeString objectStringLength
  rw [trunacteLongString_eq, represents_string_iff, List.take_eq_self_iff]
  rfl

theorem objectMapName_eq_iff (name : Text) :
    objectMapName rt name name.length = rt.marshal name ↔ Fits rt name := by
  unfold objectMapName Fits
  by_cases h : name.length = 0
  · rw [if_pos h, List.length_eq_zero_iff.1 h, rt.marshal_nil]
    simp
  · rw [if_neg h, List.take_eq_self_iff]

/-- A number or boolean is never represented by a string. -/
theorem not_represents_scalar_string (x : Scalar) (bytes : List UInt8) :
    ¬ Represents rt x.json (.string bytes) := by
  have hnumber : ∀ q, ¬ Represents rt (.number q) (.string bytes) := by rintro q ⟨⟩
  cases x with
  | bool b => rintro ⟨⟩
  | int i => exact hnumber _
  | long i => exact hnumber _
  | uint i => exact hnumber _
  | ulong i => exact hnumber _
  | number type value => exact hnumber _

/-! ### Containers -/

@[simp] theorem jsonItems_eq (items : List Value) :
    Value.jsonItems items = items.map Value.json := by
  induction items with
  | nil => rfl
  | cons o items ih => rw [Value.jsonItems, ih, List.map_cons]

@[simp] theorem jsonMembers_eq (members : List (Option Text × Value)) :
    Value.jsonMembers members = members.map fun m => (m.1, m.2.json) := by
  induction members with
  | nil => rfl
  | cons m members ih => rw [Value.jsonMembers, ih, List.map_cons]

@[simp] theorem represents_array_iff {items : List Json} {objs : List Obj} :
    Represents rt (.array items) (.array objs) ↔ List.Forall₂ (Represents rt) items objs := by
  constructor
  · rintro ⟨⟩
    assumption
  · exact .array

@[simp] theorem represents_object_iff {members : List (Option Text × Json)}
    {entries : List (List UInt8 × Obj)} :
    Represents rt (.object members) (.map entries) ↔
      List.Forall₂ (RepresentsMember rt) members entries := by
  constructor
  · rintro ⟨⟩
    assumption
  · exact .map

theorem representsMember_iff {name : Option Text} {json : Json} {bytes : List UInt8} {obj : Obj} :
    RepresentsMember rt (name, json) (bytes, obj) ↔
      (∃ s, name = some s ∧ bytes = rt.marshal s) ∧ Represents rt json obj := by
  constructor
  · rintro ⟨s, h⟩
    exact ⟨⟨s, rfl, rfl⟩, h⟩
  · rintro ⟨⟨s, rfl, rfl⟩, h⟩
    exact .member s h

/-- Fewer entries than members: a member is skipped only for its null name. -/
theorem addMembers_length {f : Value → Throwing Exception (List Obj) Obj}
    {members : List (Option Text × Value)} {s s' : List Obj}
    {entries : List (List UInt8 × Obj)}
    (h : runWith (addMembers rt f members) s = (.ok entries, s')) :
    entries.length ≤ members.length := by
  induction members generalizing s s' entries with
  | nil =>
    rw [addMembers, runWith_pure] at h
    cases h
    rfl
  | cons m members ih =>
    obtain ⟨_ | name, o⟩ := m
    · rw [addMembers] at h
      exact (ih h).trans (Nat.le_succ _)
    · rw [addMembers, runWith_bind_eq_ok] at h
      obtain ⟨value, s₁, -, h⟩ := h
      rw [runWith_bind_eq_ok] at h
      obtain ⟨rest, s₂, hrest, h⟩ := h
      rw [runWith_pure] at h
      cases h
      exact Nat.succ_le_succ (ih hrest)

/-- The members are all represented when each has a name that fits and a value that is. -/
theorem returns_addMembers {f : Value → Throwing Exception (List Obj) Obj} {g : Value → Json}
    {P : Value → Prop} (h : ∀ o s, Returns (f o) s (Represents rt (g o)) ↔ P o)
    (members : List (Option Text × Value)) (s : List Obj) :
    Returns (addMembers rt f members) s
        (List.Forall₂ (RepresentsMember rt) (members.map fun m => (m.1, g m.2))) ↔
      ∀ m ∈ members, (∃ name, m.1 = some name ∧ Fits rt name) ∧ P m.2 := by
  induction members generalizing s with
  | nil => simp [addMembers]
  | cons m members ih =>
    obtain ⟨_ | name, o⟩ := m
    · rw [addMembers, List.forall_mem_cons]
      constructor
      · rintro ⟨entries, hrun, hall⟩
        have := addMembers_length (Prod.ext hrun rfl)
        have := hall.length_eq
        simp only [List.map_cons, List.length_cons, List.length_map] at this
        omega
      · rintro ⟨⟨⟨_, hname, -⟩, -⟩, -⟩
        cases hname
    · rw [addMembers, List.forall_mem_cons, returns_bind]
      constructor
      · rintro ⟨value, s₁, hvalue, hrest⟩
        rw [returns_bind] at hrest
        obtain ⟨entries, s₂, hentries, hall⟩ := hrest
        rw [returns_pure, List.map_cons, List.forall₂_cons, representsMember_iff] at hall
        obtain ⟨⟨⟨_, hname, hbytes⟩, hobj⟩, hall⟩ := hall
        cases hname
        exact ⟨⟨⟨name, rfl, (objectMapName_eq_iff name).1 hbytes⟩,
          (h o s).1 ⟨value, by rw [hvalue], hobj⟩⟩, (ih s₁).1 ⟨entries, by rw [hentries], hall⟩⟩
      · rintro ⟨⟨⟨_, hname, hfits⟩, ho⟩, hmembers⟩
        cases hname
        obtain ⟨value, hvalue, hobj⟩ := (h o s).2 ho
        obtain ⟨entries, hentries, hall⟩ := (ih (runWith (f o) s).2).2 hmembers
        refine ⟨value, _, Prod.ext hvalue rfl,
          returns_bind.2 ⟨entries, _, Prod.ext hentries rfl, ?_⟩⟩
        rw [returns_pure, List.map_cons, List.forall₂_cons, representsMember_iff]
        exact ⟨⟨⟨name, rfl, (objectMapName_eq_iff name).2 hfits⟩, hobj⟩, hall⟩

/-! ### The levels of containers -/

attribute [local simp] encodeInternal encodeList encodeDictionary cut Value.json Expressible

theorem Expressible.list_listed {depth : ℕ} {kind : ListKind} {items : List Value}
    (h : Expressible rt depth (.list kind items)) : kind.Listed := by
  cases depth with
  | zero => exact h.1
  | succ depth => exact h.1

theorem Expressible.dictionary_listed {depth : ℕ} {kind : DictionaryKind}
    {members : List (Option Text × Value)} (h : Expressible rt depth (.dictionary kind members)) :
    kind.Listed := by
  cases depth with
  | zero => exact h.1
  | succ depth => exact h.1

/-- What is to show at one depth. -/
def Settled (rt : Runtime) (depth : ℕ) : Prop :=
  ∀ o s, Returns (encodeInternal rt o depth) s (Represents rt (cut depth o.json)) ↔
    Expressible rt depth o

theorem returns_encodeList {depth : ℕ} (ih : ∀ d < depth, Settled rt d) (kind : ListKind)
    (hkind : kind.Listed) (items : List Value) (s : List Obj) :
    Returns (encodeList rt items depth) s (Represents rt (cut depth (Value.list kind items).json)) ↔
      Expressible rt depth (.list kind items) := by
  cases depth with
  | zero => simp [hkind]
  | succ depth =>
    have hitems := returns_mapM_iff (items.take maxMapOrArrayLength)
      (fun o _ s => ih depth (Nat.lt_succ_self depth) o s) s
    rw [encodeList, truncateLongList_eq, returns_bind_pure]
    simp only [Value.json, jsonItems_eq, cut, ← List.map_take, List.map_map,
      represents_array_iff, Expressible, hkind, true_and]
    exact hitems

theorem returns_encodeDictionary {depth : ℕ} (ih : ∀ d < depth, Settled rt d)
    (kind : DictionaryKind) (hkind : kind.Listed) (members : List (Option Text × Value))
    (s : List Obj) :
    Returns (encodeDictionary rt members depth) s
        (Represents rt (cut depth (Value.dictionary kind members).json)) ↔
      Expressible rt depth (.dictionary kind members) := by
  cases depth with
  | zero => simp [hkind]
  | succ depth =>
    have hmembers := returns_addMembers (g := fun o => cut depth o.json)
      (fun o s => ih depth (Nat.lt_succ_self depth) o s) (members.take maxMapOrArrayLength) s
    rw [encodeDictionary, truncateLongList_eq, returns_bind_pure]
    simp only [Value.json, jsonMembers_eq, cut, ← List.map_take, List.map_map,
      represents_object_iff, Expressible, hkind, true_and]
    exact hmembers

theorem settled_jValue (depth : ℕ) (jv : JValue) (s : List Obj) :
    Returns (encodeInternal rt (.jValue jv) depth) s
        (Represents rt (cut depth (Value.jValue jv).json)) ↔ Expressible rt depth (.jValue jv) := by
  rw [encodeInternal, returns_bind_modify]
  cases jv with
  | null => simp [JValue.toString, Expressible]
  | string t =>
    simp only [JValue.toString, Value.json, JValue.json, cut, Expressible, returns_pure]
    exact represents_createNativeString t
  | scalar x =>
    have hcut : cut depth x.json = x.json := by cases x <;> simp only [Scalar.json, cut]
    simp only [JValue.toString, Value.json, JValue.json, Expressible, returns_pure, hcut, iff_false]
    exact not_represents_scalar_string x _

theorem settled_scalar (depth : ℕ) (x : Scalar) (s : List Obj) :
    Returns (encodeInternal rt (.scalar x) depth) s
        (Represents rt (cut depth (Value.scalar x).json)) ↔ Expressible rt depth (.scalar x) := by
  simp only [Expressible]
  cases x with
  | bool b =>
    rw [encodeInternal, returns_bind_modify] <;> simp [Scalar.Listed]
  | number type value =>
    rw [encodeInternal, returns_bind_modify] <;> simp [Scalar.Listed]
  | int i =>
    rw [encodeInternal, returns_bind_modify]
    have := @Represents.signed rt i.toInt64
    simp only [Int32.toInt_toInt64] at this
    simpa only [Value.json, Scalar.json, cut, Scalar.Listed, returns_pure, iff_true] using this
  | long i =>
    rw [encodeInternal, returns_bind_modify]
    simpa only [Value.json, Scalar.json, cut, Scalar.Listed, returns_pure, iff_true] using
      Represents.signed i
  | uint i =>
    rw [encodeInternal, returns_bind_modify]
    have := @Represents.unsigned rt i.toUInt64
    simp only [UInt32.toNat_toUInt64] at this
    simpa only [Value.json, Scalar.json, cut, Scalar.Listed, returns_pure, iff_true] using this
  | ulong i =>
    rw [encodeInternal, returns_bind_modify]
    simpa only [Value.json, Scalar.json, cut, Scalar.Listed, returns_pure, iff_true] using
      Represents.unsigned i

theorem settled (depth : ℕ) : Settled rt depth := by
  induction depth using Nat.strong_induction_on with
  | _ depth ih =>
    intro o s
    cases o with
    | jValue jv => exact settled_jValue depth jv s
    | scalar x => exact settled_scalar depth x s
    | null =>
      rw [encodeInternal, returns_bind_modify]
      simp [Expressible]
    | string t =>
      rw [encodeInternal, returns_bind_modify]
      simp only [Value.json, cut, Expressible, returns_pure]
      exact represents_createNativeString t
    | list kind items =>
      cases kind <;> rw [encodeInternal, returns_bind_modify]
      case other type => exact iff_of_false (not_returns_throw _) fun h => h.list_listed
      case tokens => exact returns_encodeList ih .tokens trivial items s
      case strings => exact returns_encodeList ih .strings trivial items s
      case objects => exact returns_encodeList ih .objects trivial items s
    | dictionary kind members =>
      cases kind <;> rw [encodeInternal, returns_bind_modify]
      case other type => exact iff_of_false (not_returns_throw _) fun h => h.dictionary_listed
      case tokens => exact returns_encodeDictionary ih .tokens trivial members s
      case strings => exact returns_encodeDictionary ih .strings trivial members s
      case stringLists => exact returns_encodeDictionary ih .stringLists trivial members s
      case objects => exact returns_encodeDictionary ih .objects trivial members s

variable (rt)

/-- A value is encoded as it should be exactly when all that is kept of it has an encoding. -/
theorem encode_correct_iff (o : Value) (argCache : List Obj) :
    Correct rt o argCache ↔ Expressible rt maxObjectDepth o :=
  settled maxObjectDepth o argCache

/-! ### The cache of native objects -/

mutual

/-- The objects made for an object: those below it first, it last. -/
def Obj.built : Obj → List Obj
  | .array items => Obj.builtItems items ++ [.array items]
  | .map entries => Obj.builtEntries entries ++ [.map entries]
  | .signed value => [.signed value]
  | .unsigned value => [.unsigned value]
  | .string bytes => [.string bytes]

def Obj.builtItems : List Obj → List Obj
  | [] => []
  | obj :: items => obj.built ++ Obj.builtItems items

def Obj.builtEntries : List (List UInt8 × Obj) → List Obj
  | [] => []
  | (_, obj) :: entries => obj.built ++ Obj.builtEntries entries

end

/-- The objects made below an object. -/
def Obj.parts : Obj → List Obj
  | .array items => Obj.builtItems items
  | .map entries => Obj.builtEntries entries
  | _ => []

theorem Obj.built_eq (obj : Obj) : obj.built = obj.parts ++ [obj] := by
  cases obj <;> simp [Obj.built, Obj.parts]

theorem builtItems_eq (items : List Obj) : Obj.builtItems items = items.flatMap Obj.built := by
  induction items with
  | nil => rfl
  | cons obj items ih => rw [Obj.builtItems, ih, List.flatMap_cons]

theorem appends_addMembers {f : Value → Throwing Exception (List Obj) Obj}
    (hf : ∀ o, Appends (f o) Obj.built) (members : List (Option Text × Value)) :
    Appends (addMembers rt f members) Obj.builtEntries := by
  induction members with
  | nil =>
    rw [addMembers]
    exact .pure rfl
  | cons m members ih =>
    obtain ⟨_ | name, o⟩ := m
    · rw [addMembers]
      exact ih
    · intro s entries s' hrun
      rw [addMembers] at hrun
      obtain ⟨value, s₁, hvalue, hrest⟩ := runWith_bind_eq_ok.1 hrun
      obtain ⟨rest, s₂, hmembers, hend⟩ := runWith_bind_eq_ok.1 hrest
      rw [runWith_pure] at hend
      cases hend
      rw [ih s₁ rest s' hmembers, hf o s value s₁ hvalue, Obj.builtEntries, List.append_assoc]

theorem appends_encodeList {depth : ℕ}
    (ih : ∀ d < depth, ∀ o, Appends (encodeInternal rt o d) Obj.built) (items : List Value) :
    Appends (encodeList rt items depth) Obj.parts := by
  cases depth with
  | zero =>
    rw [encodeList]
    exact .pure rfl
  | succ depth =>
    rw [encodeList]
    refine .bind_pure ?_
    simp only [Obj.parts, builtItems_eq]
    exact .mapM (fun o => ih depth (Nat.lt_succ_self depth) o) _

theorem appends_encodeDictionary {depth : ℕ}
    (ih : ∀ d < depth, ∀ o, Appends (encodeInternal rt o d) Obj.built)
    (members : List (Option Text × Value)) :
    Appends (encodeDictionary rt members depth) Obj.parts := by
  cases depth with
  | zero =>
    rw [encodeDictionary]
    exact .pure rfl
  | succ depth =>
    rw [encodeDictionary]
    refine .bind_pure ?_
    exact appends_addMembers rt (fun o => ih depth (Nat.lt_succ_self depth) o) _

/-- Every object made for a value is in the cache once, in the order in which they were made. -/
theorem encodeInternal_appends (depth : ℕ) (o : Value) :
    Appends (encodeInternal rt o depth) Obj.built := by
  induction depth using Nat.strong_induction_on generalizing o with
  | _ depth ih =>
    suffices h : Appends (encodeInternal rt o depth) fun obj => obj.parts ++ [obj] by
      simpa only [← Obj.built_eq] using h
    cases o with
    | null =>
      rw [encodeInternal]
      exact .bind_modify (.throw _)
    | string t =>
      rw [encodeInternal]
      exact .bind_modify (.pure rfl)
    | jValue jv =>
      rw [encodeInternal]
      cases jv with
      | null => exact .bind_modify (.throw _)
      | string t => exact .bind_modify (.pure rfl)
      | scalar x => exact .bind_modify (.pure rfl)
    | scalar x =>
      cases x with
      | bool b => rw [encodeInternal] <;> first | exact .bind_modify (.throw _) | simp
      | number type value => rw [encodeInternal] <;> first | exact .bind_modify (.throw _) | simp
      | int i => rw [encodeInternal]; exact .bind_modify (.pure rfl)
      | long i => rw [encodeInternal]; exact .bind_modify (.pure rfl)
      | uint i => rw [encodeInternal]; exact .bind_modify (.pure rfl)
      | ulong i => rw [encodeInternal]; exact .bind_modify (.pure rfl)
    | list kind items =>
      cases kind <;> rw [encodeInternal]
      case other type => exact .bind_modify (.throw _)
      all_goals exact .bind_modify (appends_encodeList rt ih items)
    | dictionary kind members =>
      cases kind <;> rw [encodeInternal]
      case other type => exact .bind_modify (.throw _)
      all_goals exact .bind_modify (appends_encodeDictionary rt ih members)

/-- A runtime that marshals the low byte of each code unit. -/
def lowBytes : Runtime where
  marshal s := s.map UInt16.toUInt8
  marshal_nil := rfl
  scalarToString _ := []

/-- A route value that is null makes the encoder throw. -/
theorem encode_null_member :
    ¬ Correct lowBytes (.dictionary .objects [(some [105, 100], .null)]) [] := by
  intro h
  obtain ⟨-, hmembers⟩ := (settled maxObjectDepth _ []).1 h
  exact (hmembers _ List.mem_cons_self).2

end DdTrace.AppSec
