import DdTrace.AppSec.Encoder
import DdTrace.Lib.Utf8

/-!
# The lengths of native strings

The two native calls that take a string take a length with it: `ObjectStringLength` for a value
and `ObjectMapAdd` for the key of a map. The string arrives as UTF-8, the length is the number
of UTF-16 code units.
-/

namespace DdTrace.AppSec

open DdTrace.Lib

/-- A runtime that hands strings to native code as UTF-8. -/
def utf8Runtime (scalarToString : Scalar → Text) : Runtime where
  marshal := utf8
  marshal_nil := rfl
  scalarToString := scalarToString

/-- A string that is handed to native code, and the length handed with it. -/
structure NativeString where
  string : Text
  length : ℕ

/-- The arguments of `ObjectStringLength` in `CreateNativeString`. -/
def stringArgument (s : Text) : NativeString :=
  let s := trunacteLongString s
  ⟨s, s.length⟩

/-- The arguments of `ObjectMapAdd` in `EncodeDictionary`. -/
def keyArgument (name : Text) : NativeString := ⟨name, name.length⟩

/-- The length is the number of the bytes. -/
def NativeString.Whole (argument : NativeString) : Prop :=
  argument.length = (utf8 argument.string).length

variable {scalarToString : Scalar → Text} {s : Text}

theorem createNativeString_eq (rt : Runtime) (s : Text) : createNativeString rt s
    = objectStringLength rt (stringArgument s).string (stringArgument s).length := rfl

theorem whole_keyArgument : (keyArgument s).Whole ↔ ∀ u ∈ s, u < 0x80 := by
  rw [← length_utf8_eq_iff]
  exact eq_comm

theorem whole_stringArgument (h : s.length ≤ maxStringLength) :
    (stringArgument s).Whole ↔ ∀ u ∈ s, u < 0x80 := by
  rw [stringArgument, trunacteLongString_eq, List.take_of_length_le h]
  exact whole_keyArgument

theorem fits_utf8Runtime (scalarToString : Scalar → Text) (s : Text) :
    Fits (utf8Runtime scalarToString) s ↔ ∀ u ∈ s, u < 0x80 :=
  length_utf8_le_iff

theorem createNativeString_utf8 (h : s.length ≤ maxStringLength) :
    createNativeString (utf8Runtime scalarToString) s = .string (utf8 s) ↔ ∀ u ∈ s, u < 0x80 := by
  rw [← fits_utf8Runtime scalarToString, createNativeString_eq, stringArgument,
    objectStringLength, trunacteLongString_eq, List.take_of_length_le h, Obj.string.injEq]
  exact List.take_eq_self_iff _

/-- For a string that is not too long, as a value and as a key: the length that is handed over is
the number of the bytes, and native code sees all of them, exactly if the string is ASCII. -/
theorem native_string_whole_iff (scalarToString : Scalar → Text) (s : Text)
    (h : s.length ≤ maxStringLength) :
    ((stringArgument s).Whole ∧
        createNativeString (utf8Runtime scalarToString) s = .string (utf8 s)) ∧
      ((keyArgument s).Whole ∧ objectMapName (utf8Runtime scalarToString)
        (keyArgument s).string (keyArgument s).length = utf8 s) ↔
    ∀ u ∈ s, u < 0x80 := by
  have hkey : objectMapName (utf8Runtime scalarToString) (keyArgument s).string
      (keyArgument s).length = utf8 s ↔ ∀ u ∈ s, u < 0x80 :=
    (objectMapName_eq_iff s).trans (fits_utf8Runtime scalarToString s)
  rw [whole_stringArgument h, createNativeString_utf8 h, whole_keyArgument, hkey]
  simp

theorem native_string_whole_iff_abc :
    [0x61, 0x62, 0x63].length ≤ maxStringLength ∧ (stringArgument [0x61, 0x62, 0x63]).Whole :=
  ⟨by decide, ((native_string_whole_iff (fun _ => []) [0x61, 0x62, 0x63] (by decide)).2
    (by simp)).1.1⟩

/-- The word café: four code units, five bytes. -/
theorem native_string_cut :
    ¬∀ s : Text, s.length ≤ maxStringLength → (stringArgument s).Whole ∧ (keyArgument s).Whole := by
  intro h
  have hlen := (h [0x63, 0x61, 0x66, 0xE9] (by decide)).2
  revert hlen
  unfold NativeString.Whole
  decide

/-- The last byte is lost. -/
example : createNativeString (utf8Runtime fun _ => []) [0x63, 0x61, 0x66, 0xE9]
    = .string [0x63, 0x61, 0x66, 0xC3] := rfl

end DdTrace.AppSec
