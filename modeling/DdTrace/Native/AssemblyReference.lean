import DdTrace.Lib.GreedyRegex
import DdTrace.Lib.Utf8
import DdTrace.Lib.Text
import Mathlib.Algebra.Group.Nat.Defs

/-!
# Assembly references

`AssemblyReference::str` and the functions that read a reference from a text: `std::wregex` on
the code units, or RE2 on the UTF-8 bytes. Patterns are about the values of code units and of
bytes, which are the same for ASCII.
-/

namespace DdTrace.Native

open Lib Lib.Item

/-- A token of 8 bytes; without one they are zeros. -/
structure PublicKey where
  data : List UInt8
  length_eq : data.length = 8
  deriving DecidableEq

structure Version where
  major : UInt16
  minor : UInt16
  build : UInt16
  revision : UInt16
  deriving DecidableEq

structure AssemblyReference where
  name : Text
  version : Version
  locale : Text
  public_key : PublicKey
  deriving DecidableEq

/-! ## Printing -/

def hexDigit (n : ℕ) : UInt16 := .ofNat (if n < 10 then 0x30 + n else 0x57 + n)

def PublicKey.str (k : PublicKey) : Text :=
  k.data.flatMap fun b => [hexDigit (b.toNat / 16), hexDigit (b.toNat % 16)]

def decimal (n : UInt16) : Text := (Nat.toDigits 10 n.toNat).map unit

def Version.numbers (v : Version) : List UInt16 := [v.major, v.minor, v.build, v.revision]

def Version.str (v : Version) : Text :=
  decimal v.major ++ text "." ++ decimal v.minor ++ text "." ++ decimal v.build ++ text "." ++
    decimal v.revision

def AssemblyReference.str (r : AssemblyReference) : Text :=
  r.name ++ text ", Version=" ++ r.version.str ++ text ", Culture=" ++ r.locale ++
    text ", PublicKeyToken=" ++ r.public_key.str

/-! ## Patterns -/

/-- The value of a character of ASCII. -/
def code (c : Char) : ℕ := c.toNat

def literal (s : String) : List (Item ℕ) := (s.toList.map code).map char

def digit (c : ℕ) : Bool := 0x30 ≤ c && c ≤ 0x39

/-- `[a-zA-Z0-9]` -/
def alphanumeric (c : ℕ) : Bool := 0x61 ≤ c && c ≤ 0x7A || 0x41 ≤ c && c ≤ 0x5A || digit c

/-- `[a-fA-F0-9]` -/
def hexadecimal (c : ℕ) : Bool := 0x61 ≤ c && c ≤ 0x66 || 0x41 ≤ c && c ≤ 0x46 || digit c

def versionPattern : List (Item ℕ) :=
  literal "Version=" ++ [plus digit, char (code '.'), plus digit, char (code '.'), plus digit,
    char (code '.'), plus digit]

def culturePattern : List (Item ℕ) := literal "Culture=" ++ [plus alphanumeric]

def publicKeyPattern : List (Item ℕ) := literal "PublicKeyToken=" ++ [times hexadecimal 16]

/-! ## The two branches -/

def readNumber (digits : List ℕ) : ℕ := digits.foldl (fun n c => 10 * n + (c - 0x30)) 0

/-- What differs between the platforms. -/
structure RegexBranch where
  search : List (Item ℕ) → Text → Option (List (List ℕ))
  readVersion : List (List ℕ) → Version

def Version.zero : Version := ⟨0, 0, 0, 0⟩

/-- `>>` into an `unsigned short` stores its maximum if the number does not fit. -/
def extractUShort (digits : List ℕ) : UInt16 :=
  if readNumber digits < 2 ^ 16 then .ofNat (readNumber digits) else 0xFFFF

/-- `std::wregex` and `WSTRINGSTREAM`. -/
def windows : RegexBranch where
  search items str := Item.search items (str.map UInt16.toNat)
  readVersion
    | [major, minor, build, revision] =>
      ⟨extractUShort major, extractUShort minor, extractUShort build, extractUShort revision⟩
    | _ => .zero

/-- `RE2::PartialMatch`, which stores the groups in its arguments. The four numbers are 0 before
the call. -/
structure RE2 where
  partialMatch : List (Item ℕ) → List UInt8 → Option (List (List ℕ))
  /-- The match is the leftmost one that a backtracking engine finds. -/
  partialMatch_eq : ∀ items bytes,
    partialMatch items bytes = Item.search items (bytes.map UInt8.toNat)
  storeUShorts : List (List ℕ) → Version
  store_fits : ∀ groups, (∀ digits ∈ groups, readNumber digits < 2 ^ 16) → groups.length = 4 →
    (storeUShorts groups).numbers = groups.map fun digits => .ofNat (readNumber digits)
  /-- A number that does not fit is not stored. -/
  store_overflow : ∀ (groups : List (List ℕ)) (i : ℕ) (digits : List ℕ), groups.length = 4 →
    groups[i]? = some digits → 2 ^ 16 ≤ readNumber digits →
    (storeUShorts groups).numbers[i]? = some 0

/-- The text that `ToString` converts ends in front of the first NUL. -/
def cString (str : Text) : Text := str.takeWhile (· ≠ 0)

def RE2.branch (re2 : RE2) : RegexBranch where
  search items str := re2.partialMatch items (utf8 (cString str))
  readVersion := re2.storeUShorts

/-! ## Parsing -/

def PublicKey.zero : PublicKey := ⟨List.replicate 8 0, List.length_replicate⟩

def hexValue (c : ℕ) : ℕ := if digit c then c - 0x30 else if 0x61 ≤ c then c - 0x57 else c - 0x37

/-- Two digits of the token as a byte. -/
def tokenByte (token : List ℕ) (i : ℕ) : UInt8 :=
  .ofNat (((token.drop (2 * i)).take 2).foldl (fun n c => 16 * n + hexValue c) 0)

def readToken (token : List ℕ) : PublicKey where
  data := (List.range 8).map (tokenByte token)
  length_eq := by rw [List.length_map, List.length_range]

/-- Up to the first comma, and without the last word of what has spaces. -/
def getNameFromAssemblyReferenceString (wstr : Text) : Text :=
  let name := wstr.takeWhile (· ≠ unit ',')
  if unit ' ' ∈ name then (name.reverse.dropWhile (· ≠ unit ' ')).tail.reverse else name

namespace RegexBranch

variable (b : RegexBranch)

def getVersionFromAssemblyReferenceString (str : Text) : Version :=
  if str.isEmpty then .zero
  else
    match b.search versionPattern str with
    | some groups => b.readVersion groups
    | none => .zero

def getLocaleFromAssemblyReferenceString (str : Text) : Text :=
  if str.isEmpty then text "neutral"
  else
    match b.search culturePattern str with
    | some [culture] => culture.map UInt16.ofNat
    | _ => text "neutral"

def getPublicKeyFromAssemblyReferenceString (str : Text) : PublicKey :=
  if str.isEmpty then .zero
  else
    match b.search publicKeyPattern str with
    | some [token] => readToken token
    | _ => .zero

/-- The constructor. -/
def assemblyReference (str : Text) : AssemblyReference where
  name := getNameFromAssemblyReferenceString str
  version := b.getVersionFromAssemblyReferenceString str
  locale := b.getLocaleFromAssemblyReferenceString str
  public_key := b.getPublicKeyFromAssemblyReferenceString str

end RegexBranch

end DdTrace.Native
