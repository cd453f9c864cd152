import DdTrace.Lib.Integers
import DdTrace.Lib.Run

/-!
# `FileLogSink`

The names of log files, the search for the latest rotation index and the rotation loop of
`TryWriteToFile`. What the sink asks of its platform is a `Platform`: how file names are compared,
the order of names in the current culture, and `Array.Sort`. A timestamp is known by its
`yyyyMMdd`. The mutex is acquired before the loop and kept in it.
-/

namespace DdTrace.Logging

open DdTrace.Lib

def filenameSeparatorForTimestamp : Text := text "-"
def filenameSeparatorForIndex : Text := text "_"
def filenameIndexFormat : Text := text "000"
def filenameExtension : Text := text "log"

/-- A time, as `ToString("yyyyMMdd")` writes it. -/
structure Timestamp where
  text : Text
  text_ne_nil : text ≠ []
  text_digits : ∀ c ∈ text, isDigit c = true

/-- A file of the log directory. -/
structure FileInfo where
  name : Text
  length : ℕ
  deriving DecidableEq

/-! ### File names -/

/-- `ToString("000")` of a number that is not negative. -/
def indexText (n : ℕ) : Text :=
  let digits := decimal n
  List.replicate (filenameIndexFormat.length - digits.length) (unit '0') ++ digits

/-- `ConstructFilename` with the text of the index. -/
def constructFilenameOf (nameBase : Text) (timestamp : Timestamp) (indexStr : Option Text) : Text :=
  let filename := nameBase ++ filenameSeparatorForTimestamp ++ timestamp.text
  let filename := match indexStr with
    | some indexStr => filename ++ filenameSeparatorForIndex ++ indexStr
    | none => filename
  filename ++ text "." ++ filenameExtension

def constructFilename (nameBase : Text) (timestamp : Timestamp) (index : Int32) : Text :=
  constructFilenameOf nameBase timestamp
    (if index < 0 then none else some (indexText index.toInt.toNat))

/-- `Path.GetFileNameWithoutExtension` of a name without separators of directories. -/
def getFileNameWithoutExtension (name : Text) : Text :=
  if unit '.' ∈ name then ((name.reverse.dropWhile (· ≠ unit '.')).drop 1).reverse else name

/-- A code unit of file names that has no other case. -/
def isCaseless (c : UInt16) : Bool := isDigit c || c == unit '_' || c == unit '.'

/-- The names of files. `OrdinalIgnoreCase` compares them by the upper case of their units. -/
structure FileSystem where
  isWindowsFileSystem : Bool
  toUpper : UInt16 → UInt16
  toUpper_caseless : ∀ c d, isCaseless d → toUpper c = toUpper d → c = d

def FileSystem.isSameFilename (fs : FileSystem) (fileName1 fileName2 : Text) : Bool :=
  if fileName1 = fileName2 then true
  else if fs.isWindowsFileSystem then fileName1.map fs.toUpper == fileName2.map fs.toUpper
  else fileName1 == fileName2

/-! ### The search -/

/-- What a culture and `Array.Sort` do with names. The order of names tells apart the names of
two indices. -/
structure Platform extends FileSystem where
  numbers : NumberFormatInfo
  /-- `string.CompareTo`, in the current culture. -/
  compareTo : Text → Text → Ordering
  /-- `string.LastIndexOf`, in the current culture. -/
  lastIndexOf : Text → Text → Option ℕ
  sort : List FileInfo → List FileInfo
  numbers_symbols : numbers.Symbols
  compareTo_swap : ∀ s t, compareTo t s = (compareTo s t).swap
  compareTo_filenames : ∀ nameBase timestamp m n s t,
    toFileSystem.isSameFilename s (constructFilename nameBase timestamp m) →
    toFileSystem.isSameFilename t (constructFilename nameBase timestamp n) →
    compareTo s t = .eq →
      constructFilename nameBase timestamp m = constructFilename nameBase timestamp n
  lastIndexOf_separator : ∀ s c digits, isDigit c → digits ≠ [] → (∀ d ∈ digits, isDigit d) →
    lastIndexOf (s ++ [c] ++ filenameSeparatorForIndex ++ digits) filenameSeparatorForIndex
      = some (s.length + 1)
  sort_perm : ∀ files, (sort files).Perm files
  sort_pairwise : ∀ files, (sort files).Pairwise fun f g => compareTo f.name g.name ≠ .gt

namespace Platform

variable (P : Platform)

/-- The body of the loop of `FindLatestRotationIndex`: the index it returns for a file. -/
def rotationIndexOf (nameBase : Text) (timestamp : Timestamp) (existingFileName : Text) :
    Option Int32 := do
  let existingFileNameNoExt := getFileNameWithoutExtension existingFileName
  guard (filenameIndexFormat.length ≤ existingFileNameNoExt.length)
  let rotationIndexSeparatorPos ← P.lastIndexOf existingFileNameNoExt filenameSeparatorForIndex
  guard (rotationIndexSeparatorPos < existingFileNameNoExt.length)
  guard (rotationIndexSeparatorPos + filenameIndexFormat.length ≤ existingFileNameNoExt.length)
  let rotationIndexStr := existingFileNameNoExt.drop (rotationIndexSeparatorPos + 1)
  let rotationIndex ← tryParseInt32 P.numbers rotationIndexStr
  let filenameForIndex := constructFilename nameBase timestamp rotationIndex
  guard (P.isSameFilename existingFileName filenameForIndex)
  return rotationIndex

def findLatestRotationIndex (files : List FileInfo) (nameBase : Text) (timestamp : Timestamp) :
    Int32 :=
  if files.isEmpty then 0
  else ((P.sort files).reverse.findSome?
    fun file => P.rotationIndexOf nameBase timestamp file.name).getD 0

end Platform

/-! ### The rotation loop -/

/-- What the loop reads and writes. -/
structure FileLogSink where
  logFileNameBase : Text
  rotateLogFileWhenLargerBytes : Int32
  /-- The files in `_logFileDir`. -/
  files : List FileInfo
  rotationIndex : Int32
  /-- The length of `_logStream`. -/
  logStreamLength : ℕ
  deriving DecidableEq

/-- What one call of `RotateLogFile` meets. -/
structure Moment where
  handleIsValid : Bool
  /-- `EnsureDirectoryExists` -/
  directoryExists : Bool
  now : Timestamp
  /-- The constructor of `FileStream` does not throw. -/
  opens : Text → Bool

namespace Platform

variable (P : Platform)

/-- `FileMode.OpenOrCreate`: the files afterwards, and the length of the one that is opened. -/
def openOrCreate (files : List FileInfo) (name : Text) : List FileInfo × ℕ :=
  match files.find? fun file => P.isSameFilename file.name name with
  | some file => (files, file.length)
  | none => (files ++ [⟨name, 0⟩], 0)

/-- Nothing if it returns false or throws. -/
def rotateLogFile (s : FileLogSink) (moment : Moment) : Option FileLogSink := do
  guard moment.handleIsValid
  guard moment.directoryExists
  let lastRotationIndexOnDisk := P.findLatestRotationIndex s.files s.logFileNameBase moment.now
  let nextRotationIndex := if s.rotationIndex < lastRotationIndexOnDisk then lastRotationIndexOnDisk
    else s.rotationIndex + 1
  let logFileName := constructFilename s.logFileNameBase moment.now nextRotationIndex
  guard (moment.opens logFileName)
  let (files, length) := P.openOrCreate s.files logFileName
  return { s with files, rotationIndex := nextRotationIndex, logStreamLength := length }

end Platform

namespace FileLogSink

def isRotateLogFileBasedOnSizeEnabled (s : FileLogSink) : Bool :=
  0 < s.rotateLogFileWhenLargerBytes

/-- The condition of the loop. -/
def mustRotate (s : FileLogSink) : Bool :=
  s.isRotateLogFileBasedOnSizeEnabled &&
    s.rotateLogFileWhenLargerBytes.toInt < (s.logStreamLength : ℤ)

end FileLogSink

namespace Platform

variable (P : Platform)

/-- The loop of `TryWriteToFile`, which calls `RotateLogFile` at the moments given: whether the
line is written then, and the sink. -/
def rotationLoop : ℕ → (ℕ → Moment) → FileLogSink → Option (Bool × FileLogSink)
  | 0, _, _ => none
  | fuel + 1, moments, s =>
    if s.mustRotate then
      match P.rotateLogFile s (moments 0) with
      | some s' => rotationLoop fuel (fun k => moments (k + 1)) s'
      | none => some (false, s)
    else some (true, s)

/-- One rotation of the loop. -/
def rotation (s : FileLogSink) (moment : Moment) : Option FileLogSink :=
  if s.mustRotate then P.rotateLogFile s moment else none

end Platform

end DdTrace.Logging
