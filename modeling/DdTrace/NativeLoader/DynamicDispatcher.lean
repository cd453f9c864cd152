import DdTrace.Lib.Throwing

/-!
# The loader's configuration file

`DynamicDispatcherImpl::LoadConfiguration` with `Trim`, `Split` and `make_guid`. Strings are
lists of characters. A read past the end of the fields of a line is a result of its own,
`outOfRange`, beside an exception that escapes. `std::filesystem` is a parameter; its functions
work from the current path of the process.
-/

namespace DdTrace.NativeLoader

open Lib Lib.Throwing

/-! ### `Trim` and `make_guid` -/

def whiteSpaceChars : List Char := [' ', '\x0c', '\n', '\r', '\t', '\x0b']

/-- A string of white space has no first character to start from, and stays as it is. -/
def trim (str : List Char) : List Char :=
  if str.all whiteSpaceChars.contains then str
  else ((str.dropWhile whiteSpaceChars.contains).reverse.dropWhile whiteSpaceChars.contains).reverse

structure GUID where
  data1 : ℕ
  data2 : ℕ
  data3 : ℕ
  data4 : List ℕ
  deriving DecidableEq, Repr

def parseHexDigit (c : Char) : Option ℕ :=
  if '0' ≤ c ∧ c ≤ '9' then some (c.toNat - '0'.toNat)
  else if 'a' ≤ c ∧ c ≤ 'f' then some (10 + c.toNat - 'a'.toNat)
  else if 'A' ≤ c ∧ c ≤ 'F' then some (10 + c.toNat - 'A'.toNat)
  else none

def parseHex (digits : ℕ) (ptr : List Char) : Option ℕ :=
  (ptr.take digits).foldlM (fun result c => (parseHexDigit c).map (16 * result + ·)) 0

/-- What stands between the groups of digits is stepped over. -/
def makeGuidHelper (ptr : List Char) : Option GUID := do
  let data1 ← parseHex 8 ptr
  let ptr := ptr.drop (8 + 1)
  let data2 ← parseHex 4 ptr
  let ptr := ptr.drop (4 + 1)
  let data3 ← parseHex 4 ptr
  let ptr := ptr.drop (4 + 1)
  let first ← parseHex 2 ptr
  let ptr := ptr.drop 2
  let second ← parseHex 2 ptr
  let ptr := ptr.drop (2 + 1)
  let rest ← (List.range 6).mapM fun i => parseHex 2 (ptr.drop (i * 2))
  some ⟨data1, data2, data3, first :: second :: rest⟩

def shortGuidFormLength : ℕ := 36
def longGuidFormLength : ℕ := 38

/-- `none` where it throws. -/
def makeGuid (str : List Char) : Option GUID :=
  if str.length = longGuidFormLength then
    if str[0]? ≠ some '\x7b' ∨ str[longGuidFormLength - 1]? ≠ some '\x7d' then none
    else makeGuidHelper (str.drop 1)
  else if str.length = shortGuidFormLength then makeGuidHelper str
  else none

/-! ### `LoadConfiguration` -/

abbrev Path := List Char

/-- The file system, each function after the first path as the current path; `none` is an
exception. -/
structure FileSystem where
  fileExists : Path → Path → Option Bool
  /-- What a stream on the file reads. -/
  text : Path → Path → List Char
  removeFilename : Path → Path
  absolute : Path → Path → Option Path
  getCurrentPath : Path → Option Path
  /-- The current path when it is set to the second one. -/
  setCurrentPath : Path → Path → Option Path
  /-- The path that was asked for leads back. -/
  setCurrentPath_getCurrentPath : ∀ {old path current new}, getCurrentPath old = some path →
    setCurrentPath current path = some new → new = old

structure DynamicInstanceImpl where
  filepath : Path
  clsid : GUID
  deriving DecidableEq, Repr

/-- The profilers that a configuration can have. -/
inductive Slot where
  | tracer
  | profiler
  | custom
  deriving DecidableEq, Repr

namespace Slot

def ofType (type : List Char) : Option Slot :=
  if type = "TRACER".toList then some .tracer
  else if type = "PROFILER".toList then some .profiler
  else if type = "CUSTOM".toList then some .custom
  else none

def envKey : Slot → List Char
  | .tracer => "DD_INTERNAL_TRACE_NATIVE_ENGINE_PATH".toList
  | .profiler => "DD_INTERNAL_PROFILING_NATIVE_ENGINE_PATH".toList
  | .custom => "DD_INTERNAL_CUSTOM_CLR_PROFILER_PATH".toList

end Slot

/-- The dispatcher's instances and what else `LoadConfiguration` changes in the process: the
current path, and the environment variables it sets, in order. -/
structure Process where
  instances : Slot → Option DynamicInstanceImpl
  currentPath : Path
  environment : List (List Char × Path)

inductive LoadError where
  | exception
  | outOfRange
  deriving DecidableEq, Repr

/-- An instance and the slot it is for. -/
abbrev Entry := Slot × DynamicInstanceImpl

namespace Process

/-- The dispatcher new. -/
def new (currentPath : Path) (environment : List (List Char × Path)) : Process :=
  ⟨fun _ => none, currentPath, environment⟩

/-- `make_unique` into the slot, then `SetEnvironmentValue`. -/
def load (s : Process) (e : Entry) : Process :=
  { s with
    instances := fun slot => if slot = e.1 then some e.2 else s.instances slot
    environment := s.environment ++ [(e.1.envKey, e.2.filepath)] }

end Process

/-- A call that may throw. -/
def orThrow {α : Type} : Option α → Except LoadError α
  | none => .error .exception
  | some a => .ok a

def field (lineArray : List (List Char)) (i : ℕ) : Except LoadError (List Char) :=
  match lineArray[i]? with
  | none => .error .outOfRange
  | some f => .ok f

/-- The body of the loop once it has the fields. -/
def readFields (fs : FileSystem) (currentOsArch : List Char) (currentPath : Path)
    (type idValue osArchValue filepathValue : List Char) : Except LoadError (Option Entry) :=
  match Slot.ofType type with
  | none => .ok none
  | some slot =>
    if osArchValue = currentOsArch then do
      let absoluteFilepathValue ← orThrow (fs.absolute currentPath filepathValue)
      if ← orThrow (fs.fileExists currentPath absoluteFilepathValue) then do
        let clsid ← orThrow (makeGuid idValue)
        .ok (some (slot, ⟨absoluteFilepathValue, clsid⟩))
      else .ok none
    else .ok none

/-- What the body of the loop computes from a line. A number of fields other than 4 is logged. -/
def readLine (fs : FileSystem) (currentOsArch : List Char) (currentPath : Path)
    (line : List Char) : Except LoadError (Option Entry) :=
  let line := trim line
  if line = [] ∨ line.head? = some '#' then .ok none
  else do
    let lineArray := line.splitOn ';'
    let type ← field lineArray 0
    let idValue ← field lineArray 1
    let osArchValue ← field lineArray 2
    let filepathValue ← field lineArray 3
    readFields fs currentOsArch currentPath type idValue osArchValue filepathValue

def loadLine (fs : FileSystem) (currentOsArch line : List Char) :
    Throwing LoadError Process Unit := do
  let s ← get
  match readLine fs currentOsArch s.currentPath line with
  | .error e => throw e
  | .ok none => pure ()
  | .ok (some e) => modify (·.load e)

def changePath (fs : FileSystem) (path : Path) : Throwing LoadError Process Unit := do
  let s ← get
  match fs.setCurrentPath s.currentPath path with
  | none => throw .exception
  | some new => modify fun s => { s with currentPath := new }

/-- The calls of `getline`; a last one that finds nothing leaves an empty line. -/
def linesOf (text : List Char) : List (List Char) := text.splitOn '\n'

def loadConfiguration (fs : FileSystem) (currentOsArch : List Char) (configFilePath : Path) :
    Throwing LoadError Process Unit := do
  let s ← get
  match fs.fileExists s.currentPath configFilePath with
  | none => throw .exception
  | some false => pure ()
  | some true =>
    let text := fs.text s.currentPath configFilePath
    let configFolder := fs.removeFilename configFilePath
    match fs.getCurrentPath s.currentPath with
    | none => throw .exception
    | some oldCurrentPath =>
      changePath fs configFolder
      forM (linesOf text) (loadLine fs currentOsArch)
      changePath fs oldCurrentPath

end DdTrace.NativeLoader
