import DdTrace.Configuration.SettingValues

/-!
# SamplingPriority and the parsing of tag values

The enum of `SamplingPriority.cs` with the conversion that `Span.SetTag` applies to a tag value:
`Enum.TryParse` followed by `Enum.IsDefined` (`SamplingPriority.tryParse`). The enum has any value
of its underlying type, defined or not.
-/

namespace DdTrace.Trace

open Lib

abbrev SamplingPriority := Int32

namespace SamplingPriority

def userReject : SamplingPriority := -1
def autoReject : SamplingPriority := 0
def autoKeep : SamplingPriority := 1
def userKeep : SamplingPriority := 2
def appSecKeep : SamplingPriority := 4

/-- `Enum.IsDefined` -/
def isDefined (p : SamplingPriority) : Bool :=
  [userReject, autoReject, autoKeep, userKeep, appSecKeep].contains p

/-- The names `Enum.TryParse` knows, compared case-sensitively. -/
def ofName (name : Text) : Option SamplingPriority :=
  if name = text "UserReject" then some userReject
  else if name = text "AutoReject" then some autoReject
  else if name = text "AutoKeep" then some autoKeep
  else if name = text "UserKeep" then some userKeep
  else if name = text "AppSecKeep" then some appSecKeep
  else none

end SamplingPriority

/-- A comma-separated list of names: the bitwise or of the named values. -/
def parseNames : List Text → Option SamplingPriority
  | [] => some 0
  | name :: names => do
    let p ← SamplingPriority.ofName (trim name)
    let rest ← parseNames names
    return p ||| rest

/-- `Enum.TryParse` for this enum: a number, defined or not, or a list of names. -/
def enumTryParse (value : Text) : Option SamplingPriority :=
  match trim value with
  | [] => none
  | c :: cs =>
    let names := parseNames ((c :: cs).splitOn (unit ','))
    if isDigit c ∨ c = unit '-' ∨ c = unit '+' then
      (tryParseInt32 .invariantInfo (c :: cs)).or names
    else names

/-- The guard of the `sampling.priority` case of `Span.SetTag`: parsed and defined. -/
def SamplingPriority.tryParse (value : Option Text) : Option SamplingPriority :=
  value.bind fun v => (enumTryParse v).filter SamplingPriority.isDefined

example : SamplingPriority.tryParse (some (text " UserReject, AutoKeep")) =
    some SamplingPriority.userReject := by decide
example : SamplingPriority.tryParse (some (text "3")) = none := by decide

end DdTrace.Trace
