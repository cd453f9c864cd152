import DdTrace.Lib.Dictionary
import DdTrace.Lib.Text

/-!
# `PrepareArgsForWaf`

What a request hands to the firewall (HttpRequestExtensions and HttpRequestUtils), in the versions
for .NET Framework and for ASP.NET Core. The collections of a request have rules of their own:
names that differ in case are one name to all of them, a query string can have a parameter without
a name, and a cookie can have none or be listed more than once. The dictionaries they are copied to
take a key once and no null.
-/

namespace DdTrace.Util.Http

open DdTrace.Lib

/-- The upper case that `OrdinalIgnoreCase` compares. -/
structure Casing where
  toUpperOrdinal : UInt16 → UInt16

def Casing.fold (casing : Casing) (s : Text) : Text := s.map casing.toUpperOrdinal

/-- `ToLowerInvariant` of a string of ASCII. -/
def toLowerInvariant (s : Text) : Text := s.map toLowerAscii

/-! ### The collections of a request -/

/-- Headers with the values of each; a name is a token of ASCII. -/
structure Headers where
  entries : List (Text × List Text)
  ascii : ∀ e ∈ entries, ∀ c ∈ e.1, c < 0x80
  distinct : (entries.map fun e => toLowerInvariant e.1).Nodup

/-- Several values in one string, null if there are none. -/
def joinValues : List Text → Option Text
  | [] => none
  | values => some ([unit ','].intercalate values)

def Headers.keys (headers : Headers) : List Text := headers.entries.map Prod.fst

def Headers.get (headers : Headers) (k : Text) : Option Text :=
  (headers.entries.find? fun e => toLowerInvariant e.1 = toLowerInvariant k).bind
    fun e => joinValues e.2

/-- The parameters of a query string with the values of each; the name of one without a name is
null. -/
structure NameValueCollection (casing : Casing) where
  entries : List (Option Text × List Text)
  distinct : (entries.map fun e => e.1.map casing.fold).Nodup

namespace NameValueCollection

variable {casing : Casing}

def get (collection : NameValueCollection casing) (k : Option Text) : Option Text :=
  (collection.entries.find? fun e => e.1.map casing.fold = k.map casing.fold).bind
    fun e => joinValues e.2

end NameValueCollection

inductive RouteValue where
  /-- An object that is not a list of route data, or null, with what `ToString` makes of it. -/
  | object (text : Option Text)
  | list (routeDataList : List (List (Text × RouteValue)))

mutual

/-- The keys of a `RouteValueDictionary` are distinct, here and in the lists among its values. -/
def valuesDistinct (casing : Casing) : List (Text × RouteValue) → Prop
  | [] => True
  | (k, v) :: values =>
    casing.fold k ∉ values.map (fun p => casing.fold p.1) ∧ valueDistinct casing v ∧
      valuesDistinct casing values

def valueDistinct (casing : Casing) : RouteValue → Prop
  | .object _ => True
  | .list routeDataList => listDistinct casing routeDataList

def listDistinct (casing : Casing) : List (List (Text × RouteValue)) → Prop
  | [] => True
  | values :: routeDataList => valuesDistinct casing values ∧ listDistinct casing routeDataList

end

/-- What route values are converted to. -/
inductive RouteObject where
  | string (text : Option Text)
  | list (objects : List RouteObject)
  | dictionary (pairs : List (Text × RouteObject))

mutual

/-- `ToDictionary`, with `none` for the exception at a key that is met twice. -/
def convertPairs : List (Text × RouteValue) → Option (List (Text × RouteObject))
  | [] => some []
  | (k, v) :: values => do
    let object ← convertValue v
    let pairs ← convertPairs values
    if k ∈ pairs.map Prod.fst then none else some ((k, object) :: pairs)

def convertValue : RouteValue → Option RouteObject
  | .object text => some (.string text)
  | .list routeDataList => (convertRouteValueList routeDataList).map .list

def convertRouteValueList : List (List (Text × RouteValue)) → Option (List RouteObject)
  | [] => some []
  | values :: routeDataList => do
    let pairs ← convertPairs values
    let objects ← convertRouteValueList routeDataList
    return .dictionary pairs :: objects

end

namespace CoreRequest

variable {casing : Casing}

end CoreRequest

end DdTrace.Util.Http
