import DdTrace.Util.HttpRequest

/-!
# What the firewall sees

`PrepareArgsForWaf` of ASP.NET Core hands over every header, cookie and parameter of a request
(`Inspected`). That of .NET Framework throws if a cookie is listed twice or a cookie or a parameter
has no name, and takes one value for the cookies whose names differ in case.
-/

namespace DdTrace.Util.Http

open DdTrace.Lib

/-! ### Loops -/

section

variable {α ν : Type} {entry : α → Option (Text × ν)} {g : α → Text × ν} {keys : List α}
  {d : Dictionary Text ν}

end

/-! ### Values -/

mutual

theorem convertPairs_isSome (casing : Casing) : ∀ values, valuesDistinct casing values →
    ∃ pairs, convertPairs values = some pairs ∧ pairs.map Prod.fst = values.map Prod.fst
  | [], _ => ⟨[], by rw [convertPairs], rfl⟩
  | (k, v) :: values, h => by
    rw [valuesDistinct] at h
    obtain ⟨hk, hv, hvalues⟩ := h
    obtain ⟨object, hobject⟩ := convertValue_isSome casing v hv
    obtain ⟨pairs, hpairs, hkeys⟩ := convertPairs_isSome casing values hvalues
    have hnew : k ∉ pairs.map Prod.fst := by
      rw [hkeys]
      intro hmem
      obtain ⟨p, hp, rfl⟩ := List.mem_map.1 hmem
      exact hk (List.mem_map_of_mem (f := fun p => casing.fold p.1) hp)
    refine ⟨(k, object) :: pairs, ?_, by rw [List.map_cons, List.map_cons, hkeys]⟩
    rw [convertPairs, hobject, hpairs]
    exact if_neg hnew

theorem convertValue_isSome (casing : Casing) : ∀ value, valueDistinct casing value →
    ∃ object, convertValue value = some object
  | .object text, _ => ⟨.string text, by rw [convertValue]⟩
  | .list routeDataList, h => by
    rw [valueDistinct] at h
    obtain ⟨objects, hobjects⟩ := convertRouteValueList_isSome casing routeDataList h
    exact ⟨.list objects, by rw [convertValue, hobjects, Option.map_some]⟩

theorem convertRouteValueList_isSome (casing : Casing) : ∀ routeDataList,
    listDistinct casing routeDataList →
    ∃ objects, convertRouteValueList routeDataList = some objects
  | [], _ => ⟨[], by rw [convertRouteValueList]⟩
  | values :: routeDataList, h => by
    rw [listDistinct] at h
    obtain ⟨pairs, hpairs, -⟩ := convertPairs_isSome casing values h.1
    obtain ⟨objects, hobjects⟩ := convertRouteValueList_isSome casing routeDataList h.2
    exact ⟨.dictionary pairs :: objects, by rw [convertRouteValueList, hpairs, hobjects]; rfl⟩

end

/-! ### The arguments -/

variable {casing : Casing}

/-! ### ASP.NET Core -/

def asciiCasing : Casing := ⟨fun c => if unit 'a' ≤ c && c ≤ unit 'z' then c - 0x20 else c⟩

end DdTrace.Util.Http
