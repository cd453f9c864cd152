import Mathlib.Data.List.Induction
import DdTrace.Lib.Memo

/-!
# The caches of duck type proxies

`GetOrCreateProxyType` and `GetOrCreateReverseProxyType` share one dictionary keyed by the
definition and the target type; `CreateCache<T>` keeps in front of it, for each definition,
the first result it handed out, for `GetProxy` and `GetReverseProxy` alike. The emission of
a proxy's IL is outside the model: `Runtime.emit` says how it ends.
-/

namespace DdTrace.DuckTyping

open Lib

inductive Direction where
  | forward
  | reverse
  deriving DecidableEq, Repr

structure TypesTuple (α : Type*) where
  proxyDefinitionType : α
  targetType : α
  deriving DecidableEq, Repr

/-- How the emission of a proxy type ends: with the type, with a `DuckTypeException`, or
with another exception. -/
inductive Emitted (ε : Type*) where
  | built
  | duckTypeException (e : ε)
  | exception (e : ε)
  deriving DecidableEq, Repr

/-- The exceptions a creation records. -/
inductive ExceptionInfo (α ε : Type*) where
  | duckType (e : ε)
  | reverseProxyBaseIsStruct (typeToDelegateTo : α)
  | reverseProxyImplementorIsAbstractOrInterface (typeToDeriveFrom : α)
  | wrapped (message : String) (inner : ε)
  deriving DecidableEq, Repr

/-- A generated type: the emission that builds it and the two types it is built for. -/
structure ProxyType (α : Type*) where
  direction : Direction
  types : TypesTuple α
  deriving DecidableEq, Repr

structure CreateTypeResult (α ε : Type*) where
  targetType : Option α
  proxyType : Option (ProxyType α)
  exceptionInfo : Option (ExceptionInfo α ε)
  deriving DecidableEq, Repr

def CreateTypeResult.success {α ε : Type*} (r : CreateTypeResult α ε) : Bool :=
  r.proxyType.isSome && r.exceptionInfo.isNone

/-- What the caches read of the types and of the build. -/
structure Runtime (α ε : Type*) where
  isValueType : α → Bool
  isInterface : α → Bool
  isAbstract : α → Bool
  /-- `Type.IsPublic || Type.IsNestedPublic` -/
  isVisible : α → Bool
  /-- The build for NET45, where `CreateCache<T>` refuses definitions that are not visible. -/
  net45 : Bool
  emit : Direction → TypesTuple α → Emitted ε

variable {α ε : Type*}

/-- The `try` block of the two creations and its handlers. -/
def createdBy (message : String) (direction : Direction) (key : TypesTuple α)
    (emitted : Emitted ε) : CreateTypeResult α ε :=
  match emitted with
  | .built => ⟨some key.targetType, some ⟨direction, key⟩, none⟩
  | .duckTypeException e => ⟨some key.targetType, none, some (.duckType e)⟩
  | .exception e => ⟨some key.targetType, none, some (.wrapped message e)⟩

def createProxyType (rt : Runtime α ε) (key : TypesTuple α) : CreateTypeResult α ε :=
  createdBy "Error creating duck type" .forward key (rt.emit .forward key)

def createReverseProxyType (rt : Runtime α ε) (key : TypesTuple α) : CreateTypeResult α ε :=
  if rt.isValueType key.proxyDefinitionType then
    ⟨some key.targetType, none, some (.reverseProxyBaseIsStruct key.targetType)⟩
  else if rt.isInterface key.targetType || rt.isAbstract key.targetType then
    ⟨some key.targetType, none,
      some (.reverseProxyImplementorIsAbstractOrInterface key.proxyDefinitionType)⟩
  else
    createdBy "Error creating reverse duck type" .reverse key (rt.emit .reverse key)

/-- The result a request in one direction stands for. -/
def create (rt : Runtime α ε) : Direction → TypesTuple α → CreateTypeResult α ε
  | .forward => createProxyType rt
  | .reverse => createReverseProxyType rt

@[simp] theorem create_targetType (rt : Runtime α ε) (direction : Direction)
    (key : TypesTuple α) : (create rt direction key).targetType = some key.targetType := by
  cases direction with
  | forward =>
    simp only [create, createProxyType, createdBy]
    split <;> rfl
  | reverse =>
    simp only [create, createReverseProxyType, createdBy]
    split
    · rfl
    · split
      · rfl
      · split <;> rfl

variable [DecidableEq α]

/-- `DuckTypeCache`, and the `_fastPath` of `CreateCache<T>` for each `T`. -/
structure Caches (α ε : Type*) where
  duckTypeCache : TypesTuple α → Option (CreateTypeResult α ε)
  fastPath : α → CreateTypeResult α ε

/-- `default(CreateTypeResult)` -/
def CreateTypeResult.default : CreateTypeResult α ε := ⟨none, none, none⟩

def Caches.empty : Caches α ε := ⟨fun _ => none, fun _ => .default⟩

def Caches.setFastPath (s : Caches α ε) (definition : α) (r : CreateTypeResult α ε) :
    Caches α ε :=
  { s with fastPath := fun d => if d = definition then r else s.fastPath d }

/-- `GetOrCreateProxyType` and `GetOrCreateReverseProxyType`: the key is the pair of types,
the direction only chooses what is stored when the pair is new. -/
def getOrCreate (rt : Runtime α ε) (direction : Direction) (s : Caches α ε)
    (key : TypesTuple α) : Caches α ε × CreateTypeResult α ε :=
  let (table, r) := Memo.getOrAdd s.duckTypeCache key (create rt direction key)
  ({ s with duckTypeCache := table }, r)

def getOrCreateProxyType (rt : Runtime α ε) := getOrCreate rt .forward

def getOrCreateReverseProxyType (rt : Runtime α ε) := getOrCreate rt .reverse

/-- `DuckTypeTypeIsNotPublicException` -/
structure TypeIsNotPublic (α : Type*) where
  type : α
  deriving DecidableEq, Repr

def Runtime.refuses (rt : Runtime α ε) (definition : α) : Bool :=
  rt.net45 && !rt.isValueType definition && !rt.isVisible definition

/-- `GetProxySlow` and `GetReverseProxySlow`. -/
def getSlow (rt : Runtime α ε) (direction : Direction) (s : Caches α ε) (key : TypesTuple α) :
    Caches α ε × Except (TypeIsNotPublic α) (CreateTypeResult α ε) :=
  if rt.refuses key.proxyDefinitionType then
    (s, .error ⟨key.proxyDefinitionType⟩)
  else
    let (s, r) := getOrCreate rt direction s key
    (s, .ok r)

/-- `CreateCache<T>.GetProxy` and `CreateCache<T>.GetReverseProxy`. -/
def getCached (rt : Runtime α ε) (direction : Direction) (s : Caches α ε)
    (key : TypesTuple α) : Caches α ε × Except (TypeIsNotPublic α) (CreateTypeResult α ε) :=
  let fastPath := s.fastPath key.proxyDefinitionType
  if fastPath.targetType = some key.targetType then
    (s, .ok fastPath)
  else
    match getSlow rt direction s key with
    | (s, .error e) => (s, .error e)
    | (s, .ok r) =>
      if (s.fastPath key.proxyDefinitionType).targetType = none then
        (s.setFastPath key.proxyDefinitionType r, .ok r)
      else
        (s, .ok r)

def getProxy (rt : Runtime α ε) := getCached rt .forward

def getReverseProxy (rt : Runtime α ε) := getCached rt .reverse

/-- A request to one of the four entry points. -/
inductive Request (α : Type*) where
  | getOrCreateProxyType (key : TypesTuple α)
  | getOrCreateReverseProxyType (key : TypesTuple α)
  | getProxy (key : TypesTuple α)
  | getReverseProxy (key : TypesTuple α)
  deriving DecidableEq, Repr

def Request.key : Request α → TypesTuple α
  | .getOrCreateProxyType k | .getOrCreateReverseProxyType k | .getProxy k | .getReverseProxy k => k

def Request.direction : Request α → Direction
  | .getOrCreateProxyType _ | .getProxy _ => .forward
  | .getOrCreateReverseProxyType _ | .getReverseProxy _ => .reverse

def answer (rt : Runtime α ε) (s : Caches α ε) :
    Request α → Caches α ε × Except (TypeIsNotPublic α) (CreateTypeResult α ε)
  | .getOrCreateProxyType k =>
    let (s, r) := getOrCreateProxyType rt s k
    (s, .ok r)
  | .getOrCreateReverseProxyType k =>
    let (s, r) := getOrCreateReverseProxyType rt s k
    (s, .ok r)
  | .getProxy k => getProxy rt s k
  | .getReverseProxy k => getReverseProxy rt s k

/-- The caches after a sequence of requests, from a process start. -/
def after (rt : Runtime α ε) (reqs : List (Request α)) : Caches α ε :=
  reqs.foldl (fun s r => (answer rt s r).1) .empty

/-- A request that ends in `DuckTypeTypeIsNotPublicException` instead of a result. -/
def Request.refused (rt : Runtime α ε) : Request α → Bool
  | .getOrCreateProxyType _ | .getOrCreateReverseProxyType _ => false
  | .getProxy k | .getReverseProxy k => rt.refuses k.proxyDefinitionType

/-! ### The caches hold what the first requests made -/

/-- What a request that is not refused asks the dictionary for. -/
def Request.made (rt : Runtime α ε) (r : Request α) : CreateTypeResult α ε :=
  create rt r.direction r.key

/-- The requests of a sequence that get a result. -/
def served (rt : Runtime α ε) (reqs : List (Request α)) : List (Request α) :=
  reqs.filter fun r => !r.refused rt

/-- The fast path of a definition is unset, or repeats the dictionary's entry for its target
type. -/
def FastPathOk (rt : Runtime α ε) (s : Caches α ε) : Prop :=
  ∀ d t, (s.fastPath d).targetType = some t →
    rt.refuses d = false ∧ s.duckTypeCache ⟨d, t⟩ = some (s.fastPath d)

structure CachesOk (rt : Runtime α ε) (reqs : List (Request α)) (s : Caches α ε) : Prop where
  table : Memo.Holds Request.key (Request.made rt) (served rt reqs) s.duckTypeCache
  fastPath : FastPathOk rt s

variable {rt : Runtime α ε} {s : Caches α ε} {reqs : List (Request α)} {r : Request α}

theorem cachesOk_empty : CachesOk rt [] .empty where
  table := Memo.holds_nil
  fastPath := by
    intro d t h
    cases h

/-- Every stored result carries the target type of its key. -/
theorem CachesOk.targetType (h : CachesOk rt reqs s) {key : TypesTuple α}
    {x : CreateTypeResult α ε} (hx : s.duckTypeCache key = some x) :
    x.targetType = some key.targetType := by
  rw [h.table key, Option.map_eq_some_iff] at hx
  obtain ⟨q, hq, rfl⟩ := hx
  have hk : q.key = key := by simpa using List.find?_some hq
  rw [← hk]
  exact create_targetType rt q.direction q.key

/-- What the cached entry points do: a refusal, or the dictionary's answer with the fast
path of the definition set to it or left as it was. -/
theorem getCached_cases (h : FastPathOk rt s) (direction : Direction) (key : TypesTuple α) :
    (rt.refuses key.proxyDefinitionType = true ∧
      getCached rt direction s key = (s, .error ⟨key.proxyDefinitionType⟩)) ∨
    (rt.refuses key.proxyDefinitionType = false ∧
      ∃ fp, getCached rt direction s key =
          (⟨(Memo.getOrAdd s.duckTypeCache key (create rt direction key)).1, fp⟩,
            .ok (Memo.getOrAdd s.duckTypeCache key (create rt direction key)).2) ∧
        (fp = s.fastPath ∨ fp = fun d => if d = key.proxyDefinitionType then
          (Memo.getOrAdd s.duckTypeCache key (create rt direction key)).2 else s.fastPath d)) := by
  unfold getCached
  by_cases hfp : (s.fastPath key.proxyDefinitionType).targetType = some key.targetType
  · -- the fast path answers: it repeats the dictionary's entry
    obtain ⟨hr, hs⟩ := h _ _ hfp
    refine .inr ⟨hr, s.fastPath, ?_, .inl rfl⟩
    rw [Memo.getOrAdd_stored hs]
    simp only [hfp, if_true]
  · cases hr : rt.refuses key.proxyDefinitionType with
    | true => exact .inl ⟨rfl, by simp [hfp, getSlow, hr]⟩
    | false =>
      refine .inr ⟨rfl, ?_⟩
      simp only [hfp, if_false, getSlow, hr, Bool.false_eq_true, getOrCreate, Caches.setFastPath]
      split
      · exact ⟨_, rfl, .inr rfl⟩
      · exact ⟨_, rfl, .inl rfl⟩

/-- What a request does to the caches and gets from them. -/
theorem answer_cases (h : FastPathOk rt s) (r : Request α) :
    (r.refused rt = true ∧ ∃ e, answer rt s r = (s, .error e)) ∨
    (r.refused rt = false ∧
      ∃ fp, answer rt s r = (⟨(Memo.getOrAdd s.duckTypeCache r.key (r.made rt)).1, fp⟩,
          .ok (Memo.getOrAdd s.duckTypeCache r.key (r.made rt)).2) ∧
        (fp = s.fastPath ∨ rt.refuses r.key.proxyDefinitionType = false ∧
          fp = fun d => if d = r.key.proxyDefinitionType then
            (Memo.getOrAdd s.duckTypeCache r.key (r.made rt)).2 else s.fastPath d)) := by
  cases r with
  | getOrCreateProxyType k => exact .inr ⟨rfl, s.fastPath, rfl, .inl rfl⟩
  | getOrCreateReverseProxyType k => exact .inr ⟨rfl, s.fastPath, rfl, .inl rfl⟩
  | getProxy k =>
    obtain ⟨hr, he⟩ | ⟨hr, fp, he, hfp⟩ := getCached_cases h .forward k
    · exact .inl ⟨hr, _, he⟩
    · exact .inr ⟨hr, fp, he, hfp.imp id fun e => ⟨hr, e⟩⟩
  | getReverseProxy k =>
    obtain ⟨hr, he⟩ | ⟨hr, fp, he, hfp⟩ := getCached_cases h .reverse k
    · exact .inl ⟨hr, _, he⟩
    · exact .inr ⟨hr, fp, he, hfp.imp id fun e => ⟨hr, e⟩⟩

omit [DecidableEq α] in
theorem served_snoc (rt : Runtime α ε) (reqs : List (Request α)) (r : Request α) :
    served rt (reqs ++ [r]) = served rt reqs ++ if r.refused rt then [] else [r] := by
  cases hr : r.refused rt <;> simp [served, hr]

theorem CachesOk.answer (h : CachesOk rt reqs s) (r : Request α) :
    CachesOk rt (reqs ++ [r]) (answer rt s r).1 := by
  obtain ⟨hr, e, he⟩ | ⟨hr, fp, he, hfp⟩ := answer_cases h.fastPath r
  · rw [he]
    refine ⟨?_, h.fastPath⟩
    simpa [served_snoc, hr] using h.table
  · rw [he]
    have htable := h.table.getOrAdd r
    refine ⟨by simpa [served_snoc, hr] using htable, ?_⟩
    -- an entry the old fast path repeats is still in the dictionary
    have hkept : ∀ d t, (s.fastPath d).targetType = some t → rt.refuses d = false ∧
        (Memo.getOrAdd s.duckTypeCache r.key (r.made rt)).1 ⟨d, t⟩ = some (s.fastPath d) := by
      intro d t ht
      obtain ⟨hd, hs⟩ := h.fastPath d t ht
      exact ⟨hd, Memo.getOrAdd_keeps hs _ _⟩
    obtain rfl | ⟨hd, rfl⟩ := hfp
    · exact hkept
    · intro d t ht
      by_cases hdef : d = r.key.proxyDefinitionType
      · subst hdef
        simp only [if_true] at ht ⊢
        -- the new fast path is the entry of its own target type
        have hat := Memo.getOrAdd_at s.duckTypeCache r.key (r.made rt)
        have hok : CachesOk rt (reqs ++ [r])
            ⟨(Memo.getOrAdd s.duckTypeCache r.key (r.made rt)).1, s.fastPath⟩ :=
          ⟨by simpa [served_snoc, hr] using htable, hkept⟩
        rw [hok.targetType hat, Option.some_inj] at ht
        subst ht
        exact ⟨hd, hat⟩
      · simp only [hdef, if_false] at ht ⊢
        exact hkept d t ht

theorem after_snoc (rt : Runtime α ε) (reqs : List (Request α)) (r : Request α) :
    after rt (reqs ++ [r]) = (DuckTyping.answer rt (after rt reqs) r).1 := by
  simp [after]

theorem cachesOk_after (rt : Runtime α ε) (reqs : List (Request α)) :
    CachesOk rt reqs (after rt reqs) := by
  induction reqs using List.reverseRecOn with
  | nil => exact cachesOk_empty
  | append_singleton reqs r ih =>
    rw [after_snoc]
    exact ih.answer r

/-! ### When answers do not depend on the requests before -/

/-- Every result a request of the sequence gets is the one its direction, definition and
target type stand for. -/
def Coherent (rt : Runtime α ε) (reqs : List (Request α)) : Prop :=
  ∀ pre r post x, reqs = pre ++ r :: post →
    (answer rt (after rt pre) r).2 = .ok x → x = create rt r.direction r.key

/-- Both emissions fail, with one `DuckTypeException`, and no guard of the reverse creation
applies. -/
def FailAlike (rt : Runtime α ε) (key : TypesTuple α) : Prop :=
  rt.isValueType key.proxyDefinitionType = false ∧ rt.isInterface key.targetType = false ∧
    rt.isAbstract key.targetType = false ∧
    ∃ e, rt.emit .forward key = .duckTypeException e ∧ rt.emit .reverse key = .duckTypeException e

omit [DecidableEq α] in
theorem create_forward_eq_reverse (rt : Runtime α ε) (key : TypesTuple α) :
    create rt .forward key = create rt .reverse key ↔ FailAlike rt key := by
  show createProxyType rt key = createReverseProxyType rt key ↔ FailAlike rt key
  unfold FailAlike createReverseProxyType createProxyType
  cases hv : rt.isValueType key.proxyDefinitionType with
  | true => cases rt.emit .forward key <;> simp [createdBy]
  | false =>
    by_cases ha : rt.isInterface key.targetType || rt.isAbstract key.targetType
    · have : ¬ (rt.isInterface key.targetType = false ∧ rt.isAbstract key.targetType = false) := by
        rintro ⟨h1, h2⟩
        simp [h1, h2] at ha
      cases rt.emit .forward key <;> simp_all [createdBy]
    · obtain ⟨h1, h2⟩ : rt.isInterface key.targetType = false ∧
          rt.isAbstract key.targetType = false := by
        simpa using ha
      simp only [h1, h2, Bool.or_self, Bool.false_eq_true, if_false, true_and]
      cases rt.emit .forward key <;> cases rt.emit .reverse key <;> simp [createdBy]
      exact eq_comm

omit [DecidableEq α] in
theorem create_eq_iff (rt : Runtime α ε) (d d' : Direction) (key : TypesTuple α) :
    create rt d key = create rt d' key ↔ d = d' ∨ FailAlike rt key := by
  cases d <;> cases d'
  · simp
  · simpa using create_forward_eq_reverse rt key
  · simpa [eq_comm] using create_forward_eq_reverse rt key
  · simp

/-- A request that is not refused gets what the first request of the sequence with its key
made. -/
theorem answer_eq_first {pre post : List (Request α)} (hr : r.refused rt = false)
    (e : reqs = pre ++ r :: post) {q : Request α}
    (hq : (served rt reqs).find? (fun q => decide (q.key = r.key)) = some q) :
    (answer rt (after rt pre) r).2 = .ok (q.made rt) := by
  have hok := cachesOk_after rt pre
  obtain ⟨hr', -⟩ | ⟨-, fp, he, -⟩ := answer_cases hok.fastPath r
  · rw [hr] at hr'
    cases hr'
  · rw [he]
    have hsplit : served rt reqs = (served rt pre ++ [r]) ++ served rt post := by
      rw [e]
      simp [served, hr]
    have hfirst : (served rt pre ++ [r]).find? (fun q => decide (q.key = r.key)) = some q := by
      rw [hsplit, List.find?_append] at hq
      cases hf : (served rt pre ++ [r]).find? (fun q => decide (q.key = r.key)) with
      | some p =>
        rw [hf] at hq
        exact hq
      | none =>
        rw [List.find?_eq_none] at hf
        exact absurd (by simp) (hf r (by simp))
    exact congrArg _ (hok.table.answer_eq hfirst)

/-- A sequence of requests is answered coherently exactly when no two of its requests ask
for one pair of types in different directions, pairs that fail alike apart. -/
theorem coherent_iff (rt : Runtime α ε) (reqs : List (Request α)) :
    Coherent rt reqs ↔ ∀ r ∈ reqs, ∀ r' ∈ reqs, r.refused rt = false → r'.refused rt = false →
      r.key = r'.key → r.direction = r'.direction ∨ FailAlike rt r.key := by
  constructor
  · intro h r hr r' hr' hs hs' hk
    obtain ⟨q, hq⟩ : ∃ q, (served rt reqs).find? (fun q => decide (q.key = r.key)) = some q := by
      rw [← Option.isSome_iff_exists, List.find?_isSome]
      exact ⟨r, by simp [served, hr, hs], by simp⟩
    -- both requests get what the first request with their key made
    obtain ⟨pre, post, e⟩ := List.append_of_mem hr
    obtain ⟨pre', post', e'⟩ := List.append_of_mem hr'
    have h1 := h pre r post _ e (answer_eq_first hs e hq)
    have h2 := h pre' r' post' _ e' (answer_eq_first hs' e' (by rw [← hk]; exact hq))
    rw [← create_eq_iff, ← h1, h2, hk]
  · intro h pre r post x e hx
    have hok := cachesOk_after rt pre
    obtain ⟨-, err, he⟩ | ⟨hr, fp, he, -⟩ := answer_cases hok.fastPath r
    · rw [he] at hx
      cases hx
    · rw [he] at hx
      cases hx
      obtain ⟨q, hq, hk, hv⟩ := hok.table.exists_answer r
      rw [hv]
      have hqs : q ∈ reqs ∧ q.refused rt = false := by
        rw [e]
        simp only [served, List.mem_append, List.mem_filter, List.mem_singleton] at hq
        obtain ⟨hm, hn⟩ | rfl := hq
        · exact ⟨by simp [hm], by simpa using hn⟩
        · exact ⟨by simp, hr⟩
      have hrr : r ∈ reqs := by simp [e]
      have hd := h q hqs.1 r hrr hqs.2 hr hk
      unfold Request.made
      rw [hk] at hd ⊢
      exact (create_eq_iff rt _ _ _).2 hd

/-- Types `0` (an interface) and `1` (a public class), whose proxies can be built either
way. -/
def sampleRuntime : Runtime Nat Unit where
  isValueType := fun _ => false
  isInterface := fun t => t == 0
  isAbstract := fun t => t == 0
  isVisible := fun _ => true
  net45 := false
  emit := fun _ _ => .built

/-- A reverse request after a forward one for the same pair gets the forward proxy. -/
theorem reverse_gets_forward_proxy :
    ¬ Coherent sampleRuntime [.getOrCreateProxyType ⟨0, 1⟩, .getOrCreateReverseProxyType ⟨0, 1⟩] := by
  intro h
  have := h [.getOrCreateProxyType ⟨0, 1⟩] (.getOrCreateReverseProxyType ⟨0, 1⟩) []
    (create sampleRuntime .forward ⟨0, 1⟩) rfl (by decide)
  exact absurd this (by decide)

end DdTrace.DuckTyping
