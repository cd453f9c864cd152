import DdTrace.CallTarget.WrapperSoundness

/-!
# Runs of the begin wrappers

What the code of a begin wrapper does with the arguments, up to the call of `OnMethodBegin`. The
fast wrapper gets the arguments themselves; the slow one finds them, boxed, in an array, and
converts them by their own types. The values that the pieces leave are `fastValues` and
`slowValues` (`run_writeArguments`, `run_writeElements`).
-/

namespace DdTrace.CallTarget.IntegrationMapper

open Lib

variable {Typ : Type}

/-- The runtime types, with `Nullable.GetUnderlyingType`. -/
structure ValueTypes (Typ : Type) extends RuntimeTypes Typ where
  nullableOf : Typ → Option Typ
  isEnum_of_nullableOf : ∀ t u, nullableOf t = some u → isEnum t = false
  nullableOf_enumUnderlyingType : ∀ t, isEnum t → nullableOf (enumUnderlyingType t) = none
  isValueType_of_nullableOf : ∀ t u, nullableOf t = some u → isValueType t
  isAssignableFrom_nullableOf : ∀ t u, nullableOf t = some u → isAssignableFrom t u
  isAssignableFrom_trans : ∀ t s r, isAssignableFrom t s → isAssignableFrom s r →
    isAssignableFrom t r

/-! ### Values -/

inductive Value (Typ : Type) where
  | null
  | reference (t : Typ) (id : ℕ)
  | plain (t : Typ) (content : ℕ)
  /-- A value of the nullable type over `t`. -/
  | nullable (t : Typ) (content : Option ℕ)
  | boxed (t : Typ) (content : ℕ)
  /-- A duck type over an object. -/
  | proxy (proxyType : Typ) (target : Value Typ)
  deriving DecidableEq

namespace Value

/-- The value as an object. -/
def box : Value Typ → Value Typ
  | plain t content => boxed t content
  | nullable _ none => null
  | nullable t (some content) => boxed t content
  | v => v

/-- `GetType()`, of an object. -/
def getType : Value Typ → Option Typ
  | reference t _ => some t
  | boxed t _ => some t
  | proxy proxyType _ => some proxyType
  | _ => none

/-- A value that a variable of the type may have. A duck type is passed as an object. -/
inductive HasType (R : ValueTypes Typ) : Value Typ → Typ → Prop
  | null {t : Typ} : R.isValueType t = false → HasType R null t
  | reference {t s : Typ} {id : ℕ} :
      R.isValueType t = false → R.isAssignableFrom t s → HasType R (reference s id) t
  | boxed {t s : Typ} {content : ℕ} :
      R.isValueType t = false → R.isAssignableFrom t s → HasType R (boxed s content) t
  | proxy {t proxyType : Typ} {target : Value Typ} :
      R.isValueType t = false → R.isAssignableFrom t proxyType →
      HasType R (proxy proxyType target) t
  | plain {t : Typ} {content : ℕ} :
      R.isValueType t → R.nullableOf t = none → HasType R (plain t content) t
  | nullable {t u : Typ} {content : Option ℕ} :
      R.nullableOf t = some u → HasType R (nullable u content) t

theorem box_box (v : Value Typ) : v.box.box = v.box := by
  cases v with
  | nullable t content =>
    cases content with
    | none => rfl
    | some c => rfl
  | _ => rfl

end Value

/-! ### Runs -/

inductive RunException where
  | invalidProgram
  | nullReference
  | invalidCast
  | indexOutOfRange
  | duckType
  deriving DecidableEq

/-- What stands on the stack, and what an argument is. -/
inductive Item (Typ : Type) where
  | value (v : Value Typ)
  | array (elements : List (Value Typ))
  | int32 (n : ℕ)

/-- Up to the call of the integration's method, and after it, with what it got. -/
inductive Control (Typ : Type) where
  | running (stack : List (Item Typ))
  | invoked (callee : Callee Typ) (arguments : List (Item Typ))

section

variable [DecidableEq Typ] (R : ValueTypes Typ)

/-- `unbox.any` of a value type. -/
def unboxAny (t : Typ) (v : Value Typ) : Except RunException (Value Typ) :=
  match R.nullableOf t, v with
  | some u, .null => .ok (.nullable u none)
  | some u, .boxed s content =>
    if s = u then .ok (.nullable u (some content)) else .error .invalidCast
  | none, .null => .error .nullReference
  | none, .boxed s content =>
    if underlying R.toRuntimeTypes s = underlying R.toRuntimeTypes t then .ok (.plain t content)
    else .error .invalidCast
  | _, _ => .error .invalidCast

/-- `ConvertType<T>`; a constraint is a class or an interface. -/
def convertType (t : Typ) (v : Value Typ) : Except RunException (Value Typ) :=
  if v = .null ∨ t = R.object then .ok v
  else
    match v.getType with
    | none => .error .invalidProgram
    | some valueType =>
      if valueType = t ∨ R.isAssignableFrom t valueType then .ok v
      else
        match R.getOrCreateProxyType t valueType with
        | some proxyType => .ok (.proxy proxyType v)
        | none => .error .duckType

def step (arguments : List (Item Typ)) :
    Control Typ → Instr (Op Typ) → Except RunException (Control Typ)
  | .invoked callee values, _ => .ok (.invoked callee values)
  | .running s, .op (.ldarg i) =>
    match arguments[i]? with
    | some a => .ok (.running (a :: s))
    | none => .error .invalidProgram
  | .running s, .op (.ldargS i) =>
    match arguments[i]? with
    | some a => if i < 256 then .ok (.running (a :: s)) else .error .invalidProgram
    | none => .error .invalidProgram
  | .running s, .op (.ldcI4 n) => .ok (.running (.int32 n :: s))
  | .running (.int32 n :: .array elements :: s), .op .ldelemRef =>
    match elements[n]? with
    | some v => .ok (.running (.value v :: s))
    | none => .error .indexOutOfRange
  | .running (.value v :: s), .op (.box _) => .ok (.running (.value v.box :: s))
  | .running (.value v :: s), .op (.unboxAny t) =>
    (unboxAny R t v).map fun v => .running (.value v :: s)
  | .running (.value v :: s), .op (.newobj proxyType _) =>
    .ok (.running (.value (.proxy proxyType v.box) :: s))
  | .running (.value v :: s), .op (.call (.convertType t)) =>
    (convertType R t v).map fun v => .running (.value v :: s)
  | .running s, .op (.call (.onMethod method typeArguments)) =>
    .ok (.invoked (.onMethod method typeArguments) s.reverse)
  | _, _ => .error .invalidProgram

def run (arguments : List (Item Typ)) (code : List (Instr (Op Typ))) (c : Control Typ) :
    Except RunException (Control Typ) :=
  code.foldlM (step R arguments) c

/-- What the method gets from the wrapper. -/
def DynamicMethod.invoke (w : DynamicMethod Typ) (arguments : List (Item Typ)) :
    Except RunException (Control Typ) :=
  run R arguments w.code (.running [])

/-- The value, or a duck type of the static type over it. -/
def passedValue (constraint : Option Typ) (sourceType : Typ) (v : Value Typ) : Value Typ :=
  match constraint.bind (R.getOrCreateProxyType · sourceType) with
  | some proxyType => .proxy proxyType v.box
  | none => v

/-- What the fast wrapper passes for the parameters. -/
def fastValues (method : MethodInfo Typ) :
    List (SignatureType Typ) → List Typ → List (Value Typ) → List (Value Typ)
  | parameter :: parameters, sourceType :: sourceTypes, v :: values =>
    passedValue R (method.argumentConstraint R.toRuntimeTypes parameter) sourceType v ::
      fastValues method parameters sourceTypes values
  | _, _, _ => []

/-- What becomes of an element of the array. -/
def convertElement (method : MethodInfo Typ) (parameter : SignatureType Typ) (v : Value Typ) :
    Except RunException (Value Typ) :=
  match method.argumentConstraint R.toRuntimeTypes parameter with
  | some constraint => convertType R constraint v
  | none =>
    match (parameter.closed? R.toRuntimeTypes).filter fun t => R.isValueType t with
    | some t => unboxAny R t v
    | none => .ok v

/-- What the slow wrapper passes for the parameters. -/
def slowValues (method : MethodInfo Typ) :
    List (SignatureType Typ) → List (Value Typ) → Except RunException (List (Value Typ))
  | parameter :: parameters, v :: values => do
    let v ← convertElement R method parameter v
    return v :: (← slowValues method parameters values)
  | _, _ => .ok []

end

/-! ### Pieces -/

section

variable [DecidableEq Typ] {R : ValueTypes Typ} {arguments : List (Item Typ)}
  {code code' : List (Instr (Op Typ))} {c c' : Control Typ} {method : MethodInfo Typ}
  {s : List (Item Typ)} {v : Value Typ} {constraint : Option Typ} {sourceType : Typ}
  {parameter : SignatureType Typ}

theorem run_append (code code' : List (Instr (Op Typ))) (c : Control Typ) :
    run R arguments (code ++ code') c = run R arguments code c >>= run R arguments code' :=
  List.foldlM_append ..

theorem run_cons (i : Instr (Op Typ)) (code : List (Instr (Op Typ))) (c : Control Typ) :
    run R arguments (i :: code) c = step R arguments c i >>= run R arguments code :=
  List.foldlM_cons ..

theorem run_append_of_ok (h : run R arguments code c = .ok c') :
    run R arguments (code ++ code') c = run R arguments code' c' := by
  rw [run_append, h]
  rfl

theorem run_writeCreateNewProxyInstance (proxyType targetType : Typ) :
    run R arguments (writeCreateNewProxyInstance R.toRuntimeTypes proxyType targetType)
      (.running (.value v :: s)) = .ok (.running (.value (.proxy proxyType v.box) :: s)) := by
  rw [writeCreateNewProxyInstance]
  split
  · show Except.ok (Control.running (.value (.proxy proxyType v.box.box) :: s)) = _
    rw [Value.box_box]
  · rfl

theorem run_writeValue {load : Instr (Op Typ)}
    (h : step R arguments (.running s) load = .ok (.running (.value v :: s))) :
    run R arguments (writeValue R.toRuntimeTypes load constraint sourceType) (.running s)
      = .ok (.running (.value (passedValue R constraint sourceType v) :: s)) := by
  rw [writeValue, passedValue]
  cases constraint.bind (R.getOrCreateProxyType · sourceType) with
  | none =>
    rw [run_cons, h]
    rfl
  | some proxyType =>
    rw [run_cons, h]
    exact run_writeCreateNewProxyInstance proxyType sourceType

theorem step_writeLoadArgument {i : ℕ} {isStatic : Bool}
    (h : arguments[if isStatic then i else i + 1]? = some (.value v))
    (hlt : (if isStatic then i else i + 1) < 256) :
    step R arguments (.running s) (writeLoadArgument i isStatic)
      = .ok (.running (.value v :: s)) := by
  unfold writeLoadArgument
  generalize (if isStatic then i else i + 1) = index at h hlt ⊢
  by_cases hshort : index < 4
  · rw [if_pos hshort, step, h]
  · rw [if_neg hshort, step, h]
    exact if_pos hlt

/-- The fast wrapper passes the values, as duck types where it should. -/
theorem run_writeArguments (method : MethodInfo Typ) (isStatic : Bool) (i : ℕ)
    (parameters : List (SignatureType Typ)) {sourceTypes : List Typ} {values : List (Value Typ)}
    (hlen : parameters.length = sourceTypes.length) (hvalues : values.length = sourceTypes.length)
    (h : ∀ (j : ℕ) v, values[j]? = some v →
      arguments[(if isStatic then i else i + 1) + j]? = some (.value v))
    (hlt : (if isStatic then i else i + 1) + values.length ≤ 256) :
    run R arguments (writeArguments R.toRuntimeTypes method isStatic i parameters sourceTypes)
      (.running s) =
    .ok (.running (((fastValues R method parameters sourceTypes values).map .value).reverse ++ s))
      := by
  induction parameters generalizing i sourceTypes values s with
  | nil => rfl
  | cons parameter parameters ih =>
    obtain ⟨sourceType, sourceTypes, rfl⟩ : ∃ s ss, sourceTypes = s :: ss :=
      List.exists_cons_of_length_eq_add_one hlen.symm
    obtain ⟨v, values, rfl⟩ : ∃ v vs, values = v :: vs :=
      List.exists_cons_of_length_eq_add_one hvalues
    have hnext : ∀ j, (if isStatic then i + 1 else i + 1 + 1) + j
        = (if isStatic then i else i + 1) + (j + 1) := by
      intro j
      split
      · omega
      · omega
    rw [List.length_cons] at hlt
    have hhead : run R arguments (writeValue R.toRuntimeTypes (writeLoadArgument i isStatic)
        (method.argumentConstraint R.toRuntimeTypes parameter) sourceType) (.running s) = _ :=
      run_writeValue (step_writeLoadArgument (h 0 v rfl) (by omega))
    have htail := ih (i + 1) (s := .value (passedValue R
        (method.argumentConstraint R.toRuntimeTypes parameter) sourceType v) :: s)
      (Nat.succ.inj hlen) (Nat.succ.inj hvalues)
      (fun j v hj => by
        rw [hnext]
        exact h (j + 1) v hj)
      (by rw [hnext]; omega)
    rw [writeArguments, run_append_of_ok hhead, htail, fastValues, List.map_cons,
      List.reverse_cons, List.append_assoc]
    rfl

theorem run_writeElement {index : ℕ} {elements : List (Value Typ)}
    (harray : arguments[1]? = some (.array elements)) (h : elements[index]? = some v) :
    run R arguments (writeElement R.toRuntimeTypes method parameter index) (.running s)
      = (convertElement R method parameter v).map fun v => .running (.value v :: s) := by
  have hload : run R arguments [.op (.ldarg 1), writeIntValue index, .op .ldelemRef] (.running s)
      = .ok (.running (.value v :: s)) := by
    have harg : step R arguments (.running s) (.op (.ldarg 1))
        = .ok (.running (.array elements :: s)) := by
      rw [step, harray]
    have helem : step R arguments (.running (.int32 index :: .array elements :: s))
        (.op .ldelemRef) = .ok (.running (.value v :: s)) := by
      rw [step, h]
    rw [run_cons, harg]
    show run R arguments [.op .ldelemRef] (.running (.int32 index :: .array elements :: s)) = _
    rw [run_cons, helem]
    rfl
  have hconvert : ∀ (i : Instr (Op Typ)) (x : Except RunException (Control Typ)),
      step R arguments (.running (.value v :: s)) i = x →
      run R arguments ([.op (.ldarg 1), writeIntValue index, .op .ldelemRef] ++ [i]) (.running s)
        = x := by
    rintro i x rfl
    rw [run_append_of_ok hload, run_cons]
    cases step R arguments (.running (.value v :: s)) i with
    | error e => rfl
    | ok c => rfl
  unfold writeElement convertElement
  cases method.argumentConstraint R.toRuntimeTypes parameter with
  | some constraint => exact hconvert _ _ rfl
  | none =>
    cases (parameter.closed? R.toRuntimeTypes).filter fun t => R.isValueType t with
    | some t => exact hconvert _ _ rfl
    | none => exact hload

theorem slowValues_cons (parameters : List (SignatureType Typ)) (values : List (Value Typ)) :
    slowValues R method (parameter :: parameters) (v :: values) =
      convertElement R method parameter v >>= fun v =>
        slowValues R method parameters values >>= fun vs => .ok (v :: vs) := rfl

/-- The slow wrapper passes the converted elements, or throws what a conversion throws. -/
theorem run_writeElements (method : MethodInfo Typ) {elements : List (Value Typ)}
    (harray : arguments[1]? = some (.array elements)) (index : ℕ)
    (parameters : List (SignatureType Typ)) {values : List (Value Typ)}
    (hlen : values.length = parameters.length)
    (h : ∀ (j : ℕ) v, values[j]? = some v → elements[index + j]? = some v) :
    run R arguments (writeElements R.toRuntimeTypes method index parameters) (.running s) =
      (slowValues R method parameters values).map fun vs =>
        .running ((vs.map .value).reverse ++ s) := by
  induction parameters generalizing index values s with
  | nil =>
    obtain rfl := List.length_eq_zero_iff.1 hlen
    rfl
  | cons parameter parameters ih =>
    obtain ⟨v, values, rfl⟩ : ∃ v vs, values = v :: vs :=
      List.exists_cons_of_length_eq_add_one hlen
    have hv : elements[index]? = some v := h 0 v rfl
    rw [writeElements, run_append, run_writeElement harray hv, slowValues_cons]
    cases convertElement R method parameter v with
    | error e => rfl
    | ok v' =>
      have htail := ih (s := .value v' :: s) (index + 1) (Nat.succ.inj hlen) fun j v hj => by
        rw [Nat.add_assoc, Nat.add_comm 1 j]
        exact h (j + 1) v hj
      show run R arguments (writeElements R.toRuntimeTypes method (index + 1) parameters)
        (.running (.value v' :: s)) = _
      rw [htail]
      cases slowValues R method parameters values with
      | error e => rfl
      | ok vs =>
        show Except.ok (Control.running ((vs.map Item.value).reverse ++ Item.value v' :: s)) = .ok
          (.running ((Item.value v' :: vs.map Item.value).reverse ++ s))
        rw [List.reverse_cons, List.append_assoc]
        rfl

/-- The instance, if it is loaded, as both wrappers pass it. -/
def instanceValues (R : ValueTypes Typ) (method : MethodInfo Typ) (mustLoadInstance : Bool)
    (targetType : Typ) (v : Value Typ) : List (Value Typ) :=
  if mustLoadInstance then [passedValue R (method.firstConstraint 0) targetType v] else []

theorem run_writeInstance (method : MethodInfo Typ) (mustLoadInstance : Bool) (targetType : Typ)
    (h : arguments[0]? = some (.value v)) :
    run R arguments (writeInstance R.toRuntimeTypes method mustLoadInstance targetType)
      (.running []) = .ok (.running
        ((instanceValues R method mustLoadInstance targetType v).map .value).reverse) := by
  rw [writeInstance, instanceValues]
  cases mustLoadInstance with
  | false => rfl
  | true =>
    apply run_writeValue
    rw [step, h]

end

end DdTrace.CallTarget.IntegrationMapper
