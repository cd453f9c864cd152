import DdTrace.DuckTyping.MethodIlHelper

/-!
# The types of the IL

What is known of a value on the stack of a proxy method, and what the operations of the emitters
ask of it: `typedEffect` is stuck where an operation is not type sound. A generic parameter of
the target method stands for the one of the proxy method at its position.
-/

namespace DdTrace.DuckTyping

open DdTrace.Lib DdTrace.Lib.Throwing

/-- `System.Reflection`, with what the runtime says of its types. Pointers are left out. -/
structure TypeSystem (Typ : Type) extends Reflection Typ where
  genericParameterPosition : Typ → ℕ
  isValueType_enum : ∀ t, isEnum t → isValueType t
  isValueType_underlying : ∀ t, isEnum t → isValueType (enumUnderlyingType t)
  isValueType_duckCopy : ∀ t, hasDuckCopy t → isValueType t
  elementType_byRef : ∀ t, isByRef t → ∃ e, elementType t = some e ∧ isByRef e = false
  elementType_makeByRefType : ∀ t, isByRef t = false → elementType (makeByRefType t) = some t
  isByRef_object : isByRef object = false
  isValueType_object : isValueType object = false
  isGenericParameter_object : isGenericParameter object = false
  inCoreLibrary_object : inCoreLibrary object
  eq_object_of_isAssignableFrom : ∀ t, isAssignableFrom t object → t = object
  isByRef_iDuckType : isByRef iDuckType = false
  isValueType_iDuckType : isValueType iDuckType = false
  isGenericParameter_iDuckType : isGenericParameter iDuckType = false

/-- A value on the stack: of a type, boxed, or a reference to a variable of a type. -/
inductive StackType (Typ : Type)
  | value (t : Typ)
  | boxed (t : Typ)
  | reference (t : Typ)
  | null
  deriving DecidableEq, Repr

namespace TypeSystem

variable {Typ : Type} (T : TypeSystem Typ)

/-- A class or an interface. -/
def isReferenceType (t : Typ) : Bool :=
  !T.isValueType t && !T.isGenericParameter t && !T.isByRef t

def underlying (t : Typ) : Typ := Emitter.underlyingType T.toReflection t

/-- The value is an object reference. -/
def isObject : StackType Typ → Bool
  | .value t => T.isReferenceType t
  | .boxed _ => true
  | .reference _ => false
  | .null => true

/-- A generic parameter that is not known to be a value type. -/
def isOpaque (t : Typ) : Bool := T.isGenericParameter t && !T.isValueType t

/-- What a cast leaves; a generic parameter is boxed. -/
def castResult (t : Typ) : StackType Typ := if T.isReferenceType t then .value t else .boxed t

/-- What an argument of the type is on the stack. -/
def typeOf (t : Typ) : StackType Typ :=
  match T.isByRef t, T.elementType t with
  | true, some e => .reference e
  | _, _ => .value t

/-! ### Types -/

variable {T} {t : Typ}

theorem isReferenceType_iff : T.isReferenceType t ↔
    T.isValueType t = false ∧ T.isGenericParameter t = false ∧ T.isByRef t = false := by
  simp only [isReferenceType, Bool.and_eq_true, Bool.not_eq_true', and_assoc]

theorem isReferenceType_object : T.isReferenceType T.object :=
  isReferenceType_iff.2 ⟨T.isValueType_object, T.isGenericParameter_object, T.isByRef_object⟩

theorem isReferenceType_iDuckType : T.isReferenceType T.iDuckType :=
  isReferenceType_iff.2
    ⟨T.isValueType_iDuckType, T.isGenericParameter_iDuckType, T.isByRef_iDuckType⟩

theorem isOpaque_of_isValueType (h : T.isValueType t) : T.isOpaque t = false := by
  rw [isOpaque, h]
  exact Bool.and_false _

theorem isOpaque_of_isReferenceType (h : T.isReferenceType t) : T.isOpaque t = false := by
  rw [isOpaque, (isReferenceType_iff.1 h).2.1]
  rfl

/-- What is neither a value type nor a reference to a variable is a reference type or opaque. -/
theorem isReferenceType_iff_not_isOpaque (hvalue : T.isValueType t = false)
    (href : T.isByRef t = false) : T.isReferenceType t ↔ T.isOpaque t = false := by
  rw [isReferenceType_iff, isOpaque, hvalue, href]
  simp

theorem underlying_of_not_isEnum (h : T.isEnum t = false) : T.underlying t = t :=
  if_neg (by rw [h]; exact Bool.false_ne_true)

theorem isEnum_of_not_isValueType (h : T.isValueType t = false) : T.isEnum t = false := by
  rw [Bool.eq_false_iff]
  intro henum
  rw [T.isValueType_enum t henum] at h
  cases h

theorem underlying_of_not_isValueType (h : T.isValueType t = false) : T.underlying t = t :=
  underlying_of_not_isEnum (isEnum_of_not_isValueType h)

/-- An enum and its underlying type are value types. -/
theorem isValueType_underlying_eq (t : Typ) : T.isValueType (T.underlying t) = T.isValueType t := by
  cases henum : T.isEnum t with
  | false => rw [underlying_of_not_isEnum henum]
  | true =>
    have hunderlying : T.underlying t = T.enumUnderlyingType t := if_pos henum
    rw [hunderlying, T.isValueType_underlying t henum, T.isValueType_enum t henum]

theorem underlying_object : T.underlying T.object = T.object :=
  underlying_of_not_isValueType T.isValueType_object

theorem underlying_eq_object : T.underlying t = T.object ↔ t = T.object := by
  constructor
  · intro h
    have hvalue : T.isValueType t = false := by
      rw [← isValueType_underlying_eq, h, T.isValueType_object]
    rw [← h, underlying_of_not_isValueType hvalue]
  · rintro rfl
    exact underlying_object

theorem castResult_of_isReferenceType (h : T.isReferenceType t) : T.castResult t = .value t :=
  if_pos h

/-! ### Values -/

section

variable (T) [DecidableEq Typ]

/-- A value may stand where one of the type is expected. An enum and its underlying type are the
same on the stack. -/
def accepts (t : Typ) : StackType Typ → Bool
  | .value s =>
    if T.isGenericParameter s && T.isGenericParameter t then
      T.genericParameterPosition s == T.genericParameterPosition t
    else T.underlying s == T.underlying t ||
      (T.isReferenceType s && T.isReferenceType t && (t == T.object || T.isAssignableFrom t s))
  | .boxed s => t == T.object || (T.isReferenceType t && T.isAssignableFrom t s)
  | .reference s => T.isByRef t && (T.elementType t).any fun e => T.underlying s == T.underlying e
  | .null => T.isReferenceType t

/-- What an operation does in a method with such arguments and locals. The operations that load
the instance and call the target are left out. -/
def typedEffect (arguments : List (StackType Typ)) (locals : List Typ) :
    OpCode Typ → List (StackType Typ) → Option (List (StackType Typ))
  | .ldarg i, s | .ldargS i, s => (arguments[i]?).map (· :: s)
  | .ldlocaS i, s => (locals[i]?).map (.reference · :: s)
  | .ldloc i, s | .ldlocS i, s => (locals[i]?).map (.value · :: s)
  | .stloc i, v :: s | .stlocS i, v :: s =>
    if (locals[i]?).any (T.accepts · v) then some s else none
  | .ldindRef, .reference t :: s => if T.isReferenceType t then some (.value t :: s) else none
  | .stindRef, v :: .reference t :: s =>
    if T.isReferenceType t && T.accepts t v then some s else none
  | .dup, v :: s => some (v :: v :: s)
  | .pop, _ :: s => some s
  | .ldnull, s => some (.null :: s)
  | .castclass t, v :: s | .isinst t, v :: s =>
    if T.isObject v then some (T.castResult t :: s) else none
  | .unboxAny t, v :: s => if T.isObject v then some (.value t :: s) else none
  | .box t, v :: s => if T.accepts t v then some (.boxed t :: s) else none
  | .getInstance, v :: s =>
    if T.accepts T.iDuckType v then some (.value T.object :: s) else none
  | .create t, v :: s => if T.accepts T.object v then some (.value t :: s) else none
  | _, _ => none

end

variable [DecidableEq Typ] {s : Typ} {v : StackType Typ}

theorem accepts_self (t : Typ) : T.accepts t (.value t) := by
  simp [accepts]

theorem isReferenceType_of_accepts_castResult (h : T.accepts t (T.castResult t)) :
    T.isReferenceType t := by
  by_contra hnot
  have hresult : T.castResult t = .boxed t := if_neg hnot
  have hobject : t ≠ T.object := fun heq => hnot (heq ▸ isReferenceType_object)
  simp [hresult, accepts, hnot, hobject] at h

theorem accepts_castResult : T.accepts t (T.castResult t) ↔ T.isReferenceType t := by
  refine ⟨isReferenceType_of_accepts_castResult, fun h => ?_⟩
  rw [castResult_of_isReferenceType h]
  exact accepts_self t

theorem accepts_value (h : ¬ (T.isGenericParameter s && T.isGenericParameter t)) :
    T.accepts t (.value s) ↔ T.underlying s = T.underlying t ∨
      (T.isReferenceType s ∧ T.isReferenceType t ∧ (t = T.object ∨ T.isAssignableFrom t s)) := by
  rw [accepts, if_neg h]
  simp only [Bool.or_eq_true, Bool.and_eq_true, beq_iff_eq, and_assoc]

theorem accepts_object : T.accepts T.object v = T.isObject v := by
  rw [Bool.eq_iff_iff]
  cases v with
  | value t =>
    have h : ¬ (T.isGenericParameter t && T.isGenericParameter T.object) := by
      simp [T.isGenericParameter_object]
    rw [accepts_value h, underlying_object, underlying_eq_object]
    constructor
    · rintro (rfl | h)
      · exact isReferenceType_object
      · exact h.1
    · exact fun h => .inr ⟨h, isReferenceType_object, .inl rfl⟩
  | boxed t => simp [accepts, isObject]
  | reference t => simp [accepts, isObject, T.isByRef_object]
  | null => simp [accepts, isObject, isReferenceType_object]

theorem accepts_value_object : T.accepts t (.value T.object) ↔ t = T.object := by
  have h : ¬ (T.isGenericParameter T.object && T.isGenericParameter t) := by
    simp [T.isGenericParameter_object]
  rw [accepts_value h, underlying_object, eq_comm, underlying_eq_object]
  constructor
  · rintro (h | ⟨-, -, h | h⟩)
    · exact h
    · exact h
    · exact T.eq_object_of_isAssignableFrom t h
  · exact .inl

end TypeSystem

end DdTrace.DuckTyping
