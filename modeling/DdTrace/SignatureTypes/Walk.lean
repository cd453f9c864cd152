import DdTrace.SignatureTypes.TryParse

/-!
# The loop as a recursion over types

`walk` does to the state what the loop does over the bytes of a type. They agree where the
numbers in the type are quiet: the loop reads one byte of each number and goes on at the next,
which it skips if it is zero.
-/

namespace DdTrace.SignatureTypes

open Lib Signature Tokens

variable {metadata : TypeMetadata} {data bytes rest : List UInt8} {expected index index' n : ℕ}
  {b : UInt8} {s s' : State}

/-! ## The walk -/

/-- The token as the loop reads it. -/
def tokenInfo (metadata : TypeMetadata) (token : TypeDefOrRef) : TypeInfo :=
  metadata.getTypeInfo (uncompressedToken (UInt32.ofNat (token.index <<< 2 ||| token.table.tag)))

def simpleText (type : SimpleType) : String :=
  (appendedName type.elemType).getD (toString type.elemType.toNat)

def classText (metadata : TypeMetadata) (type : TypeInfo) : String :=
  nestedTypeName metadata (metadata.depth type.id) type type.name

section Walk

variable (metadata : TypeMetadata) (expected : ℕ)

mutual

/-- An `ARRAY` is not followed. -/
def walk : SigType → State → Except Stop State
  | .simple type, s => complete expected (s.append (simpleText type))
  | .token _ token, s => complete expected (s.append (classText metadata (tokenInfo metadata token)))
  | .szArray elem, s => walk elem { s with appendToType := s.appendToType ++ "[]" }
  | .array _ _, s => return s
  | .genericInst _ token args, s => do
    let s ← openGeneric (tokenInfo metadata token).name s
    walkArgs args s
  | .var _, s | .mvar _, s => complete expected (s.append "T")

def walkArgs : List SigType → State → Except Stop State
  | [], s => return s
  | type :: types, s => do
    let s ← walk type s
    walkArgs types s

end

end Walk

/-! ## Quiet numbers -/

/-- The encoding of the number has only zeros behind its first byte. -/
def QuietNumber (n : ℕ) : Prop := ∀ b ∈ ((compress n).getD []).tail, b = 0

theorem QuietNumber.zero (hquiet : QuietNumber n) (h : compress n = some (b :: bytes)) :
    ∀ b ∈ bytes, b = 0 := by
  rw [QuietNumber, h] at hquiet
  exact hquiet

mutual

def SigTypeQuiet : SigType → Prop
  | .simple _ | .token _ _ => True
  | .szArray elem | .array elem _ => SigTypeQuiet elem
  | .genericInst _ _ args => QuietNumber args.length ∧ SigTypesQuiet args
  | .var number | .mvar number => QuietNumber number

def SigTypesQuiet : List SigType → Prop
  | [] => True
  | type :: types => SigTypeQuiet type ∧ SigTypesQuiet types

end

theorem szArrays_le {fuel : ℕ} {text text' : String}
    (h : szArrays data fuel index text = .ok (index', text')) : index ≤ index' := by
  induction fuel generalizing index text with
  | zero => cases h
  | succ fuel ih =>
    simp only [szArrays, bind, Except.bind] at h
    split at h
    · cases h
    split at h
    · exact Nat.le_of_succ_le (ih h)
    · cases h
      exact Nat.le_refl _

theorem iteration_le (h : iteration metadata data expected index s = .ok (index', s')) :
    index ≤ index' := by
  simp only [iteration, caseClass, caseSzArray, caseVariable, caseGenericInst, bind, Except.bind,
    pure, Except.pure] at h
  repeat' split at h
  all_goals cases h
  all_goals first | omega | exact szArrays_le ‹_›

theorem loop_fuel {fuel : ℕ} (h : data.length ≤ index + fuel) :
    loop metadata data expected (fuel + 1) index s = loop metadata data expected fuel index s := by
  induction fuel generalizing index s with
  | zero =>
    unfold loop
    rw [if_neg (by omega)]
  | succ fuel ih =>
    rw [loop, loop.eq_def metadata data expected (fuel + 1)]
    simp only
    split
    · cases hstep : iteration metadata data expected index s with
      | error stop => rfl
      | ok next =>
        have := iteration_le hstep
        exact ih (by omega)
    · rfl

/-- The loop from an index on, to the end of the signature. -/
abbrev run (metadata : TypeMetadata) (data : List UInt8) (expected index : ℕ) (s : State) :
    Except Stop State :=
  loop metadata data expected data.length index s

theorem run_step (h : index < data.length) :
    run metadata data expected index s = (do
      let (index, s) ← iteration metadata data expected index s
      run metadata data expected (index + 1) s) := by
  unfold run
  obtain ⟨fuel, hfuel⟩ : ∃ fuel, data.length = fuel + 1 := ⟨data.length - 1, by omega⟩
  rw [hfuel, loop, if_pos h]
  cases hstep : iteration metadata data expected index s with
  | error stop => rfl
  | ok next =>
    have := iteration_le hstep
    exact (loop_fuel (by omega)).symm

/-! ## Bytes in their place -/

theorem lt_of_drop (h : data.drop index = b :: rest) : index < data.length := by
  by_contra hle
  rw [List.drop_eq_nil_of_le (by omega)] at h
  cases h

theorem drop_succ (h : data.drop index = b :: rest) : data.drop (index + 1) = rest := by
  rw [← List.drop_drop, h]
  rfl

theorem drop_add (h : data.drop index = bytes ++ rest) :
    data.drop (index + bytes.length) = rest := by
  rw [← List.drop_drop, h, List.drop_left]

theorem byteAt_of_drop (h : data.drop index = b :: rest) : byteAt data index = pure b := by
  have hget : data[index]? = some b := by
    rw [← List.head?_drop, h]
    rfl
  rw [byteAt, hget]
  rfl

theorem getD_of_drop (h : data.drop index = bytes ++ rest) {i : ℕ} (hi : i < bytes.length) :
    data.getD (index + i) 0 = bytes.getD i 0 := by
  rw [List.getD_eq_getElem?_getD, ← List.getElem?_drop, h, List.getElem?_append_left hi,
    List.getD_eq_getElem?_getD]

theorem corSigUncompressToken_of_number (hn : Number bytes n)
    (h : data.drop index = bytes ++ rest) :
    corSigUncompressToken data index = pure (uncompressedToken (UInt32.ofNat n), size bytes) := by
  obtain ⟨hdata, -⟩ := corSigUncompressData_of_number hn fun i hi => getD_of_drop h hi
  have hlen := length_le_of_number hn
  have hsize : (size bytes).toNat = bytes.length := toNat_size (by omega)
  have hne : size bytes ≠ -1 := by
    intro hneg
    rw [hneg] at hsize
    have : (-1 : UInt32).toNat = 4294967295 := by decide
    omega
  have hle : index + bytes.length ≤ data.length := by
    have := congrArg List.length h
    rw [List.length_drop, List.length_append] at this
    have := List.length_pos_iff.2 hn.ne_nil
    omega
  unfold corSigUncompressToken
  rw [hdata]
  simp only
  rw [if_neg hne, hsize, if_pos hle]
  rfl

/-! ## Single iterations -/

theorem run_skip (h : data.drop index = (0 : UInt8) :: rest) :
    run metadata data expected index s = run metadata data expected (index + 1) s := by
  rw [run_step (lt_of_drop h), iteration, byteAt_of_drop h]
  rfl

/-- The loop skips what stands behind the first byte of a quiet number. -/
theorem run_skips (hzero : ∀ b ∈ bytes, b = 0) (h : data.drop index = bytes ++ rest) :
    run metadata data expected index s =
      run metadata data expected (index + bytes.length) s := by
  induction bytes generalizing index with
  | nil => rfl
  | cons b bytes ih =>
    obtain rfl := hzero b List.mem_cons_self
    rw [run_skip h, ih (fun b hb => hzero b (List.mem_cons_of_mem _ hb)) (drop_succ h),
      List.length_cons]
    congr 1
    omega

theorem run_number (hcompress : compress n = some bytes) (hquiet : QuietNumber n)
    (h : data.drop index = bytes ++ rest) :
    run metadata data expected (index + 1) s =
      run metadata data expected (index + bytes.length) s := by
  obtain ⟨b, tail, rfl⟩ := List.exists_cons_of_ne_nil (number_of_compress hcompress).ne_nil
  rw [run_skips (hquiet.zero hcompress) (drop_succ h), List.length_cons]
  congr 1
  omega

theorem run_text {text : String} (h : data.drop index = b :: rest)
    (htext : appendedName b = some text) :
    run metadata data expected index s = (do
      let s ← complete expected (s.append text)
      run metadata data expected (index + 1) s) := by
  rw [run_step (lt_of_drop h), iteration, byteAt_of_drop h]
  simp only [pure_bind, htext, bind_assoc]

theorem run_simple {type : SimpleType} (h : data.drop index = type.elemType :: rest) :
    run metadata data expected index s = (do
      let s ← complete expected (s.append (simpleText type))
      run metadata data expected (index + 1) s) := by
  cases htext : appendedName type.elemType with
  | some text =>
    rw [run_text h htext, simpleText, htext]
    rfl
  | none =>
    -- `I` and `U` come to the default of the `switch`
    have hother : type.elemType ∉ [ELEMENT_TYPE_VALUETYPE, ELEMENT_TYPE_CLASS,
        ELEMENT_TYPE_SZARRAY, ELEMENT_TYPE_MVAR, ELEMENT_TYPE_VAR, ELEMENT_TYPE_GENERICINST,
        ELEMENT_TYPE_END] := by
      cases type <;> decide
    simp only [List.mem_cons, List.not_mem_nil, or_false, not_or] at hother
    rw [run_step (lt_of_drop h), iteration, byteAt_of_drop h, simpleText, htext]
    simp only [pure_bind, htext, hother, or_self, if_false, bind_assoc, Option.getD_none]

theorem retrieveTypeForSignature_of_encode {token : TypeDefOrRef}
    (henc : token.encode = some bytes) (h : data.drop index = bytes ++ rest) :
    retrieveTypeForSignature metadata data index = pure (tokenInfo metadata token, size bytes) := by
  rw [retrieveTypeForSignature, corSigUncompressToken_of_number (number_of_compress henc) h]
  rfl

theorem run_token {kind : TypeKind} {token : TypeDefOrRef} (henc : token.encode = some bytes)
    (h : data.drop index = kind.elemType :: (bytes ++ rest)) :
    run metadata data expected index s = (do
      let s ← complete expected (s.append (classText metadata (tokenInfo metadata token)))
      run metadata data expected (index + (bytes.length + 1)) s) := by
  have hnone : appendedName kind.elemType = none := by cases kind <;> decide
  have hkind : kind.elemType = ELEMENT_TYPE_VALUETYPE ∨ kind.elemType = ELEMENT_TYPE_CLASS := by
    cases kind <;> decide
  have hn := number_of_compress henc
  have hpos := List.length_pos_iff.2 hn.ne_nil
  have hlen := length_le_of_number hn
  have hone : (1 : UInt32) ≤ size bytes := by
    rw [UInt32.le_iff_toNat_le, toNat_size (by omega)]
    exact hpos
  have hmove : index + 1 + (size bytes - 1).toNat + 1 = index + (bytes.length + 1) := by
    rw [UInt32.toNat_sub_of_le _ _ hone, toNat_size (by omega)]
    change index + 1 + (bytes.length - 1) + 1 = _
    omega
  rw [run_step (lt_of_drop h), iteration, byteAt_of_drop h]
  simp only [pure_bind, hnone, hkind, if_true]
  rw [caseClass, retrieveTypeForSignature_of_encode henc (drop_succ h)]
  simp only [pure_bind, bind_assoc, hmove]
  rfl

theorem run_variable {number : ℕ} (hb : b = ELEMENT_TYPE_VAR ∨ b = ELEMENT_TYPE_MVAR)
    (hcompress : compress number = some bytes) (hquiet : QuietNumber number)
    (h : data.drop index = b :: (bytes ++ rest)) :
    run metadata data expected index s = (do
      let s ← complete expected (s.append "T")
      run metadata data expected (index + (bytes.length + 1)) s) := by
  have hnone : appendedName b = none := by rcases hb with rfl | rfl <;> decide
  have hother : b ∉ [ELEMENT_TYPE_VALUETYPE, ELEMENT_TYPE_CLASS, ELEMENT_TYPE_SZARRAY] := by
    rcases hb with rfl | rfl <;> decide
  simp only [List.mem_cons, List.not_mem_nil, or_false, not_or] at hother
  -- below `0x80` the element type is itself a compressed number
  have hself : Number [b] b.toNat := by rcases hb with rfl | rfl <;> exact uncompress_one (by decide)
  rw [run_step (lt_of_drop h), iteration, byteAt_of_drop h]
  simp only [pure_bind, hnone, hother, hb.symm, or_self, if_false, if_true]
  rw [caseVariable, @corSigUncompressToken_of_number _ [b] _ _ _ hself h]
  simp only [pure_bind, bind_assoc]
  congr 1
  funext s
  show run metadata data expected (index + 1 + 1) s = _
  rw [run_number hcompress hquiet (drop_succ h)]
  congr 1
  omega

theorem szArrays_fuel {fuel : ℕ} {text : String} (h : data.length ≤ index + fuel) :
    szArrays data (fuel + 1) index text = szArrays data fuel index text := by
  induction fuel generalizing index text with
  | zero =>
    have hnone : data[index + 1]? = none := List.getElem?_eq_none (by omega)
    unfold szArrays byteAt
    rw [hnone]
    rfl
  | succ fuel ih =>
    unfold szArrays
    rw [ih (by omega)]

theorem run_caseSzArray (h : data.drop index = ELEMENT_TYPE_SZARRAY :: rest) :
    run metadata data expected index s = (do
      let (index, s) ← caseSzArray data index s
      run metadata data expected (index + 1) s) := by
  rw [run_step (lt_of_drop h), iteration, byteAt_of_drop h]
  rfl

/-- Brackets in a row are taken one at a time as well as together. -/
theorem run_szArray (h : data.drop index = ELEMENT_TYPE_SZARRAY :: b :: rest) :
    run metadata data expected index s =
      run metadata data expected (index + 1) { s with appendToType := s.appendToType ++ "[]" } := by
  obtain ⟨fuel, hfuel⟩ : ∃ fuel, data.length = fuel + 1 := by
    have := lt_of_drop h
    exact ⟨data.length - 1, by omega⟩
  rw [run_caseSzArray h, caseSzArray, hfuel, szArrays, byteAt_of_drop (drop_succ h)]
  simp only [pure_bind, bind_assoc]
  by_cases hb : b = ELEMENT_TYPE_SZARRAY
  · subst hb
    rw [run_caseSzArray (drop_succ h), caseSzArray, hfuel, if_pos rfl, szArrays_fuel (by omega)]
    simp only [bind_assoc, pure_bind]
  · rw [if_neg hb]
    rfl

theorem run_genericInst {kind : TypeKind} {token : TypeDefOrRef} {number : List UInt8}
    (henc : token.encode = some bytes) (hcompress : compress n = some number)
    (hquiet : QuietNumber n)
    (h : data.drop index =
      ELEMENT_TYPE_GENERICINST :: kind.elemType :: (bytes ++ (number ++ rest))) :
    run metadata data expected index s = (do
      let s ← openGeneric (tokenInfo metadata token).name s
      run metadata data expected (index + (2 + bytes.length + number.length)) s) := by
  have hn := length_le_of_number (number_of_compress henc)
  have htoken := drop_succ (drop_succ h)
  rw [run_step (lt_of_drop h), iteration, byteAt_of_drop h]
  show (do
    let (index, s) ← caseGenericInst metadata data index s
    run metadata data expected (index + 1) s) = _
  rw [caseGenericInst, retrieveTypeForSignature_of_encode henc htoken]
  simp only [pure_bind, bind_assoc, toNat_size (show bytes.length < 2 ^ 32 by omega)]
  congr 1
  funext s
  have hnumber : data.drop (index + 2 + bytes.length) = number ++ rest := drop_add htoken
  rw [run_number hcompress hquiet hnumber]
  congr 1
  omega

/-! ## Whole types -/

mutual

theorem run_type : ∀ {type : SigType} {bytes rest : List UInt8} {index : ℕ} {s : State},
    type.hasArray = false → SigTypeQuiet type → type.encode = some bytes →
    data.drop index = bytes ++ rest →
    run metadata data expected index s = (do
      let s ← walk metadata expected type s
      run metadata data expected (index + bytes.length) s)
  | .simple type, _, _, _, _, _, _, henc, h => by
    obtain rfl := Option.some.inj henc
    rw [run_simple h, walk]
    rfl
  | .token kind token, _, _, _, _, _, _, henc, h => by
    simp only [SigType.encode, Option.bind_eq_bind, Option.bind_eq_some_iff] at henc
    obtain ⟨_, htoken, ⟨⟩⟩ := henc
    rw [run_token htoken h, walk]
    rfl
  | .szArray elem, _, _, index, s, harray, hquiet, henc, h => by
    simp only [SigType.encode, Option.bind_eq_bind, Option.bind_eq_some_iff] at henc
    obtain ⟨elemBytes, helem, ⟨⟩⟩ := henc
    rw [SigType.hasArray] at harray
    obtain ⟨b, tail, rfl, -⟩ := SigType.starts helem
    rw [run_szArray h, walk, run_type harray hquiet helem (drop_succ h)]
    congr 1
    funext s
    simp only [List.length_cons]
    congr 1
    omega
  | .array _ _, _, _, _, _, harray, _, _, _ => by cases harray
  | .genericInst kind token args, _, rest, index, s, harray, hquiet, henc, h => by
    simp only [SigType.encode, Option.bind_eq_bind, Option.bind_eq_some_iff] at henc
    obtain ⟨tokenBytes, htoken, number, hnumber, pieces, hargs, ⟨⟩⟩ := henc
    rw [SigType.hasArray] at harray
    obtain ⟨hcount, hquiet⟩ := hquiet
    have hplace : data.drop index = ELEMENT_TYPE_GENERICINST :: kind.elemType ::
        (tokenBytes ++ (number ++ (pieces.flatten ++ rest))) := by
      rw [h]
      simp
    rw [run_genericInst htoken hnumber hcount hplace, walk, bind_assoc]
    congr 1
    funext s
    have hend : data.drop (index + (2 + tokenBytes.length + number.length)) =
        pieces.flatten ++ rest := by
      have := drop_add (drop_add (drop_succ (drop_succ hplace)))
      rw [← this]
      congr 1
      omega
    rw [run_types harray hquiet hargs hend]
    congr 1
    funext s
    simp only [List.length_cons, List.length_append]
    congr 1
    omega
  | .var number, _, _, _, _, _, hquiet, henc, h => by
    simp only [SigType.encode, Option.bind_eq_bind, Option.bind_eq_some_iff] at henc
    obtain ⟨_, hnumber, ⟨⟩⟩ := henc
    rw [run_variable (.inl rfl) hnumber hquiet h, walk]
    rfl
  | .mvar number, _, _, _, _, _, hquiet, henc, h => by
    simp only [SigType.encode, Option.bind_eq_bind, Option.bind_eq_some_iff] at henc
    obtain ⟨_, hnumber, ⟨⟩⟩ := henc
    rw [run_variable (.inr rfl) hnumber hquiet h, walk]
    rfl

theorem run_types : ∀ {types : List SigType} {pieces : List (List UInt8)} {rest : List UInt8}
    {index : ℕ} {s : State}, haveArray types = false → SigTypesQuiet types →
    encodeTypes types = some pieces → data.drop index = pieces.flatten ++ rest →
    run metadata data expected index s = (do
      let s ← walkArgs metadata expected types s
      run metadata data expected (index + pieces.flatten.length) s)
  | [], _, _, _, _, _, _, henc, _ => by
    obtain rfl := Option.some.inj henc
    rw [walkArgs, pure_bind]
    rfl
  | type :: types, _, _, index, s, harray, hquiet, henc, h => by
    simp only [encodeTypes, Option.bind_eq_bind, Option.bind_eq_some_iff] at henc
    obtain ⟨piece, htype, pieces, htypes, ⟨⟩⟩ := henc
    rw [haveArray, Bool.or_eq_false_iff] at harray
    rw [List.flatten_cons, List.append_assoc] at h
    rw [run_type harray.1 hquiet.1 htype h, walkArgs, bind_assoc]
    congr 1
    funext s
    rw [run_types harray.2 hquiet.2 htypes (drop_add h)]
    congr 1
    funext s
    rw [List.flatten_cons, List.length_append]
    congr 1
    omega

end

/-- The loop finds the number of parameters where it looks for it. -/
def HeaderOk (sig : MethodSig) : Prop :=
  sig.params.length < 128 ∧ ∀ n ∈ sig.typeArguments, n < 128 ∨ sig.params = []

variable {sig : MethodSig}

end DdTrace.SignatureTypes
