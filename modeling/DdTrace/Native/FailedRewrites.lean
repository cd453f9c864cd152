import DdTrace.Native.RewriterCallback

/-!
# Failed rewrites

After a step that fails, the callback may still read what that step has not set, and may still
export a body. It does neither exactly when no failure goes unnoticed (`Outcomes.Noticed`).
-/

namespace DdTrace.Native

open Lib Lib.Traced

/-! ## What the steps log -/

namespace Event

def IsFailure : Event → Prop
  | failed _ => True
  | _ => False

def IsUnsetUse : Event → Prop
  | used _ isSet => isSet = false
  | _ => False

def IsExport : Event → Prop
  | exported => True
  | _ => False

end Event

open Event

section Steps

variable {α : Type} {p : Event → Prop} {step : Step} {outcome : Option α}

@[simp] theorem logs_attempt :
    Logs (attempt step outcome) p ↔ outcome = none ∧ p (.failed step) := by
  cases outcome <;> simp [Logs, attempt]

@[simp] theorem logs_check :
    Logs (check step outcome) p ↔ outcome = none ∧ p (.failed step) := by
  cases outcome <;> simp [Logs, check]

variable {unset : Variable → ℕ} {v : Variable} {value : Option ℕ}

@[simp] theorem logs_use : Logs (use unset v value) p ↔ p (.used v value.isSome) := by
  simp [Logs, use]

end Steps

/-- No argument keeps the callback from loading them. -/
def FunctionInfo.ArgumentsLoad (m : FunctionInfo) : Prop :=
  ∀ arg ∈ m.arguments, arg.byRef = false ∧
    (FASTPATH_COUNT ≤ m.arguments.length → arg.boxedType → arg.typeTok ≠ none)

namespace Outcomes

variable {o : Outcomes} {m : FunctionInfo} {unset : Variable → ℕ}

/-! ## The code before the method -/

/-- A step of the initial values fails. -/
def DefaultsFail (o : Outcomes) (m : FunctionInfo) : Prop :=
  o.returnDefault = none ∨ ¬ m.isVoid ∧ o.defaultValue = none

theorem unset_initReturn {localSig : LocalSig} :
    Logs (o.initReturn m unset localSig) IsUnsetUse ↔ o.DefaultsFail m := by
  unfold initReturn DefaultsFail
  split
  · simp [logs_bind, IsUnsetUse, *]
  · simp [logs_bind, IsUnsetUse, *, or_comm]

theorem failure_initReturn {localSig : LocalSig} :
    Logs (o.initReturn m unset localSig) IsFailure ↔ o.DefaultsFail m := by
  unfold initReturn DefaultsFail
  split
  · simp [logs_bind, IsFailure, *]
  · simp [logs_bind, IsFailure, *, or_comm]

theorem export_initReturn {localSig : LocalSig} :
    ¬ Logs (o.initReturn m unset localSig) IsExport := by
  unfold initReturn
  split <;> simp [logs_bind, IsExport]

theorem exists_result_initReturn (localSig : LocalSig) :
    ∃ code, (o.initReturn m unset localSig).result = some code := by
  unfold initReturn
  split <;> simp

variable {r : ILRewriter} {pos : InstrPtr}

/-- The locals are set where `ModifyLocalSig` has set them. -/
theorem result_modifyLocalSigAndInitialize (r : ILRewriter) (pos : InstrPtr) :
    ∃ r' locals, (o.modifyLocalSigAndInitialize m unset r pos).result = some (r', locals) ∧
      locals.isSome = o.localSig.isSome := by
  unfold modifyLocalSigAndInitialize
  cases hsig : o.localSig with
  | none => exact ⟨r, none, rfl, rfl⟩
  | some localSig =>
    obtain ⟨code, hcode⟩ := @exists_result_initReturn o m unset localSig
    simp [hcode]

theorem logs_modifyLocalSigAndInitialize {p : Event → Prop} :
    Logs (o.modifyLocalSigAndInitialize m unset r pos) p ↔
      o.localSig = none ∧ p (.failed .modifyLocalSig) ∨
      ∃ localSig, o.localSig = some localSig ∧ Logs (o.initReturn m unset localSig) p := by
  unfold modifyLocalSigAndInitialize
  cases hsig : o.localSig with
  | none => simp [logs_bind]
  | some localSig => simp [logs_bind]

/-! ## The arguments -/

theorem result_loadElement {i : ℕ} {arg : FunctionMethodArgument} :
    (loadElement m i arg).result ≠ none ↔
      arg.byRef = false ∧ (arg.boxedType → arg.typeTok ≠ none) := by
  unfold loadElement
  cases arg.byRef <;> cases arg.boxedType <;> cases arg.typeTok <;> simp

theorem result_loadElements {i : ℕ} {args : List FunctionMethodArgument} :
    (loadElements m i args).result ≠ none ↔
      ∀ arg ∈ args, arg.byRef = false ∧ (arg.boxedType → arg.typeTok ≠ none) := by
  induction args generalizing i with
  | nil => simp [loadElements]
  | cons arg args ih =>
    rw [List.forall_mem_cons, ← @result_loadElement m i, ← @ih (i + 1), loadElements]
    cases helement : (loadElement m i arg).result with
    | none => simp [helement]
    | some element =>
      cases helements : (loadElements m (i + 1) args).result with
      | none => simp [helement, helements]
      | some elements => simp [helement, helements]

theorem result_loadArguments :
    (o.loadArguments m unset).result ≠ none ↔ m.ArgumentsLoad := by
  unfold loadArguments FunctionInfo.ArgumentsLoad
  split
  · rename_i hfast
    have hnot : ¬ FASTPATH_COUNT ≤ m.arguments.length := not_le.2 hfast
    simp only [hnot, false_implies, and_true]
    by_cases hany : m.arguments.any (·.byRef)
    · rw [if_pos hany]
      simpa using hany
    · rw [if_neg hany]
      simpa using hany
  · rename_i hslow
    have hle : FASTPATH_COUNT ≤ m.arguments.length := not_lt.1 hslow
    simp only [hle, true_implies]
    rw [← @result_loadElements m 0]
    cases helements : (loadElements m 0 m.arguments).result with
    | none => simp [helements]
    | some elements => simp [helements]

/-- Loading an element only logs that it fails. -/
theorem logs_loadElement {i : ℕ} {arg : FunctionMethodArgument} {p : Event → Prop}
    (h : Logs (loadElement m i arg) p) :
    (loadElement m i arg).result = none ∧ p (.failed .getTypeTok) := by
  unfold loadElement at h ⊢
  split at h
  · exact absurd h logs_stop
  rw [if_neg ‹_›]
  split at h
  · rw [if_pos ‹_›]
    rw [logs_bind, logs_check] at h
    rcases h with ⟨hnone, hp⟩ | ⟨tok, -, h⟩
    · exact ⟨by simp [hnone], hp⟩
    · exact absurd h (logs_pure _)
  · exact absurd h (logs_pure _)

theorem logs_loadElements {i : ℕ} {args : List FunctionMethodArgument} {p : Event → Prop}
    (h : Logs (loadElements m i args) p) :
    (loadElements m i args).result = none ∧ p (.failed .getTypeTok) := by
  induction args generalizing i with
  | nil => simp [loadElements] at h
  | cons arg args ih =>
    rw [loadElements, logs_bind] at h
    rw [loadElements, result_bind]
    rcases h with h | ⟨element, helement, h⟩
    · obtain ⟨hnone, hp⟩ := logs_loadElement h
      rw [hnone]
      exact ⟨rfl, hp⟩
    · rw [logs_bind] at h
      rcases h with h | ⟨elements, -, h⟩
      · obtain ⟨hnone, hp⟩ := ih h
        rw [helement, Option.bind_some, result_bind, hnone]
        exact ⟨rfl, hp⟩
      · exact absurd h (logs_pure _)

/-- The slow path reads `objectTypeRef`, and may fail. -/
theorem logs_loadArguments {p : Event → Prop} (h : Logs (o.loadArguments m unset) p) :
    FASTPATH_COUNT ≤ m.arguments.length ∧ p (.used .objectTypeRef o.objectTypeRef.isSome) ∨
      (o.loadArguments m unset).result = none ∧ p (.failed .getTypeTok) := by
  unfold loadArguments at h ⊢
  split at h
  · split at h
    · exact absurd h logs_stop
    · exact absurd h (logs_pure _)
  · rename_i hslow
    rw [if_neg hslow]
    rw [logs_bind_of_some result_use, logs_use, logs_bind] at h
    rcases h with h | h | ⟨elements, -, h⟩
    · exact .inl ⟨not_lt.1 hslow, h⟩
    · obtain ⟨hnone, hp⟩ := logs_loadElements h
      right
      rw [result_bind, result_use, Option.bind_some, result_bind, hnone]
      exact ⟨rfl, hp⟩
    · exact absurd h (logs_pure _)

theorem unset_loadArguments : Logs (o.loadArguments m unset) IsUnsetUse ↔
    FASTPATH_COUNT ≤ m.arguments.length ∧ o.objectTypeRef = none := by
  constructor
  · intro h
    rcases logs_loadArguments h with ⟨hslow, h⟩ | ⟨-, h⟩
    · exact ⟨hslow, Option.isSome_eq_false_iff.1 h |> Option.isNone_iff_eq_none.1⟩
    · exact h.elim
  · rintro ⟨hslow, hobject⟩
    unfold loadArguments
    rw [if_neg (not_lt.2 hslow), logs_bind_of_some result_use, logs_use, hobject]
    exact .inl rfl

/-! ## The parts -/

section Parts

variable {p : Event → Prop} {step : Step} {logException wrapperTypeRef : Option Token}

theorem result_writeLogException (r : ILRewriter) (pos : InstrPtr) : ∃ r' catchFirst,
    (writeLogException unset step logException wrapperTypeRef r pos).result =
      some (r', catchFirst) ∧ catchFirst.isSome = logException.isSome := by
  unfold writeLogException
  cases logException with
  | none => exact ⟨r, none, rfl, rfl⟩
  | some token => exact ⟨_, some r.newPtr, rfl, rfl⟩

theorem logs_writeLogException :
    Logs (writeLogException unset step logException wrapperTypeRef r pos) p ↔
      p (.used .wrapper_type_ref wrapperTypeRef.isSome) ∨ logException = none ∧ p (.failed step) := by
  unfold writeLogException
  cases logException with
  | none => simp [logs_bind]
  | some token => simp [logs_bind]

theorem isSome_map {α β : Type} {f : α → β} {value : Option α} :
    (value.map f).isSome = value.isSome := by cases value <;> rfl

/-- The part before the method comes to its end. -/
def Begins (o : Outcomes) (m : FunctionInfo) : Prop :=
  m.loadInstance ≠ none ∧ m.ArgumentsLoad ∧ o.beginMethod ≠ none

theorem result_beginMethodPart (r : ILRewriter) :
    (o.beginMethodPart m unset wrapperTypeRef r).result = none ∧ ¬ o.Begins m ∨
    ∃ b, (o.beginMethodPart m unset wrapperTypeRef r).result = some b ∧
      b.locals.isSome = o.localSig.isSome ∧ o.Begins m := by
  obtain ⟨r', locals, hlocals, hset⟩ :=
    @result_modifyLocalSigAndInitialize o m unset r (r.next m_IL)
  unfold beginMethodPart Begins
  dsimp only
  rw [result_bind, hlocals, Option.bind_some, result_bind, result_orStop]
  cases hinstance : m.loadInstance with
  | none => exact .inl ⟨rfl, fun h => h.1 rfl⟩
  | some code =>
    rw [Option.bind_some, result_bind, ← @result_loadArguments o m unset]
    cases harguments : (o.loadArguments m unset).result with
    | none => exact .inl ⟨rfl, fun h => h.2.1 rfl⟩
    | some arguments =>
      rw [Option.bind_some, result_bind, result_use, Option.bind_some, result_bind, result_check]
      cases hbegin : o.beginMethod with
      | none => exact .inl ⟨rfl, fun h => h.2.2 rfl⟩
      | some beginMethod =>
        right
        simp only [Option.bind_some, result_bind, result_use]
        obtain ⟨r'', catchFirst, hcatch, -⟩ := @result_writeLogException unset
          .writeBeginLogException o.beginLogException wrapperTypeRef _ (r.next m_IL)
        rw [hcatch]
        simp only [Option.bind_some, result_pure]
        exact ⟨_, rfl, hset, nofun, nofun, nofun⟩

theorem logs_beginMethodPart :
    Logs (o.beginMethodPart m unset wrapperTypeRef r) p ↔
      Logs (o.modifyLocalSigAndInitialize m unset r (r.next m_IL)) p ∨ m.loadInstance ≠ none ∧
        (Logs (o.loadArguments m unset) p ∨ m.ArgumentsLoad ∧
          (p (.used .wrapper_type_ref wrapperTypeRef.isSome) ∨
            o.beginMethod = none ∧ p (.failed .writeBeginMethod) ∨ o.beginMethod ≠ none ∧
              (p (.used .callTargetStateIndex o.localSig.isSome) ∨
                o.beginLogException = none ∧ p (.failed .writeBeginLogException) ∨
                p (.used .firstInstruction o.localSig.isSome) ∨
                p (.used .beginMethodCatchFirstInstr o.beginLogException.isSome)))) := by
  obtain ⟨r', locals, hlocals, hset⟩ :=
    @result_modifyLocalSigAndInitialize o m unset r (r.next m_IL)
  unfold beginMethodPart
  dsimp only
  rw [logs_bind_of_some hlocals]
  cases hinstance : m.loadInstance with
  | none => simp [logs_bind]
  | some code =>
    dsimp only
    rw [logs_bind_of_some (result_orStop _), ← @result_loadArguments o m unset]
    cases harguments : (o.loadArguments m unset).result with
    | none => simp [logs_bind_of_none harguments]
    | some arguments =>
      rw [logs_bind_of_some harguments, logs_bind_of_some result_use, logs_use]
      cases hbegin : o.beginMethod with
      | none => simp [logs_bind]
      | some beginMethod =>
        rw [logs_bind_of_some result_check, logs_bind_of_some result_use, logs_use, isSome_map]
        obtain ⟨r'', catchFirst, hcatch, hfirst⟩ := @result_writeLogException unset
          .writeBeginLogException o.beginLogException wrapperTypeRef (((r'.emitAll (r.next m_IL)
            (code ++ arguments)).emitAll (r.next m_IL) [ILInstr.callMember beginMethod,
            ILInstr.stLocal ((locals.map (·.callTargetStateIndex)).getD
              (unset .callTargetStateIndex))]).emit (r.next m_IL) ILInstr.leaveS) (r.next m_IL)
        rw [logs_bind_of_some hcatch, logs_writeLogException, logs_bind_of_some result_use, logs_use,
          logs_bind_of_some result_use, logs_use, isSome_map, hfirst, hset]
        simp
        tauto

variable {locals : Option Locals}

theorem exists_result_endMethodCode (code : List ILInstr) :
    ∃ endCode, (o.endMethodCode m unset wrapperTypeRef locals code).result = some endCode := by
  unfold endMethodCode
  split <;> simp

theorem logs_endMethodCode {code : List ILInstr} :
    Logs (o.endMethodCode m unset wrapperTypeRef locals code) p ↔
      ¬ m.isVoid ∧ p (.used .returnValueIndex locals.isSome) ∨
      p (.used .exceptionIndex locals.isSome) ∨ p (.used .callTargetStateIndex locals.isSome) ∨
      p (.used .wrapper_type_ref wrapperTypeRef.isSome) ∨
      o.endMethod = none ∧ p (.failed .writeEndMethod) ∨
      p (.used .callTargetReturnIndex locals.isSome) ∨
      ¬ m.isVoid ∧ (p (.used .callTargetReturnToken locals.isSome) ∨
        o.getReturnValue = none ∧ p (.failed .writeCallTargetReturnGetReturnValue)) := by
  unfold endMethodCode
  split
  · simp [logs_bind, *]
  · simp [logs_bind, *]
    grind

theorem result_endMethodPart (r : ILRewriter) :
    (o.endMethodPart m unset wrapperTypeRef locals r).result ≠ none ↔ m.loadInstance ≠ none := by
  unfold endMethodPart
  dsimp only
  rw [result_bind, result_use, Option.bind_some, result_bind, result_orStop]
  cases hinstance : m.loadInstance with
  | none => simp
  | some code =>
    obtain ⟨endCode, hcode⟩ := @exists_result_endMethodCode o m unset wrapperTypeRef locals code
    rw [Option.bind_some, result_bind, hcode, Option.bind_some, result_bind]
    obtain ⟨r'', catchFirst, hcatch, -⟩ := @result_writeLogException unset
      .writeEndLogException o.endLogException wrapperTypeRef _ r.newPtr
    rw [hcatch]
    simp

theorem logs_endMethodPart (hinstance : m.loadInstance ≠ none) :
    Logs (o.endMethodPart m unset wrapperTypeRef locals r) p ↔
      (∃ code, Logs (o.endMethodCode m unset wrapperTypeRef locals code) p) ∨
      o.endLogException = none ∧ p (.failed .writeEndLogException) ∨
      p (.used .endMethodCatchFirstInstr o.endLogException.isSome) := by
  obtain ⟨code, hinstance⟩ := Option.ne_none_iff_exists'.1 hinstance
  obtain ⟨endCode, hcode⟩ := @exists_result_endMethodCode o m unset wrapperTypeRef locals code
  unfold endMethodPart
  dsimp only
  rw [logs_bind_of_some result_use, logs_use, hinstance, logs_bind_of_some (result_orStop _),
    logs_bind_of_some hcode]
  obtain ⟨r'', catchFirst, hcatch, hfirst⟩ := @result_writeLogException unset
    .writeEndLogException o.endLogException wrapperTypeRef _ r.newPtr
  rw [logs_bind_of_some hcatch, logs_writeLogException, logs_bind_of_some result_use, logs_use,
    hfirst]
  simp only [logs_endMethodCode, exists_const, isSome_map, logs_orStop, logs_pure, false_or, or_false]
  tauto

theorem exists_result_replaceReturns (e : Ended) :
    ∃ r, (replaceReturns m unset locals e).result = some r := by
  unfold replaceReturns
  split <;> simp

theorem logs_replaceReturns {e : Ended} : Logs (replaceReturns m unset locals e) p ↔
    ¬ m.isVoid ∧ p (.used .returnValueIndex locals.isSome) := by
  unfold replaceReturns
  split
  · simp [*]
  · simp [logs_bind, *]

theorem logs_export {r : ILRewriter} : Logs (o.export_ r) p ↔
    o.exports ∧ p .exported ∨ ¬ o.exports ∧ p (.failed .export_) := by
  unfold export_
  cases ho : o.exports <;> simp [logs_bind]

/-- What the callback logs behind the part before the method. -/
def LogsEnd (o : Outcomes) (m : FunctionInfo) (p : Event → Prop) : Prop :=
  (p (.used .exceptionIndex o.localSig.isSome) ∨ p (.used .callTargetStateIndex o.localSig.isSome) ∨
    p (.used .callTargetReturnIndex o.localSig.isSome) ∨
    p (.used .firstInstruction o.localSig.isSome) ∨
    p (.used .wrapper_type_ref o.wrapperTypeRef.isSome) ∨
    o.endMethod = none ∧ p (.failed .writeEndMethod) ∨
    ¬ m.isVoid ∧ (p (.used .returnValueIndex o.localSig.isSome) ∨
      p (.used .callTargetReturnToken o.localSig.isSome) ∨
      o.getReturnValue = none ∧ p (.failed .writeCallTargetReturnGetReturnValue)) ∨
    o.endLogException = none ∧ p (.failed .writeEndLogException) ∨
    p (.used .endMethodCatchFirstInstr o.endLogException.isSome)) ∨
  o.exports ∧ p .exported ∨ ¬ o.exports ∧ p (.failed .export_)

theorem logs_callback : Logs (o.callTargetRewriterCallback m unset) p ↔
    o.wrapperTypeRef = none ∧ p (.failed .getWrapperMethodRef) ∨ o.profilerAssemblyIsLoaded ∧
      (o.imported = none ∧ p (.failed .import_) ∨ ∃ r, o.imported = some r ∧
        (Logs (o.beginMethodPart m unset o.wrapperTypeRef r) p ∨
          o.Begins m ∧ o.LogsEnd m p)) := by
  unfold callTargetRewriterCallback
  rw [logs_bind_of_some result_attempt, logs_attempt]
  cases hloaded : o.profilerAssemblyIsLoaded with
  | false => simp
  | true =>
    rw [if_pos rfl]
    cases himport : o.imported with
    | none => simp [logs_bind]
    | some r =>
      rw [logs_bind_of_some result_check]
      rcases @result_beginMethodPart o m unset o.wrapperTypeRef r with ⟨hnone, hnot⟩ | ⟨b, hb, hset, hbegins⟩
      · rw [logs_bind_of_none hnone]
        simp [hnot]
      · obtain ⟨e, he⟩ := Option.ne_none_iff_exists'.1
          ((@result_endMethodPart o m unset o.wrapperTypeRef b.locals b.rewriter).2 hbegins.1)
        obtain ⟨r', hr'⟩ := @exists_result_replaceReturns m unset b.locals e
        rw [logs_bind_of_some hb, logs_bind_of_some he, logs_bind_of_some hr',
          logs_bind_of_some result_use, logs_use, logs_endMethodPart hbegins.1, logs_replaceReturns,
          logs_export, isSome_map, hset]
        simp only [logs_endMethodCode, exists_const, hset, logs_check, hbegins, true_and, LogsEnd]
        simp
        grind

end Parts

/-! ## What goes unnoticed -/

theorem logs_modify_unset (r : ILRewriter) (pos : InstrPtr) :
    Logs (o.modifyLocalSigAndInitialize m unset r pos) IsUnsetUse ↔
      o.localSig ≠ none ∧ o.DefaultsFail m := by
  rw [logs_modifyLocalSigAndInitialize]
  cases o.localSig with
  | none => simp [IsUnsetUse]
  | some localSig => simp [unset_initReturn]

theorem logs_modify_failure (r : ILRewriter) (pos : InstrPtr) :
    Logs (o.modifyLocalSigAndInitialize m unset r pos) IsFailure ↔
      o.localSig = none ∨ o.DefaultsFail m ∧ o.localSig ≠ none := by
  rw [logs_modifyLocalSigAndInitialize]
  cases o.localSig with
  | none => simp [IsFailure]
  | some localSig => simp [failure_initReturn]

theorem logs_modify_export (r : ILRewriter) (pos : InstrPtr) :
    Logs (o.modifyLocalSigAndInitialize m unset r pos) IsExport ↔ False := by
  rw [logs_modifyLocalSigAndInitialize]
  simp [IsExport, export_initReturn]

theorem export_loadArguments : Logs (o.loadArguments m unset) IsExport ↔ False := by
  rw [iff_false]
  intro h
  rcases logs_loadArguments h with ⟨-, h⟩ | ⟨-, h⟩
  · exact h.elim
  · exact h.elim

theorem not_failure_loadArguments (h : m.ArgumentsLoad) :
    ¬ Logs (o.loadArguments m unset) IsFailure := by
  intro hlogs
  rcases logs_loadArguments hlogs with ⟨-, hused⟩ | ⟨hnone, -⟩
  · exact hused.elim
  · exact result_loadArguments.2 h hnone

/-- Where the callback reads what is not set: the initial values of the locals, the array of the
slow path, the wrapper type, and what `ModifyLocalSig` or `WriteLogException` did not set. -/
theorem unset_callback : Logs (o.callTargetRewriterCallback m unset) IsUnsetUse ↔
    o.profilerAssemblyIsLoaded ∧ o.imported ≠ none ∧
      (o.localSig ≠ none ∧ o.DefaultsFail m ∨ m.loadInstance ≠ none ∧
        (FASTPATH_COUNT ≤ m.arguments.length ∧ o.objectTypeRef = none ∨ m.ArgumentsLoad ∧
          (o.wrapperTypeRef = none ∨ o.beginMethod ≠ none ∧ (o.localSig = none ∨
            o.beginLogException = none ∨ o.endLogException = none)))) := by
  rw [logs_callback]
  simp only [logs_beginMethodPart, logs_modify_unset, unset_loadArguments, LogsEnd, Begins]
  cases o.imported with
  | none => simp [IsUnsetUse]
  | some r =>
    simp [IsUnsetUse]
    grind

theorem export_callback : Logs (o.callTargetRewriterCallback m unset) IsExport ↔
    o.profilerAssemblyIsLoaded ∧ o.imported ≠ none ∧ o.Begins m ∧ o.exports := by
  rw [logs_callback]
  simp only [logs_beginMethodPart, logs_modify_export, export_loadArguments, LogsEnd]
  cases o.imported with
  | none => simp [IsExport]
  | some r => simp [IsExport]

/-- What fails on the way to an export. -/
theorem failure_callback (h : Logs (o.callTargetRewriterCallback m unset) IsExport) :
    Logs (o.callTargetRewriterCallback m unset) IsFailure ↔
      o.wrapperTypeRef = none ∨ o.localSig = none ∨ o.DefaultsFail m ∨
        o.beginLogException = none ∨ o.endMethod = none ∨
        ¬ m.isVoid ∧ o.getReturnValue = none ∨ o.endLogException = none := by
  obtain ⟨hloaded, himported, hbegins, hexports⟩ := export_callback.1 h
  obtain ⟨r, himported⟩ := Option.ne_none_iff_exists'.1 himported
  have hbegins' := hbegins
  obtain ⟨hinstance, harguments, hbegin⟩ := hbegins
  have hnot := @not_failure_loadArguments o m unset harguments
  rw [logs_callback]
  simp only [logs_beginMethodPart, logs_modify_failure, LogsEnd]
  simp [IsFailure, hloaded, himported, hinstance, harguments, hbegin, hexports, hbegins', hnot]
  grind

/-- Nothing is left unset without a failure. -/
theorem failure_of_unset (h : Logs (o.callTargetRewriterCallback m unset) IsUnsetUse) :
    Logs (o.callTargetRewriterCallback m unset) IsFailure := by
  obtain ⟨hloaded, himported, h⟩ := unset_callback.1 h
  obtain ⟨r, himported⟩ := Option.ne_none_iff_exists'.1 himported
  have hobject : o.objectTypeRef = none → o.localSig = none := by
    unfold objectTypeRef
    cases o.localSig <;> simp
  rw [logs_callback]
  simp only [logs_beginMethodPart, logs_modify_failure, LogsEnd, Begins]
  simp [IsFailure, hloaded, himported]
  grind

/-! ## The result -/

/-- After a step that fails no body is exported, and nothing is read that is not set. -/
def ChangesNothing (o : Outcomes) (m : FunctionInfo) (unset : Variable → ℕ) : Prop :=
  Logs (o.callTargetRewriterCallback m unset) IsFailure →
    ¬ Logs (o.callTargetRewriterCallback m unset) IsExport ∧
    ¬ Logs (o.callTargetRewriterCallback m unset) IsUnsetUse

/-- A failure that the callback does not look at has no effect: it returns before that for
another reason. -/
def Noticed (o : Outcomes) (m : FunctionInfo) : Prop :=
  o.profilerAssemblyIsLoaded → o.imported ≠ none →
    (o.localSig ≠ none → ¬ o.DefaultsFail m) ∧ (m.loadInstance ≠ none →
      (FASTPATH_COUNT ≤ m.arguments.length → o.objectTypeRef ≠ none) ∧ (m.ArgumentsLoad →
        o.wrapperTypeRef ≠ none ∧ (o.beginMethod ≠ none →
          o.localSig ≠ none ∧ o.beginLogException ≠ none ∧ o.endLogException ≠ none ∧
            (o.exports → o.endMethod ≠ none ∧ (¬ m.isVoid → o.getReturnValue ≠ none)))))

/-- A failed rewrite changes nothing exactly when the callback notices the failure. -/
theorem changesNothing_iff (o : Outcomes) (m : FunctionInfo) (unset : Variable → ℕ) :
    o.ChangesNothing m unset ↔ o.Noticed m := by
  have hsplit : o.ChangesNothing m unset ↔
      ¬ Logs (o.callTargetRewriterCallback m unset) IsUnsetUse ∧
      (Logs (o.callTargetRewriterCallback m unset) IsExport →
        ¬ Logs (o.callTargetRewriterCallback m unset) IsFailure) := by
    constructor
    · exact fun h => ⟨fun hunset => (h (failure_of_unset hunset)).2 hunset,
        fun hexport hfailure => (h hfailure).1 hexport⟩
    · exact fun h hfailure => ⟨fun hexport => h.2 hexport hfailure, h.1⟩
  have hfailure := @failure_callback o m unset
  rw [export_callback, Begins] at hfailure
  rw [hsplit, unset_callback, export_callback, Noticed, Begins]
  constructor
  · rintro ⟨hunset, hexport⟩ hloaded himported
    grind
  · intro h
    constructor
    · rintro ⟨hloaded, himported, hunset⟩
      obtain ⟨hdefaults, hrest⟩ := h hloaded himported
      rcases hunset with ⟨hsig, hfail⟩ | ⟨hinstance, hunset⟩
      · exact hdefaults hsig hfail
      obtain ⟨hobject, hrest⟩ := hrest hinstance
      rcases hunset with ⟨hslow, hnone⟩ | ⟨harguments, hunset⟩
      · exact hobject hslow hnone
      obtain ⟨hwrapper, hrest⟩ := hrest harguments
      rcases hunset with hnone | ⟨hbegin, hunset⟩
      · exact hwrapper hnone
      obtain ⟨hsig, hbeginLog, hendLog, -⟩ := hrest hbegin
      rcases hunset with hnone | hnone | hnone
      · exact hsig hnone
      · exact hbeginLog hnone
      · exact hendLog hnone
    · rintro ⟨hloaded, himported, ⟨hinstance, harguments, hbegin⟩, hexports⟩
      obtain ⟨hdefaults, hrest⟩ := h hloaded himported
      obtain ⟨hwrapper, hrest⟩ := (hrest hinstance).2 harguments
      obtain ⟨hsig, hbeginLog, hendLog, hend⟩ := hrest hbegin
      obtain ⟨hend, hreturn⟩ := hend hexports
      rw [hfailure ⟨hloaded, himported, ⟨hinstance, harguments, hbegin⟩, hexports⟩]
      rintro (hnone | hnone | hnone | hnone | hnone | ⟨hvalue, hnone⟩ | hnone)
      · exact hwrapper hnone
      · exact hsig hnone
      · exact hdefaults hsig hnone
      · exact hbeginLog hnone
      · exact hend hnone
      · exact hreturn hvalue hnone
      · exact hendLog hnone

end Outcomes

end DdTrace.Native
