import CallCode.Lowering.Binding
import CallCode.Proofs.Lowering.Coercion

/-!
# The code of argument lists

Arguments that are bound to parameters leave one value for each parameter, and
those that are packed leave one vector, whatever the arguments are.
-/

namespace CallCode

open Lower

variable {context : Context} {codes : OperandCodes} {before after : LoweringState}

theorem loadBoxed_run {operand : Operand} (steady : operand.Steady context codes)
    (run : Runs (loadBoxed operand) context before () after) : ∃ code type,
      operand.CodesBoxed context codes code type ∧ before.Pushes after code [type] := by
  simp only [loadBoxed, runs_bind, runs_pure] at run
  obtain ⟨_, middle, loads, _, _, boxes, -, rfl⟩ := run
  obtain ⟨plain, source, known, pushed⟩ := steady _ _ loads
  obtain ⟨_, rfl, boxed⟩ := boxTop_run boxes
  obtain ⟨rfl, total⟩ := pushed.retype boxed
  exact ⟨_, _, ⟨plain, _, known, rfl, rfl⟩, total⟩

theorem loadAs_run {operand : Operand} {target : ValueType}
    (steady : operand.Steady context codes)
    (run : Runs (loadAs operand target) context before () after) : ∃ code type,
      operand.CodesAs context codes target code type ∧ before.Pushes after code [type] := by
  simp only [loadAs, runs_bind] at run
  obtain ⟨_, middle, loads, coerces⟩ := run
  obtain ⟨plain, source, known, pushed⟩ := steady _ _ loads
  obtain ⟨_, coerced⟩ := coerceTo_run coerces
  obtain ⟨rfl, total⟩ := pushed.retype coerced
  exact ⟨_, _, ⟨plain, _, known, rfl, rfl⟩, total⟩

theorem loadEach_run {arguments : List Operand} {params : List Param}
    (steady : ∀ argument ∈ arguments, argument.Steady context codes)
    (run : Runs (loadEach arguments params) context before () after) : ∃ code types,
      CodesEach (fun pair : Operand × Param => pair.1.CodesAs context codes pair.2.type)
        (arguments.zip params) code types ∧ before.Pushes after code types := by
  refine pushes_forM ?_ run
  rintro ⟨argument, param⟩ member start finish single
  exact loadAs_run (steady argument (List.of_mem_zip member).1) single

/-! ## Parameters -/

/-- The operands at the end of a variadic call as one array. -/
inductive SurplusCodes (context : Context) (codes : OperandCodes) (surplus : List Operand) (element : ValueType) :
    List Operation → Prop
  | pack {loads types} : surplus.length < 65536 →
      CodesEach (fun operand => operand.CodesAs context codes element) surplus loads types →
      SurplusCodes context codes surplus element
        (loads ++ [.arrayInit element.signature surplus.length.toUInt16])

/-- The code that binds arguments to parameters, and the types of the values. -/
inductive BindingCodes (context : Context) (codes : OperandCodes) (arguments : List Operand) (params : List Param) :
    List Operation → List ValueType → Prop
  | fixed {code types} : arguments.length = params.length →
      CodesEach (fun pair : Operand × Param => pair.1.CodesAs context codes pair.2.type)
        (arguments.zip params) code types →
      BindingCodes context codes arguments params code types
  | variadic {element loads types packing} :
      variadicElement params = some element → params.length ≤ arguments.length + 1 →
      CodesEach (fun pair : Operand × Param => pair.1.CodesAs context codes pair.2.type)
        ((arguments.take (params.length - 1)).zip params) loads types →
      SurplusCodes context codes (arguments.drop (params.length - 1)) element packing →
      BindingCodes context codes arguments params (loads ++ packing) (types ++ [element.array])

theorem packSurplus_run {surplus : List Operand} {element : ValueType}
    (steady : ∀ argument ∈ surplus, argument.Steady context codes)
    (run : Runs (packSurplus surplus element) context before () after) : ∃ code,
      SurplusCodes context codes surplus element code ∧
        before.Pushes after code [element.array] := by
  simp only [packSurplus, runs_bind, runs_accept, wordCount_ok, runs_write,
    runs_replace] at run
  obtain ⟨_, loaded, loads, _, _, ⟨⟨few, rfl⟩, rfl⟩, _, _, rfl, -, rfl⟩ := run
  obtain ⟨code, types, each, pushed⟩ := pushes_forM
    (fun argument member _ _ single => loadAs_run (steady argument member) single) loads
  refine ⟨_, .pack few each, pushed.writes.trans (Assembler.writes_arrayInit _ _ _), ?_⟩
  simp [pushed.stack, ← each.length_eq]

theorem bindArguments_run {arguments : List Operand} {params : List Param}
    (steady : ∀ argument ∈ arguments, argument.Steady context codes)
    (run : Runs (bindArguments arguments params) context before () after) : ∃ code types,
      BindingCodes context codes arguments params code types ∧ before.Pushes after code types := by
  simp only [bindArguments, runs_bind, runs_read] at run
  obtain ⟨_, _, ⟨rfl, rfl⟩, run⟩ := run
  by_cases short : arguments.length + 1 < params.length
  · simp [short] at run
  rw [if_neg short] at run
  split at run
  · rename_i element _ variadic _
    rw [runs_bind] at run
    obtain ⟨_, middle, fixedRun, surplusRun⟩ := run
    have prefixSteady : ∀ argument ∈ arguments.take (params.length - 1),
        argument.Steady context codes := fun argument member =>
      steady argument (List.mem_of_mem_take member)
    have surplusSteady : ∀ argument ∈ arguments.drop (params.length - 1),
        argument.Steady context codes := fun argument member =>
      steady argument (List.mem_of_mem_drop member)
    obtain ⟨loads, types, each, pushed⟩ := loadEach_run prefixSteady fixedRun
    obtain ⟨packing, surplus, packed⟩ := packSurplus_run surplusSteady surplusRun
    exact ⟨_, _, .variadic variadic (by omega) each surplus, pushed.trans packed⟩
  · rw [runs_ite] at run
    split at run
    · rename_i same
      obtain ⟨code, types, each, pushed⟩ := loadEach_run steady run
      exact ⟨code, types, .fixed same each, pushed⟩
    · simp at run

theorem BindingCodes.length_eq {arguments : List Operand} {params : List Param}
    {code : List Operation} {types : List ValueType}
    (binding : BindingCodes context codes arguments params code types) :
    types.length = params.length := by
  cases binding with
  | fixed same each => simp [each.length_eq, same]
  | variadic variadic enough each packing =>
      have some : params ≠ [] := by
        rintro rfl
        simp [variadicElement] at variadic
      have positive := List.length_pos_iff.mpr some
      simp only [List.length_append, each.length_eq, List.length_zip, List.length_take,
        List.length_cons, List.length_nil]
      omega

/-! ## Vectors -/

/-- The operation that makes a vector of the arguments on the stack. -/
def packing (arguments : List Operand) : Operation :=
  if containsSpread (sources arguments) then
    .despread arguments.length.toUInt8 (spreadMask (sources arguments))
  else .arrayInit .object arguments.length.toUInt16

/-- The code that packs arguments into one vector. -/
inductive VectorCodes (context : Context) (codes : OperandCodes) (arguments : List Operand) :
    List Operation → Prop
  | pack {loads types} :
      arguments.length < 65536 →
      (containsSpread (sources arguments) → arguments.length ≤ maxSpreadArguments) →
      CodesEach (fun operand => operand.CodesBoxed context codes) arguments loads types →
      VectorCodes context codes arguments (loads ++ [packing arguments])

theorem VectorCodes.mono {weaker : OperandCodes} {arguments : List Operand}
    {code : List Operation} (vector : VectorCodes context codes arguments code)
    (weaken : ∀ operand code type, codes operand code type → weaker operand code type) :
    VectorCodes context weaker arguments code := by
  cases vector with
  | pack few small each =>
      refine .pack few small (each.mono ?_)
      rintro operand - code type ⟨plain, source, known, split, boxed⟩
      exact ⟨plain, source, weaken _ _ _ known, split, boxed⟩

/-- Arguments are packed by loading and boxing all of them, and by one instruction at the
end. -/
theorem runs_packVector {arguments : List Operand} {position : Position}
    (run : Runs (packVector arguments position) context before () after) : ∃ loaded,
      Runs (arguments.forM loadBoxed) context before () loaded ∧
      after.stack = .objectArray :: loaded.stack.drop arguments.length ∧
      ((containsSpread (sources arguments) = true ∧ arguments.length ≤ maxSpreadArguments ∧
          after.assembler = loaded.assembler.despread arguments.length.toUInt8
            (spreadMask (sources arguments))) ∨
        (containsSpread (sources arguments) = false ∧ arguments.length < 65536 ∧
          after.assembler =
            loaded.assembler.arrayInit .object arguments.length.toUInt16)) := by
  simp only [packVector] at run
  by_cases tooMany : (containsSpread (sources arguments) &&
      decide (maxSpreadArguments < arguments.length)) = true
  · simp [tooMany] at run
  rw [if_neg tooMany, runs_bind] at run
  obtain ⟨_, loaded, loads, run⟩ := run
  cases spread : containsSpread (sources arguments) with
  | true =>
      simp only [spread, Bool.true_and, decide_eq_true_eq, Nat.not_lt] at tooMany
      simp only [spread, if_true, runs_bind, runs_accept, byteCount_ok, runs_write,
        runs_replace] at run
      obtain ⟨_, _, ⟨⟨_, rfl⟩, rfl⟩, _, _, rfl, -, rfl⟩ := run
      exact ⟨loaded, loads, rfl, .inl ⟨rfl, tooMany, rfl⟩⟩
  | false =>
      simp only [spread, Bool.false_eq_true, if_false, runs_bind, runs_accept, wordCount_ok,
        runs_write, runs_replace] at run
      obtain ⟨_, _, ⟨⟨few, rfl⟩, rfl⟩, _, _, rfl, -, rfl⟩ := run
      exact ⟨loaded, loads, rfl, .inr ⟨rfl, few, rfl⟩⟩

theorem packVector_run {arguments : List Operand} {position : Position}
    (steady : ∀ argument ∈ arguments, argument.Steady context codes)
    (run : Runs (packVector arguments position) context before () after) : ∃ code,
      VectorCodes context codes arguments code ∧ before.Pushes after code [.objectArray] := by
  obtain ⟨loaded, loads, stack, ends⟩ := runs_packVector run
  obtain ⟨code, types, each, pushed⟩ := pushes_forM
    (fun argument member _ _ single => loadBoxed_run (steady argument member) single) loads
  have collapsed : after.stack = .objectArray :: before.stack := by
    simp [stack, pushed.stack, ← each.length_eq]
  rcases ends with ⟨spread, small, made⟩ | ⟨plain, few, made⟩
  · have few : arguments.length < 65536 := Nat.lt_of_le_of_lt small (by decide)
    refine ⟨_, .pack few (fun _ => small) each, ?_, collapsed⟩
    rw [packing, if_pos spread, made]
    exact pushed.writes.trans (Assembler.writes_despread _ _ _)
  · refine ⟨_, .pack few (fun spread => absurd spread (by simp [plain])) each, ?_, collapsed⟩
    rw [packing, plain, if_neg Bool.false_ne_true, made]
    exact pushed.writes.trans (Assembler.writes_arrayInit _ _ _)

/-- A list that is too long for a mask is refused before anything is lowered. -/
theorem packVector_of_tooMany {arguments : List Operand}
    (spread : containsSpread (sources arguments) = true)
    (many : maxSpreadArguments < arguments.length) (position : Position) (context : Context)
    (before : LoweringState) :
    packVector arguments position context before =
      .error (.rejected (.tooManyArguments arguments.length maxSpreadArguments position))
        before := by
  unfold packVector
  simp only [spread, many, decide_true, Bool.and_self, if_true]
  rfl

end CallCode
