import CallCode.Proofs.Lowering.Coercion
import CallCode.Proofs.Machine.Emissions

/-!
# Coercions as they are placed

Boxing and the conversion of an operand are told by the type on top.  On a stack that is not
empty they succeed, and which instructions they place is known beforehand.
-/

namespace CallCode

open Lower

/-! ## Calls in a row -/

/-- What the assembler does for some calls in a row. -/
def Assembler.emitAll (assembler : Assembler) (emits : List Emit) : Assembler :=
  emits.foldl (fun assembler emit => (emit.run assembler).2) assembler

theorem Assembler.emitAll_append (assembler : Assembler) (emits further : List Emit) :
    assembler.emitAll (emits ++ further) = (assembler.emitAll emits).emitAll further :=
  List.foldl_append

/-- The state once some calls were made and the stack was tracked. -/
def LoweringState.place (state : LoweringState) (emits : List Emit) (stack : TypeStack) :
    LoweringState :=
  { state with assembler := state.assembler.emitAll emits, stack }

theorem LoweringState.place_place (state : LoweringState) (emits further : List Emit)
    (stack last : TypeStack) :
    (state.place emits stack).place further last = state.place (emits ++ further) last := by
  simp only [place, Assembler.emitAll_append]

/-! ## Coercions -/

/-- The calls that box a value. -/
def boxingEmits (types : TypeTable) (source : ValueType) : List Emit :=
  if types.isPrimitive source then [.box source.base] else []

/-- The calls that convert a value to a typed operand. -/
def coercionEmits (types : TypeTable) (source target : ValueType) : List Emit :=
  if source = target then []
  else boxingEmits types source ++
    if types.isPrimitive target then [.unbox target.base]
    else if types.isAssignable (types.boxed source) target then []
    else [.checkCast target.signature]

variable {context : Context} {before : LoweringState} {rest : TypeStack}

theorem runs_boxTop {source : ValueType} (found : before.stack = source :: rest) :
    Runs boxTop context before (context.types.boxed source)
      (before.place (boxingEmits context.types source)
        (context.types.boxed source :: rest)) := by
  obtain ⟨assembler, stack, ledger, diagnostics⟩ := before
  obtain rfl : stack = source :: rest := found
  refine runs_then (runs_read.mpr ⟨rfl, rfl⟩) (runs_then (runs_top.mpr ⟨rfl, rest, rfl⟩) ?_)
  unfold boxingEmits
  by_cases primitive : context.types.isPrimitive source
  · rw [if_pos primitive, if_pos primitive]
    rfl
  · rw [if_neg primitive, if_neg primitive]
    rw [TypeTable.boxed_of_not_primitive (by simpa using primitive)]
    rfl

/-- A reference is cast exactly if its type does not fit. -/
theorem runs_castUnlessFits {reference target : ValueType}
    (found : before.stack = reference :: rest) :
    Runs (do
      if !context.types.isAssignable reference target then
        write (·.checkCast target.signature)
        replace target 1) context before ()
      (before.place
        (if context.types.isAssignable reference target then []
          else [.checkCast target.signature])
        ((if context.types.isAssignable reference target then reference else target) ::
          rest)) := by
  obtain ⟨assembler, stack, ledger, diagnostics⟩ := before
  obtain rfl : stack = reference :: rest := found
  cases context.types.isAssignable reference target <;> rfl

theorem runs_coerceTo {source : ValueType} (target : ValueType)
    (found : before.stack = source :: rest) :
    Runs (coerceTo target) context before ()
      (before.place (coercionEmits context.types source target)
        (coercedType context.types source target :: rest)) := by
  refine runs_then (runs_read.mpr ⟨rfl, rfl⟩) (runs_then (runs_top.mpr ⟨rfl, rest, found⟩) ?_)
  unfold coercionEmits coercedType
  by_cases same : source = target
  · rw [if_pos same, if_pos same, if_pos (.inl same), ← same, ← found]
    rfl
  simp only [same, false_or, if_false]
  cases unboxes : context.types.isPrimitive target with
  | true =>
      obtain ⟨assembler, stack, ledger, diagnostics⟩ := before
      obtain rfl : stack = source :: rest := found
      unfold boxingEmits
      cases context.types.isPrimitive source <;> rfl
  | false =>
      simp only [Bool.false_eq_true, if_false]
      cases primitive : context.types.isPrimitive source with
      | true =>
          refine runs_then (runs_boxTop found) ?_
          rw [← LoweringState.place_place]
          exact runs_castUnlessFits rfl
      | false =>
          have unboxed : boxingEmits context.types source = [] := by simp [boxingEmits, primitive]
          rw [TypeTable.boxed_of_not_primitive primitive, unboxed]
          exact runs_castUnlessFits found

end CallCode
