import CallCode.Lowering.Coercion
import CallCode.Proofs.Lowering.Emission

/-!
# The code of coercions

Boxing and conversion to a typed operand emit code that depends only on the types
involved, and change nothing but the type on top of the stack.
-/

namespace CallCode

open Lower

theorem TypeTable.boxed_of_not_primitive {types : TypeTable} {type : ValueType}
    (reference : types.isPrimitive type = false) : types.boxed type = type := by
  have absent : types.primitiveOf type = none := by simpa [isPrimitive] using reference
  simp [boxed, absent]

/-- The code that boxes a value. -/
def boxingCode (types : TypeTable) (source : ValueType) : List Operation :=
  if types.isPrimitive source then [.typed .box source.base] else []

/-- The code that converts a value to a typed operand. -/
def coercionCode (types : TypeTable) (source target : ValueType) : List Operation :=
  if source = target then []
  else if types.isPrimitive target then
    boxingCode types source ++ [.typed .unbox target.base]
  else
    boxingCode types source ++
      if types.isAssignable (types.boxed source) target then []
      else [.typed .checkCast target.signature]

/-- The type under which a converted value is tracked. -/
def coercedType (types : TypeTable) (source target : ValueType) : ValueType :=
  if source = target ∨ types.isPrimitive target then target
  else if types.isAssignable (types.boxed source) target then types.boxed source
  else target

variable {context : Context} {codes : OperandCodes} {before after : LoweringState}

theorem boxTop_run {boxed : ValueType} (run : Runs boxTop context before boxed after) :
    ∃ source, boxed = context.types.boxed source ∧
      before.Retypes after (boxingCode context.types source) source boxed := by
  simp only [boxTop, runs_bind, runs_read, runs_top, runs_ite, runs_write, runs_replace,
    runs_pure] at run
  obtain ⟨_, _, ⟨rfl, rfl⟩, source, _, ⟨rfl, rest, found⟩, run⟩ := run
  refine ⟨source, ?_⟩
  unfold boxingCode
  split at run
  · rename_i primitive
    obtain ⟨_, _, rfl, _, _, ⟨-, rfl⟩, rfl, rfl⟩ := run
    rw [if_pos primitive]
    exact ⟨rfl, Assembler.writes_box _ _, rest, found, by simp [found]⟩
  · rename_i reference
    obtain ⟨rfl, rfl⟩ := run
    rw [TypeTable.boxed_of_not_primitive (by simpa using reference), if_neg reference]
    exact ⟨rfl, .nil found⟩

/-- A reference is cast exactly if its type does not fit. -/
theorem castUnlessFits_run {reference target : ValueType} {rest : TypeStack}
    (found : before.stack = reference :: rest)
    (run : Runs (do
      if !context.types.isAssignable reference target then
        write (·.checkCast target.signature)
        replace target 1) context before () after) :
    before.Retypes after
      (if context.types.isAssignable reference target then []
        else [.typed .checkCast target.signature])
      reference (if context.types.isAssignable reference target then reference else target) := by
  by_cases fits : context.types.isAssignable reference target
  · simp only [fits, Bool.not_true, Bool.false_eq_true, if_false, runs_pure] at run
    obtain ⟨-, rfl⟩ := run
    simpa [fits] using LoweringState.Retypes.nil found
  · simp only [fits, Bool.not_false, if_true, runs_bind, runs_write, runs_replace] at run
    obtain ⟨_, _, rfl, -, rfl⟩ := run
    simp only [fits, Bool.false_eq_true, if_false]
    exact ⟨Assembler.writes_checkCast _ _, rest, found, by simp [found]⟩

theorem coerceTo_run {target : ValueType}
    (run : Runs (coerceTo target) context before () after) : ∃ source,
      before.Retypes after (coercionCode context.types source target) source
        (coercedType context.types source target) := by
  simp only [coerceTo, runs_bind, runs_read, runs_top] at run
  obtain ⟨_, _, ⟨rfl, rfl⟩, source, _, ⟨rfl, rest, found⟩, run⟩ := run
  refine ⟨source, ?_⟩
  unfold coercionCode coercedType
  by_cases same : source = target
  · subst same
    simp only [if_true, runs_pure] at run
    obtain ⟨-, rfl⟩ := run
    simpa using LoweringState.Retypes.nil found
  rw [if_neg same] at run ⊢
  by_cases unboxes : context.types.isPrimitive target
  · rw [if_pos unboxes] at run
    simp only [unboxes, or_true, if_true]
    by_cases primitive : context.types.isPrimitive source
    · simp only [primitive, if_true, runs_bind, runs_write, runs_replace] at run
      obtain ⟨_, _, rfl, _, _, rfl, -, rfl⟩ := run
      rw [boxingCode, if_pos primitive]
      exact ⟨(Assembler.writes_box _ _).trans (Assembler.writes_unbox _ _), rest, found,
        by simp [found]⟩
    · simp only [primitive, Bool.false_eq_true, if_false, runs_bind, runs_write,
        runs_replace] at run
      obtain ⟨_, _, rfl, -, rfl⟩ := run
      rw [boxingCode, if_neg primitive]
      exact ⟨Assembler.writes_unbox _ _, rest, found, by simp [found]⟩
  · rw [if_neg unboxes] at run
    simp only [same, unboxes, or_self, if_false, Bool.false_eq_true]
    by_cases primitive : context.types.isPrimitive source
    · rw [if_pos primitive, runs_bind] at run
      obtain ⟨reference, middle, boxes, run⟩ := run
      obtain ⟨other, rfl, boxed⟩ := boxTop_run boxes
      obtain ⟨_, above, below⟩ := boxed.stack
      obtain ⟨rfl, rfl⟩ := List.cons.inj (found.symm.trans above)
      exact boxed.trans (castUnlessFits_run below run)
    · rw [if_neg primitive] at run
      rw [TypeTable.boxed_of_not_primitive (by simpa using primitive), boxingCode,
        if_neg primitive]
      exact castUnlessFits_run found run

namespace Operand

/-- The code of an operand that is boxed. -/
def CodesBoxed (context : Context) (codes : OperandCodes) (operand : Operand) (code : List Operation)
    (type : ValueType) : Prop :=
  ∃ plain source, codes operand plain source ∧
    code = plain ++ boxingCode context.types source ∧ type = context.types.boxed source

/-- The code of an operand that is converted to a type. -/
def CodesAs (context : Context) (codes : OperandCodes) (target : ValueType) (operand : Operand)
    (code : List Operation) (type : ValueType) : Prop :=
  ∃ plain source, codes operand plain source ∧
    code = plain ++ coercionCode context.types source target ∧
    type = coercedType context.types source target

end Operand

end CallCode
