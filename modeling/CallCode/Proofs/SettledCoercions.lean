import CallCode.Proofs.BoundArguments
import CallCode.Proofs.Lowering.PlacedCoercions

/-!
# Coercions settle

A coercion changes the type on top of the stack, and nothing below it, to one that fits the
target.  A type that fits is left alone: where primitives stand alone among the types, no
coercion has to be made twice.
-/

namespace CallCode

open Lower

/-- The ways to convert the operand on top to a type. -/
inductive Coercion
  /-- For an instruction that takes operands of the type. -/
  | operand
  /-- To a declared type, at run time. -/
  | declared
  | implicit

namespace Coercion

/-- Convert the operand on top. -/
def run : Coercion → ValueType → Lower Unit
  | operand => coerceTo
  | declared => coerceToDeclared
  | implicit => coerceImplicitly

/-- Only instructions take primitives; all other conversions are to references. -/
def Admits (types : TypeTable) (target : ValueType) : Coercion → Prop
  | operand => True
  | declared | implicit => types.isPrimitive target = false

/-- The type under which the converted operand is tracked. -/
def outcome (types : TypeTable) (source target : ValueType) : Coercion → ValueType
  | operand => coercedType types source target
  | declared =>
      if types.isAssignable (types.boxed source) target then types.boxed source else target
  | implicit => if types.isAssignable source target then source else target

/-- A type that is left alone when an operand of it is converted. -/
def Settled (types : TypeTable) (type target : ValueType) : Coercion → Prop
  | operand => type = target ∨
      (types.isPrimitive target = false ∧ types.isPrimitive type = false ∧
        types.isAssignable type target = true)
  | declared => types.isPrimitive type = false ∧ types.isAssignable type target = true
  | implicit => types.isAssignable type target = true

/-! ## Outcomes -/

section Outcomes

variable {types : TypeTable} {source target : ValueType}

/-- A type that does not fit gives way to the target. -/
theorem isAssignable_unless (types : TypeTable) (type target : ValueType) :
    types.isAssignable (if types.isAssignable type target then type else target) target =
      true := by
  split
  · rename_i fits
    exact fits
  · exact TypeTable.isAssignable_refl target

theorem isAssignable_outcome (types : TypeTable) (source target : ValueType)
    (coercion : Coercion) :
    types.isAssignable (coercion.outcome types source target) target = true := by
  cases coercion with
  | operand => exact isAssignable_coercedType types source target
  | declared => exact isAssignable_unless types (types.boxed source) target
  | implicit => exact isAssignable_unless types source target

theorem outcome_of_isPrimitive {coercion : Coercion} (admits : coercion.Admits types target)
    (primitive : types.isPrimitive target = true) :
    coercion.outcome types source target = target := by
  cases coercion with
  | operand => simp [outcome, coercedType, primitive]
  | declared | implicit =>
      rw [Admits, primitive] at admits
      cases admits

/-- A reference is never taken for a primitive, so what was boxed stays boxed. -/
theorem settled_outcome {coercion : Coercion} (admits : coercion.Admits types target)
    (alone : ∀ type, types.isPrimitive type = true → types.isAssignable type target = true →
      type = target) :
    coercion.Settled types (coercion.outcome types source target) target := by
  have reference (reference : types.isPrimitive target = false) {type : ValueType}
      (fits : types.isAssignable type target = true) : types.isPrimitive type = false := by
    rw [Bool.eq_false_iff]
    intro primitive
    rw [alone type primitive fits, reference] at primitive
    cases primitive
  have fits := isAssignable_outcome types source target
  cases coercion with
  | operand =>
      cases plain : types.isPrimitive target with
      | true => exact .inl (outcome_of_isPrimitive admits plain)
      | false =>
          by_cases same : outcome types source target .operand = target
          · exact .inl same
          · exact .inr ⟨plain, reference plain (fits .operand), fits .operand⟩
  | declared => exact ⟨reference admits (fits .declared), fits .declared⟩
  | implicit => exact fits .implicit

end Outcomes

/-! ## Runs -/

/-- An action puts one type in place of another on top and writes some code for it. -/
def Converts (action : Lower Unit) (context : Context) (source result : ValueType) : Prop :=
  ∀ before rest, before.stack = source :: rest → ∃ assembler,
    Runs action context before () { before with assembler, stack := result :: rest }

section Runs

variable {context : Context} {source : ValueType}

theorem converts_replace (source target : ValueType) :
    Converts (replace target 1) context source target := by
  intro before rest found
  exact ⟨before.assembler, by simp [found]⟩

theorem Converts.after_write {action : Lower Unit} {result : ValueType}
    (converts : Converts action context source result) (step : Assembler → Assembler) :
    Converts (do write step; action) context source result := by
  intro before rest found
  obtain ⟨assembler, run⟩ :=
    converts { before with assembler := step before.assembler } rest found
  exact ⟨assembler, by simpa using run⟩

theorem converts_pure (type : ValueType) : Converts (pure ()) context type type := by
  intro before rest found
  exact ⟨before.assembler, by simp [← found]⟩

theorem Converts.ite {yes no : Lower Unit} {first second : ValueType} {condition : Prop}
    [Decidable condition] (holds : condition → Converts yes context source first)
    (fails : ¬condition → Converts no context source second) :
    Converts (if condition then yes else no) context source
      (if condition then first else second) := by
  by_cases choice : condition
  · simpa only [if_pos choice] using holds choice
  · simpa only [if_neg choice] using fails choice

theorem Converts.after_boxTop {next : ValueType → Lower Unit} {result : ValueType}
    (converts : Converts (next (context.types.boxed source)) context
      (context.types.boxed source) result) :
    Converts (do next (← boxTop)) context source result := by
  intro before rest found
  obtain ⟨assembler, run⟩ := converts (before.place (boxingEmits context.types source)
    (context.types.boxed source :: rest)) rest rfl
  exact ⟨assembler, runs_then (runs_boxTop found) run⟩

theorem Converts.after_top {next : ValueType → Lower Unit} {result : ValueType}
    (converts : Converts (next source) context source result) :
    Converts (do next (← track .top)) context source result := by
  intro before rest found
  obtain ⟨assembler, run⟩ := converts before rest found
  exact ⟨assembler, runs_then (runs_top.mpr ⟨rfl, rest, found⟩) run⟩

theorem Converts.after_read {next : Context → Lower Unit} {result : ValueType}
    (converts : Converts (next context) context source result) :
    Converts (do next (← read)) context source result := by
  intro before rest found
  obtain ⟨assembler, run⟩ := converts before rest found
  exact ⟨assembler, runs_then (runs_read.mpr ⟨rfl, rfl⟩) run⟩

end Runs

theorem converts_coerceTo {context : Context} (source target : ValueType) :
    Converts (coerceTo target) context source (outcome context.types source target .operand) :=
  fun _ _ found => ⟨_, runs_coerceTo target found⟩

theorem Converts.after_castThrough {context : Context} {next : Lower Unit}
    {source result : ValueType} (converts : Converts next context source result)
    (routine : Routine) (target : ValueType) :
    Converts (do castThrough routine target; next) context source result := by
  have written := ((converts.after_write (·.checkCast target.signature)).after_write
    (·.callRoutine routine 2)).after_write (·.loadClass target.signature)
  simpa [Converts, castThrough] using written

theorem converts_coerceToDeclared {context : Context} (source target : ValueType) :
    Converts (coerceToDeclared target) context source
      (outcome context.types source target .declared) := by
  unfold coerceToDeclared outcome
  apply Converts.after_read
  apply Converts.after_boxTop
  apply Converts.ite
  · intro fits
    exact converts_pure _
  · intro misfit
    have replaced : Converts (replace target 1) context _ target :=
      converts_replace (context.types.boxed source) target
    split
    · exact replaced.after_write _
    split
    · exact replaced.after_write _
    split
    · exact replaced.after_castThrough .castToEnum target
    · exact replaced.after_castThrough .castToType target

theorem converts_coerceImplicitly {context : Context} (source target : ValueType) :
    Converts (coerceImplicitly target) context source
      (outcome context.types source target .implicit) := by
  unfold coerceImplicitly outcome
  apply Converts.after_read
  apply Converts.after_top
  apply Converts.ite
  · intro fits
    exact converts_pure _
  · intro misfit
    apply Converts.after_boxTop
    exact (converts_replace _ target).after_castThrough .convert target

theorem converts_run (coercion : Coercion) {context : Context} (source target : ValueType) :
    Converts (coercion.run target) context source
      (coercion.outcome context.types source target) := by
  cases coercion with
  | operand => exact converts_coerceTo source target
  | declared => exact converts_coerceToDeclared source target
  | implicit => exact converts_coerceImplicitly source target

/-- The conversion of an operand whose type is left alone does nothing at all. -/
theorem runs_of_settled {coercion : Coercion} {context : Context} {state : LoweringState}
    {type target : ValueType} {rest : TypeStack} (found : state.stack = type :: rest)
    (settled : coercion.Settled context.types type target) :
    Runs (coercion.run target) context state () state := by
  cases coercion with
  | operand =>
      simp only [run, coerceTo, runs_bind, runs_read, runs_top]
      refine ⟨_, _, ⟨rfl, rfl⟩, type, _, ⟨rfl, rest, found⟩, ?_⟩
      rcases settled with same | ⟨reference, plain, fits⟩
      · simp [same]
      · simp [reference, plain, fits]
  | declared =>
      obtain ⟨plain, fits⟩ := settled
      simp only [run, coerceToDeclared, boxTop, runs_bind, runs_read, runs_top]
      refine ⟨_, _, ⟨rfl, rfl⟩, type, state, ⟨_, _, ⟨rfl, rfl⟩, type, _, ⟨rfl, rest, found⟩, ?_⟩, ?_⟩
      · simp [plain]
      · simp [fits]
  | implicit =>
      have fits : context.types.isAssignable type target = true := settled
      simp only [run, coerceImplicitly, runs_bind, runs_read, runs_top]
      refine ⟨_, _, ⟨rfl, rfl⟩, type, _, ⟨rfl, rest, found⟩, ?_⟩
      simp [fits]

end Coercion

namespace TypeTable

variable {table : TypeTable}

/-- A primitive that stands alone serves nowhere but in its own place. -/
theorem PrimitivesAlone.eq_of_isAssignable (alone : table.PrimitivesAlone)
    (grounded : Grounded table.decls) {type target : ValueType}
    (primitive : table.isPrimitive type = true)
    (fits : table.isAssignable type target = true) : type = target := by
  rcases isAssignable_iff.mp fits with derives | ⟨plain, -, implements⟩
  · rcases isDerivedFrom_iff.mp derives with same | ⟨reference, -, -⟩
    · exact same
    · rw [primitive] at reference
      cases reference
  · have simple : type = .simple type.base := type_ext plain rfl
    rw [simple] at primitive
    rw [alone.implementsInterface_eq_false grounded primitive] at implements
    cases implements

end TypeTable

/-- Where primitives stand alone among the registered types, a coercion of any kind succeeds
on a stack that is not empty.  It changes nothing but the code and the type on top, which
fits the target and is a primitive only if the target is that primitive; and wherever that
type stands on top again, the coercion does nothing at all. -/
theorem coercion_settles (builtins : Bool) (decls : List TypeDecl) (frame : Frame)
    (resolver : TypeResolver) (alone : (TypeTable.offered builtins decls).PrimitivesAlone)
    {coercion : Coercion} {target : ValueType}
    (admits : coercion.Admits (.offered builtins decls) target)
    {before : LoweringState} {source : ValueType} {rest : TypeStack}
    (found : before.stack = source :: rest) :
    let types := TypeTable.offered builtins decls
    let context : Context := { types, frame, resolver }
    ∃ assembler type,
      let after := { before with assembler, stack := type :: rest }
      Runs (coercion.run target) context before () after ∧
        types.isAssignable type target = true ∧
        (types.isPrimitive target = true → type = target) ∧
        Runs (coercion.run target) context after () after ∧
        ∀ later others, later.stack = type :: others →
          Runs (coercion.run target) context later () later := by
  intro types context
  have grounded : TypeTable.Grounded types.decls := .offered builtins decls
  have settled : coercion.Settled types (coercion.outcome types source target) target :=
    Coercion.settled_outcome admits fun _ primitive fits =>
      alone.eq_of_isAssignable grounded primitive fits
  have converts : Coercion.Converts (coercion.run target) context source _ :=
    Coercion.converts_run coercion source target
  obtain ⟨assembler, run⟩ := converts before rest found
  refine ⟨assembler, coercion.outcome types source target, run,
    Coercion.isAssignable_outcome types source target coercion,
    Coercion.outcome_of_isPrimitive admits, Coercion.runs_of_settled rfl settled,
    fun later others above => ?_⟩
  exact Coercion.runs_of_settled above settled

/-- A number is boxed for a declared type and stays an object. -/
theorem coercion_settles_boxed :
    let types := TypeTable.offered true []
    let context : Context := { types, frame := .method .object }
    let before : LoweringState := { ledger := { classId := .object }, stack := [.int, .string] }
    types.PrimitivesAlone ∧ types.isPrimitive .object = false ∧ ∃ assembler type,
      let after := { before with assembler, stack := [type, .string] }
      Runs (coerceToDeclared .object) context before () after ∧
        types.isAssignable type .object = true ∧
        Runs (coerceToDeclared .object) context after () after := by
  intro types context before
  have alone : types.PrimitivesAlone := by decide +kernel
  have reference : types.isPrimitive .object = false := by decide +kernel
  have admits : Coercion.declared.Admits types .object := reference
  have found : before.stack = .int :: [.string] := rfl
  obtain ⟨assembler, type, run, fits, -, again, -⟩ :=
    coercion_settles true [] context.frame context.resolver alone admits found
  exact ⟨alone, reference, assembler, type, run, fits, again⟩

end CallCode
