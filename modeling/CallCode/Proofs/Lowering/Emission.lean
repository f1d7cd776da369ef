import CallCode.Proofs.Lowering.Run
import CallCode.Proofs.Machine.Writing

/-!
# What a lowering action emits

A successful action appends code and puts values on the tracked stack.  What is known
of the code of operands is left open, so that the ways to make a call are described
over operands whose code is given.
-/

namespace CallCode

open Lower

namespace LoweringState

/-- Code was appended, and values of the given types were pushed in this order. -/
structure Pushes (before after : LoweringState) (code : List Operation)
    (types : List ValueType) : Prop where
  writes : before.assembler.Writes after.assembler code
  stack : after.stack = types.reverse ++ before.stack

/-- Code was appended, and the value on top took another type. -/
structure Retypes (before after : LoweringState) (code : List Operation)
    (source target : ValueType) : Prop where
  writes : before.assembler.Writes after.assembler code
  stack : ∃ rest, before.stack = source :: rest ∧ after.stack = target :: rest

variable {first second third : LoweringState} {code further : List Operation}

theorem Pushes.nil (state : LoweringState) : state.Pushes state [] [] :=
  ⟨.refl state.assembler, rfl⟩

theorem Pushes.trans {types moreTypes : List ValueType}
    (left : first.Pushes second code types) (right : second.Pushes third further moreTypes) :
    first.Pushes third (code ++ further) (types ++ moreTypes) :=
  ⟨left.writes.trans right.writes, by simp [right.stack, left.stack]⟩

theorem Pushes.drop_above {types : List ValueType} (left : first.Pushes second code types) :
    second.stack.drop (second.stack.length - first.stack.length) = first.stack := by
  rw [left.stack, List.length_append, Nat.add_sub_cancel, List.drop_left]

/-- Some code puts one operand in place of all that was pushed. -/
theorem Pushes.collapse {types : List ValueType} {type : ValueType}
    (left : first.Pushes second code types)
    (writes : second.assembler.Writes third.assembler further)
    (stack : third.stack =
      type :: second.stack.drop (second.stack.length - first.stack.length)) :
    first.Pushes third (code ++ further) [type] :=
  ⟨left.writes.trans writes, by simp [stack, left.drop_above]⟩

/-- The type on top is the one that was pushed last. -/
theorem Pushes.retype {source pushed target : ValueType}
    (left : first.Pushes second code [pushed])
    (right : second.Retypes third further source target) :
    source = pushed ∧ first.Pushes third (code ++ further) [target] := by
  obtain ⟨rest, above, below⟩ := right.stack
  rw [left.stack] at above
  obtain ⟨rfl, rfl⟩ := List.cons.inj above
  exact ⟨rfl, left.writes.trans right.writes, below⟩

theorem Retypes.nil {state : LoweringState} {type : ValueType} {rest : TypeStack}
    (found : state.stack = type :: rest) : state.Retypes state [] type type :=
  ⟨.refl state.assembler, rest, found, found⟩

theorem Retypes.trans {source middle target : ValueType}
    (left : first.Retypes second code source middle)
    (right : second.Retypes third further middle target) :
    first.Retypes third (code ++ further) source target := by
  obtain ⟨rest, above, between⟩ := left.stack
  obtain ⟨other, same, below⟩ := right.stack
  obtain ⟨-, rfl⟩ := List.cons.inj (between.symm.trans same)
  exact ⟨left.writes.trans right.writes, rest, above, below⟩

end LoweringState

/-- What is known of the code of an operand and of the type of its value. -/
abbrev OperandCodes := Operand → List Operation → ValueType → Prop

/-- Whenever the operand is loaded, it pushes one value by code that is known. -/
def Operand.Steady (context : Context) (codes : OperandCodes) (operand : Operand) : Prop :=
  ∀ before after, Runs operand.load context before () after →
    ∃ code type, codes operand code type ∧ before.Pushes after code [type]

/-- The code that some run of an operand emits. -/
def LoadedCode (context : Context) : OperandCodes := fun operand code type =>
  ∃ start finish, Runs operand.load context start () finish ∧
    start.Pushes finish code [type]

namespace Operand.Steady

variable {context : Context} {codes weaker : OperandCodes} {operand : Operand}

theorem mono (steady : operand.Steady context codes)
    (weaken : ∀ code type, codes operand code type → weaker operand code type) :
    operand.Steady context weaker := by
  intro before after run
  obtain ⟨code, type, known, pushed⟩ := steady before after run
  exact ⟨code, type, weaken code type known, pushed⟩

theorem and_loaded (steady : operand.Steady context codes) :
    operand.Steady context fun operand code type =>
      LoadedCode context operand code type ∧ codes operand code type := by
  intro before after run
  obtain ⟨code, type, known, pushed⟩ := steady before after run
  exact ⟨code, type, ⟨⟨before, after, run, pushed⟩, known⟩, pushed⟩

theorem loaded (steady : operand.Steady context codes) :
    operand.Steady context (LoadedCode context) :=
  steady.and_loaded.mono fun _ _ known => known.1

end Operand.Steady

/-- The code of several things in a row, and the types of the values that they
push. -/
inductive CodesEach {Thing : Type}
    (codes : Thing → List Operation → ValueType → Prop) :
    List Thing → List Operation → List ValueType → Prop
  | nil : CodesEach codes [] [] []
  | cons {first rest code type further types} : codes first code type →
      CodesEach codes rest further types →
      CodesEach codes (first :: rest) (code ++ further) (type :: types)

namespace CodesEach

variable {Thing : Type} {codes : Thing → List Operation → ValueType → Prop}

theorem length_eq {things : List Thing} {code : List Operation} {types : List ValueType}
    (each : CodesEach codes things code types) : types.length = things.length := by
  induction each with
  | nil => rfl
  | cons _ _ ih => simp [ih]

theorem mono {other : Thing → List Operation → ValueType → Prop} {things : List Thing}
    {code : List Operation} {types : List ValueType}
    (each : CodesEach codes things code types)
    (weaken : ∀ thing ∈ things, ∀ code type, codes thing code type →
      other thing code type) :
    CodesEach other things code types := by
  induction each with
  | nil => exact .nil
  | cons known _ ih =>
      refine .cons (weaken _ (by simp) _ _ known) (ih ?_)
      intro thing member
      exact weaken thing (List.mem_cons_of_mem _ member)

end CodesEach

/-- Some code was appended first. -/
def LoweringState.Emits (before after : LoweringState) (code : List Operation) : Prop :=
  ∃ placed back,
    after.assembler.listing.items.toList =
      before.assembler.listing.items.toList ++ placed ++ back ∧
    PerformsFrom after.assembler.pool placed code

theorem LoweringState.Pushes.emits {before after : LoweringState} {code : List Operation}
    {types : List ValueType} (pushed : before.Pushes after code types) : before.Emits after code := by
  obtain ⟨placed, items, performs⟩ := pushed.writes.appends
  exact ⟨placed, [], by simpa using items, performs⟩

/-- If every single step pushes one value, then so many steps push as many. -/
theorem pushes_forM {Thing : Type} {context : Context} {step : Thing → Lower Unit}
    {codes : Thing → List Operation → ValueType → Prop} {things : List Thing}
    (single : ∀ thing ∈ things, ∀ before after, Runs (step thing) context before () after →
      ∃ code type, codes thing code type ∧ before.Pushes after code [type])
    {before after : LoweringState} (run : Runs (things.forM step) context before () after) :
    ∃ code types, CodesEach codes things code types ∧ before.Pushes after code types := by
  induction things generalizing before with
  | nil =>
      obtain ⟨-, rfl⟩ := (runs_pure ()).mp run
      exact ⟨[], [], .nil, .nil _⟩
  | cons first rest ih =>
      obtain ⟨middle, firstRun, restRun⟩ := runs_forM_cons.mp run
      obtain ⟨code, type, known, pushed⟩ := single first (by simp) before middle firstRun
      obtain ⟨further, types, each, pushedRest⟩ :=
        ih (fun thing member => single thing (List.mem_cons_of_mem _ member)) restRun
      exact ⟨code ++ further, type :: types, .cons known each, pushed.trans pushedRest⟩

end CallCode
