import CallCode.Proofs.Lowering.Bodies
import CallCode.Proofs.Lowering.SharedState

/-!
# Method bodies in steps

The bodies of a class are lowered one after another, and each may fail.  Whatever they do,
the tables of the class stay those that its types ask for, and two units that differ in the
tables alone lower the same bodies in the same way.
-/

namespace CallCode

open Lower

theorem Entry.stepwise {hook : ChainHook} {context : Context}
    (hooks : ∀ call : ChainCall Expr, Stepwise context (hook call.operands)) (entry : Entry) :
    Stepwise context (entry.lower hook) := by
  cases entry with
  | expr operand => exact .of_straight operand.straight
  | call called => exact .of_straight called.straight_lower
  | chain chained => exact .bind (.lowerChainCall (hooks chained)) fun _ => .pure ()

/-- A method body that is lowered in steps. -/
structure MethodBody where
  name : String
  frame : Frame
  action : Lower Unit
  stepwise : ∀ context, Stepwise context action

namespace ClassUnit

def lower (unit : ClassUnit) (body : MethodBody) : Except Fault Unit × ClassUnit :=
  unit.lowerBody body.name body.frame body.action

/-- The unit behind some bodies. -/
def lowerAll (unit : ClassUnit) (bodies : List MethodBody) : ClassUnit :=
  bodies.foldl (fun unit body => (unit.lower body).2) unit

/-- The units that the bodies of a class lead to. -/
inductive Reached : ClassUnit → Prop
  | start {types : TypeTable} {ledger : Ledger} (resolver : TypeResolver) :
      ledger.Reachable types → ledger.allocator.Appends →
      Reached { types, ledger, resolver }
  | body {unit : ClassUnit} (body : MethodBody) : Reached unit → Reached (unit.lower body).2

/-- Two units that differ at most in the tables that were looked up, each of which is the
one of its class. -/
structure Twins (unit other : ClassUnit) : Prop where
  same : ∃ tables, other = { unit with ledger := { unit.ledger with tables } }
  reachable : unit.ledger.Reachable unit.types
  otherReachable : other.ledger.Reachable unit.types

variable {unit other : ClassUnit}

/-- A body of another class changes nothing, and any other one is concluded with its
run. -/
theorem lower_cases (unit : ClassUnit) (body : MethodBody) :
    (∃ error, unit.lower body = (.error (.rejected error), unit)) ∨ unit.lower body =
      unit.conclude body.name (body.action (unit.context body.frame) unit.initialState) := by
  unfold lower lowerBody
  cases unit.admit? body.name body.frame with
  | error error => exact .inl ⟨error, rfl⟩
  | ok admission => exact .inr rfl

/-! ## Units that differ in their tables -/

namespace Twins

theorem conclude {context : Context} {name : String}
    {first second : EStateM.Result Fault LoweringState Unit} (twins : unit.Twins other)
    (types : context.types = unit.types) (ends : EndAlike context.types first second) :
    (other.conclude name second).1 = (unit.conclude name first).1 ∧
      (unit.conclude name first).2.Twins (other.conclude name second).2 := by
  obtain ⟨⟨_, rfl⟩, -, -⟩ := twins
  rw [types] at ends
  cases ends with
  | ok twins =>
      obtain ⟨⟨tables, rfl⟩, reachable, otherReachable⟩ := twins
      exact ⟨rfl, ⟨tables, rfl⟩, reachable, otherReachable⟩
  | error twins =>
      obtain ⟨⟨tables, rfl⟩, reachable, otherReachable⟩ := twins
      exact ⟨rfl, ⟨tables, rfl⟩, reachable, otherReachable⟩

theorem lower (twins : unit.Twins other) (body : MethodBody) :
    (other.lower body).1 = (unit.lower body).1 ∧
      (unit.lower body).2.Twins (other.lower body).2 := by
  have starts : unit.initialState.Twins unit.types other.initialState := by
    obtain ⟨⟨tables, rfl⟩, reachable, otherReachable⟩ := twins
    exact ⟨⟨tables, rfl⟩, reachable, otherReachable⟩
  have admission : other.admit? body.name body.frame = unit.admit? body.name body.frame := by
    obtain ⟨tables, rfl⟩ := twins.same
    rfl
  have reads : other.context body.frame = unit.context body.frame := by
    obtain ⟨tables, rfl⟩ := twins.same
    rfl
  unfold ClassUnit.lower lowerBody
  rw [admission, reads]
  cases unit.admit? body.name body.frame with
  | error error => exact ⟨rfl, twins⟩
  | ok admission =>
      exact twins.conclude rfl ((body.stepwise (unit.context body.frame)).endAlike starts)

theorem lowerAll (twins : unit.Twins other) (bodies : List MethodBody) :
    (unit.lowerAll bodies).Twins (other.lowerAll bodies) := by
  induction bodies generalizing unit other with
  | nil => exact twins
  | cons body bodies ih => exact ih (twins.lower body).2

theorem finish (twins : unit.Twins other) : other.finish = unit.finish := by
  obtain ⟨tables, rfl⟩ := twins.same
  rfl

end Twins

/-! ## Units that bodies lead to -/

theorem lower_keeps (unit : ClassUnit) (body : MethodBody) :
    (unit.lower body).2.types = unit.types ∧ (unit.lower body).2.resolver = unit.resolver := by
  rcases unit.lower_cases body with ⟨error, lowered⟩ | lowered
  · rw [lowered]
    exact ⟨rfl, rfl⟩
  · rw [lowered]
    cases body.action (unit.context body.frame) unit.initialState with
    | ok result state => exact ⟨rfl, rfl⟩
    | error fault state => exact ⟨rfl, rfl⟩

/-- The next body finds what a body found, or what it left, however it ended. -/
theorem initialState_lower (unit : ClassUnit) (body : MethodBody) :
    (unit.lower body).2.initialState = unit.initialState ∨
      ∃ state, state = final (body.action (unit.context body.frame) unit.initialState) ∧
        (unit.lower body).2.initialState =
          { assembler := { pool := state.assembler.pool }, ledger := state.ledger,
            diagnostics := state.diagnostics } := by
  rcases unit.lower_cases body with ⟨error, lowered⟩ | lowered
  · exact .inl (by rw [lowered])
  · rw [lowered]
    cases body.action (unit.context body.frame) unit.initialState with
    | ok result state => exact .inr ⟨state, rfl, rfl⟩
    | error fault state => exact .inr ⟨state, rfl, rfl⟩

/-- However a body ends, what the next one finds has grown. -/
theorem grows_lower (appends : unit.ledger.allocator.Appends) (body : MethodBody) :
    unit.initialState.Grows (unit.lower body).2.initialState := by
  have grows := (body.stepwise (unit.context body.frame)).grows unit.initialState appends
  rcases unit.initialState_lower body with same | ⟨state, rfl, next⟩
  · rw [same]
    exact .refl _
  · rw [next]
    exact grows.trans (.of_pool rfl rfl (.refl _))

/-- The tables of a reachable unit are those of their classes, and its call sites stay. -/
theorem Reached.ledger (reached : unit.Reached) :
    unit.ledger.Reachable unit.types ∧ unit.ledger.allocator.Appends := by
  induction reached with
  | start resolver reachable appends => exact ⟨reachable, appends⟩
  | @body unit body _ ih =>
      obtain ⟨reachable, appends⟩ := ih
      -- a unit is its own twin, and what a body leaves of twins are twins with such tables
      have itself : unit.Twins unit := ⟨⟨unit.ledger.tables, rfl⟩, reachable, reachable⟩
      have allocator : (unit.lower body).2.ledger.allocator = unit.ledger.allocator :=
        (grows_lower appends body).allocator
      refine ⟨(itself.lower body).2.reachable, ?_⟩
      rw [allocator]
      exact appends

end ClassUnit

end CallCode
