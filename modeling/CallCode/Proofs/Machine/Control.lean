import CallCode.Proofs.Machine.Writing
import Mathlib.Logic.Relation

/-!
# Control

Control goes from an instruction to the next one in the code, or to where one of
its branches leads.  What the instructions do to the state of a machine is left
open: the state may be the depth of the stack as well as the values on it.
-/

namespace CallCode

namespace Operation

/-- Whether the next operation in the code follows. -/
def falls : Operation → Bool
  | jump _ | lookupSwitch _ _ | raiseFatal _ => false
  | _ => true

/-- Where control goes from an instruction at an offset, by one of its branches or to
the next instruction.  Each distance is measured from the end of its own operand. -/
def target? (offset size : Nat) : Operation → Option Branch → Option Nat
  | jump distance, some .jump => some (offset + 3 + distance.toNat)
  | lookupSwitch fallback _, some .fallback => some (offset + 5 + fallback.toNat)
  | lookupSwitch _ cases, some (.case position) =>
      cases[position]?.map fun case => offset + 11 + 6 * position + case.distance.toNat
  | operation, none => if operation.falls then some (offset + size) else none
  | _, some _ => none

theorem target?_of_falls {operation : Operation} (falls : operation.falls = true)
    (offset size : Nat) (branch : Option Branch) :
    operation.target? offset size branch =
      if branch = none then some (offset + size) else none := by
  cases branch with
  | none => simp [target?, falls]
  | some branch => cases operation <;> first | rfl | simp [Operation.falls] at falls

theorem target?_jump {distance : UInt16} {offset size target : Nat} {branch : Option Branch}
    (leads : (jump distance).target? offset size branch = some target) :
    target = offset + 3 + distance.toNat := by
  cases branch with
  | none => simp [target?, falls] at leads
  | some branch =>
      cases branch with
      | jump => exact (Option.some.inj leads).symm
      | fallback => cases leads
      | case => cases leads

theorem target?_lookupSwitch {fallback : UInt16} {cases : List SwitchCase}
    {offset size target : Nat} {branch : Option Branch}
    (leads : (lookupSwitch fallback cases).target? offset size branch = some target) :
    target = offset + 5 + fallback.toNat ∨ ∃ position case,
      cases[position]? = some case ∧
        target = offset + 11 + 6 * position + case.distance.toNat := by
  cases branch with
  | none => simp [target?, falls] at leads
  | some branch =>
      cases branch with
      | jump => cases leads
      | fallback => exact .inl (Option.some.inj leads).symm
      | case position =>
          obtain ⟨case, found, rfl⟩ := Option.map_eq_some_iff.mp leads
          exact .inr ⟨position, case, found, rfl⟩

theorem target?_raiseFatal {message : ByteArray} {offset size : Nat}
    {branch : Option Branch} : (raiseFatal message).target? offset size branch = none := by
  cases branch with
  | none => rfl
  | some branch => rfl

end Operation

/-- What an operation does to the state of a machine when control leaves it by a
branch, or for the next instruction. -/
abbrev Machine (State : Type) := Operation → Option Branch → State → State → Prop

namespace Machine

variable {State : Type} (machine : Machine State) (pool : ConstantPool) (code : ObjectCode)

/-- One instruction of some code is executed. -/
inductive Step : Nat × State → Nat × State → Prop
  | execute {offset target : Nat} {state next : State} {instruction : Instruction}
      {operation : Operation} {branch : Option Branch} :
      code.instructionAt offset = some instruction →
      instruction.operation? pool = some operation →
      machine operation branch state next →
      operation.target? offset instruction.size branch = some target →
      Step (offset, state) (target, next)

/-- Instructions of some code are executed one after another. -/
def Reaches : Nat × State → Nat × State → Prop :=
  Relation.ReflTransGen (machine.Step pool code)

/-- A machine executes operations in a row. -/
inductive Executes : List Operation → State → State → Prop
  | nil {state : State} : Executes [] state state
  | cons {operation : Operation} {rest : List Operation} {state next final : State} :
      operation.falls = true → machine operation none state next →
      Executes rest next final → Executes (operation :: rest) state final

variable {machine} {pool} {code}

theorem Executes.append {first second : List Operation} {state middle final : State}
    (left : machine.Executes first state middle)
    (right : machine.Executes second middle final) :
    machine.Executes (first ++ second) state final := by
  induction left with
  | nil => exact right
  | cons falls does _ ih => exact .cons falls does (ih right)

/-- Code that stands in a row is executed from its start to its end. -/
theorem Executes.reaches {placed : List Placed} {operations : List Operation}
    {state final : State} {offset : Nat}
    (executes : machine.Executes operations state final)
    (located : code.Located offset placed) (performs : Performs pool placed operations) :
    machine.Reaches pool code (offset, state) (offset + codeSize placed, final) := by
  induction executes generalizing offset placed with
  | nil =>
      obtain rfl := List.forall₂_nil_right_iff.mp performs
      exact .refl
  | cons falls does _ ih =>
      cases performs with
      | @cons item _ rest _ known performs =>
          obtain ⟨here, following⟩ := located
          have leads := Operation.target?_of_falls falls offset item.instruction.size none
          rw [codeSize_cons, ← Nat.add_assoc]
          exact .head (.execute here known does leads) (ih following performs)

end Machine

end CallCode
