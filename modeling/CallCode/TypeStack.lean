import CallCode.Error
import CallCode.ValueType

/-!
# The tracked operand stack

Lowering knows the static type of every value that the code leaves on the stack
of the machine.  An operation that finds too few operands fails; those that check
first leave the stack alone, and those that pop one by one keep what they popped
off.
-/

namespace CallCode

/-- The types of the operands, the top first. -/
abbrev TypeStack := List ValueType

namespace TypeStack

/-- What stands below the top `count` operands, if there are as many. -/
def below? : Nat → TypeStack → Option TypeStack
  | 0, stack => some stack
  | _ + 1, [] => none
  | count + 1, _ :: stack => below? count stack

theorem below?_eq (count : Nat) (stack : TypeStack) :
    below? count stack =
      if count ≤ stack.length then some (stack.drop count) else none := by
  fun_induction below? count stack with
  | case1 stack => simp
  | case2 count => simp
  | case3 count type stack ih => simp [ih]

end TypeStack

/-- An operation on the tracked stack. -/
abbrev StackAction := EStateM LoweringError TypeStack

namespace StackAction

/-- The error of an operation that finds too few operands. -/
def underflow : LoweringError := .internal .stackUnderflow

def push (type : ValueType) : StackAction Unit :=
  fun stack => .ok () (type :: stack)

def pop : StackAction ValueType
  | type :: stack => .ok type stack
  | [] => .error underflow []

/-- The type on top, which stays there. -/
def top : StackAction ValueType
  | type :: stack => .ok type (type :: stack)
  | [] => .error underflow []

/-- Drop the top `count` operands. -/
def remove (count : Nat) : StackAction Unit :=
  fun stack =>
    match TypeStack.below? count stack with
    | some rest => .ok () rest
    | none => .error underflow stack

/-- Put one operand in place of the top `count`. -/
def replace (type : ValueType) (count : Nat) : StackAction Unit := do
  remove count
  push type

/-- `b a → a b` -/
def swap : StackAction Unit
  | first :: second :: stack => .ok () (second :: first :: stack)
  | stack => .error underflow stack

/-- `a → a a` -/
def dup : StackAction Unit := do
  push (← top)

/-- `b a → a b a` -/
def dupX1 : StackAction Unit := do
  let first ← pop
  let second ← pop
  modify fun stack => first :: second :: first :: stack

/-- `c b a → b a c b a` -/
def dup2X1 : StackAction Unit := do
  let first ← pop
  let second ← pop
  let third ← pop
  modify fun stack => first :: second :: third :: first :: second :: stack

def depth : StackAction Nat :=
  fun stack => .ok stack.length stack

/-- How many operands stand above a depth. -/
def countAbove (start : Nat) : StackAction Nat :=
  fun stack =>
    if start ≤ stack.length then .ok (stack.length - start) stack
    else .error (.internal .stackShrank) stack

end StackAction

end CallCode
