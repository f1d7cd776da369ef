import CallCode.Call.StaticType
import CallCode.Dispatch.Ledger
import CallCode.Machine.Assembler
import CallCode.TypeStack

/-!
# Lowering actions

A lowering action writes code for one method body.  It reads the types and the
frame, and changes the assembler, the tracked stack, the ledger of the class and
the diagnostics.  What it did before it fails stays done.
-/

namespace CallCode

/-- Why a lowering action stopped. -/
inductive Fault
  | rejected (error : LoweringError)
  /-- A branch became too long for its operand. -/
  | jumpTooFar (failure : JumpTooFar)
  deriving DecidableEq, Repr

/-- What a lowering action reads. -/
structure Context where
  types : TypeTable
  frame : Frame
  resolver : TypeResolver := annotatedType

/-- The static type of an expression. -/
def Context.typeOf (context : Context) (expr : Expr) : ValueType :=
  context.resolver context.types context.frame expr

/-- What a lowering action changes. -/
structure LoweringState where
  assembler : Assembler := {}
  stack : TypeStack := []
  ledger : Ledger
  diagnostics : Diagnostics := {}

/-- An action that lowers part of a method body. -/
abbrev Lower := ReaderT Context (EStateM Fault LoweringState)

/-- An expression together with the action that pushes its value. -/
structure Operand where
  source : Expr
  load : Lower Unit

/-- The argument expressions of a call. -/
def sources (operands : List Operand) : List Expr := operands.map (·.source)

namespace Lower

/-- Stop with an error. -/
def fail {Result : Type} (error : LoweringError) : Lower Result :=
  throw (.rejected error)

/-- Take the result of a step that may be refused. -/
def accept {Result : Type} : Except LoweringError Result → Lower Result
  | .ok result => pure result
  | .error error => fail error

/-- Write code. -/
def write (step : Assembler → Assembler) : Lower Unit :=
  modify fun state => { state with assembler := step state.assembler }

/-- Write a branch and take its label. -/
def writeLabelled {Result : Type} (step : Assembler → Result × Assembler) :
    Lower Result :=
  modifyGet fun state =>
    let (result, assembler) := step state.assembler
    (result, { state with assembler })

/-- Let a pending branch end here. -/
def resolve (label : Label) : Lower Unit := do
  match (← get).assembler.listing.distance label with
  | .ok distance => write (·.setDistance label distance)
  | .error failure => throw (.jumpTooFar failure)

/-- Run an operation on the tracked stack. -/
def track {Result : Type} (action : StackAction Result) : Lower Result :=
  fun _ state =>
    match action state.stack with
    | .ok result stack => .ok result { state with stack }
    | .error error stack => .error (.rejected error) { state with stack }

def push (type : ValueType) : Lower Unit := track (.push type)

def replace (type : ValueType) (count : Nat) : Lower Unit :=
  track (.replace type count)

/-- The depth of the tracked stack. -/
def depth : Lower Nat := track .depth

/-- Put one operand in place of all above a depth. -/
def collapse (start : Nat) (type : ValueType) : Lower Unit := do
  let count ← track (.countAbove start)
  replace type count

/-- Drop all operands above a depth. -/
def dropAbove (start : Nat) : Lower Unit := do
  let count ← track (.countAbove start)
  track (.remove count)

/-- Attribute what follows to the line of a call, if the call has one. -/
def markLine (position : Position) : Lower Unit :=
  if position.isSynthetic then pure () else write (·.setLine position.line)

/-- Run an operation on the ledger of the class. -/
def consult {Result : Type} (action : EStateM LoweringError Ledger Result) :
    Lower Result :=
  fun _ state =>
    match action state.ledger with
    | .ok result ledger => .ok result { state with ledger }
    | .error error ledger => .error (.rejected error) { state with ledger }

end Lower

/-- A number of arguments as an operand of one byte. -/
def byteCount (count : Nat) (position : Position) : Except LoweringError UInt8 :=
  if count < 256 then .ok count.toUInt8
  else .error (.tooManyArguments count 255 position)

/-- A number of arguments as an operand of two bytes. -/
def wordCount (count : Nat) (position : Position) : Except LoweringError UInt16 :=
  if count < 65536 then .ok count.toUInt16
  else .error (.tooManyArguments count 65535 position)

end CallCode
