import CallCode.Position
import CallCode.ValueType

/-!
# Call syntax

The calls of a program and the expressions that stand as their receivers and
arguments.  Each kind of call is a record over the type of its operands, so the
same record also describes a call whose operands are ready to be loaded.
-/

namespace CallCode

/-- The name that a call sends, known or computed. -/
inductive Selector (Value : Type)
  | named (name : String)
  | computed (value : Value)

namespace Selector

variable {Value : Type}

/-- The name, where it is known at compile time. -/
def name? : Selector Value → Option String
  | named name => some name
  | computed _ => none

end Selector

/-- `receiver.name(arguments)` -/
structure MethodCall (Value : Type) where
  receiver : Value
  selector : Selector Value
  arguments : List Value
  /-- A null receiver yields null. -/
  safe : Bool := false
  /-- The call is made on every element of the receiver. -/
  spreadSafe : Bool := false
  /-- The receiver was not written down. -/
  implicitThis : Bool := false
  /-- The method that the call was resolved to. -/
  target : Option Identity := none
  /-- The method that the optimizer proved the call to reach. -/
  optimizedTarget : Option Identity := none
  position : Position := .synthetic

/-- `Owner.name(arguments)` -/
structure StaticCall (Value : Type) where
  owner : Identity
  name : String
  arguments : List Value
  optimizedTarget : Option Identity := none
  position : Position := .synthetic

/-- `new Class(arguments)` -/
structure NewCall (Value : Type) where
  classId : Identity
  arguments : List Value
  /-- The constructor that the optimizer proved the call to reach. -/
  optimizedTarget : Option Identity := none
  /-- The class is an anonymous one that is declared by this call. -/
  anonymous : Bool := false
  position : Position := .synthetic

/-- Whose constructor a chained call runs. -/
inductive ChainTarget
  | sameClass
  | superclass
  deriving DecidableEq, Repr

/-- `this(arguments)` or `super(arguments)` -/
structure ChainCall (Value : Type) where
  target : ChainTarget
  arguments : List Value
  position : Position := .synthetic

/-- A call of any kind. -/
inductive Call (Value : Type)
  | method (call : MethodCall Value)
  | static (call : StaticCall Value)
  | create (call : NewCall Value)
  | chain (call : ChainCall Value)

/-- Where a call starts. -/
def Call.position {Value : Type} : Call Value → Position
  | method call => call.position
  | static call => call.position
  | create call => call.position
  | chain call => call.position

/-- A read of a local variable. -/
structure Local where
  name : String
  slot : UInt16
  type : ValueType
  /-- The local is captured, assigned to, and kept in a shared cell. -/
  byReference : Bool := false
  deriving DecidableEq, Repr

/-- An expression that stands as a receiver or an argument. -/
inductive Expr
  | null
  | bool (value : Bool)
  | int (value : Int64)
  | string (value : String)
  | read (source : Local)
  /-- The current instance, or the class itself in static code. -/
  | this
  | super
  | classLiteral (id : Identity)
  | cast (target : ValueType) (operand : Expr)
  /-- An argument that stands for the elements of its value. -/
  | spread (operand : Expr)
  | call (call : Call Expr)

namespace Expr

def isNull : Expr → Bool
  | null => true
  | _ => false

def isThis : Expr → Bool
  | this => true
  | _ => false

def isSuper : Expr → Bool
  | super => true
  | _ => false

def isSpread : Expr → Bool
  | spread _ => true
  | _ => false

end Expr

/-- Whether some argument stands for the elements of its value. -/
def containsSpread (arguments : List Expr) : Bool :=
  arguments.any Expr.isSpread

end CallCode
