import CallCode.Proofs.Lowering.EvaluatedCalls

/-!
# Marks of calls

Two things that a call leaves depend on how it is made, and not on what the class has
already: the class whose instance is pushed as one that encloses the current one, and the
name that is noted as sent to `super`.  These are the marks of the call.
-/

namespace CallCode

/-- What a call leaves by itself, besides what its operands leave. -/
inductive Mark
  /-- An instance of a class was pushed as one that encloses the current one. -/
  | outer (classId : Identity)
  /-- The name was noted as sent to `super`. -/
  | super (name : String)
  deriving DecidableEq, Repr

/-- A bound call that pushes an enclosing instance pushes one of its declaring class. -/
def BoundCall.marks (context : Context) (call : BoundCall) : List Mark :=
  if call.instanceLoad? context = some .getOuterThis then [.outer call.target.owner] else []

/-- The name is noted that a routine sends to `super`. -/
def Request.noted (request : Request) : List Mark :=
  if request.routine = .invokeOnSuper then (request.selector.name?.map .super).toList else []

/-- The marks of a request, without those of its operands. -/
def Request.ownMarks (context : Context) (request : Request) : List Mark :=
  match request.normalize.boundCall context.types context.frame.options with
  | .ok (some call) => call.marks context
  | .ok none => if request.cachedName?.isSome then [] else request.noted
  | .error _ => []

/-- The marks of a method call, without those of its operands. -/
def MethodCall.ownMarks (context : Context) (call : MethodCall Operand) : List Mark :=
  if (call.closureField? context).isSome then [] else (call.request context).ownMarks context

/-- The marks of a call, without those of its operands. -/
def Call.ownMarks (context : Context) : Call Expr → List Mark
  | .method call => call.operands.ownMarks context
  | .static call => call.operands.request.ownMarks context
  | .create _ | .chain _ => []

/-- The marks of the calls that are evaluated in an expression. -/
def Expr.marks (context : Context) (expr : Expr) : List Mark :=
  (expr.evaluated context).flatMap (Call.ownMarks context)

/-- The marks of a call and of the calls that are evaluated in its operands. -/
def Call.marks (context : Context) (call : Call Expr) : List Mark :=
  (call.evaluated context).flatMap (Call.ownMarks context)

/-- The marks of the calls that are evaluated in some operands. -/
def operandMarks (context : Context) (operands : List Operand) : List Mark :=
  operands.flatMap fun operand => operand.source.marks context

end CallCode
