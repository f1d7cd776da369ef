import CallCode.Lowering.ConstructorChain
import CallCode.Lowering.MethodCall

/-!
# Expressions

An expression pushes exactly one operand.  A call is lowered from its operands,
and each operand is an expression with the action that loads it, so the
functions below recurse on the expression and leave the ways to make a call to
the modules for them.
-/

namespace CallCode

open Lower

/-- Push the current instance, or the class in static code. -/
def loadThis : Lower Unit := do
  let context ← read
  if context.frame.isStatic then
    write (·.loadClass context.frame.classId)
    push .metaclass
  else
    write (·.getThis)
    push (context.typeOf .this)

/-- Push the current instance as one of the superclass. -/
def loadSuper : Lower Unit := do
  write (·.getThis)
  push ((← read).typeOf .super)

/-- Lower a call that stands as an expression, from its operands. -/
def lowerCall : Call Operand → Lower Unit
  | .method call => do
      let _ ← lowerMethodCall call
  | .static call => do
      let _ ← lowerStaticCall call
  | .create call => do
      let _ ← lowerNewCall call
  | .chain _ => fail (.internal .chainAsValue)

mutual

/-- Push the value of an expression. -/
def Expr.lower : Expr → Lower Unit
  | .null => do
      write (·.loadNull)
      push .object
  | .bool value => do
      write (·.loadBool value)
      push .boolean
  | .int value => do
      write (·.loadInt value)
      push .int
  | .string value => do
      write (·.loadString value)
      push .string
  | .read source => do
      write (·.getLocal source.slot)
      push source.type
  | .this => loadThis
  | .super => loadSuper
  | .classLiteral id => do
      write (·.loadClass id)
      push .metaclass
  | .cast target operand => do
      operand.lower
      coerceTo target
  | .spread operand => operand.lower
  | .call call => lowerCall call.operands
termination_by structural expr => expr

/-- A call with its expressions as operands. -/
def Call.operands : Call Expr → Call Operand
  | .method call => .method call.operands
  | .static call => .static call.operands
  | .create call => .create call.operands
  | .chain call => .chain call.operands
termination_by structural call => call

/-- A method call with its expressions as operands. -/
def MethodCall.operands : MethodCall Expr → MethodCall Operand
  | ⟨receiver, selector, arguments, safe, spreadSafe, implicitThis, target,
      optimizedTarget, position⟩ =>
      ⟨⟨receiver, receiver.lower⟩, selector.operands, operandsOf arguments, safe,
        spreadSafe, implicitThis, target, optimizedTarget, position⟩
termination_by structural call => call

/-- A static call with its expressions as operands. -/
def StaticCall.operands : StaticCall Expr → StaticCall Operand
  | ⟨owner, name, arguments, optimizedTarget, position⟩ =>
      ⟨owner, name, operandsOf arguments, optimizedTarget, position⟩
termination_by structural call => call

/-- A `new` call with its expressions as operands. -/
def NewCall.operands : NewCall Expr → NewCall Operand
  | ⟨classId, arguments, optimizedTarget, anonymous, position⟩ =>
      ⟨classId, operandsOf arguments, optimizedTarget, anonymous, position⟩
termination_by structural call => call

/-- A chained call with its expressions as operands. -/
def ChainCall.operands : ChainCall Expr → ChainCall Operand
  | ⟨target, arguments, position⟩ => ⟨target, operandsOf arguments, position⟩
termination_by structural call => call

/-- A selector with its expression as an operand. -/
def Selector.operands : Selector Expr → Selector Operand
  | .named name => .named name
  | .computed value => .computed ⟨value, value.lower⟩
termination_by structural selector => selector

/-- Expressions as operands. -/
def operandsOf : List Expr → List Operand
  | [] => []
  | expr :: exprs => ⟨expr, expr.lower⟩ :: operandsOf exprs
termination_by structural exprs => exprs

end

/-- An expression as an operand. -/
def Expr.operand (expr : Expr) : Operand := ⟨expr, expr.lower⟩

theorem operandsOf_eq_map (exprs : List Expr) :
    operandsOf exprs = exprs.map Expr.operand := by
  induction exprs with
  | nil => rfl
  | cons expr exprs ih => rw [operandsOf, ih, List.map_cons, Expr.operand]

theorem length_operandsOf (exprs : List Expr) :
    (operandsOf exprs).length = exprs.length := by
  rw [operandsOf_eq_map, List.length_map]

@[simp]
theorem sources_operandsOf (exprs : List Expr) : sources (operandsOf exprs) = exprs := by
  rw [operandsOf_eq_map, sources, List.map_map]
  exact List.map_id' exprs

end CallCode
