import CallCode.Call.Frame
import CallCode.Call.Syntax
import CallCode.TypeTable.Basic

/-!
# Static types of expressions
-/

namespace CallCode

/-- The static types that lowering gives to expressions. -/
abbrev TypeResolver := TypeTable → Frame → Expr → ValueType

/-- The return type of a known target; `void` and unknown targets yield the root
class. -/
def targetType (types : TypeTable) (target : Option Identity) : ValueType :=
  match target.bind types.method? with
  | some method => if method.returnType.isVoid then .object else method.returnType
  | none => .object

/-- The type of the superclass of a class, or the root class. -/
def superType (types : TypeTable) (classId : Identity) : ValueType :=
  match (types.find? classId).bind (·.superclass) with
  | some superclass => .simple superclass
  | none => .object

/-- The types that literals, locals, casts and resolved targets state. -/
def annotatedType : TypeResolver := fun types frame expr =>
  match expr with
  | .null | .spread _ => .object
  | .bool _ => .boolean
  | .int _ => .int
  | .string _ => .string
  | .read source => source.type
  | .this => if frame.isStatic then .metaclass else .simple frame.classId
  | .super => superType types frame.classId
  | .classLiteral _ => .metaclass
  | .cast target _ => target
  | .call (.method call) => targetType types call.target
  | .call (.static call) => targetType types call.optimizedTarget
  | .call (.create call) => .simple call.classId
  | .call (.chain _) => .object

end CallCode
