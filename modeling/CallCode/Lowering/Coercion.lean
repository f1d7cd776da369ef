import CallCode.Lowering.Basic
import CallCode.TypeTable.Hierarchy

/-!
# Coercions

Each coercion changes the operand on top of the stack to fit a type.
-/

namespace CallCode

open Lower

/-- Box the top operand if it is a primitive, and answer its type. -/
def boxTop : Lower ValueType := do
  let types := (← read).types
  let top ← track .top
  if types.isPrimitive top then
    let boxed := types.boxed top
    write (·.box top.base)
    replace boxed 1
    return boxed
  else
    return top

/-- Convert the top operand to a typed operand.  Primitives are boxed and unboxed
as needed, and a reference is cast only if its tracked type does not fit. -/
def coerceTo (target : ValueType) : Lower Unit := do
  let types := (← read).types
  let top ← track .top
  if top = target then
    return
  else if types.isPrimitive target then
    if types.isPrimitive top then
      write (·.box top.base)
    write (·.unbox target.base)
    replace target 1
  else
    let reference ← if types.isPrimitive top then boxTop else pure top
    if !types.isAssignable reference target then
      write (·.checkCast target.signature)
      replace target 1

/-- Hand the top operand and a class to a routine, and cast what it answers. -/
def castThrough (routine : Routine) (target : ValueType) : Lower Unit := do
  write (·.loadClass target.signature)
  write (·.callRoutine routine 2)
  write (·.checkCast target.signature)

/-- Convert the top operand to a declared reference type at run time. -/
def coerceToDeclared (target : ValueType) : Lower Unit := do
  let types := (← read).types
  let boxed ← boxTop
  if types.isAssignable boxed target then
    return
  if target = .metaclass then
    write (·.callRoutine .castToClass 1)
  else if target = .string then
    write (·.callRoutine .castToString 1)
  else if types.isEnum target then
    castThrough .castToEnum target
  else
    castThrough .castToType target
  replace target 1

/-- Unbox the boolean on top. -/
def coerceToBoolean : Lower Unit := do
  write (·.unbox .boolean)
  replace .boolean 1

/-- Convert the top operand implicitly. -/
def coerceImplicitly (target : ValueType) : Lower Unit := do
  let types := (← read).types
  let top ← track .top
  if types.isAssignable top target then
    return
  let _ ← boxTop
  castThrough .convert target
  replace target 1

/-- Make a call result into exactly one operand: no result becomes null. -/
def materialize : Option ValueType → Lower Unit
  | some _ => pure ()
  | none => do
      write (·.loadNull)
      push .object

end CallCode
