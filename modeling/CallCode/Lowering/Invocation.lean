import CallCode.Lowering.Binding

/-!
# Statically bound invocations

A call with a known target invokes it directly.  The member is named as seen
through an owner, which is narrowed to the type of the receiver where the machine
would otherwise not find or not admit the member.
-/

namespace CallCode

open Lower

/-- How a known target is invoked. -/
structure Invocation where
  opcode : Opcode
  owner : Identity
  /-- The receiver has to be tracked as an instance of the owner. -/
  narrowsReceiver : Bool := false
  deriving DecidableEq, Repr

namespace Invocation

/-- The opcode for a target before its owner is narrowed. -/
def baseOpcode (types : TypeTable) (target : Method) (superReceiver : Bool) :
    Opcode :=
  if target.isStatic then .invokeStatic
  else if superReceiver then .invokeSpecial
  else if types.isInterface (.simple target.owner) then .invokeInterface
  else .invokeVirtual

/-- Whether a receiver type stands below the declaring type of a target. -/
def receiverInherits (types : TypeTable) (target : Method) (receiver : ValueType) :
    Bool :=
  if types.isInterface (.simple target.owner) then
    types.implementsInterface receiver.base target.owner
  else types.isDerivedFrom receiver (.simple target.owner)

/-- Whether a virtual call is narrowed to the class of its receiver. -/
def narrowsVirtual (types : TypeTable) (target : Method) (receiver : ValueType) :
    Bool :=
  !receiver.isArray && !types.isInterface receiver && !types.isPrimitive receiver &&
    receiver != .simple target.owner &&
    types.isDerivedFrom receiver (.simple target.owner)

/-- Whether the declaring type of a target is hidden from the code, so that the
member has to be named through the receiver. -/
def hidesOwner (types : TypeTable) (target : Method) (receiver : ValueType) : Bool :=
  !types.isPublic target.owner && !types.isFinal target.owner &&
    receiver != .simple target.owner && receiverInherits types target receiver

/-- How a target is invoked on a receiver of a static type. -/
def choose (types : TypeTable) (target : Method) (superReceiver : Bool)
    (receiver : ValueType) : Invocation :=
  let declaring := ValueType.simple target.owner
  let opcode := baseOpcode types target superReceiver
  if opcode = .invokeSpecial then
    if !types.isInterface declaring ||
        types.implementsInterface receiver.base target.owner then
      ⟨opcode, receiver.base, false⟩
    else ⟨opcode, target.owner, false⟩
  else if opcode = .invokeVirtual ∧ declaring = .object then
    ⟨opcode, target.owner, false⟩
  else if opcode = .invokeVirtual && narrowsVirtual types target receiver then
    ⟨opcode, receiver.base, true⟩
  else if hidesOwner types target receiver then
    if types.isInterface declaring && !types.isInterface receiver then
      ⟨.invokeVirtual, receiver.base, false⟩
    else ⟨opcode, receiver.base, false⟩
  else ⟨opcode, target.owner, false⟩

end Invocation

/-- Whether an unwritten receiver is the instance of an enclosing class. -/
def reachesOuter (types : TypeTable) (frame : Frame) (target : Method)
    (implicitThis : Bool) : Bool :=
  implicitThis &&
    (types.find? frame.classId).any (·.outer.isSome) &&
    !types.isDerivedFrom (.simple frame.classId) (.simple target.owner) &&
    !types.implementsInterface frame.classId target.owner

/-- Push the receiver of an instance target; with none written, it is `this`. -/
def loadReceiver (target : Method) (implicitThis : Bool) :
    Option Operand → Lower Unit
  | none => do
      write (·.getThis)
      push (.simple (← read).frame.classId)
  | some receiver => do
      let context ← read
      let declaring := ValueType.simple target.owner
      if reachesOuter context.types context.frame target implicitThis &&
          !context.frame.inGeneratedFunction && receiver.source.isThis then
        write (·.getOuterThis target.owner)
        push declaring
      else
        receiver.load
      coerceTo declaring

/-- Track the receiver on top as an instance of its static type. -/
def narrowReceiver (receiverType : ValueType) : Lower Unit := do
  if (← get).stack.head? ≠ some receiverType then
    write (·.checkCast receiverType.signature)
    replace receiverType 1

/-- Invoke a known target, and answer the type of the result it leaves; a target
that returns nothing leaves none. -/
def invokeTarget (target : Method) (implicitThis : Bool)
    (receiver : Option Operand) (arguments : List Operand) (position : Position) :
    Lower (Option ValueType) := do
  let context ← read
  let receiverType :=
    match receiver with
    | some operand => context.typeOf operand.source
    | none => .simple context.frame.classId
  let start ← depth
  if !target.isStatic then
    loadReceiver target implicitThis receiver
  let invocation := Invocation.choose context.types target
    (receiver.any (·.source.isSuper)) receiverType
  if invocation.narrowsReceiver then
    narrowReceiver receiverType
  bindArguments arguments target.params
  let count ← accept (byteCount target.params.length position)
  write (·.invoke invocation.opcode invocation.owner target.id count)
  dropAbove start
  if target.returnType.isVoid then
    return none
  push target.returnType
  return some target.returnType

end CallCode
