import CallCode.Lowering.Dispatch
import CallCode.Lowering.Invocation
import CallCode.TypeTable.Builtin

/-!
# Method calls

A method call is bound to a known target if it has one, and is dispatched through
a cached site or a routine otherwise.  A call without a written receiver may also
name a field that holds a closure.
-/

namespace CallCode

open Lower

/-- How a method call was lowered. -/
inductive Tier
  | direct
  | cached
  | uncached
  /-- A closure in a field was called. -/
  | closure
  deriving DecidableEq, Repr

/-- The name of a tier in reports. -/
def Tier.name : Tier → String
  | direct => "Direct"
  | cached => "Cached"
  | uncached => "Uncached"
  | closure => "Closure"

/-- A statically bound call: the target and the receiver that is loaded for it. -/
structure BoundCall where
  target : Method
  implicitThis : Bool
  receiver : Option Operand

namespace Request

/-- Whether the receiver is `super` or a written `this`. -/
def explicitReceiver (request : Request) : Bool :=
  request.receiver.source.isSuper ||
    (request.receiver.source.isThis && !request.implicitThis)

/-- The request without what an explicit receiver cannot need. -/
def normalize (request : Request) : Request :=
  if request.explicitReceiver then
    { request with implicitThis := false, safe := false }
  else request

/-- The class in whose name a call is made. -/
def senderIn (request : Request) (frame : Frame) : Identity :=
  if request.explicitReceiver then frame.thisType
  else request.sender.getD frame.classId

/-- Whether the call looks a class up by its name on the metaclass. -/
def isClassLookup (request : Request) : Bool :=
  match request.receiver.source, request.arguments with
  | .classLiteral id, [argument] =>
      id == .metaclass && request.selector.name? == some Builtin.forName &&
        !argument.source.isSpread
  | _, _ => false

/-- The target that the optimizer proved, where the frame trusts it. -/
def fastTarget? (request : Request) (options : Options) : Option Identity :=
  let onCurrent :=
    request.routine == .invokeOnCurrent || request.routine == .invokeStatic
  if options.fastPath && options.optimizeForInt && onCurrent &&
      request.selector.name?.isSome then
    request.optimizedTarget
  else none

/-- The method of a target that has to be known. -/
def knownMethod (request : Request) (types : TypeTable) (target : Identity) :
    Except LoweringError Method :=
  match types.method? target with
  | some method => .ok method
  | none => .error (.unknownMethod target.text request.position)

/-- The call to a resolved target; spread arguments cannot be bound to one. -/
def resolvedCall (request : Request) (types : TypeTable) :
    Except LoweringError (Option BoundCall) :=
  match request.target with
  | some target =>
      if request.hasSpread then .ok none
      else do
        let method ← request.knownMethod types target
        return some ⟨method, request.implicitThis, some request.receiver⟩
  | none => .ok none

/-- The statically bound call that a request amounts to, if it does. -/
def boundCall (request : Request) (types : TypeTable) (options : Options) :
    Except LoweringError (Option BoundCall) :=
  match if request.isClassLookup then types.classLookup? else none with
  | some method => .ok (some ⟨method, false, some request.receiver⟩)
  | none =>
      match request.fastTarget? options with
      | some target => do
          let method ← request.knownMethod types target
          return some ⟨method, true, none⟩
      | none => request.resolvedCall types

end Request

/-- Make a call in the first way that it admits, leaving one operand. -/
def makeCall (request : Request) : Lower Tier := do
  let context ← read
  let sender := request.senderIn context.frame
  let request := request.normalize
  match ← accept (request.boundCall context.types context.frame.options) with
  | some call =>
      let result ← invokeTarget call.target call.implicitThis call.receiver
        request.arguments request.position
      materialize result
      return .direct
  | none =>
      match request.cachedName? with
      | some name =>
          callThroughSite request.receiver name request.arguments
            request.siteFlags request.position
          return .cached
      | none =>
          callThroughRoutine request sender
          return .uncached

namespace MethodCall

/-- Whether a call on `this` is made on the class. -/
def onClass (call : MethodCall Operand) (frame : Frame) : Bool :=
  call.receiver.source.isThis &&
    (frame.isStaticMethod || (frame.isStaticContext && !call.implicitThis))

/-- The routine that could dispatch the call. -/
def routine (call : MethodCall Operand) (frame : Frame) : Routine :=
  if call.onClass frame then .invokeStatic
  else if call.receiver.source.isSuper then .invokeOnSuper
  else if call.receiver.source.isThis then .invokeOnCurrent
  else .invokeMethod

/-- The method that a call of a functional interface reaches. -/
def functionalMethod? (call : MethodCall Operand) (context : Context) :
    Option Method :=
  if call.selector.name? = some "call" ∧ ¬call.receiver.source.isThis then
    let receiverType := context.typeOf call.receiver.source
    if receiverType.isArray then none
    else context.types.singleAbstractMethod receiverType.base
  else none

/-- The field whose closure the call runs: a field of the enclosing class, named
without a receiver, with which no method of the class competes. -/
def closureField? (call : MethodCall Operand) (context : Context) : Option Field := do
  let name ← call.selector.name?
  guard (call.implicitThis && call.receiver.source.isThis)
  let decl ← context.types.find? context.frame.classId
  let field ← decl.findField name
  guard (field.isStatic || !call.onClass context.frame)
  guard !(context.types.hasPossibleMethod context.frame.classId name
    call.arguments.length)
  return field

/-- The call as a request that a routine could dispatch. -/
def requestFor (call : MethodCall Operand) (routine : Routine) : Request where
  receiver := call.receiver
  selector := call.selector
  arguments := call.arguments
  routine := routine
  safe := call.safe
  spreadSafe := call.spreadSafe
  implicitThis := call.implicitThis
  target := call.target
  optimizedTarget := call.optimizedTarget
  position := call.position

/-- The call as a request; a call of a functional interface is one of its
method. -/
def request (call : MethodCall Operand) (context : Context) : Request :=
  let plain := call.requestFor (call.routine context.frame)
  match call.functionalMethod? context with
  | some method =>
      { plain with selector := .named method.name, target := some method.id }
  | none => plain

end MethodCall

/-- Call the closure in a field of the enclosing class. -/
def callClosure (field : Field) (arguments : List Operand) (position : Position) :
    Lower Unit := do
  let classId := (← read).frame.classId
  let start ← depth
  if field.isStatic then
    write (·.getStaticField classId field.name)
  else
    write (·.getThis)
    write (·.getField field.name)
  push field.type
  let _ ← boxTop
  packVector arguments position
  write (·.callRoutine .invokeClosure 2)
  collapse start .object

/-- Lower `receiver.name(arguments)`. -/
def lowerMethodCall (call : MethodCall Operand) : Lower Tier := do
  markLine call.position
  let context ← read
  match call.closureField? context with
  | some field =>
      callClosure field call.arguments call.position
      return .closure
  | none => makeCall (call.request context)

/-- Lower `Owner.name(arguments)`, given the class literal of the owner. -/
def lowerStaticCall (call : StaticCall Operand) : Lower Tier := do
  markLine call.position
  makeCall
    { receiver :=
        { source := .classLiteral call.owner
          load := do
            write (·.loadClass call.owner)
            push .metaclass }
      selector := .named call.name
      arguments := call.arguments
      routine := .invokeStatic
      optimizedTarget := call.optimizedTarget
      position := call.position }

end CallCode
