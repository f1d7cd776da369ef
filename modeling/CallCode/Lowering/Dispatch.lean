import CallCode.Lowering.Binding

/-!
# Dynamic dispatch

A call that is not bound statically goes through a cached call site, if it only
needs what a site can do, or else through a routine of the runtime.
-/

namespace CallCode

open Lower

/-- A method call that waits for a way to be made. -/
structure Request where
  receiver : Operand
  selector : Selector Operand
  arguments : List Operand
  routine : Routine
  /-- The class in whose name the call is made, if not the enclosing one. -/
  sender : Option Identity := none
  safe : Bool := false
  spreadSafe : Bool := false
  implicitThis : Bool := false
  target : Option Identity := none
  optimizedTarget : Option Identity := none
  position : Position := .synthetic

namespace Request

/-- Whether some argument stands for the elements of its value. -/
def hasSpread (request : Request) : Bool :=
  containsSpread (sources request.arguments)

/-- The name of a call that a cached site can make. -/
def cachedName? (request : Request) : Option String :=
  if request.routine.isCacheable && !request.spreadSafe then request.selector.name?
  else none

/-- The flags of a cached call before its arguments are looked at. -/
def siteFlags (request : Request) : CallFlags where
  safe := request.safe
  implicitThis := request.implicitThis
  current := request.routine == .invokeOnCurrent
  isStatic := request.routine == .invokeStatic

end Request

/-- Call through a cached site.  The slot is handed out once all operands are on
the stack. -/
def callThroughSite (receiver : Operand) (name : String) (arguments : List Operand)
    (flags : CallFlags) (position : Position) : Lower Unit := do
  let start ← depth
  loadBoxed receiver
  let spread := containsSpread (sources arguments)
  let count ←
    if spread then do
      packVector arguments position
      pure 1
    else do
      arguments.forM loadBoxed
      accept (byteCount arguments.length position)
  let flags := { flags with spread }
  let slot ← consult (Ledger.allocate ⟨name, flags⟩)
  write (·.callSite slot count flags.bits)
  collapse start .object

/-- Push the sender of a call; an assignment has none. -/
def loadSender (routine : Routine) (sender : Identity) : Lower Unit := do
  if routine = .setProperty then
    write (·.loadNull)
    push .object
  else
    write (·.loadClass sender)
    push .metaclass

/-- Push the name that a call sends. -/
def loadSelector : Selector Operand → Lower Unit
  | .named name => do
      write (·.loadString name)
      push .string
  | .computed value => loadBoxed value

/-- Load an argument of a routine, and keep an explicit cast of it visible. -/
def loadDispatched (argument : Operand) : Lower Unit := do
  loadBoxed argument
  if let .cast target _ := argument.source then
    write (·.loadClass target.signature)
    write (·.callRoutine .wrap 2)
    replace .object 1

/-- The number of arguments that a routine takes one by one; there is none if
they are handed over as a vector without a count. -/
def fixedCount (arguments : List Operand) : Option UInt8 :=
  if containsSpread (sources arguments) then none
  else if arguments.length < 128 then some arguments.length.toUInt8
  else none

/-- The operand that stands for no count. -/
def noCount : UInt8 := 255

/-- Call through a routine of the runtime. -/
def callThroughRoutine (request : Request) (sender : Identity) : Lower Unit := do
  let start ← depth
  loadSender request.routine sender
  if request.routine = .invokeOnSuper then
    if let some name := request.selector.name? then
      modify fun state => { state with ledger := state.ledger.recordSuper name }
  loadBoxed request.receiver
  loadSelector request.selector
  let arguments := request.arguments
  let count := fixedCount arguments
  let packed :=
    count.isNone || decide ((← read).frame.options.maxFixedArguments < arguments.length)
  if packed then
    packVector arguments request.position
  else
    arguments.forM loadDispatched
  let flags : CallFlags :=
    { safe := request.safe, spreadSafe := request.spreadSafe, spread := packed }
  write (·.callAdapter request.routine.number (count.getD noCount) flags.bits)
  collapse start .object

end CallCode
