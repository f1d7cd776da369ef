import CallCode.Lowering.Construction

/-!
# Constructor chaining

`this(arguments)` and `super(arguments)` run another constructor of the same
instance.  Where exactly one constructor has the arity of the call it is bound at
once.  Otherwise the arguments are packed into a vector, the runtime answers the
key of the constructor that takes them, and a switch on that key has one arm for
every constructor, which unpacks the vector for it.
-/

namespace CallCode

open Lower

/-- What is raised when the runtime answers a key that no arm has. -/
def incompatibleClassMessage : String :=
  "This class has been compiled with a super class which is binary incompatible " ++
    "with the current super class found on classpath. You should recompile this " ++
    "class with the new version."

/-- The class whose constructor a chained call runs. -/
def ChainCall.calledClass (call : ChainCall Operand) (context : Context) :
    Except LoweringError Identity :=
  let enclosing := context.frame.classId
  match call.target with
  | .sameClass => .ok enclosing
  | .superclass =>
      match (context.types.find? enclosing).bind (·.superclass) with
      | some superclass => .ok superclass
      | none =>
          .error (.unknownType
            ("superclass of " ++ context.types.typeName enclosing) call.position)

/-- The candidate that a chained call binds to at once: inside a constructor, the
only one that takes as many arguments as are written. -/
def ChainCall.boundCandidate (call : ChainCall Operand) (frame : Frame)
    (table : CandidateTable) : Option Candidate :=
  if frame.isConstructor && !containsSpread (sources call.arguments) then
    table.uniqueOfArity call.arguments.length
  else none

/-- Run a known constructor on `this`; null needs no conversion. -/
def chainDirectly (classId : Identity) (constructor : Constructor)
    (arguments : List Operand) (position : Position) : Lower Unit := do
  let start ← depth
  write (·.getThis)
  push (.simple (← read).frame.classId)
  (arguments.zip constructor.params).forM fun (argument, param) => do
    argument.load
    if !argument.source.isNull then
      coerceTo param.type
  let count ← accept (byteCount constructor.params.length position)
  write (·.invoke .invokeSpecial classId constructor.id count)
  dropAbove start

/-- Ask the runtime for the dispatch key of the argument vector on top. -/
def selectKey (classId : Identity) (arguments : List Operand) (candidates : Nat) :
    Lower Unit := do
  let count : Int64 :=
    if containsSpread (sources arguments) then -1 else .ofNat arguments.length
  write (·.emit .dup)
  track .dup
  write (·.loadInt count)
  push .int
  write (·.loadClass classId)
  push .metaclass
  write (·.loadInt (.ofNat candidates))
  push .int
  write (·.callRoutine .selectConstructor 4)
  replace .int 4

/-- Push the instance to initialize: `this` in a constructor, else a new one. -/
def loadInstance (classId : Identity) (inConstructor : Bool) : Lower Unit := do
  if inConstructor then
    write (·.getThis)
    push (.simple (← read).frame.classId)
  else
    write (·.newInstance classId)
    push (.simple classId)

/-- Bring the vector on top of the receiver, with a copy of what has to outlast
the constructor below them: the vector in a constructor, else both. -/
def arrangeReceiver (inConstructor : Bool) : Lower Unit := do
  if inConstructor then
    write (·.emit .swap)
    track .swap
    write (·.emit .dupX1)
    track .dupX1
  else
    write (·.emit .dupX1)
    track .dupX1
    write (·.emit .dup2X1)
    track .dup2X1
    write (·.emit .pop)
    let _ ← track .pop

/-- Load one element of the vector on top beneath it, as a value of a type. -/
def unpackElement (position : Nat) (type : ValueType) : Lower Unit := do
  write (·.emit .dup)
  track .dup
  write (·.loadInt (.ofNat position))
  push .int
  write (·.emit .arrayLoad)
  replace .object 2
  coerceTo type
  write (·.emit .swap)
  track .swap

/-- Turn the vector on top into an array of its elements from a position on. -/
def unpackRest (position : Nat) (type : ValueType) : Lower Unit := do
  write (·.loadInt (.ofNat position))
  push .int
  write (·.loadClass type.signature)
  push .metaclass
  write (·.callRoutine .sliceArguments 3)
  write (·.checkCast type.signature)
  replace type 3

/-- Unpack the vector on top into parameters from a position on; an array as the
last of them takes all that remains. -/
def unpackVector (position : Nat) : List Param → Lower Unit
  | [] => do
      write (·.emit .pop)
      let _ ← track .pop
  | [param] =>
      if param.type.isArray then unpackRest position param.type
      else do
        unpackElement position param.type
        unpackVector (position + 1) []
  | param :: params => do
      unpackElement position param.type
      unpackVector (position + 1) params

/-- The code of one arm, entered with the vector and the receiver on top. -/
def lowerArm (classId : Identity) (candidate : Candidate) (inConstructor : Bool)
    (position : Position) : Lower Unit := do
  arrangeReceiver inConstructor
  unpackVector 0 candidate.constructor.params
  runConstructor classId candidate.constructor position

/-- Set the tracked stack to what it was at another point of the code. -/
def restore (stack : TypeStack) : Lower Unit :=
  modify fun state => { state with stack }

/-- The arms of a switch, all entered with the same stack.  Each ends in a branch
to the end of the switch, whose label and stack are answered. -/
def lowerArms (classId : Identity) (inConstructor : Bool) (position : Position)
    (entry : TypeStack) (arms : List (Candidate × Label)) :
    Lower (List (Label × TypeStack)) :=
  arms.mapM fun (candidate, label) => do
    restore entry
    resolve label
    lowerArm classId candidate inConstructor position
    let exit ← writeLabelled (·.jump .jump)
    return (exit, (← get).stack)

/-- Drop the vector from below the new instance, or from the top where the
instance was there before. -/
def dropVector (inConstructor : Bool) : Lower Unit := do
  if !inConstructor then
    write (·.emit .swap)
    track .swap
  write (·.emit .pop)
  let _ ← track .pop

/-- Choose a constructor by a switch on the key that the runtime answers. -/
def chainBySwitch (classId : Identity) (table : CandidateTable)
    (arguments : List Operand) (position : Position) : Lower Unit := do
  let context ← read
  modify fun state =>
    let (ledger, diagnostics) := state.ledger.reportCollisions context.types table
      position state.diagnostics
    { state with ledger, diagnostics }
  let inConstructor := context.frame.isConstructor
  packVector arguments position
  selectKey classId arguments table.candidates.length
  loadInstance classId inConstructor
  write (·.emit .swap)
  track .swap
  let arms := table.arms
  let labels ← writeLabelled (·.lookupSwitch (arms.map (·.key)))
  let _ ← track .pop
  let entry := (← get).stack
  let exits ← lowerArms classId inConstructor position entry (arms.zip labels.cases)
  restore entry
  resolve labels.fallback
  write (·.raiseFatal incompatibleClassMessage)
  exits.forM fun (exit, _) => resolve exit
  match exits.getLast? with
  | some (_, stack) => restore stack
  | none => fail (.internal .switchHasNoArms)
  dropVector inConstructor

/-- Takes a chained call over, and answers whether it did. -/
abbrev ChainHook := ChainCall Operand → Lower Bool

/-- A hook that takes no call over. -/
def noHook : ChainHook := fun _ => pure false

/-- Lower `this(arguments)` or `super(arguments)`.  A constructor is left with no
operand, any other code with the new instance. -/
def lowerChainCall (hook : ChainHook) (call : ChainCall Operand) :
    Lower Construction := do
  markLine call.position
  if ← hook call then
    return .generatedClosure
  let context ← read
  let classId ← accept (call.calledClass context)
  let table ← consult (Ledger.candidateTable context.types classId call.position)
  match call.boundCandidate context.frame table with
  | some candidate =>
      chainDirectly classId candidate.constructor call.arguments call.position
      return .direct
  | none =>
      chainBySwitch classId table call.arguments call.position
      return .keySwitch

end CallCode
