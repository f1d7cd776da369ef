import CallCode.Lowering.Dispatch

/-!
# Construction

A `new` call allocates an instance and runs a known constructor on it, or leaves
both to a cached site.  Captured locals that are assigned to reach an anonymous
class as their shared cells.
-/

namespace CallCode

open Lower

/-- How a constructor call was lowered. -/
inductive Construction
  | direct
  /-- An anonymous class was instantiated. -/
  | anonymousSubclass
  | callSite
  /-- The constructor is chosen by a switch at run time. -/
  | keySwitch
  /-- The machinery of generated closures took the call over. -/
  | generatedClosure
  deriving DecidableEq, Repr

/-- The name of a way of construction in reports. -/
def Construction.name : Construction → String
  | direct => "Direct"
  | anonymousSubclass => "AnonymousSubclass"
  | callSite => "CallSite"
  | keySwitch => "MopFallback"
  | generatedClosure => "GeneratedClosure"

/-- The name of the call sites that make new instances. -/
def constructorSite : String := "<init>"

/-- Allocate an instance and keep it below the constructor's receiver. -/
def allocateInstance (classId : Identity) : Lower Unit := do
  write (·.newInstance classId)
  write (·.emit .dup)
  push (.simple classId)
  push (.simple classId)

/-- Run a constructor on the receiver and the operands for its parameters. -/
def runConstructor (classId : Identity) (constructor : Constructor)
    (position : Position) : Lower Unit := do
  let count ← accept (byteCount constructor.params.length position)
  write (·.invoke .invokeSpecial classId constructor.id count)
  track (.remove (constructor.params.length + 1))

namespace NewCall

/-- The constructor that the optimizer proved, where the frame trusts it. -/
def fastConstructor (call : NewCall Operand) (context : Context) :
    Except LoweringError (Option Constructor) :=
  match call.optimizedTarget with
  | some target =>
      if !context.frame.options.fastPath ||
          containsSpread (sources call.arguments) then .ok none
      else
        match context.types.constructor? target with
        | some constructor => .ok (some constructor)
        | none => .error (.unknownMethod target.text call.position)
  | none => .ok none

/-- The first constructor of an anonymous class, which takes the arguments one for
one. -/
def anonymousConstructor (call : NewCall Operand) (types : TypeTable) :
    Except LoweringError Constructor :=
  match types.find? call.classId with
  | none => .error (.unknownType call.classId.text call.position)
  | some decl =>
      match decl.constructors with
      | [] => .error (.noConstructors decl.name call.position)
      | constructor :: _ =>
          if constructor.params.length = call.arguments.length then .ok constructor
          else
            .error (.internal (.anonymousArity decl.name constructor.params.length
              call.arguments.length))

end NewCall

/-- Load an argument of an anonymous class; a captured local that is assigned to
is passed as its cell. -/
def loadCaptured (argument : Operand) : Lower Unit :=
  match argument.source with
  | .read source =>
      if source.byReference then do
        write (·.getRef source.slot)
        push (.simple .reference)
      else argument.load
  | _ => argument.load

/-- Instantiate an anonymous class. -/
def constructAnonymous (call : NewCall Operand) : Lower Unit := do
  let constructor ← accept (call.anonymousConstructor (← read).types)
  allocateInstance call.classId
  (call.arguments.zip constructor.params).forM fun (argument, param) => do
    loadCaptured argument
    coerceTo param.type
  runConstructor call.classId constructor call.position

/-- Lower `new Class(arguments)`, leaving the instance. -/
def lowerNewCall (call : NewCall Operand) : Lower Construction := do
  markLine call.position
  if call.anonymous then
    constructAnonymous call
    return .anonymousSubclass
  match ← accept (call.fastConstructor (← read)) with
  | some constructor =>
      allocateInstance call.classId
      bindArguments call.arguments constructor.params
      runConstructor call.classId constructor call.position
      return .direct
  | none =>
      let classLiteral : Operand :=
        { source := .classLiteral call.classId
          load := do
            write (·.loadClass call.classId)
            push .metaclass }
      callThroughSite classLiteral constructorSite call.arguments {} call.position
      return .callSite

end CallCode
