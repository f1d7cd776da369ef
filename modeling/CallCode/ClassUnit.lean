import CallCode.Lowering.Expression

/-!
# Class units

A class unit lowers the method bodies of one class, one after another.  The pool,
the ledger and the diagnostics go from each body to the next, whether it succeeds
or not; a body that fails is not recorded.
-/

namespace CallCode

/-- A lowered method body and the operands it leaves. -/
structure LoweredBody where
  name : String
  listing : Listing
  stackDepth : Nat

/-- The bytes of a body. -/
def LoweredBody.code (body : LoweredBody) : ObjectCode := body.listing.assemble

/-- What a finished class unit hands over. -/
structure CompiledClass where
  classId : Identity
  pool : ConstantPool
  bodies : Array LoweredBody
  /-- The names of the call sites in the order of their slots. -/
  callSites : List String
  /-- The names that are sent to `super` dynamically, in order. -/
  superMethods : List String
  errors : Array LoweringError

namespace CompiledClass

def hasErrors (compiled : CompiledClass) : Bool := !compiled.errors.isEmpty

/-- The first body of a name. -/
def body? (compiled : CompiledClass) (name : String) : Option LoweredBody :=
  compiled.bodies.find? (·.name == name)

end CompiledClass

/-- The bodies of a class so far and what they share. -/
structure ClassUnit where
  types : TypeTable
  ledger : Ledger
  pool : ConstantPool := {}
  diagnostics : Diagnostics := {}
  bodies : Array LoweredBody := #[]
  resolver : TypeResolver := annotatedType

namespace ClassUnit

/-- A unit for a class, with nothing lowered yet. -/
def start (types : TypeTable) (classId : Identity) : ClassUnit where
  types := types
  ledger := { classId }

def classId (unit : ClassUnit) : Identity := unit.ledger.classId

/-- What a body of a frame reads. -/
def context (unit : ClassUnit) (frame : Frame) : Context :=
  { types := unit.types, frame, resolver := unit.resolver }

/-- The state in which a body starts: nothing is written, and the pool, the ledger
and the diagnostics are those of the unit. -/
def initialState (unit : ClassUnit) : LoweringState where
  assembler := { pool := unit.pool }
  ledger := unit.ledger
  diagnostics := unit.diagnostics

/-- Check that a frame belongs to the class of the unit. -/
def admit? (unit : ClassUnit) (name : String) (frame : Frame) :
    Except LoweringError Unit :=
  if frame.classId = unit.classId then .ok ()
  else
    .error (.internal (.foreignBody name (unit.types.typeName frame.classId)
      (unit.types.typeName unit.classId)))

/-- Take over what a body shares with the others. -/
def absorb (unit : ClassUnit) (state : LoweringState) : ClassUnit :=
  { unit with
    pool := state.assembler.pool
    ledger := state.ledger
    diagnostics := state.diagnostics }

/-- Take over the outcome of a body, which is recorded if it succeeded. -/
def conclude {Result : Type} (unit : ClassUnit) (name : String) :
    EStateM.Result Fault LoweringState Result → Except Fault Result × ClassUnit
  | .ok result state =>
      let unit := unit.absorb state
      (.ok result,
        { unit with
          bodies := unit.bodies.push
            ⟨name, state.assembler.listing, state.stack.length⟩ })
  | .error fault state => (.error fault, unit.absorb state)

/-- Lower one method body of the class. -/
def lowerBody {Result : Type} (unit : ClassUnit) (name : String) (frame : Frame)
    (body : Lower Result) : Except Fault Result × ClassUnit :=
  match unit.admit? name frame with
  | .error error => (.error (.rejected error), unit)
  | .ok () => unit.conclude name (body (unit.context frame) unit.initialState)

/-- Hand over the bodies and what they share. -/
def finish (unit : ClassUnit) : CompiledClass where
  classId := unit.classId
  pool := unit.pool
  bodies := unit.bodies
  callSites := unit.ledger.sites.names
  superMethods := unit.ledger.superNames
  errors := unit.diagnostics.errors

/-- The unit as a one-line dump. -/
def debugText (unit : ClassUnit) : String :=
  "ClassUnit \x7b class: " ++ unit.classId.debugText ++
    ", bodies: " ++ toString unit.bodies.size ++
    ", constants: " ++ toString unit.pool.size ++ ", .. \x7d"

end ClassUnit

end CallCode
