import CallCode.Machine.ConstantPool
import CallCode.Machine.Listing
import CallCode.Machine.Routine

/-!
# The assembler

One operation for each kind of instruction.  Constants go to the pool of the
class and instructions to the listing of the body, on the current line.
-/

namespace CallCode

/-- The pool of a class and the body that is being written. -/
structure Assembler where
  pool : ConstantPool := {}
  listing : Listing := {}
  /-- The source line of the next instruction. -/
  line : UInt32 := 1

namespace Assembler

/-- Attribute what follows to a source line. -/
def setLine (assembler : Assembler) (line : UInt32) : Assembler :=
  { assembler with line }

/-- Place an instruction. -/
def emit (assembler : Assembler) (opcode : Opcode) (operands : Operands := .none) :
    Assembler :=
  { assembler with
    listing := assembler.listing.push assembler.line ⟨opcode, operands⟩ }

/-- The index of a constant, which joins the pool if it is new. -/
def intern (assembler : Assembler) (constant : Constant) : Nat × Assembler :=
  let (index, pool) := assembler.pool.add constant
  (index, { assembler with pool })

/-- Place an instruction whose operand is a constant. -/
def emitConstant (assembler : Assembler) (opcode : Opcode) (constant : Constant) :
    Assembler :=
  let (index, assembler) := assembler.intern constant
  assembler.emit opcode (.word index.toUInt16)

/-- Place an instruction whose operand is a type. -/
def emitType (assembler : Assembler) (opcode : Opcode) (id : Identity) : Assembler :=
  assembler.emitConstant opcode (.type id)

/-! ## Constants -/

/-- Push a constant, with the short form where its index fits one byte. -/
def loadConstant (assembler : Assembler) (constant : Constant) : Assembler :=
  let (index, assembler) := assembler.intern constant
  if index < 256 then assembler.emit .constant (.byte index.toUInt8)
  else assembler.emit .constantWide (.word index.toUInt16)

/-- Push an integer; zero and one have instructions of their own. -/
def loadInt (assembler : Assembler) (value : Int64) : Assembler :=
  if value = 0 then assembler.emit .pushZero
  else if value = 1 then assembler.emit .pushOne
  else assembler.loadConstant (.int value)

def loadString (assembler : Assembler) (value : String) : Assembler :=
  assembler.loadConstant (.ofString value)

def loadNull (assembler : Assembler) : Assembler := assembler.emit .pushNull

def loadBool (assembler : Assembler) (value : Bool) : Assembler :=
  assembler.emit (if value then .pushTrue else .pushFalse)

/-! ## Locals, receivers and fields -/

/-- Push a local, with the short form where its slot fits one byte. -/
def getLocal (assembler : Assembler) (slot : UInt16) : Assembler :=
  if slot < 256 then assembler.emit .getLocal (.byte slot.toUInt8)
  else assembler.emit .getLocalWide (.word slot)

/-- Push the shared cell of a captured local. -/
def getRef (assembler : Assembler) (slot : UInt16) : Assembler :=
  assembler.emit .getRef (.word slot)

def getThis (assembler : Assembler) : Assembler := assembler.emit .getThis

def getOuterThis (assembler : Assembler) (outer : Identity) : Assembler :=
  assembler.emitType .getOuterThis outer

def getField (assembler : Assembler) (name : String) : Assembler :=
  assembler.emitConstant .getField (.ofString name)

def getStaticField (assembler : Assembler) (owner : Identity) (name : String) :
    Assembler :=
  let (ownerIndex, assembler) := assembler.intern (.type owner)
  let (nameIndex, assembler) := assembler.intern (.ofString name)
  assembler.emit .getStaticField (.words ownerIndex.toUInt16 nameIndex.toUInt16)

/-! ## Objects and arrays -/

def newInstance (assembler : Assembler) (id : Identity) : Assembler :=
  assembler.emitType .newInstance id

/-- Gather the top `count` values into an array. -/
def arrayInit (assembler : Assembler) (element : Identity) (count : UInt16) :
    Assembler :=
  let (index, assembler) := assembler.intern (.type element)
  assembler.emit .arrayInit (.words index.toUInt16 count)

/-- Gather the top `count` values into a vector and expand the masked ones. -/
def despread (assembler : Assembler) (count : UInt8) (mask : UInt32) : Assembler :=
  assembler.emit .despread (.spread count mask)

/-! ## Calls -/

/-- Call a member that was bound at compile time, as a member of `owner`. -/
def invoke (assembler : Assembler) (opcode : Opcode) (owner member : Identity)
    (count : UInt8) : Assembler :=
  let (index, assembler) := assembler.intern (.member owner member)
  assembler.emit opcode (.member index.toUInt16 count)

def callSite (assembler : Assembler) (slot : UInt16) (count flags : UInt8) :
    Assembler :=
  assembler.emit .callSite (.site slot count flags)

/-- Call a routine by its number. -/
def callAdapter (assembler : Assembler) (routine count flags : UInt8) : Assembler :=
  assembler.emit .callAdapter (.adapter routine count flags)

/-- Call a routine on a number of operands, with no flags. -/
def callRoutine (assembler : Assembler) (routine : Routine) (count : UInt8) :
    Assembler :=
  assembler.callAdapter routine.number count 0

/-! ## Types -/

def checkCast (assembler : Assembler) (target : Identity) : Assembler :=
  assembler.emitType .checkCast target

def box (assembler : Assembler) (primitive : Identity) : Assembler :=
  assembler.emitType .box primitive

def unbox (assembler : Assembler) (primitive : Identity) : Assembler :=
  assembler.emitType .unbox primitive

def loadClass (assembler : Assembler) (id : Identity) : Assembler :=
  assembler.emitType .loadClass id

/-! ## Control flow -/

/-- Place a branch that waits for its target. -/
def jump (assembler : Assembler) (opcode : Opcode) : Label × Assembler :=
  let (listing, label) := assembler.listing.pushJump assembler.line opcode
  (label, { assembler with listing })

/-- Place a switch whose branches wait for their targets. -/
def lookupSwitch (assembler : Assembler) (keys : List Int32) :
    SwitchLabels × Assembler :=
  let (listing, labels) := assembler.listing.pushSwitch assembler.line keys
  (labels, { assembler with listing })

/-- Fill in the distance of a branch. -/
def setDistance (assembler : Assembler) (label : Label) (distance : UInt16) :
    Assembler :=
  { assembler with listing := assembler.listing.setDistance label distance }

/-- Let a pending branch end here. -/
def resolve (assembler : Assembler) (label : Label) :
    Except JumpTooFar Assembler := do
  let distance ← assembler.listing.distance label
  return assembler.setDistance label distance

def raiseFatal (assembler : Assembler) (message : String) : Assembler :=
  assembler.emitConstant .raiseFatal (.ofString message)

end Assembler

end CallCode
