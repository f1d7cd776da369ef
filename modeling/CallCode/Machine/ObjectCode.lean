import CallCode.Machine.Instruction

/-!
# Object code

The bytes of one method body, with the source line of every byte.  Reading
follows the instructions from the first byte; a byte that starts no complete
instruction is passed over alone.
-/

namespace CallCode

/-- A branch that is longer than its operand can say. -/
structure JumpTooFar where
  distance : Nat
  deriving DecidableEq, Repr

/-- The wording of a branch that is too long. -/
def JumpTooFar.message (failure : JumpTooFar) : String :=
  "jump distance " ++ toString failure.distance ++ " exceeds u16::MAX"

/-- The distance of a branch as an operand, if it fits one. -/
def branchDistance (distance : Nat) : Except JumpTooFar UInt16 :=
  if distance < 65536 then .ok distance.toUInt16 else .error ⟨distance⟩

/-- The distance that stands in a branch before its target is known. -/
def pendingDistance : UInt16 := 0xffff

/-- Bytes of code and, beside them, the source line of each. -/
structure ObjectCode where
  bytes : Array UInt8 := #[]
  lines : Array UInt32 := #[]
  deriving Repr

/-- The branches of a switch as absolute offsets. -/
structure SwitchTargets where
  fallback : Nat
  cases : List (Int32 × Nat)
  deriving DecidableEq, Repr

namespace ObjectCode

def size (code : ObjectCode) : Nat := code.bytes.size

/-- Add a line to runs of equal lines, the last of which is at the front. -/
def addLine (runs : List (UInt32 × Nat)) (line : UInt32) : List (UInt32 × Nat) :=
  match runs with
  | (last, count) :: earlier =>
      if last = line then (last, count + 1) :: earlier else (line, 1) :: runs
  | [] => [(line, 1)]

/-- The lines of the bytes, as runs of equal lines with their lengths. -/
def lineRuns (code : ObjectCode) : List (UInt32 × Nat) :=
  (code.lines.foldl addLine []).reverse

/-! ## Writing -/

def writeByte (code : ObjectCode) (line : UInt32) (byte : UInt8) : ObjectCode :=
  ⟨code.bytes.push byte, code.lines.push line⟩

/-- Write bytes in order, all on one line. -/
def write (code : ObjectCode) (line : UInt32) (bytes : List UInt8) : ObjectCode :=
  bytes.foldl (·.writeByte line ·) code

/-- Write an instruction whole. -/
def writeInstruction (code : ObjectCode) (line : UInt32)
    (instruction : Instruction) : ObjectCode :=
  code.write line instruction.encode

/-- Write a branch that waits for its target; its distance stands at the offset
that is returned. -/
def writeJump (code : ObjectCode) (line : UInt32) (opcode : Opcode) :
    ObjectCode × Nat :=
  (code.writeInstruction line ⟨opcode, .word pendingDistance⟩, code.size + 1)

/-- Let the branch whose distance stands at `offset` end at the current size. -/
def patchJump (code : ObjectCode) (offset : Nat) : Except JumpTooFar ObjectCode := do
  let distance ← branchDistance (code.size - offset - 2)
  return { code with
    bytes := (code.bytes.setIfInBounds offset (distance >>> 8).toUInt8).setIfInBounds
      (offset + 1) distance.toUInt8 }

/-! ## Reading -/

def readByte (code : ObjectCode) (offset : Nat) : Option UInt8 :=
  code.bytes[offset]?

def lineAt (code : ObjectCode) (offset : Nat) : Option UInt32 :=
  code.lines[offset]?

def readUInt16 (code : ObjectCode) (offset : Nat) : Option UInt16 := do
  let high ← code.readByte offset
  let low ← code.readByte (offset + 1)
  return (high.toUInt16 <<< 8) ||| low.toUInt16

def readUInt32 (code : ObjectCode) (offset : Nat) : Option UInt32 := do
  let high ← code.readUInt16 offset
  let low ← code.readUInt16 (offset + 2)
  return (high.toUInt32 <<< 16) ||| low.toUInt32

def readOpcode (code : ObjectCode) (offset : Nat) : Option Opcode :=
  (code.readByte offset).bind Opcode.ofByte?

/-- The length of the instruction at an offset.  Only the opcode, and for a
switch the number of its cases, has to be there. -/
def instructionLength (code : ObjectCode) (offset : Nat) : Option Nat := do
  let opcode ← code.readOpcode offset
  if opcode = .lookupSwitch then
    let count ← code.readUInt16 (offset + 1)
    return 5 + 6 * count.toNat
  else
    return 1 + opcode.operandSize

/-- The case of a switch whose key stands at `entry`. -/
def switchCase (code : ObjectCode) (entry : Nat) : Option (Int32 × Nat) := do
  let key ← code.readUInt32 entry
  let distance ← code.readUInt16 (entry + 4)
  return (key.toInt32, entry + 6 + distance.toNat)

/-- The branches of the switch at an offset, each measured from the end of its
own distance. -/
def switchTargets (code : ObjectCode) (offset : Nat) : Option SwitchTargets := do
  let opcode ← code.readOpcode offset
  guard (opcode = .lookupSwitch)
  let count ← code.readUInt16 (offset + 1)
  let fallback ← code.readUInt16 (offset + 3)
  let cases ← (List.range count.toNat).mapM fun position =>
    code.switchCase (offset + 5 + 6 * position)
  return ⟨offset + 5 + fallback.toNat, cases⟩

/-- How far reading goes on from an offset. -/
def stride (code : ObjectCode) (offset : Nat) : Nat :=
  (code.instructionLength offset).getD 1

theorem stride_pos (code : ObjectCode) (offset : Nat) : 0 < code.stride offset := by
  unfold stride instructionLength
  cases code.readOpcode offset with
  | none => exact Nat.one_pos
  | some opcode =>
      by_cases isSwitch : opcode = .lookupSwitch
      · cases code.readUInt16 (offset + 1) with
        | none =>
            simp only [isSwitch, Option.bind_eq_bind, Option.bind_some, if_true,
              Option.bind_none, Option.getD_none]
            exact Nat.one_pos
        | some count =>
            simp only [isSwitch, Option.bind_eq_bind, Option.bind_some, if_true,
              Option.pure_def, Option.getD_some]
            omega
      · simp only [isSwitch, Option.bind_eq_bind, Option.bind_some, if_false,
          Option.pure_def, Option.getD_some]
        omega

/-- The offsets that reading visits from `offset` on, after those `visited`. -/
def walkFrom (code : ObjectCode) (offset : Nat) (visited : Array Nat) : Array Nat :=
  if offset < code.size then
    walkFrom code (offset + code.stride offset) (visited.push offset)
  else visited
termination_by code.size - offset
decreasing_by
  have advances := code.stride_pos offset
  omega

/-- The offsets that reading visits from the first byte on. -/
def walk (code : ObjectCode) : Array Nat := code.walkFrom 0 #[]

/-- The opcode of the instruction at an offset, if its length is known. -/
def opcodeAt (code : ObjectCode) (offset : Nat) : Option Opcode := do
  let _ ← code.instructionLength offset
  code.readOpcode offset

/-- The opcodes of the code in order. -/
def opcodes (code : ObjectCode) : Array Opcode :=
  code.walk.filterMap code.opcodeAt

/-- The switches of the code in order, each with its offset. -/
def switches (code : ObjectCode) : Array (Nat × SwitchTargets) :=
  code.walk.filterMap fun offset =>
    (code.switchTargets offset).map fun targets => (offset, targets)

end ObjectCode

end CallCode
