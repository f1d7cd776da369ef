import CallCode.Machine.Opcode

/-!
# Instructions

An instruction is an opcode followed by its operands, all of them big-endian.
The operands have a shape of their own, so that branch distances can be filled in
after the instruction is placed.
-/

namespace CallCode

/-- The two bytes of a half word, most significant first. -/
def bytesOfUInt16 (value : UInt16) : List UInt8 :=
  [(value >>> 8).toUInt8, value.toUInt8]

/-- The four bytes of a word, most significant first. -/
def bytesOfUInt32 (value : UInt32) : List UInt8 :=
  [(value >>> 24).toUInt8, (value >>> 16).toUInt8, (value >>> 8).toUInt8,
    value.toUInt8]

/-- One case of a switch: its key and the distance of its branch. -/
structure SwitchCase where
  key : Int32
  distance : UInt16
  deriving DecidableEq, Repr

/-- The operands that follow an opcode. -/
inductive Operands
  | none
  | byte (value : UInt8)
  | word (value : UInt16)
  | words (first second : UInt16)
  /-- A member constant and the number of arguments. -/
  | member (index : UInt16) (count : UInt8)
  /-- A call-site slot, the number of arguments and the call flags. -/
  | site (slot : UInt16) (count flags : UInt8)
  /-- A support routine, the number of its operands and the call flags. -/
  | adapter (routine count flags : UInt8)
  /-- A number of values and the mask of those to expand. -/
  | spread (count : UInt8) (mask : UInt32)
  /-- The distance of the default branch and the cases of a switch. -/
  | table (fallback : UInt16) (cases : List SwitchCase)
  deriving DecidableEq, Repr

namespace Operands

/-- The bytes of operands; a switch states the number of its cases first. -/
def encode : Operands → List UInt8
  | none => []
  | byte value => [value]
  | word value => bytesOfUInt16 value
  | words first second => bytesOfUInt16 first ++ bytesOfUInt16 second
  | member index count => bytesOfUInt16 index ++ [count]
  | site slot count flags => bytesOfUInt16 slot ++ [count, flags]
  | adapter routine count flags => [routine, count, flags]
  | spread count mask => count :: bytesOfUInt32 mask
  | table fallback cases =>
      bytesOfUInt16 cases.length.toUInt16 ++ bytesOfUInt16 fallback ++
        cases.flatMap fun arm =>
          bytesOfUInt32 arm.key.toUInt32 ++ bytesOfUInt16 arm.distance

/-- The number of operand bytes. -/
def size : Operands → Nat
  | none => 0
  | byte _ => 1
  | word _ => 2
  | words _ _ => 4
  | member _ _ => 3
  | site _ _ _ => 4
  | adapter _ _ _ => 3
  | spread _ _ => 5
  | table _ cases => 4 + 6 * cases.length

theorem length_encode (operands : Operands) :
    operands.encode.length = operands.size := by
  cases operands with
  | table fallback cases =>
      have casesLength : (cases.flatMap fun arm =>
          bytesOfUInt32 arm.key.toUInt32 ++ bytesOfUInt16 arm.distance).length =
            6 * cases.length := by
        induction cases with
        | nil => rfl
        | cons arm cases ih =>
            simp only [List.flatMap_cons, List.length_append, ih, List.length_cons]
            simp [bytesOfUInt16, bytesOfUInt32]
            omega
      simp only [encode, List.length_append, casesLength, size]
      simp [bytesOfUInt16]
  | _ => rfl

end Operands

/-- An opcode and its operands. -/
structure Instruction where
  opcode : Opcode
  operands : Operands := .none
  deriving DecidableEq, Repr

namespace Instruction

/-- The bytes of an instruction. -/
def encode (instruction : Instruction) : List UInt8 :=
  instruction.opcode.toByte :: instruction.operands.encode

/-- The number of bytes of an instruction. -/
def size (instruction : Instruction) : Nat := 1 + instruction.operands.size

theorem length_encode (instruction : Instruction) :
    instruction.encode.length = instruction.size := by
  simp [encode, size, Operands.length_encode, Nat.add_comm]

end Instruction

end CallCode
