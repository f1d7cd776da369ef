import CallCode.Proofs.Machine.Walking
import Mathlib.Data.List.Forall2

/-!
# Fields of operands

The operands of an instruction are a row of fields of one, two or four bytes, and each
field can be read on its own.  The distance of a branch is one of these fields: filling
it in leaves the other fields, and the size of the instruction, as they were.
-/

namespace CallCode

/-- A number that stands in the code behind an opcode. -/
inductive OperandField
  | byte (value : UInt8)
  | half (value : UInt16)
  | word (value : UInt32)
  /-- The distance of a branch whose target may not be known yet. -/
  | distance
  deriving DecidableEq, Repr

namespace OperandField

/-- The bytes of a field as it is first written. -/
def bytes : OperandField → List UInt8
  | byte value => [value]
  | half value => bytesOfUInt16 value
  | word value => bytesOfUInt32 value
  | distance => bytesOfUInt16 pendingDistance

/-- The number that a field is first written with. -/
def pending : OperandField → OperandField
  | distance => half pendingDistance
  | field => field

@[simp]
theorem bytes_pending (field : OperandField) : field.pending.bytes = field.bytes := by
  cases field <;> rfl

/-- A field that stands in the code is the one that was written, up to the value of a
distance. -/
inductive Fills : OperandField → OperandField → Prop
  | same (field : OperandField) : Fills field field
  | filled (distance : UInt16) : Fills (half distance) .distance

theorem fills_pending (field : OperandField) : field.pending.Fills field := by
  cases field with
  | distance => exact .filled pendingDistance
  | _ => exact .same _

theorem forall₂_fills_pending (fields : List OperandField) :
    List.Forall₂ Fills (fields.map pending) fields := by
  rw [List.forall₂_map_left_iff, List.forall₂_same]
  intro field _
  exact field.fills_pending

theorem Fills.length_bytes {actual written : OperandField} (fills : actual.Fills written) :
    actual.bytes.length = written.bytes.length := by
  cases fills <;> rfl

theorem Fills.distance_bytes {actual : OperandField} (fills : actual.Fills distance) :
    ∃ value, actual.bytes = bytesOfUInt16 value := by
  cases fills with
  | same => exact ⟨pendingDistance, rfl⟩
  | filled value => exact ⟨value, rfl⟩

theorem length_flatMap_bytes {actual written : List OperandField}
    (fills : List.Forall₂ Fills actual written) :
    (actual.flatMap bytes).length = (written.flatMap bytes).length := by
  induction fills with
  | nil => rfl
  | cons first _ ih => simp [first.length_bytes, ih]

end OperandField

namespace Operands

/-- The fields of the operands of an instruction in order. -/
def fields : Operands → List OperandField
  | none => []
  | byte value => [.byte value]
  | word value => [.half value]
  | words first second => [.half first, .half second]
  | member index count => [.half index, .byte count]
  | site slot count flags => [.half slot, .byte count, .byte flags]
  | adapter routine count flags => [.byte routine, .byte count, .byte flags]
  | spread count mask => [.byte count, .word mask]
  | table fallback cases =>
      .half cases.length.toUInt16 :: .half fallback ::
        cases.flatMap fun arm => [.word arm.key.toUInt32, .half arm.distance]

theorem flatMap_fields (operands : Operands) :
    operands.fields.flatMap OperandField.bytes = operands.encode := by
  cases operands with
  | table fallback cases => simp [fields, encode, OperandField.bytes, List.flatMap_assoc]
  | _ => simp [fields, encode, OperandField.bytes]

end Operands

/-! ## Branches -/

namespace Branch

/-- The place of the distance of a branch among the fields of its instruction. -/
def place : Branch → Nat
  | jump => 0
  | fallback => 1
  | case position => 3 + 2 * position

/-- The shape of operands in which a branch has its distance. -/
def shape : Branch → OperandShape
  | jump => .word
  | fallback | case _ => .table

end Branch

theorem set_caseFields (cases : List SwitchCase) (position : Nat) (distance : UInt16) :
    (cases.modify position fun arm => { arm with distance }).flatMap
        (fun arm => [OperandField.word arm.key.toUInt32, .half arm.distance]) =
      (cases.flatMap fun arm => [OperandField.word arm.key.toUInt32, .half arm.distance]).set
        (1 + 2 * position) (.half distance) := by
  induction cases generalizing position with
  | nil => simp
  | cons arm cases ih =>
      cases position with
      | zero => simp
      | succ position =>
          have beyond : 1 + 2 * (position + 1) = 1 + 2 * position + 2 := by omega
          simp [ih, beyond]

/-- Filling in a branch sets one field. -/
theorem Operands.fields_setDistance {operands : Operands} {branch : Branch}
    (fits : operands.shape = branch.shape) (distance : UInt16) :
    (operands.setDistance branch distance).fields =
      operands.fields.set branch.place (.half distance) := by
  cases branch with
  | jump =>
      cases operands with
      | word value => rfl
      | _ => cases fits
  | fallback =>
      cases operands with
      | table fallback cases => rfl
      | _ => cases fits
  | case position =>
      cases operands with
      | table fallback cases =>
          have beyond : 3 + 2 * position = 1 + 2 * position + 2 := by omega
          simp [setDistance, fields, Branch.place, set_caseFields, beyond]
      | _ => cases fits

theorem Instruction.WellShaped.setDistance {placed : Placed}
    (shaped : placed.instruction.WellShaped) (branch : Branch) (distance : UInt16) :
    (placed.setDistance branch distance).instruction.WellShaped := by
  obtain ⟨⟨opcode, operands⟩, line⟩ := placed
  obtain ⟨shape, countable⟩ := shaped
  cases operands with
  | table fallback cases =>
      cases branch with
      | case position =>
          exact ⟨shape, by simpa [Placed.setDistance, Operands.setDistance,
            Operands.Countable] using countable⟩
      | _ => exact ⟨shape, countable⟩
  | _ => cases branch <;> exact ⟨shape, countable⟩

/-! ## Reading fields -/

namespace ObjectCode

variable {code : ObjectCode}

/-- Reading finds a field at an offset; a distance may have any value. -/
def HasField (code : ObjectCode) (offset : Nat) : OperandField → Prop
  | .byte value => code.readByte offset = some value
  | .half value => code.readUInt16 offset = some value
  | .word value => code.readUInt32 offset = some value
  | .distance => (code.readUInt16 offset).isSome = true

/-- Reading finds some fields in a row from an offset on. -/
def HasFields (code : ObjectCode) : Nat → List OperandField → Prop
  | _, [] => True
  | offset, field :: rest =>
      code.HasField offset field ∧ code.HasFields (offset + field.bytes.length) rest

theorem hasField_of_holds {offset : Nat} {field : OperandField}
    (holds : code.Holds offset field.bytes) : code.HasField offset field := by
  cases field with
  | byte value => exact holds.1
  | half value => exact readUInt16_of_holds holds
  | word value => exact readUInt32_of_holds holds
  | distance => exact Option.isSome_of_eq_some (readUInt16_of_holds holds)

theorem HasField.of_fills {offset : Nat} {actual written : OperandField}
    (fills : actual.Fills written) (has : code.HasField offset actual) :
    code.HasField offset written := by
  cases fills with
  | same => exact has
  | filled value => exact Option.isSome_of_eq_some has

theorem hasFields_of_holds {offset : Nat} {actual written : List OperandField}
    (fills : List.Forall₂ OperandField.Fills actual written)
    (holds : code.Holds offset (actual.flatMap OperandField.bytes)) :
    code.HasFields offset written := by
  induction fills generalizing offset with
  | nil => trivial
  | cons first _ ih =>
      rw [List.flatMap_cons, holds_append, first.length_bytes] at holds
      exact ⟨(hasField_of_holds holds.1).of_fills first, ih holds.2⟩

/-! ## Patches -/

/-- Patching replaces the two bytes of a distance. -/
theorem patchJump_eq {front back : List UInt8} {old : UInt16}
    (bytes : code.bytes.toList = front ++ bytesOfUInt16 old ++ back) :
    code.patchJump front.length = (branchDistance (code.size - front.length - 2)).map
      fun distance => ⟨(front ++ bytesOfUInt16 distance ++ back).toArray, code.lines⟩ := by
  rw [patchJump]
  cases branchDistance (code.size - front.length - 2) with
  | error failure => rfl
  | ok distance =>
      have patched : ((code.bytes.setIfInBounds front.length
          (distance >>> 8).toUInt8).setIfInBounds (front.length + 1)
            distance.toUInt8).toList = front ++ bytesOfUInt16 distance ++ back := by
        simp [bytes, bytesOfUInt16]
      rw [Except.map, ← patched, Array.toArray_toList]
      rfl

end ObjectCode

namespace Listing

section Patching

variable {listing : Listing} {label : Label} {front back : List Placed} {item : Placed}
  {passed rest : List OperandField} {actual : OperandField} {old : UInt16}

theorem lines_setDistance (items : listing.items.toList = front ++ item :: back)
    (among : label.item = front.length) (distance : UInt16) :
    (listing.setDistance label distance).assemble.lines = listing.assemble.lines := by
  have line : (item.setDistance label.branch distance).line = item.line := rfl
  apply Array.toList_inj.mp
  simp [toList_lines_assemble, items_setDistance items among, items, line]

/-- Resolving a label in a listing and patching its distance in the code that is
already assembled come to the same. -/
theorem patchJump_assemble (items : listing.items.toList = front ++ item :: back)
    (fields : item.instruction.operands.fields = passed ++ actual :: rest)
    (two : actual.bytes = bytesOfUInt16 old)
    (fits : item.instruction.operands.shape = label.branch.shape)
    (among : label.item = front.length) (place : label.branch.place = passed.length)
    (offset : label.offset = codeSize front + 1 + (passed.flatMap OperandField.bytes).length) :
    listing.assemble.patchJump label.offset =
      (listing.distance label).map fun distance =>
        (listing.setDistance label distance).assemble := by
  let ahead := front.flatMap (·.instruction.encode) ++
    item.instruction.opcode.toByte :: passed.flatMap OperandField.bytes
  let behind := rest.flatMap OperandField.bytes ++ back.flatMap (·.instruction.encode)
  have length : label.offset = ahead.length := by
    simp only [ahead, offset, List.length_append, List.length_cons, length_flatMap_encode]
    omega
  have bytes : listing.assemble.bytes.toList = ahead ++ bytesOfUInt16 old ++ behind := by
    simp [toList_bytes_assemble, items, Instruction.encode, ← Operands.flatMap_fields, fields,
      two, ahead, behind]
  have patched (distance : UInt16) :
      (listing.setDistance label distance).assemble.bytes.toList =
        ahead ++ bytesOfUInt16 distance ++ behind := by
    have set : (item.setDistance label.branch distance).instruction.operands.fields =
        passed ++ .half distance :: rest := by
      rw [Placed.setDistance, Operands.fields_setDistance fits, fields, place]
      simp
    have opcode : (item.setDistance label.branch distance).instruction.opcode =
        item.instruction.opcode := rfl
    simp [toList_bytes_assemble, items_setDistance items among, Instruction.encode,
      ← Operands.flatMap_fields, set, opcode, OperandField.bytes, ahead, behind]
  rw [length, ObjectCode.patchJump_eq bytes, size_assemble, ← length, distance]
  cases branchDistance (listing.size - label.offset - 2) with
  | error failure => rfl
  | ok distance =>
      rw [Except.map, Except.map, ← patched, Array.toArray_toList,
        ← lines_setDistance items among distance]

end Patching

end Listing

end CallCode
