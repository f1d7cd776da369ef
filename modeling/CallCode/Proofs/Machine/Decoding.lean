import CallCode.Machine.Listing

/-!
# Decoding

An instruction can be read back from the bytes of the code it was placed in.  The
opcode says which shape its operands have, and a listing whose instructions all
have the shape of their opcode is decoded to exactly these instructions.
-/

namespace CallCode

/-! ## Byte order -/

theorem joinBytes_eq (value : UInt16) :
    ((value >>> 8).toUInt8.toUInt16 <<< 8) ||| value.toUInt8.toUInt16 = value := by
  apply UInt16.toNat_inj.mp
  have bound := value.toNat_lt
  simp only [UInt16.toNat_or, UInt16.toNat_shiftLeft, UInt8.toNat_toUInt16,
    UInt16.toNat_toUInt8, UInt16.toNat_shiftRight]
  simp only [UInt16.toNat_ofNat, Nat.shiftRight_eq_div_pow, Nat.reducePow, Nat.reduceMod]
  have small : (value.toNat / 256 % 256) <<< 8 < 65536 := by
    rw [Nat.shiftLeft_eq]
    omega
  rw [Nat.mod_eq_of_lt small,
    ← Nat.shiftLeft_add_eq_or_of_lt (Nat.mod_lt _ (by decide : 0 < 2 ^ 8)),
    Nat.shiftLeft_eq]
  omega

theorem joinHalves_eq (value : UInt32) :
    ((value >>> 16).toUInt16.toUInt32 <<< 16) ||| value.toUInt16.toUInt32 = value := by
  apply UInt32.toNat_inj.mp
  have bound := value.toNat_lt
  simp only [UInt32.toNat_or, UInt32.toNat_shiftLeft, UInt16.toNat_toUInt32,
    UInt32.toNat_toUInt16, UInt32.toNat_shiftRight]
  simp only [UInt32.toNat_ofNat, Nat.shiftRight_eq_div_pow, Nat.reducePow, Nat.reduceMod]
  have small : (value.toNat / 65536 % 65536) <<< 16 < 4294967296 := by
    rw [Nat.shiftLeft_eq]
    omega
  rw [Nat.mod_eq_of_lt small,
    ← Nat.shiftLeft_add_eq_or_of_lt (Nat.mod_lt _ (by decide : 0 < 2 ^ 16)),
    Nat.shiftLeft_eq]
  omega

theorem bytesOfUInt32_eq (value : UInt32) :
    bytesOfUInt32 value =
      bytesOfUInt16 (value >>> 16).toUInt16 ++ bytesOfUInt16 value.toUInt16 := by
  have top : (value >>> 24).toUInt8 = ((value >>> 16).toUInt16 >>> 8).toUInt8 := by
    apply UInt8.toNat_inj.mp
    simp [Nat.shiftRight_eq_div_pow]
    omega
  have third : (value >>> 8).toUInt8 = (value.toUInt16 >>> 8).toUInt8 := by
    apply UInt8.toNat_inj.mp
    simp [Nat.shiftRight_eq_div_pow]
    omega
  simp [bytesOfUInt32, bytesOfUInt16, top, third]

theorem Instruction.size_pos (instruction : Instruction) : 0 < instruction.size := by
  unfold Instruction.size
  omega

/-! ## Shapes of operands -/

/-- Which operands follow an opcode. -/
inductive OperandShape
  | none
  | byte
  | word
  | words
  | member
  | site
  | adapter
  | spread
  | table
  deriving DecidableEq, Repr

/-- The shape of the operands of an opcode. -/
def Opcode.shape : Opcode → OperandShape
  | pushNull | pushTrue | pushFalse | pushZero | pushOne | pop | dup | dupX1
  | dup2X1 | swap | getThis | arrayLoad => .none
  | constant | getLocal => .byte
  | constantWide | getLocalWide | getRef | getOuterThis | getField | newInstance
  | checkCast | box | unbox | loadClass | jump | raiseFatal => .word
  | getStaticField | arrayInit => .words
  | invokeStatic | invokeVirtual | invokeInterface | invokeSpecial => .member
  | callSite => .site
  | callAdapter => .adapter
  | despread => .spread
  | lookupSwitch => .table

namespace Operands

/-- The shape of some operands. -/
def shape : Operands → OperandShape
  | none => .none
  | byte _ => .byte
  | word _ => .word
  | words _ _ => .words
  | member _ _ => .member
  | site _ _ _ => .site
  | adapter _ _ _ => .adapter
  | spread _ _ => .spread
  | table _ _ => .table

/-- The cases of a switch can be counted by a half word. -/
def Countable : Operands → Prop
  | table _ cases => cases.length < 65536
  | _ => True

end Operands

/-- The operands of an instruction are those that its opcode takes. -/
structure Instruction.WellShaped (instruction : Instruction) : Prop where
  shape : instruction.operands.shape = instruction.opcode.shape
  countable : instruction.operands.Countable

namespace ObjectCode

/-! ## Reading instructions -/

/-- The cases of a switch, the first of which stands at `offset`. -/
def readCases (code : ObjectCode) : Nat → Nat → Option (List SwitchCase)
  | _, 0 => some []
  | offset, count + 1 => do
      let key ← code.readUInt32 offset
      let distance ← code.readUInt16 (offset + 4)
      let cases ← readCases code (offset + 6) count
      return ⟨key.toInt32, distance⟩ :: cases

/-- The operands of a shape that stand at an offset. -/
def readOperands (code : ObjectCode) (offset : Nat) : OperandShape → Option Operands
  | .none => some .none
  | .byte => return .byte (← code.readByte offset)
  | .word => return .word (← code.readUInt16 offset)
  | .words => return .words (← code.readUInt16 offset) (← code.readUInt16 (offset + 2))
  | .member => return .member (← code.readUInt16 offset) (← code.readByte (offset + 2))
  | .site =>
      return .site (← code.readUInt16 offset) (← code.readByte (offset + 2))
        (← code.readByte (offset + 3))
  | .adapter =>
      return .adapter (← code.readByte offset) (← code.readByte (offset + 1))
        (← code.readByte (offset + 2))
  | .spread => return .spread (← code.readByte offset) (← code.readUInt32 (offset + 1))
  | .table => do
      let count ← code.readUInt16 offset
      return .table (← code.readUInt16 (offset + 2))
        (← code.readCases (offset + 4) count.toNat)

/-- The instruction at an offset. -/
def instructionAt (code : ObjectCode) (offset : Nat) : Option Instruction := do
  let opcode ← code.readOpcode offset
  return ⟨opcode, ← code.readOperands (offset + 1) opcode.shape⟩

/-- The code has some bytes in a row from an offset on. -/
def Holds (code : ObjectCode) : Nat → List UInt8 → Prop
  | _, [] => True
  | offset, byte :: bytes => code.readByte offset = some byte ∧ Holds code (offset + 1) bytes

section Reading

variable {code : ObjectCode}

theorem holds_append (offset : Nat) (first second : List UInt8) :
    code.Holds offset (first ++ second) ↔
      code.Holds offset first ∧ code.Holds (offset + first.length) second := by
  induction first generalizing offset with
  | nil => simp [Holds]
  | cons byte first ih =>
      have shift : offset + 1 + first.length = offset + (first.length + 1) := by omega
      simp [Holds, ih, shift, and_assoc]

theorem holds_of_bytes_eq {front bytes back : List UInt8}
    (split : code.bytes.toList = front ++ bytes ++ back) :
    code.Holds front.length bytes := by
  induction bytes generalizing front with
  | nil => trivial
  | cons byte bytes ih =>
      constructor
      · rw [readByte, ← Array.getElem?_toList, split]
        simp
      · have next := @ih (front ++ [byte]) (by simpa using split)
        simpa using next

theorem readUInt16_of_holds {offset : Nat} {value : UInt16}
    (holds : code.Holds offset (bytesOfUInt16 value)) :
    code.readUInt16 offset = some value := by
  obtain ⟨high, low, -⟩ := holds
  simp only [readUInt16, high, low, Option.bind_eq_bind, Option.bind_some,
    Option.pure_def, joinBytes_eq]

theorem readUInt32_of_holds {offset : Nat} {value : UInt32}
    (holds : code.Holds offset (bytesOfUInt32 value)) :
    code.readUInt32 offset = some value := by
  rw [bytesOfUInt32_eq, holds_append] at holds
  have high := readUInt16_of_holds holds.1
  have low := readUInt16_of_holds holds.2
  simp only [bytesOfUInt16, List.length_cons, List.length_nil, Nat.zero_add,
    Nat.reduceAdd] at low
  simp only [readUInt32, high, low, Option.bind_eq_bind, Option.bind_some,
    Option.pure_def, joinHalves_eq]

theorem readCases_of_holds {offset : Nat} {cases : List SwitchCase}
    (holds : code.Holds offset (cases.flatMap fun arm =>
      bytesOfUInt32 arm.key.toUInt32 ++ bytesOfUInt16 arm.distance)) :
    code.readCases offset cases.length = some cases := by
  induction cases generalizing offset with
  | nil => rfl
  | cons arm cases ih =>
      rw [List.flatMap_cons, holds_append, holds_append] at holds
      obtain ⟨⟨key, distance⟩, rest⟩ := holds
      have key := readUInt32_of_holds key
      have distance := readUInt16_of_holds distance
      have rest := ih rest
      simp only [bytesOfUInt32, bytesOfUInt16, List.length_append, List.length_cons,
        List.length_nil] at distance rest
      simp [readCases, key, distance, rest]

theorem readOperands_of_holds {offset : Nat} {operands : Operands}
    (countable : operands.Countable) (holds : code.Holds offset operands.encode) :
    code.readOperands offset operands.shape = some operands := by
  cases operands with
  | none => rfl
  | byte value => simp [readOperands, Operands.shape, holds.1]
  | word value => simp [readOperands, Operands.shape, readUInt16_of_holds holds]
  | words first second =>
      rw [Operands.encode, holds_append] at holds
      have following := readUInt16_of_holds holds.2
      simp only [bytesOfUInt16, List.length_cons, List.length_nil] at following
      simp [readOperands, Operands.shape, readUInt16_of_holds holds.1, following]
  | member index count =>
      rw [Operands.encode, holds_append] at holds
      have following := holds.2.1
      simp only [bytesOfUInt16, List.length_cons, List.length_nil] at following
      simp [readOperands, Operands.shape, readUInt16_of_holds holds.1, following]
  | site slot count flags =>
      rw [Operands.encode, holds_append] at holds
      obtain ⟨slotHolds, countHolds, flagsHolds, -⟩ := holds
      simp only [bytesOfUInt16, List.length_cons, List.length_nil] at countHolds flagsHolds
      simp [readOperands, Operands.shape, readUInt16_of_holds slotHolds, countHolds,
        flagsHolds]
  | adapter routine count flags =>
      obtain ⟨routineHolds, countHolds, flagsHolds, -⟩ := holds
      simp [readOperands, Operands.shape, routineHolds, countHolds, flagsHolds]
  | spread count mask =>
      obtain ⟨countHolds, maskHolds⟩ := holds
      simp [readOperands, Operands.shape, countHolds, readUInt32_of_holds maskHolds]
  | table fallback cases =>
      rw [Operands.encode, holds_append, holds_append] at holds
      obtain ⟨⟨countHolds, fallbackHolds⟩, casesHold⟩ := holds
      have fallbackRead := readUInt16_of_holds fallbackHolds
      have casesRead := readCases_of_holds casesHold
      have count : cases.length.toUInt16.toNat = cases.length :=
        UInt16.toNat_ofNat_of_lt' countable
      simp only [bytesOfUInt16, List.length_append, List.length_cons,
        List.length_nil] at fallbackRead casesRead
      simp [readOperands, Operands.shape, readUInt16_of_holds countHolds, fallbackRead,
        count, casesRead]

theorem instructionAt_of_holds {offset : Nat} {instruction : Instruction}
    (shaped : instruction.WellShaped) (holds : code.Holds offset instruction.encode) :
    code.instructionAt offset = some instruction := by
  obtain ⟨opcode, operands⟩ := instruction
  obtain ⟨first, rest⟩ := holds
  have shape : operands.shape = opcode.shape := shaped.shape
  have operandsRead := readOperands_of_holds shaped.countable rest
  rw [shape] at operandsRead
  simp [instructionAt, readOpcode, first, Opcode.ofByte?_toByte, operandsRead]

end Reading

end ObjectCode

/-! ## Listings -/

-- the zero of a sum is the numeral, whatever algebra on numbers is imported
attribute [local instance (high)] Zero.ofOfNat0

/-- The number of bytes of some instructions. -/
def codeSize (placed : List Placed) : Nat := (placed.map (·.instruction.size)).sum

@[simp]
theorem codeSize_nil : codeSize [] = 0 := rfl

@[simp]
theorem codeSize_cons (first : Placed) (rest : List Placed) :
    codeSize (first :: rest) = first.instruction.size + codeSize rest := by
  simp [codeSize]

@[simp]
theorem codeSize_append (first second : List Placed) :
    codeSize (first ++ second) = codeSize first + codeSize second := by
  simp [codeSize]

namespace ObjectCode

/-- The code has some instructions in a row from an offset on. -/
def Located (code : ObjectCode) : Nat → List Placed → Prop
  | _, [] => True
  | offset, placed :: rest =>
      code.instructionAt offset = some placed.instruction ∧
        Located code (offset + placed.instruction.size) rest

theorem located_append (code : ObjectCode) (offset : Nat) (first second : List Placed) :
    code.Located offset (first ++ second) ↔
      code.Located offset first ∧ code.Located (offset + codeSize first) second := by
  induction first generalizing offset with
  | nil => simp [Located]
  | cons placed first ih => simp [Located, ih, and_assoc, Nat.add_assoc]

theorem instructionAt_size (code : ObjectCode) : code.instructionAt code.size = none := by
  simp [instructionAt, readOpcode, readByte, size]

theorem toList_bytes_write (code : ObjectCode) (line : UInt32) (bytes : List UInt8) :
    (code.write line bytes).bytes.toList = code.bytes.toList ++ bytes := by
  induction bytes generalizing code with
  | nil => simp [write]
  | cons byte bytes ih =>
      have following := ih (code.writeByte line byte)
      simpa [write, writeByte] using following

theorem toList_lines_write (code : ObjectCode) (line : UInt32) (bytes : List UInt8) :
    (code.write line bytes).lines.toList =
      code.lines.toList ++ List.replicate bytes.length line := by
  induction bytes generalizing code with
  | nil => simp [write]
  | cons byte bytes ih =>
      have following := ih (code.writeByte line byte)
      simpa [write, writeByte, List.replicate_succ] using following

theorem foldl_writeInstruction (placed : List Placed) (code : ObjectCode) :
    placed.foldl (fun code item => code.writeInstruction item.line item.instruction) code =
      ⟨code.bytes ++ placed.flatMap (·.instruction.encode),
        code.lines ++ placed.flatMap fun item =>
          List.replicate item.instruction.size item.line⟩ := by
  induction placed generalizing code with
  | nil => simp
  | cons first rest ih =>
      rw [List.foldl_cons, ih, writeInstruction]
      simp [← Array.toList_inj, toList_bytes_write, toList_lines_write,
        Instruction.length_encode]

end ObjectCode

theorem modify_length_append {Item : Type} (front back : List Item) (item : Item)
    (change : Item → Item) :
    (front ++ item :: back).modify front.length change = front ++ change item :: back := by
  induction front with
  | nil => rfl
  | cons first front ih => simpa using ih

namespace Listing

/-- The bytes of a listing are those of its instructions, one after another. -/
theorem toList_bytes_assemble (listing : Listing) :
    listing.assemble.bytes.toList =
      listing.items.toList.flatMap (·.instruction.encode) := by
  simp [assemble, ← Array.foldl_toList, ObjectCode.foldl_writeInstruction]

/-- Every byte of a listing is on the line of its instruction. -/
theorem toList_lines_assemble (listing : Listing) :
    listing.assemble.lines.toList = listing.items.toList.flatMap fun item =>
      List.replicate item.instruction.size item.line := by
  simp [assemble, ← Array.foldl_toList, ObjectCode.foldl_writeInstruction]

theorem assemble_push (listing : Listing) (line : UInt32) (instruction : Instruction) :
    (listing.push line instruction).assemble =
      listing.assemble.writeInstruction line instruction := by
  simp [assemble]

/-- Filling in the distance of a label changes one instruction. -/
theorem items_setDistance {listing : Listing} {label : Label} {front back : List Placed}
    {item : Placed} (items : listing.items.toList = front ++ item :: back)
    (index : label.item = front.length) (distance : UInt16) :
    (listing.setDistance label distance).items.toList =
      front ++ item.setDistance label.branch distance :: back := by
  rw [setDistance, Array.toList_modify, items, index, modify_length_append]

theorem length_flatMap_encode (placed : List Placed) :
    (placed.flatMap (·.instruction.encode)).length = codeSize placed := by
  simp [codeSize, List.length_flatMap, Instruction.length_encode]

theorem size_eq_codeSize (listing : Listing) :
    listing.size = codeSize listing.items.toList := listing.size_eq

/-- The size of a listing is the number of its bytes. -/
theorem size_assemble (listing : Listing) : listing.assemble.size = listing.size := by
  rw [ObjectCode.size, ← Array.length_toList, toList_bytes_assemble,
    length_flatMap_encode, size_eq_codeSize]

theorem located_assemble {listing : Listing} {front placed back : List Placed}
    (items : listing.items.toList = front ++ placed ++ back)
    (shaped : ∀ item ∈ placed, item.instruction.WellShaped) :
    listing.assemble.Located (codeSize front) placed := by
  induction placed generalizing front with
  | nil => trivial
  | cons first rest ih =>
      constructor
      · apply ObjectCode.instructionAt_of_holds (shaped first (by simp))
        have split : listing.assemble.bytes.toList =
            front.flatMap (·.instruction.encode) ++ first.instruction.encode ++
              (rest ++ back).flatMap (·.instruction.encode) := by
          simp [toList_bytes_assemble, items]
        rw [← length_flatMap_encode]
        exact ObjectCode.holds_of_bytes_eq split
      · have following := @ih (front ++ [first]) (by simpa using items)
          (fun item member => shaped item (List.mem_cons_of_mem first member))
        simpa using following

end Listing

end CallCode
