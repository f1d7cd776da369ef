import CallCode.Machine.Assembler
import CallCode.Proofs.Machine.Fields

/-!
# Emissions

The operations of the assembler each place one instruction.  Here they are told by what
they write: an opcode and a row of fields.  The sizes of opcodes agree with the fields,
and the labels that an operation gives out lead to distances among them.
-/

namespace CallCode

/-- What one call writes: an opcode, its fields and the line of all their bytes. -/
structure Emission where
  opcode : Opcode
  fields : List OperandField
  line : UInt32
  deriving DecidableEq, Repr

namespace Emission

def bytes (emission : Emission) : List UInt8 :=
  emission.opcode.toByte :: emission.fields.flatMap OperandField.bytes

/-- The number of bytes that are written. -/
def size (emission : Emission) : Nat := emission.bytes.length

/-- Where emissions in a row start, the first of which stands at `offset`. -/
def starts : Nat → List Emission → List Nat
  | _, [] => []
  | offset, emission :: rest => offset :: starts (offset + emission.size) rest

end Emission

/-! ## Operations of the assembler -/

/-- A call that places an instruction.  Where the caller chooses the opcode, its operands
have the size that the call writes. -/
inductive Emit
  | plain (opcode : Opcode) (bare : opcode.operandSize = 0)
  | byte (opcode : Opcode) (value : UInt8) (one : opcode.operandSize = 1)
  | half (opcode : Opcode) (value : UInt16) (two : opcode.operandSize = 2)
  | loadConstant (constant : Constant)
  | loadInt (value : Int64)
  | loadString (value : String)
  | loadNull
  | loadBool (value : Bool)
  | getLocal (slot : UInt16)
  | getRef (slot : UInt16)
  | getThis
  | getOuterThis (outer : Identity)
  | getField (name : String)
  | getStaticField (owner : Identity) (name : String)
  | newInstance (id : Identity)
  | arrayInit (element : Identity) (count : UInt16)
  | despread (count : UInt8) (mask : UInt32)
  | invoke (opcode : Opcode) (owner member : Identity) (count : UInt8)
      (invokes : opcode.isInvoke = true)
  | callSite (slot : UInt16) (count flags : UInt8)
  | callAdapter (routine count flags : UInt8)
  | checkCast (target : Identity)
  | box (primitive : Identity)
  | unbox (primitive : Identity)
  | loadClass (id : Identity)
  | jump (opcode : Opcode) (two : opcode.operandSize = 2)
  | lookupSwitch (keys : List Int32) (few : keys.length ≤ 65535)
  | raiseFatal (message : String)

namespace Emit

/-- What the assembler does for a call, with the labels that it gives out. -/
def run (assembler : Assembler) : Emit → List Label × Assembler
  | plain opcode _ => ([], assembler.emit opcode)
  | byte opcode value _ => ([], assembler.emit opcode (.byte value))
  | half opcode value _ => ([], assembler.emit opcode (.word value))
  | loadConstant constant => ([], assembler.loadConstant constant)
  | loadInt value => ([], assembler.loadInt value)
  | loadString value => ([], assembler.loadString value)
  | loadNull => ([], assembler.loadNull)
  | loadBool value => ([], assembler.loadBool value)
  | getLocal slot => ([], assembler.getLocal slot)
  | getRef slot => ([], assembler.getRef slot)
  | getThis => ([], assembler.getThis)
  | getOuterThis outer => ([], assembler.getOuterThis outer)
  | getField name => ([], assembler.getField name)
  | getStaticField owner name => ([], assembler.getStaticField owner name)
  | newInstance id => ([], assembler.newInstance id)
  | arrayInit element count => ([], assembler.arrayInit element count)
  | despread count mask => ([], assembler.despread count mask)
  | invoke opcode owner member count _ => ([], assembler.invoke opcode owner member count)
  | callSite slot count flags => ([], assembler.callSite slot count flags)
  | callAdapter routine count flags => ([], assembler.callAdapter routine count flags)
  | checkCast target => ([], assembler.checkCast target)
  | box primitive => ([], assembler.box primitive)
  | unbox primitive => ([], assembler.unbox primitive)
  | loadClass id => ([], assembler.loadClass id)
  | jump opcode _ =>
      let (label, assembler) := assembler.jump opcode
      ([label], assembler)
  | lookupSwitch keys _ =>
      let (labels, assembler) := assembler.lookupSwitch keys
      (labels.fallback :: labels.cases, assembler)
  | raiseFatal message => ([], assembler.raiseFatal message)

/-- The index that is written for a constant. -/
def indexIn (pool : ConstantPool) (constant : Constant) : UInt16 :=
  (pool.add constant).1.toUInt16

/-- An index that fits one byte is written as one. -/
def constantContent (pool : ConstantPool) (constant : Constant) :
    Opcode × List OperandField :=
  let index := (pool.add constant).1
  if index < 256 then (.constant, [.byte index.toUInt8])
  else (.constantWide, [.half index.toUInt16])

/-- The fields of a switch behind that of its default branch. -/
def caseFields (keys : List Int32) : List OperandField :=
  keys.flatMap fun key => [.word key.toUInt32, .distance]

/-- The opcode and the fields that a call writes. -/
def content (pool : ConstantPool) : Emit → Opcode × List OperandField
  | plain opcode _ => (opcode, [])
  | byte opcode value _ => (opcode, [.byte value])
  | half opcode value _ => (opcode, [.half value])
  | loadConstant constant => constantContent pool constant
  | loadInt value =>
      if value = 0 then (.pushZero, [])
      else if value = 1 then (.pushOne, [])
      else constantContent pool (.int value)
  | loadString value => constantContent pool (.ofString value)
  | loadNull => (.pushNull, [])
  | loadBool value => (if value then .pushTrue else .pushFalse, [])
  | getLocal slot =>
      if slot < 256 then (.getLocal, [.byte slot.toUInt8]) else (.getLocalWide, [.half slot])
  | getRef slot => (.getRef, [.half slot])
  | getThis => (.getThis, [])
  | getOuterThis outer => (.getOuterThis, [.half (indexIn pool (.type outer))])
  | getField name => (.getField, [.half (indexIn pool (.ofString name))])
  | getStaticField owner name =>
      let named := (pool.add (.type owner)).2
      (.getStaticField,
        [.half (indexIn pool (.type owner)), .half (indexIn named (.ofString name))])
  | newInstance id => (.newInstance, [.half (indexIn pool (.type id))])
  | arrayInit element count =>
      (.arrayInit, [.half (indexIn pool (.type element)), .half count])
  | despread count mask => (.despread, [.byte count, .word mask])
  | invoke opcode owner member count _ =>
      (opcode, [.half (indexIn pool (.member owner member)), .byte count])
  | callSite slot count flags => (.callSite, [.half slot, .byte count, .byte flags])
  | callAdapter routine count flags =>
      (.callAdapter, [.byte routine, .byte count, .byte flags])
  | checkCast target => (.checkCast, [.half (indexIn pool (.type target))])
  | box primitive => (.box, [.half (indexIn pool (.type primitive))])
  | unbox primitive => (.unbox, [.half (indexIn pool (.type primitive))])
  | loadClass id => (.loadClass, [.half (indexIn pool (.type id))])
  | jump opcode _ => (opcode, [.distance])
  | lookupSwitch keys _ =>
      (.lookupSwitch, .half keys.length.toUInt16 :: .distance :: caseFields keys)
  | raiseFatal message => (.raiseFatal, [.half (indexIn pool (.ofString message))])

/-- What a call writes on a line. -/
def emission (emit : Emit) (pool : ConstantPool) (line : UInt32) : Emission :=
  ⟨(emit.content pool).1, (emit.content pool).2, line⟩

end Emit

/-! ## Each call places one instruction -/

/-- One instruction was placed, with an opcode and fields whose distances are pending. -/
def Assembler.Emits (before after : Assembler) (content : Opcode × List OperandField) :
    Prop :=
  ∃ operands : Operands,
    after.listing = before.listing.push before.line ⟨content.1, operands⟩ ∧
      operands.fields = content.2.map OperandField.pending ∧
        Instruction.WellShaped ⟨content.1, operands⟩ ∧ after.line = before.line

section Shapes

variable {opcode : Opcode}

theorem Opcode.shape_of_operandSize_zero (bare : opcode.operandSize = 0) :
    opcode.shape = .none := by
  cases opcode <;> first | rfl | cases bare

theorem Opcode.shape_of_operandSize_one (one : opcode.operandSize = 1) :
    opcode.shape = .byte := by
  cases opcode <;> first | rfl | cases one

theorem Opcode.shape_of_operandSize_two (two : opcode.operandSize = 2) :
    opcode.shape = .word := by
  cases opcode <;> first | rfl | cases two

theorem Opcode.shape_of_isInvoke (invokes : opcode.isInvoke = true) :
    opcode.shape = .member := by
  cases opcode <;> first | rfl | cases invokes

end Shapes

namespace Emit

variable (assembler : Assembler)

theorem emits_loadConstant (constant : Constant) :
    assembler.Emits (assembler.loadConstant constant)
      (constantContent assembler.pool constant) := by
  unfold constantContent Assembler.loadConstant Assembler.intern
  by_cases short : (assembler.pool.add constant).1 < 256
  · simp only [short, if_true]
    exact ⟨.byte _, rfl, rfl, ⟨rfl, trivial⟩, rfl⟩
  · simp only [short, if_false]
    exact ⟨.word _, rfl, rfl, ⟨rfl, trivial⟩, rfl⟩

theorem pending_caseFields (keys : List Int32) :
    (caseFields keys).map OperandField.pending =
      (keys.map fun key => SwitchCase.mk key pendingDistance).flatMap fun arm =>
        [.word arm.key.toUInt32, .half arm.distance] := by
  induction keys with
  | nil => rfl
  | cons key keys ih =>
    simp only [caseFields] at ih
    simp [caseFields, OperandField.pending, ih]

/-- The table of operand sizes agrees with what each call writes. -/
theorem emits_run (emit : Emit) :
    assembler.Emits (emit.run assembler).2 (emit.content assembler.pool) := by
  -- an opcode of the caller has its shape by its size, any other by computation
  cases emit with
  | plain opcode bare =>
      exact ⟨.none, rfl, rfl, ⟨(Opcode.shape_of_operandSize_zero bare).symm, trivial⟩, rfl⟩
  | byte opcode value one =>
      exact ⟨.byte value, rfl, rfl,
        ⟨(Opcode.shape_of_operandSize_one one).symm, trivial⟩, rfl⟩
  | half opcode value two =>
      exact ⟨.word value, rfl, rfl,
        ⟨(Opcode.shape_of_operandSize_two two).symm, trivial⟩, rfl⟩
  | loadConstant constant => exact emits_loadConstant assembler constant
  | loadInt value =>
      by_cases zero : value = 0
      · subst zero
        exact ⟨.none, rfl, rfl, ⟨rfl, trivial⟩, rfl⟩
      by_cases one : value = 1
      · subst one
        exact ⟨.none, rfl, rfl, ⟨rfl, trivial⟩, rfl⟩
      simpa [run, content, Assembler.loadInt, zero, one]
        using emits_loadConstant assembler (.int value)
  | loadString value => exact emits_loadConstant assembler (.ofString value)
  | loadNull => exact ⟨.none, rfl, rfl, ⟨rfl, trivial⟩, rfl⟩
  | loadBool value => cases value <;> exact ⟨.none, rfl, rfl, ⟨rfl, trivial⟩, rfl⟩
  | getLocal slot =>
      by_cases short : slot < 256
      · simp only [run, content, Assembler.getLocal, short, if_true]
        exact ⟨.byte slot.toUInt8, rfl, rfl, ⟨rfl, trivial⟩, rfl⟩
      · simp only [run, content, Assembler.getLocal, short, if_false]
        exact ⟨.word slot, rfl, rfl, ⟨rfl, trivial⟩, rfl⟩
  | getRef slot => exact ⟨.word slot, rfl, rfl, ⟨rfl, trivial⟩, rfl⟩
  | getThis => exact ⟨.none, rfl, rfl, ⟨rfl, trivial⟩, rfl⟩
  | despread count mask => exact ⟨.spread count mask, rfl, rfl, ⟨rfl, trivial⟩, rfl⟩
  | callSite slot count flags => exact ⟨.site slot count flags, rfl, rfl, ⟨rfl, trivial⟩, rfl⟩
  | callAdapter routine count flags =>
      exact ⟨.adapter routine count flags, rfl, rfl, ⟨rfl, trivial⟩, rfl⟩
  | getStaticField owner name => exact ⟨.words _ _, rfl, rfl, ⟨rfl, trivial⟩, rfl⟩
  | arrayInit element count => exact ⟨.words _ count, rfl, rfl, ⟨rfl, trivial⟩, rfl⟩
  | invoke opcode owner member count invokes =>
      exact ⟨.member _ count, rfl, rfl,
        ⟨(Opcode.shape_of_isInvoke invokes).symm, trivial⟩, rfl⟩
  | jump opcode two =>
      exact ⟨.word pendingDistance, rfl, rfl,
        ⟨(Opcode.shape_of_operandSize_two two).symm, trivial⟩, rfl⟩
  | lookupSwitch keys few =>
      refine ⟨.table pendingDistance (keys.map (⟨·, pendingDistance⟩)), rfl, ?_,
        ⟨rfl, ?_⟩, rfl⟩
      · simp [content, Operands.fields, OperandField.pending, pending_caseFields]
      · simp only [Operands.Countable, List.length_map]
        omega
  | getOuterThis _ | getField _ | newInstance _ | checkCast _ | box _ | unbox _
  | loadClass _ | raiseFatal _ => exact ⟨.word _, rfl, rfl, ⟨rfl, trivial⟩, rfl⟩

end Emit

/-! ## Labels -/

/-- A label leads to a distance of an emission, behind the fields `passed`. -/
structure Label.LeadsTo (label : Label) (front : List Emission) (emission : Emission)
    (passed rest : List OperandField) : Prop where
  fields : emission.fields = passed ++ .distance :: rest
  shape : emission.opcode.shape = label.branch.shape
  item : label.item = front.length
  place : label.branch.place = passed.length
  offset : label.offset = (front.flatMap Emission.bytes).length + 1 +
    (passed.flatMap OperandField.bytes).length

/-- A label leads to a distance of one of some emissions. -/
def Label.LeadsAmong (label : Label) (emissions : List Emission) : Prop :=
  ∃ front emission back passed rest,
    emissions = front ++ emission :: back ∧ label.LeadsTo front emission passed rest

theorem Label.LeadsAmong.append {label : Label} {emissions : List Emission}
    (leads : label.LeadsAmong emissions) (further : List Emission) :
    label.LeadsAmong (emissions ++ further) := by
  obtain ⟨front, emission, back, passed, rest, rfl, there⟩ := leads
  exact ⟨front, emission, back ++ further, passed, rest, by simp, there⟩

theorem Emit.exists_of_caseFields {keys : List Int32} {position : Nat}
    (inside : position < keys.length) :
    ∃ passed rest, caseFields keys = passed ++ .distance :: rest ∧
      passed.length = 1 + 2 * position ∧
        (passed.flatMap OperandField.bytes).length = 4 + 6 * position := by
  induction keys generalizing position with
  | nil => cases inside
  | cons key keys ih =>
      cases position with
      | zero => exact ⟨[.word key.toUInt32], caseFields keys, rfl, rfl, rfl⟩
      | succ position =>
          obtain ⟨passed, rest, split, places, bytes⟩ := ih (Nat.lt_of_succ_lt_succ inside)
          refine ⟨.word key.toUInt32 :: .distance :: passed, rest, ?_, ?_, ?_⟩
          · simpa [caseFields] using split
          · simp only [List.length_cons, places]
            omega
          · simp only [List.flatMap_cons, List.length_append, bytes]
            simp only [OperandField.bytes, bytesOfUInt32, bytesOfUInt16, List.length_cons,
              List.length_nil]
            omega

/-- The labels that a call gives out lead to distances that it writes. -/
theorem Emit.leadsTo_of_mem_run {assembler : Assembler} {emissions : List Emission}
    (count : assembler.listing.items.size = emissions.length)
    (size : assembler.listing.size = (emissions.flatMap Emission.bytes).length)
    {emit : Emit} {label : Label} (given : label ∈ (emit.run assembler).1) (line : UInt32) :
    ∃ passed rest,
      label.LeadsTo emissions (emit.emission assembler.pool line) passed rest := by
  cases emit with
  | jump opcode two =>
      obtain rfl := List.mem_singleton.mp given
      refine ⟨[], [], rfl, Opcode.shape_of_operandSize_two two, count, rfl, ?_⟩
      exact congrArg (· + 1) size
  | lookupSwitch keys few =>
      rcases List.mem_cons.mp given with rfl | later
      · refine ⟨[.half keys.length.toUInt16], caseFields keys, rfl, rfl, count, rfl, ?_⟩
        exact congrArg (· + 3) size
      · obtain ⟨position, inside, rfl⟩ := List.mem_map.mp later
        obtain ⟨passed, rest, split, places, bytes⟩ :=
          exists_of_caseFields (List.mem_range.mp inside)
        refine ⟨.half keys.length.toUInt16 :: .distance :: passed, rest, ?_, rfl, count,
          ?_, ?_⟩
        · simp [emission, content, split]
        · simp only [Branch.place, List.length_cons, places]
          omega
        · simp only [List.flatMap_cons, List.length_append, bytes, size]
          simp only [OperandField.bytes, bytesOfUInt16, List.length_cons, List.length_nil]
          omega
  | _ => cases given

end CallCode
