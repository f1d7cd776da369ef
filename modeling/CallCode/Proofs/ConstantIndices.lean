import CallCode.Proofs.ConstantKinds
import CallCode.Proofs.Machine.Emissions

/-!
# Indices of constants

An operand for a constant is the place of the constant in the pool.  A place beyond the
first 65536 is cut off to two bytes, and no error is reported, so that the operand leads to
another constant.
-/

namespace CallCode

/-! ## Places in the pool -/

/-- A constant has one place. -/
theorem ConstantPool.place_unique {pool : ConstantPool} {constant : Constant}
    {first second : Nat} (one : pool.get? first = some constant)
    (other : pool.get? second = some constant) : first = second := by
  have known := (pool.index_spec constant first).mpr one
  have again := (pool.index_spec constant second).mpr other
  exact Option.some.inj (known.symm.trans again)

/-- A constant that is there already is answered with its place. -/
theorem ConstantPool.add_of_get? {pool : ConstantPool} {constant : Constant} {place : Nat}
    (found : pool.get? place = some constant) : pool.add constant = (place, pool) := by
  have known := (pool.index_spec constant place).mpr found
  unfold add
  split
  · rename_i position there
    rw [known] at there
    rw [Option.some.inj there]
  · rename_i absent
    rw [known] at absent
    cases absent

/-- A constant that the pool does not have yet is added behind the others. -/
theorem ConstantPool.add_of_absent {pool : ConstantPool} {constant : Constant}
    (absent : ∀ place, pool.get? place ≠ some constant) :
    (pool.add constant).1 = pool.size ∧
      (pool.add constant).2.constants = pool.constants.push constant := by
  have unknown : pool.index[constant]? = none := by
    rw [Option.eq_none_iff_forall_ne_some]
    intro place known
    exact absent place ((pool.index_spec constant place).mp known)
  unfold add
  split
  · rename_i place known
    rw [unknown] at known
    cases known
  · exact ⟨rfl, rfl⟩

/-- An operand was written for a constant: it is the place of the constant, cut off to two
bytes, and leads back to the constant exactly if nothing was cut off. -/
def ConstantOperand.WrittenFor (pool : ConstantPool) (operand : ConstantOperand)
    (constant : Constant) : Prop :=
  ∃ place, pool.get? place = some constant ∧ operand.index = place % maxConstants ∧
    (pool.get? operand.index = some constant ↔ place < maxConstants)

section Operand

variable {pool : ConstantPool} {place : Nat} {constant : Constant}

theorem ConstantOperand.writtenFor_of_index (found : pool.get? place = some constant)
    {operand : ConstantOperand} (cut : operand.index = place % maxConstants) :
    operand.WrittenFor pool constant := by
  refine ⟨place, found, cut, ?_⟩
  constructor
  · intro back
    have whole : operand.index = place := ConstantPool.place_unique back found
    have positive : 0 < maxConstants := by decide
    rw [← whole, cut]
    exact Nat.mod_lt _ positive
  · intro small
    rw [cut, Nat.mod_eq_of_lt small]
    exact found

theorem ConstantOperand.writtenFor_half (found : pool.get? place = some constant)
    (kind : ConstantKind) :
    ConstantOperand.WrittenFor pool ⟨place.toUInt16.toNat, kind⟩ constant :=
  writtenFor_of_index found (UInt16.toNat_ofNat')

/-- A place that fits one byte is not cut off. -/
theorem ConstantOperand.writtenFor_byte (found : pool.get? place = some constant)
    (short : place < 256) (kind : ConstantKind) :
    ConstantOperand.WrittenFor pool ⟨place.toUInt8.toNat, kind⟩ constant := by
  have small : place < maxConstants := Nat.lt_trans short (by decide)
  refine writtenFor_of_index found ?_
  rw [Nat.mod_eq_of_lt small]
  exact UInt8.toNat_ofNat_of_lt' short

end Operand

/-! ## Calls of the assembler -/

/-- The constants that a call is given. -/
def Emit.constants : Emit → List Constant
  | loadConstant constant => [constant]
  | loadInt value => if value = 0 ∨ value = 1 then [] else [.int value]
  | loadString text | getField text | raiseFatal text => [.ofString text]
  | getOuterThis id | newInstance id | checkCast id | box id | unbox id | loadClass id
  | arrayInit id _ => [.type id]
  | getStaticField owner name => [.type owner, .ofString name]
  | invoke _ owner member _ _ => [.member owner member]
  | _ => []

/-- One instruction was placed, and its constant operands were written for some
constants. -/
def Assembler.Indexes (before after : Assembler) (constants : List Constant) : Prop :=
  ∃ instruction : Instruction,
    after.listing = before.listing.push before.line instruction ∧ instruction.WellShaped ∧
      List.Forall₂ (ConstantOperand.WrittenFor after.pool) instruction.constantOperands
        constants

namespace Assembler

variable (assembler : Assembler)

theorem indexes_emitConstant {opcode : Opcode} {kind : ConstantKind}
    (kinds : opcode.constantKinds = [kind]) (shape : opcode.shape = .word)
    (constant : Constant) :
    assembler.Indexes (assembler.emitConstant opcode constant) [constant] := by
  refine ⟨⟨opcode, .word (assembler.intern constant).1.toUInt16⟩, rfl,
    ⟨shape.symm, trivial⟩, ?_⟩
  rw [Instruction.constantOperands, kinds]
  exact .cons (ConstantOperand.writtenFor_half (assembler.knows_intern constant) kind) .nil

theorem indexes_loadConstant (constant : Constant) :
    assembler.Indexes (assembler.loadConstant constant) [constant] := by
  have known := assembler.knows_intern constant
  rw [loadConstant_eq]
  by_cases short : (assembler.intern constant).1 < 256
  · rw [if_pos short]
    exact ⟨⟨.constant, .byte _⟩, rfl, ⟨rfl, trivial⟩,
      .cons (ConstantOperand.writtenFor_byte known short .literal) .nil⟩
  · rw [if_neg short]
    exact ⟨⟨.constantWide, .word _⟩, rfl, ⟨rfl, trivial⟩,
      .cons (ConstantOperand.writtenFor_half known .literal) .nil⟩

theorem indexes_getStaticField (owner : Identity) (name : String) :
    assembler.Indexes (assembler.getStaticField owner name) [.type owner, .ofString name] := by
  have ownerKnown := assembler.knows_intern (.type owner)
  have nameKnown := (assembler.intern (.type owner)).2.knows_intern (.ofString name)
  -- the name may be a new constant, but the owner keeps its place
  have kept := (assembler.intern (.type owner)).2.pool.add_within (.ofString name)
  exact ⟨⟨.getStaticField, .words _ _⟩, rfl, ⟨rfl, trivial⟩,
    .cons (ConstantOperand.writtenFor_half (kept.get? ownerKnown) .type)
      (.cons (ConstantOperand.writtenFor_half nameKnown .text) .nil)⟩

theorem indexes_arrayInit (element : Identity) (count : UInt16) :
    assembler.Indexes (assembler.arrayInit element count) [.type element] := by
  have known := assembler.knows_intern (.type element)
  exact ⟨⟨.arrayInit, .words _ count⟩, rfl, ⟨rfl, trivial⟩,
    .cons (ConstantOperand.writtenFor_half known .type) .nil⟩

theorem indexes_invoke {opcode : Opcode} (invokes : opcode.isInvoke = true)
    (owner member : Identity) (count : UInt8) :
    assembler.Indexes (assembler.invoke opcode owner member count) [.member owner member] := by
  have known := assembler.knows_intern (.member owner member)
  have kinds : opcode.constantKinds = [.member] := by
    cases opcode <;> first | rfl | cases invokes
  refine ⟨⟨opcode, .member (assembler.intern (.member owner member)).1.toUInt16 count⟩, rfl,
    ⟨(Opcode.shape_of_isInvoke invokes).symm, trivial⟩, ?_⟩
  rw [Instruction.constantOperands, kinds]
  exact .cons (ConstantOperand.writtenFor_half known .member) .nil

/-- Every call that is given constants writes an operand for each of them. -/
theorem indexes_run {emit : Emit} (given : emit.constants ≠ []) :
    assembler.Indexes (emit.run assembler).2 emit.constants := by
  cases emit with
  | loadConstant constant => exact assembler.indexes_loadConstant constant
  | loadInt value =>
      by_cases short : value = 0 ∨ value = 1
      · simp [Emit.constants, short] at given
      · have wide : assembler.loadInt value = assembler.loadConstant (.int value) := by
          simp only [not_or] at short
          rw [loadInt, if_neg short.1, if_neg short.2]
        rw [Emit.constants, if_neg short, Emit.run, wide]
        exact assembler.indexes_loadConstant _
  | loadString value => exact assembler.indexes_loadConstant _
  | getStaticField owner name => exact assembler.indexes_getStaticField owner name
  | arrayInit element count => exact assembler.indexes_arrayInit element count
  | invoke opcode owner member count invokes =>
      exact assembler.indexes_invoke invokes owner member count
  | getOuterThis _ | newInstance _ | checkCast _ | box _ | unbox _ | loadClass _
  | getField _ | raiseFatal _ => exact assembler.indexes_emitConstant rfl rfl _
  | _ => exact absurd rfl given

end Assembler

/-- The bytes of an instruction stand where the code ended before. -/
theorem Listing.instructionAt_push {instruction : Instruction}
    (shaped : instruction.WellShaped) (listing : Listing) (line : UInt32) :
    (listing.push line instruction).assemble.instructionAt listing.size =
      some instruction := by
  have items : (listing.push line instruction).items.toList =
      listing.items.toList ++ [⟨instruction, line⟩] ++ [] := by simp
  rw [listing.size_eq_codeSize]
  exact (Listing.located_assemble items (by simpa using shaped)).1

/-- Whatever the pool holds, a call that is given constants writes an operand for each of
them into the code, and reports no error.  Looking such an operand up in the pool gives the
constant back exactly if the constant has one of the first 65536 places. -/
theorem constant_operands_exact_iff (assembler : Assembler) (emit : Emit)
    (given : emit.constants ≠ []) :
    ∃ instruction,
      (emit.run assembler).2.listing.assemble.instructionAt assembler.listing.size =
          some instruction ∧
        List.Forall₂ (ConstantOperand.WrittenFor (emit.run assembler).2.pool)
          instruction.constantOperands emit.constants := by
  obtain ⟨instruction, placed, shaped, written⟩ := assembler.indexes_run given
  refine ⟨instruction, ?_, written⟩
  rw [placed]
  exact Listing.instructionAt_push shaped assembler.listing assembler.line

theorem toNat_toUInt64_of_lt {number : Nat} (small : number < maxConstants) :
    number.toUInt64.toNat = number := by
  rw [Nat.toUInt64, UInt64.toNat_ofNat']
  exact Nat.mod_eq_of_lt (Nat.lt_trans small (by decide))

/-- There are pools of so many types. -/
theorem exists_pool_of_types (count : Nat) (few : count ≤ maxConstants) :
    ∃ pool : ConstantPool, pool.size = count ∧
      ∀ place constant, pool.get? place = some constant →
        ∃ number < count, constant = .type ⟨number.toUInt64⟩ := by
  induction count with
  | zero => exact ⟨{}, rfl, fun place constant found => by simp [ConstantPool.get?] at found⟩
  | succ count ih =>
      obtain ⟨pool, size, types⟩ := ih (by omega)
      have absent : ∀ place, pool.get? place ≠ some (.type ⟨count.toUInt64⟩) := by
        intro place found
        obtain ⟨number, smaller, same⟩ := types place _ found
        have bits : count.toUInt64 = number.toUInt64 := by simpa using same
        have equal := congrArg UInt64.toNat bits
        rw [toNat_toUInt64_of_lt (by omega), toNat_toUInt64_of_lt (by omega)] at equal
        exact Nat.lt_irrefl _ (equal ▸ smaller)
      obtain ⟨-, pushed⟩ := ConstantPool.add_of_absent absent
      refine ⟨(pool.add (.type ⟨count.toUInt64⟩)).2, ?_, ?_⟩
      · rw [ConstantPool.size, pushed, Array.size_push, ← ConstantPool.size, size]
      · intro place constant found
        rw [ConstantPool.get?, pushed, Array.getElem?_push] at found
        split at found
        · exact ⟨count, Nat.lt_succ_self count, (Option.some.inj found).symm⟩
        · obtain ⟨number, smaller, same⟩ := types place constant found
          exact ⟨number, Nat.lt_succ_of_lt smaller, same⟩

/-- In a full pool another type gets a place that no operand has, and what is read back for
it is another constant. -/
theorem constant_operand_of_full_pool :
    let emit : Emit := .newInstance ⟨65536⟩
    ∃ assembler : Assembler, assembler.pool.size = maxConstants ∧ emit.constants ≠ [] ∧
      ∃ instruction operand,
        (emit.run assembler).2.listing.assemble.instructionAt assembler.listing.size =
            some instruction ∧
          instruction.constantOperands = [operand] ∧
          operand.WrittenFor (emit.run assembler).2.pool (.type ⟨65536⟩) ∧
          (emit.run assembler).2.pool.get? operand.index ≠ some (.type ⟨65536⟩) := by
  intro emit
  obtain ⟨pool, size, types⟩ := exists_pool_of_types maxConstants (Nat.le_refl _)
  have given : emit.constants ≠ [] := List.cons_ne_nil _ _
  obtain ⟨instruction, found, written⟩ := constant_operands_exact_iff { pool } emit given
  obtain ⟨operand, _, own, none_left, same⟩ := List.forall₂_cons_right_iff.mp written
  obtain rfl := List.forall₂_nil_right_iff.mp none_left
  have absent : ∀ place, pool.get? place ≠ some (.type ⟨65536⟩) := by
    intro place known
    obtain ⟨number, small, equal⟩ := types place _ known
    have bits : (65536 : UInt64) = number.toUInt64 := by simpa using equal
    have value : maxConstants = number.toUInt64.toNat := congrArg UInt64.toNat bits
    rw [toNat_toUInt64_of_lt small] at value
    exact Nat.lt_irrefl _ (value ▸ small)
  refine ⟨{ pool }, size, given, instruction, operand, found, same, own, ?_⟩
  obtain ⟨place, stands, -, back⟩ := own
  obtain ⟨last, -⟩ := ConstantPool.add_of_absent absent
  have here : place = maxConstants := by
    rw [← size, ← last]
    exact ConstantPool.place_unique stands (pool.get?_add _)
  intro read
  exact Nat.lt_irrefl _ (here ▸ back.mp read)

end CallCode
