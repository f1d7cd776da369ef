import CallCode.Proofs.Machine.Operation

/-!
# What the assembler writes

Each step of the assembler adds instructions behind those that are there, and only
lets the pool grow, by two constants for an instruction at most.  What the new
instructions do is known as soon as every index of the final pool fits an operand.
-/

namespace CallCode

/-- The most constants that an operand of two bytes can tell apart. -/
def maxConstants : Nat := 65536

/-- Some instructions spell the given operations, and perform them under every later
pool that is not too large. -/
structure PerformsFrom (pool : ConstantPool) (placed : List Placed)
    (code : List Operation) : Prop where
  spells : Spells placed code
  performs : ∀ larger, pool.Within larger → larger.size ≤ maxConstants →
    Performs larger placed code

theorem PerformsFrom.nil (pool : ConstantPool) : PerformsFrom pool [] [] :=
  ⟨.nil, fun _ _ _ => .nil⟩

theorem PerformsFrom.append {pool : ConstantPool} {first second : List Placed}
    {code further : List Operation} (left : PerformsFrom pool first code)
    (right : PerformsFrom pool second further) :
    PerformsFrom pool (first ++ second) (code ++ further) where
  spells := List.rel_append left.spells right.spells
  performs := fun larger within small =>
    (left.performs larger within small).append (right.performs larger within small)

theorem PerformsFrom.split {pool : ConstantPool} {placed : List Placed}
    {code further : List Operation} (performs : PerformsFrom pool placed (code ++ further)) :
    ∃ first second, placed = first ++ second ∧ PerformsFrom pool first code ∧
      PerformsFrom pool second further := by
  refine ⟨placed.take code.length, placed.drop code.length,
    (List.take_append_drop _ placed).symm, ⟨?_, ?_⟩, ⟨?_, ?_⟩⟩
  · exact List.forall₂_take_append _ _ _ performs.spells
  · intro larger within small
    exact List.forall₂_take_append _ _ _ (performs.performs larger within small)
  · exact List.forall₂_drop_append _ _ _ performs.spells
  · intro larger within small
    exact List.forall₂_drop_append _ _ _ (performs.performs larger within small)

theorem PerformsFrom.later {pool larger : ConstantPool} {placed : List Placed}
    {code : List Operation} (performs : PerformsFrom pool placed code)
    (within : pool.Within larger) : PerformsFrom larger placed code where
  spells := performs.spells
  performs := fun final upper small => performs.performs final (within.trans upper) small

namespace Assembler

/-- The pool kept what it had, and grew by at most two constants for each new byte of
code. -/
structure Grows (before after : Assembler) : Prop where
  within : before.pool.Within after.pool
  thrifty : after.pool.size + 2 * before.listing.size ≤
    before.pool.size + 2 * after.listing.size

theorem Grows.refl (assembler : Assembler) : assembler.Grows assembler :=
  ⟨.refl assembler.pool, Nat.le_refl _⟩

theorem Grows.trans {first second third : Assembler} (left : first.Grows second)
    (right : second.Grows third) : first.Grows third := by
  refine ⟨left.within.trans right.within, ?_⟩
  have lower := left.thrifty
  have upper := right.thrifty
  omega

theorem Grows.of_pool_eq {before after : Assembler} (pool : after.pool = before.pool)
    (size : before.listing.size ≤ after.listing.size) : before.Grows after :=
  ⟨by rw [pool]; exact .refl before.pool, by rw [pool]; omega⟩

/-- The code was extended by instructions that perform the given operations. -/
structure Writes (before after : Assembler) (code : List Operation) : Prop where
  grows : before.Grows after
  appends : ∃ placed, after.listing.items.toList = before.listing.items.toList ++ placed ∧
    PerformsFrom after.pool placed code

theorem Writes.within {before after : Assembler} {code : List Operation}
    (writes : before.Writes after code) : before.pool.Within after.pool :=
  writes.grows.within

theorem Writes.refl (assembler : Assembler) : assembler.Writes assembler [] where
  grows := .refl assembler
  appends := ⟨[], by simp, .nil _⟩

theorem Writes.trans {first second third : Assembler} {code further : List Operation}
    (left : first.Writes second code) (right : second.Writes third further) :
    first.Writes third (code ++ further) := by
  obtain ⟨placed, items, performs⟩ := left.appends
  obtain ⟨morePlaced, moreItems, morePerforms⟩ := right.appends
  refine ⟨left.grows.trans right.grows, placed ++ morePlaced, ?_, ?_⟩
  · rw [moreItems, items, List.append_assoc]
  · exact (performs.later right.within).append morePerforms

theorem Writes.items_eq {before after : Assembler} (writes : before.Writes after []) :
    after.listing.items.toList = before.listing.items.toList := by
  obtain ⟨placed, items, performs⟩ := writes.appends
  obtain rfl : placed = [] := List.forall₂_nil_right_iff.mp performs.spells
  simpa using items

theorem writes_setLine (assembler : Assembler) (line : UInt32) :
    assembler.Writes (assembler.setLine line) [] where
  grows := .of_pool_eq rfl (Nat.le_refl _)
  appends := ⟨[], by simp [setLine], .nil _⟩

/-- An instruction is placed once its constants are in the pool. -/
theorem writes_emit_after {assembler interned : Assembler} {opcode : Opcode}
    {operands : Operands} {operation : Operation}
    (listing : interned.listing = assembler.listing)
    (within : assembler.pool.Within interned.pool)
    (few : interned.pool.size ≤ assembler.pool.size + 2)
    (spells : Instruction.Spells ⟨opcode, operands⟩ operation)
    (known : ∀ pool, interned.pool.Within pool → pool.size ≤ maxConstants →
      Instruction.operation? pool ⟨opcode, operands⟩ = some operation) :
    assembler.Writes (interned.emit opcode operands) [operation] where
  grows := by
    refine ⟨within, ?_⟩
    simp only [emit, Listing.push, Instruction.size, listing]
    omega
  appends :=
    ⟨[⟨⟨opcode, operands⟩, interned.line⟩], by simp [emit, listing], .cons spells .nil,
      fun pool within small => .cons (known pool within small) .nil⟩

theorem writes_emit {assembler : Assembler} {opcode : Opcode} {operands : Operands}
    {operation : Operation} (spells : Instruction.Spells ⟨opcode, operands⟩ operation)
    (known : ∀ pool, assembler.pool.Within pool → pool.size ≤ maxConstants →
      Instruction.operation? pool ⟨opcode, operands⟩ = some operation) :
    assembler.Writes (assembler.emit opcode operands) [operation] :=
  writes_emit_after rfl (.refl assembler.pool) (Nat.le_add_right _ _) spells known

theorem writes_plain (assembler : Assembler) {opcode : Opcode}
    (bare : opcode.shape = .none) :
    assembler.Writes (assembler.emit opcode) [.plain opcode] := by
  refine writes_emit rfl ?_
  intro pool _ _
  simp [Instruction.operation?, bare]

/-! ## Constants -/

/-- The pool of an assembler has a constant at an index. -/
def Knows (assembler : Assembler) (index : Nat) (constant : Constant) : Prop :=
  assembler.pool.get? index = some constant

theorem knows_intern (assembler : Assembler) (constant : Constant) :
    (assembler.intern constant).2.Knows (assembler.intern constant).1 constant :=
  assembler.pool.get?_add constant

theorem writes_emit_interned {assembler : Assembler} (constant : Constant)
    {opcode : Opcode} {operands : Operands} {operation : Operation}
    (spells : Instruction.Spells ⟨opcode, operands⟩ operation)
    (known : ∀ pool, (assembler.intern constant).2.pool.Within pool →
      pool.size ≤ maxConstants →
        Instruction.operation? pool ⟨opcode, operands⟩ = some operation) :
    assembler.Writes ((assembler.intern constant).2.emit opcode operands) [operation] := by
  refine writes_emit_after rfl (assembler.pool.add_within constant) ?_ spells known
  exact Nat.le_succ_of_le (assembler.pool.size_add_le constant)

/-- The operand of a known index leads back to the constant in every later pool
that is not too large. -/
theorem Knows.get? {assembler : Assembler} {index : Nat} {constant : Constant}
    (knows : assembler.Knows index constant) {pool : ConstantPool}
    (within : assembler.pool.Within pool) (small : pool.size ≤ maxConstants) :
    index < maxConstants ∧ pool.get? index.toUInt16.toNat = some constant := by
  have found := within.get? knows
  have bound : index < pool.size := (Array.getElem?_eq_some_iff.mp found).1
  have fits : index < maxConstants := by omega
  refine ⟨fits, ?_⟩
  rw [Nat.toUInt16, UInt16.toNat_ofNat_of_lt' fits]
  exact found

theorem writes_emitConstant (assembler : Assembler) {opcode : Opcode}
    {constant : Constant} {operation : Operation}
    (spells : ∀ index, Instruction.Spells ⟨opcode, .word index⟩ operation)
    (reads : ∀ (pool : ConstantPool) (index : UInt16),
      pool.get? index.toNat = some constant →
        Instruction.operation? pool ⟨opcode, .word index⟩ = some operation) :
    assembler.Writes (assembler.emitConstant opcode constant) [operation] := by
  refine writes_emit_interned constant (spells _) ?_
  intro pool within small
  exact reads pool _ ((assembler.knows_intern constant).get? within small).2

/-- The opcodes whose only operand is a type. -/
def takesType (opcode : Opcode) : Bool :=
  opcode ∈ [.getOuterThis, .newInstance, .checkCast, .box, .unbox, .loadClass]

theorem writes_emitType (assembler : Assembler) {opcode : Opcode} {id : Identity}
    (takes : takesType opcode = true) :
    assembler.Writes (assembler.emitType opcode id) [.typed opcode id] := by
  refine writes_emitConstant _ (fun _ => trivial) ?_
  intro pool index found
  have read := ConstantPool.type?_of_get? found
  cases opcode <;> first | simp [Instruction.operation?, read]; done | simp [takesType] at takes

/-- A constant has an index of one byte or of two. -/
theorem loadConstant_eq (assembler : Assembler) (constant : Constant) :
    assembler.loadConstant constant =
      if (assembler.intern constant).1 < 256 then
        (assembler.intern constant).2.emit .constant
          (.byte (assembler.intern constant).1.toUInt8)
      else
        (assembler.intern constant).2.emit .constantWide
          (.word (assembler.intern constant).1.toUInt16) := rfl

theorem writes_loadConstant (assembler : Assembler) {constant : Constant}
    (literal : ∀ (pool : ConstantPool) (index : UInt16),
      pool.get? index.toNat = some constant → pool.literal? index = some constant) :
    assembler.Writes (assembler.loadConstant constant) [.constant constant] := by
  rw [loadConstant_eq]
  by_cases short : (assembler.intern constant).1 < 256
  · rw [if_pos short]
    refine writes_emit_interned constant trivial ?_
    intro pool within small
    have found := ((assembler.knows_intern constant).get? within small).2
    have widened : (assembler.intern constant).1.toUInt8.toUInt16 =
        (assembler.intern constant).1.toUInt16 := by
      apply UInt16.toNat_inj.mp
      simp only [UInt8.toNat_toUInt16, Nat.toUInt8, Nat.toUInt16]
      rw [UInt8.toNat_ofNat_of_lt' short,
        UInt16.toNat_ofNat_of_lt' (Nat.lt_trans short (by decide))]
    simp [Instruction.operation?, widened, literal pool _ found]
  · rw [if_neg short]
    refine writes_emit_interned constant trivial ?_
    intro pool within small
    have found := ((assembler.knows_intern constant).get? within small).2
    simp [Instruction.operation?, literal pool _ found]

theorem writes_loadString (assembler : Assembler) (value : String) :
    assembler.Writes (assembler.loadString value) [.constant (.ofString value)] := by
  apply writes_loadConstant
  intro pool index found
  simp [ConstantPool.literal?, found, Constant.ofString]

end Assembler

/-- The operation that pushes an integer. -/
def Operation.ofInt (value : Int64) : Operation :=
  if value = 0 then .plain .pushZero
  else if value = 1 then .plain .pushOne
  else .constant (.int value)

namespace Assembler

theorem writes_loadInt (assembler : Assembler) (value : Int64) :
    assembler.Writes (assembler.loadInt value) [.ofInt value] := by
  unfold loadInt Operation.ofInt
  split
  · exact assembler.writes_plain rfl
  · split
    · exact assembler.writes_plain rfl
    · apply writes_loadConstant
      intro pool index found
      simp [ConstantPool.literal?, found]

theorem writes_loadNull (assembler : Assembler) :
    assembler.Writes assembler.loadNull [.plain .pushNull] := assembler.writes_plain rfl

theorem writes_loadBool (assembler : Assembler) (value : Bool) :
    assembler.Writes (assembler.loadBool value)
      [.plain (if value then .pushTrue else .pushFalse)] := by
  apply writes_plain
  cases value <;> rfl

/-! ## Locals, receivers and fields -/

/-- The short form of a slot is the slot itself. -/
theorem toUInt16_toUInt8 {slot : UInt16} (short : slot < 256) :
    slot.toUInt8.toUInt16 = slot := by
  apply UInt16.toNat_inj.mp
  have bound : slot.toNat < 256 := by simpa using UInt16.lt_iff_toNat_lt.mp short
  rw [UInt8.toNat_toUInt16, UInt16.toNat_toUInt8]
  omega

theorem writes_getLocal (assembler : Assembler) (slot : UInt16) :
    assembler.Writes (assembler.getLocal slot) [.readLocal slot] := by
  unfold getLocal
  by_cases short : slot < 256
  · rw [if_pos short]
    refine writes_emit trivial ?_
    intro pool _ _
    simp [Instruction.operation?, toUInt16_toUInt8 short]
  · rw [if_neg short]
    refine writes_emit trivial ?_
    intro pool _ _
    simp [Instruction.operation?]

theorem writes_getRef (assembler : Assembler) (slot : UInt16) :
    assembler.Writes (assembler.getRef slot) [.readCell slot] := by
  refine writes_emit trivial ?_
  intro pool _ _
  simp [Instruction.operation?]

theorem writes_getThis (assembler : Assembler) :
    assembler.Writes assembler.getThis [.plain .getThis] := assembler.writes_plain rfl

theorem writes_getOuterThis (assembler : Assembler) (outer : Identity) :
    assembler.Writes (assembler.getOuterThis outer) [.typed .getOuterThis outer] :=
  assembler.writes_emitType rfl

theorem writes_getField (assembler : Assembler) (name : String) :
    assembler.Writes (assembler.getField name) [.getField name.toUTF8] := by
  refine writes_emitConstant _ (fun _ => trivial) ?_
  intro pool index found
  simp [Instruction.operation?, ConstantPool.text?_of_get? found]

theorem writes_getStaticField (assembler : Assembler) (owner : Identity) (name : String) :
    assembler.Writes (assembler.getStaticField owner name)
      [.getStaticField owner name.toUTF8] := by
  have ownerKnown := assembler.knows_intern (.type owner)
  have ownerFew := assembler.pool.size_add_le (.type owner)
  have ownerWithin := assembler.pool.add_within (.type owner)
  have nameKnown := (assembler.intern (.type owner)).2.knows_intern (.ofString name)
  have nameFew := (assembler.intern (.type owner)).2.pool.size_add_le (.ofString name)
  have nameWithin := (assembler.intern (.type owner)).2.pool.add_within (.ofString name)
  have unfolded : assembler.getStaticField owner name =
      ((assembler.intern (.type owner)).2.intern (.ofString name)).2.emit .getStaticField
        (.words (assembler.intern (.type owner)).1.toUInt16
          ((assembler.intern (.type owner)).2.intern (.ofString name)).1.toUInt16) := rfl
  rw [unfolded]
  refine writes_emit_after rfl (ownerWithin.trans nameWithin)
    (Nat.le_trans nameFew (Nat.succ_le_succ ownerFew)) trivial ?_
  intro pool within small
  have ownerFound := (ownerKnown.get? (nameWithin.trans within) small).2
  have nameFound := (nameKnown.get? within small).2
  simp only [Instruction.operation?, ConstantPool.type?_of_get? ownerFound,
    ConstantPool.text?_of_get? nameFound]
  rfl

/-! ## Objects and arrays -/

theorem writes_newInstance (assembler : Assembler) (id : Identity) :
    assembler.Writes (assembler.newInstance id) [.typed .newInstance id] :=
  assembler.writes_emitType rfl

theorem writes_arrayInit (assembler : Assembler) (element : Identity) (count : UInt16) :
    assembler.Writes (assembler.arrayInit element count) [.arrayInit element count] := by
  have unfolded : assembler.arrayInit element count =
      (assembler.intern (.type element)).2.emit .arrayInit
        (.words (assembler.intern (.type element)).1.toUInt16 count) := rfl
  rw [unfolded]
  refine writes_emit_interned (.type element) trivial ?_
  intro pool within small
  have found := ((assembler.knows_intern (.type element)).get? within small).2
  simp only [Instruction.operation?, ConstantPool.type?_of_get? found]
  rfl

theorem writes_despread (assembler : Assembler) (count : UInt8) (mask : UInt32) :
    assembler.Writes (assembler.despread count mask) [.despread count mask] := by
  refine writes_emit rfl ?_
  intro pool _ _
  simp [Instruction.operation?]

/-! ## Calls -/

theorem writes_invoke (assembler : Assembler) {opcode : Opcode} {owner member : Identity}
    {count : UInt8} (isInvoke : opcode.isInvoke = true) :
    assembler.Writes (assembler.invoke opcode owner member count)
      [.invoke opcode owner member count] := by
  have unfolded : assembler.invoke opcode owner member count =
      (assembler.intern (.member owner member)).2.emit opcode
        (.member (assembler.intern (.member owner member)).1.toUInt16 count) := rfl
  rw [unfolded]
  refine writes_emit_interned (.member owner member) trivial ?_
  intro pool within small
  have found := ((assembler.knows_intern (.member owner member)).get? within small).2
  simp only [Instruction.operation?, isInvoke, ConstantPool.member?_of_get? found]
  rfl

theorem writes_callSite (assembler : Assembler) (slot : UInt16) (count flags : UInt8) :
    assembler.Writes (assembler.callSite slot count flags)
      [.callSite slot count flags] := by
  refine writes_emit rfl ?_
  intro pool _ _
  simp [Instruction.operation?]

theorem writes_callAdapter (assembler : Assembler) (routine count flags : UInt8) :
    assembler.Writes (assembler.callAdapter routine count flags)
      [.callRoutine routine count flags] := by
  refine writes_emit rfl ?_
  intro pool _ _
  simp [Instruction.operation?]

theorem writes_callRoutine (assembler : Assembler) (routine : Routine) (count : UInt8) :
    assembler.Writes (assembler.callRoutine routine count)
      [.callRoutine routine.number count 0] :=
  assembler.writes_callAdapter routine.number count 0

/-! ## Types -/

theorem writes_checkCast (assembler : Assembler) (target : Identity) :
    assembler.Writes (assembler.checkCast target) [.typed .checkCast target] :=
  assembler.writes_emitType rfl

theorem writes_box (assembler : Assembler) (primitive : Identity) :
    assembler.Writes (assembler.box primitive) [.typed .box primitive] :=
  assembler.writes_emitType rfl

theorem writes_unbox (assembler : Assembler) (primitive : Identity) :
    assembler.Writes (assembler.unbox primitive) [.typed .unbox primitive] :=
  assembler.writes_emitType rfl

theorem writes_loadClass (assembler : Assembler) (id : Identity) :
    assembler.Writes (assembler.loadClass id) [.typed .loadClass id] :=
  assembler.writes_emitType rfl

theorem writes_raiseFatal (assembler : Assembler) (message : String) :
    assembler.Writes (assembler.raiseFatal message) [.raiseFatal message.toUTF8] := by
  refine writes_emitConstant _ (fun _ => trivial) ?_
  intro pool index found
  simp [Instruction.operation?, ConstantPool.text?_of_get? found]

end Assembler

end CallCode
