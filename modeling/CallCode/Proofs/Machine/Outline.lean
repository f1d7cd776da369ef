import CallCode.Proofs.Machine.Walking
import CallCode.Proofs.Machine.Writing

/-!
# Outlines of listings

Placing code only adds instructions at the end, but resolving a label also rewrites a
branch that is already there.  The outline of a listing leaves the distances of its
branches open, so that it only ever grows, and says all that matters here about each
instruction: its size, the local it reads, and whether its constants are known.
-/

namespace CallCode

/-- The instruction with the distances of its branches left open. -/
def Instruction.pending : Instruction → Instruction
  | ⟨.jump, .word _⟩ => ⟨.jump, .word pendingDistance⟩
  | ⟨opcode, .table _ cases⟩ =>
      ⟨opcode, .table pendingDistance (cases.map fun arm => ⟨arm.key, pendingDistance⟩)⟩
  | instruction => instruction

/-- The slot of the local that an instruction reads, or whose cell it reads. -/
def Instruction.slot? : Instruction → Option UInt16
  | ⟨.getLocal, .byte slot⟩ => some slot.toUInt16
  | ⟨.getLocalWide, .word slot⟩ => some slot
  | ⟨.getRef, .word slot⟩ => some slot
  | _ => none

/-- The instruction can be read back, and its constants are of the kinds that its
opcode expects, in every later pool that is not too large. -/
structure Instruction.Sound (instruction : Instruction) (pool : ConstantPool) : Prop where
  shaped : instruction.WellShaped
  known : ∀ larger, pool.Within larger → larger.size ≤ maxConstants →
    (instruction.operation? larger).isSome = true

theorem Instruction.Sound.later {instruction : Instruction} {pool larger : ConstantPool}
    (sound : instruction.Sound pool) (within : pool.Within larger) :
    instruction.Sound larger :=
  ⟨sound.shaped, fun final upper small => sound.known final (within.trans upper) small⟩

namespace Instruction

variable (instruction : Instruction)

@[simp]
theorem opcode_pending : instruction.pending.opcode = instruction.opcode := by
  unfold pending
  split <;> rfl

@[simp]
theorem size_pending : instruction.pending.size = instruction.size := by
  unfold pending
  split <;> simp [size, Operands.size]

@[simp]
theorem slot?_pending : instruction.pending.slot? = instruction.slot? := by
  unfold pending
  split
  · rfl
  · simp [slot?]
  · rfl

@[simp]
theorem wellShaped_pending : instruction.pending.WellShaped ↔ instruction.WellShaped := by
  unfold pending
  split
  · exact ⟨fun _ => ⟨rfl, trivial⟩, fun _ => ⟨rfl, trivial⟩⟩
  · constructor
    · intro shaped
      exact ⟨shaped.shape, by simpa [Operands.Countable] using shaped.countable⟩
    · intro shaped
      exact ⟨shaped.shape, by simpa [Operands.Countable] using shaped.countable⟩
  · rfl

@[simp]
theorem isSome_operation?_pending (pool : ConstantPool) :
    (instruction.pending.operation? pool).isSome = (instruction.operation? pool).isSome := by
  unfold pending
  split
  · rfl
  · simp only [operation?, List.length_map]
    split <;> rfl
  · rfl

@[simp]
theorem sound_pending (pool : ConstantPool) :
    instruction.pending.Sound pool ↔ instruction.Sound pool := by
  constructor
  · rintro ⟨shaped, known⟩
    exact ⟨by simpa using shaped, by simpa using known⟩
  · rintro ⟨shaped, known⟩
    exact ⟨by simpa using shaped, by simpa using known⟩

end Instruction

theorem map_modify_eq {Item Image : Type} {items : List Item} {position : Nat}
    {change : Item → Item} {view : Item → Image}
    (same : ∀ item, items[position]? = some item → view (change item) = view item) :
    (items.modify position change).map view = items.map view := by
  induction items generalizing position with
  | nil => simp
  | cons item items ih =>
      cases position with
      | zero => simp [same item rfl]
      | succ position => simp [ih fun other found => same other (by simpa using found)]

/-- A branch has the distance of a jump only if its instruction is one. -/
def Branch.Fits (branch : Branch) (instruction : Instruction) : Prop :=
  branch = .jump → instruction.opcode = .jump

theorem Branch.Fits.pending_setDistance {branch : Branch} {placed : Placed}
    (fits : branch.Fits placed.instruction) (distance : UInt16) :
    (placed.setDistance branch distance).instruction.pending =
      placed.instruction.pending := by
  obtain ⟨⟨opcode, operands⟩, line⟩ := placed
  cases operands with
  | word value =>
      cases branch with
      | jump =>
          obtain rfl : opcode = .jump := fits rfl
          rfl
      | fallback => rfl
      | case => rfl
  | table fallback cases =>
      cases branch with
      | jump => rfl
      | fallback => simp [Placed.setDistance, Operands.setDistance, Instruction.pending]
      | case position =>
          simp [Placed.setDistance, Operands.setDistance, Instruction.pending, map_modify_eq]
  | _ => cases branch <;> rfl

namespace Listing

/-- The instructions of a listing with the distances of all branches left open. -/
def outline (listing : Listing) : List Instruction :=
  listing.items.toList.map (·.instruction.pending)

@[simp]
theorem outline_push (listing : Listing) (line : UInt32) (instruction : Instruction) :
    (listing.push line instruction).outline = listing.outline ++ [instruction.pending] := by
  simp [outline]

theorem length_outline (listing : Listing) : listing.outline.length = listing.items.size := by
  simp [outline]

/-- The instruction that a label belongs to has the branch of the label. -/
def Awaits (listing : Listing) (label : Label) : Prop :=
  ∀ instruction, listing.outline[label.item]? = some instruction →
    label.branch.Fits instruction

/-- Resolving a label changes no more than a distance. -/
theorem outline_setDistance {listing : Listing} {label : Label}
    (awaits : listing.Awaits label) (distance : UInt16) :
    (listing.setDistance label distance).outline = listing.outline := by
  rw [outline, setDistance, Array.toList_modify]
  apply map_modify_eq
  intro placed found
  have fits := awaits placed.instruction.pending (by simp [outline, found])
  rw [Branch.Fits, Instruction.opcode_pending] at fits
  exact Branch.Fits.pending_setDistance fits distance

end Listing

namespace Assembler

/-- The code was extended by sound instructions that read the given locals in order,
and the pool kept what it had. -/
structure Extends (before after : Assembler) (slots : List UInt16) : Prop where
  within : before.pool.Within after.pool
  places : ∃ placed, after.listing.outline = before.listing.outline ++ placed ∧
    (∀ instruction ∈ placed, instruction.Sound after.pool) ∧
    placed.filterMap Instruction.slot? = slots

theorem Extends.refl (assembler : Assembler) : assembler.Extends assembler [] :=
  ⟨.refl assembler.pool, [], by simp, by simp, rfl⟩

theorem Extends.trans {first second third : Assembler} {slots further : List UInt16}
    (left : first.Extends second slots) (right : second.Extends third further) :
    first.Extends third (slots ++ further) := by
  obtain ⟨within, placed, outline, sound, reads⟩ := left
  obtain ⟨upper, morePlaced, moreOutline, moreSound, moreReads⟩ := right
  refine ⟨within.trans upper, placed ++ morePlaced, ?_, ?_, ?_⟩
  · rw [moreOutline, outline, List.append_assoc]
  · intro instruction member
    rcases List.mem_append.mp member with early | late
    · exact (sound instruction early).later upper
    · exact moreSound instruction late
  · rw [List.filterMap_append, reads, moreReads]

theorem extends_setLine (assembler : Assembler) (line : UInt32) :
    assembler.Extends (assembler.setLine line) [] :=
  ⟨.refl assembler.pool, [], by simp [setLine], by simp, rfl⟩

/-- Filling in the distance of a branch places nothing. -/
theorem extends_setDistance {assembler : Assembler} {label : Label}
    (awaits : assembler.listing.Awaits label) (distance : UInt16) :
    assembler.Extends (assembler.setDistance label distance) [] := by
  refine ⟨.refl assembler.pool, [], ?_, by simp, rfl⟩
  rw [List.append_nil]
  exact Listing.outline_setDistance awaits distance

/-- An instruction whose operation is known and whose operands have the shape of its
opcode is sound. -/
theorem extends_of_writes {before after : Assembler} {placed : Placed}
    {operation : Operation} (writes : before.Writes after [operation])
    (items : after.listing.items = before.listing.items.push placed)
    (shaped : placed.instruction.WellShaped) :
    before.Extends after placed.instruction.slot?.toList := by
  refine ⟨writes.within, [placed.instruction.pending], ?_, ?_, ?_⟩
  · simp [Listing.outline, items]
  · obtain ⟨others, appended, performs⟩ := writes.appends
    have same : others = [placed] := by
      rw [items, Array.toList_push] at appended
      exact (List.append_cancel_left appended).symm
    rw [List.forall_mem_singleton, Instruction.sound_pending]
    refine ⟨shaped, fun larger within small => ?_⟩
    have known := performs.performs larger within small
    rw [same] at known
    rcases known with _ | ⟨known, -⟩
    rw [known]
    rfl
  · cases found : placed.instruction.slot? <;> simp [found]

theorem extends_callSite (assembler : Assembler) (slot : UInt16) (count flags : UInt8) :
    assembler.Extends (assembler.callSite slot count flags) [] :=
  extends_of_writes (assembler.writes_callSite slot count flags) rfl ⟨rfl, trivial⟩

theorem extends_raiseFatal (assembler : Assembler) (message : String) :
    assembler.Extends (assembler.raiseFatal message) [] :=
  extends_of_writes (assembler.writes_raiseFatal message) rfl ⟨rfl, trivial⟩

/-! ## Branches -/

theorem extends_push {assembler : Assembler} {instruction : Instruction}
    (sound : instruction.Sound assembler.pool) :
    assembler.Extends
      { assembler with listing := assembler.listing.push assembler.line instruction }
      instruction.slot?.toList := by
  refine ⟨.refl assembler.pool, [instruction.pending], by simp, by simpa using sound, ?_⟩
  cases found : instruction.slot? <;> simp [found]

theorem extends_jump (assembler : Assembler) :
    assembler.Extends (assembler.jump .jump).2 [] :=
  extends_push ⟨⟨rfl, trivial⟩, fun _ _ _ => rfl⟩

/-- A switch can be read back if its cases can be counted. -/
theorem extends_lookupSwitch (assembler : Assembler) {keys : List Int32}
    (countable : keys.length < 65536) :
    assembler.Extends (assembler.lookupSwitch keys).2 [] := by
  refine extends_push ⟨⟨rfl, ?_⟩, fun larger _ _ => ?_⟩
  · simpa [Operands.Countable] using countable
  · simp [Instruction.operation?, countable]

/-- A pending jump stands where a label says. -/
def HasJump (assembler : Assembler) (label : Label) : Prop :=
  ∃ instruction, assembler.listing.outline[label.item]? = some instruction ∧
    instruction.opcode = .jump

theorem HasJump.awaits {assembler : Assembler} {label : Label}
    (jumps : assembler.HasJump label) : assembler.listing.Awaits label := by
  obtain ⟨instruction, found, isJump⟩ := jumps
  intro other here _
  cases found.symm.trans here
  exact isJump

theorem HasJump.later {before after : Assembler} {label : Label} {slots : List UInt16}
    (jumps : before.HasJump label) (further : before.Extends after slots) :
    after.HasJump label := by
  obtain ⟨instruction, found, isJump⟩ := jumps
  obtain ⟨placed, outline, -, -⟩ := further.places
  have inside := (List.getElem?_eq_some_iff.mp found).1
  exact ⟨instruction, by rw [outline, List.getElem?_append_left inside, found], isJump⟩

theorem hasJump_jump (assembler : Assembler) :
    (assembler.jump .jump).2.HasJump (assembler.jump .jump).1 := by
  refine ⟨⟨.jump, .word pendingDistance⟩, ?_, rfl⟩
  simp [jump, Listing.pushJump, ← Listing.length_outline, Instruction.pending]

/-- The branches of a switch are none of a jump. -/
theorem awaits_of_ne_jump (listing : Listing) {label : Label} (other : label.branch ≠ .jump) :
    listing.Awaits label :=
  fun _ _ same => absurd same other

theorem branch_ne_jump_of_cases {assembler : Assembler} {keys : List Int32} {label : Label}
    (member : label ∈ (assembler.lookupSwitch keys).1.cases) : label.branch ≠ .jump := by
  obtain ⟨position, -, rfl⟩ := List.mem_map.mp member
  exact Branch.noConfusion

end Assembler

end CallCode
