import CallCode.Proofs.Machine.Emissions

/-!
# Emitted code

Labels can be resolved at any point after they were given out.  Whatever is called, the
finished code is read back as the instructions that were emitted: their opcodes, the
places where they start, their operands up to the distances of branches, and the lines
they were placed on.
-/

namespace CallCode

/-! ## Calls -/

/-- A call of the assembler.  Labels are numbered in the order in which they are given
out, those of a switch starting with its default branch. -/
inductive AssemblerCall
  | setLine (line : UInt32)
  | emit (emit : Emit)
  | patch (label : Nat)

/-- An assembler with a record of what was called: the line that was set last, the bytes
as they were written and patched one after another, the emissions, and the labels that
were given out. -/
structure Workbench where
  assembler : Assembler
  line : UInt32 := 1
  written : ObjectCode := {}
  emissions : List Emission := []
  labels : List Label := []

-- the zero of a sum is the numeral, whatever algebra on numbers is imported
attribute [local instance (high)] Zero.ofOfNat0

theorem Listing.size_eq_empty :
    0 = ((#[] : Array Placed).toList.map (·.instruction.size)).sum := rfl

namespace Workbench

/-- Nothing was called yet; the pool may have constants of other bodies. -/
def start (pool : ConstantPool) : Workbench where
  assembler := { pool, listing := { size_eq := Listing.size_eq_empty } }

def emit (bench : Workbench) (emit : Emit) : Workbench :=
  let emission := emit.emission bench.assembler.pool bench.line
  let (labels, assembler) := emit.run bench.assembler
  { assembler
    line := bench.line
    written := bench.written.write emission.line emission.bytes
    emissions := bench.emissions ++ [emission]
    labels := bench.labels ++ labels }

/-- Make a call, unless its label was not given out or its branch is too long. -/
def call (bench : Workbench) : AssemblerCall → Option Workbench
  | .setLine line => some { bench with assembler := bench.assembler.setLine line, line }
  | .emit emit => some (bench.emit emit)
  | .patch position => do
      let label ← bench.labels[position]?
      let assembler ← (bench.assembler.resolve label).toOption
      let written ← (bench.written.patchJump label.offset).toOption
      return { bench with assembler, written }

def callAll (bench : Workbench) (calls : List AssemblerCall) : Option Workbench :=
  calls.foldlM call bench

/-- The code of the body as it is finished. -/
def code (bench : Workbench) : ObjectCode := bench.assembler.listing.assemble

end Workbench

/-! ## What stands in the listing -/

/-- An instruction of a listing is what was emitted, up to distances. -/
structure Placed.Realizes (item : Placed) (emission : Emission) : Prop where
  opcode : item.instruction.opcode = emission.opcode
  shaped : item.instruction.WellShaped
  fields : List.Forall₂ OperandField.Fills item.instruction.operands.fields emission.fields
  line : item.line = emission.line

theorem Placed.Realizes.size_eq {item : Placed} {emission : Emission}
    (realizes : item.Realizes emission) : item.instruction.size = emission.size := by
  rw [← Instruction.length_encode, Instruction.encode, ← Operands.flatMap_fields,
    List.length_cons, OperandField.length_flatMap_bytes realizes.fields]
  rfl

theorem codeSize_of_realizes {items : List Placed} {emissions : List Emission}
    (realized : List.Forall₂ Placed.Realizes items emissions) :
    codeSize items = (emissions.flatMap Emission.bytes).length := by
  induction realized with
  | nil => rfl
  | cons first _ ih =>
      rw [codeSize_cons, List.flatMap_cons, List.length_append, ih, first.size_eq]
      rfl

theorem exists_of_forall₂_append_cons {First Second : Type} {Related : First → Second → Prop}
    {all : List First} {front back : List Second} {middle : Second}
    (related : List.Forall₂ Related all (front ++ middle :: back)) :
    ∃ ahead item behind, all = ahead ++ item :: behind ∧ List.Forall₂ Related ahead front ∧
      Related item middle ∧ List.Forall₂ Related behind back := by
  have ahead := List.forall₂_take_append _ _ _ related
  have behind := List.forall₂_drop_append _ _ _ related
  obtain ⟨item, rest, here, following, split⟩ := List.forall₂_cons_right_iff.mp behind
  refine ⟨_, item, rest, ?_, ahead, here, following⟩
  rw [← split, List.take_append_drop]

/-- Resolving a label is patching the assembled code, and changes nothing but a
distance. -/
theorem Label.LeadsAmong.resolve {listing : Listing} {emissions : List Emission}
    {label : Label} (leads : label.LeadsAmong emissions)
    (realized : List.Forall₂ Placed.Realizes listing.items.toList emissions) :
    listing.assemble.patchJump label.offset =
        (listing.distance label).map (fun distance =>
          (listing.setDistance label distance).assemble) ∧
      ∀ distance, List.Forall₂ Placed.Realizes
        (listing.setDistance label distance).items.toList emissions := by
  obtain ⟨front, emission, back, passed, rest, rfl, there⟩ := leads
  obtain ⟨ahead, item, behind, items, before, realizes, after⟩ :=
    exists_of_forall₂_append_cons realized
  -- the same place is found twice: the instruction among others, the distance in it
  have filled := realizes.fields
  rw [there.fields] at filled
  obtain ⟨skipped, actual, others, fields, same, fills, following⟩ :=
    exists_of_forall₂_append_cons filled
  have fits : item.instruction.operands.shape = label.branch.shape := by
    rw [realizes.shaped.shape, realizes.opcode, there.shape]
  have among : label.item = ahead.length := by rw [there.item, before.length_eq]
  have place : label.branch.place = skipped.length := by rw [there.place, same.length_eq]
  constructor
  · obtain ⟨value, two⟩ := fills.distance_bytes
    apply Listing.patchJump_assemble items fields two fits among place
    rw [there.offset, codeSize_of_realizes before, OperandField.length_flatMap_bytes same]
  · intro distance
    rw [Listing.items_setDistance items among]
    refine List.rel_append before (.cons ?_ after)
    refine ⟨realizes.opcode, realizes.shaped.setDistance _ _, ?_, realizes.line⟩
    rw [there.fields, Placed.setDistance, Operands.fields_setDistance fits, fields, place]
    simpa using List.rel_append same (.cons (.filled distance) following)

/-! ## Runs -/

/-- The listing realizes what was emitted, and assembles to the bytes that were written;
every label that was given out leads to a distance. -/
structure Workbench.Faithful (bench : Workbench) : Prop where
  line : bench.assembler.line = bench.line
  realized : List.Forall₂ Placed.Realizes bench.assembler.listing.items.toList bench.emissions
  leads : ∀ label ∈ bench.labels, label.LeadsAmong bench.emissions
  written : bench.written = bench.code

namespace Workbench

theorem faithful_start (pool : ConstantPool) : (start pool).Faithful where
  line := rfl
  realized := .nil
  leads := by simp [start]
  written := rfl

theorem Faithful.emit {bench : Workbench} (faithful : bench.Faithful) (emit : Emit) :
    (bench.emit emit).Faithful := by
  obtain ⟨operands, placed, fields, shaped, line⟩ := emit.emits_run bench.assembler
  constructor
  · exact line.trans faithful.line
  · have filled : List.Forall₂ OperandField.Fills operands.fields
        (emit.content bench.assembler.pool).2 := by
      rw [fields]
      exact OperandField.forall₂_fills_pending _
    have last : Placed.Realizes ⟨⟨_, operands⟩, bench.assembler.line⟩
        (emit.emission bench.assembler.pool bench.line) :=
      ⟨rfl, shaped, filled, faithful.line⟩
    rw [Workbench.emit, placed, Listing.items_push, Array.toList_push]
    exact List.rel_append faithful.realized (.cons last .nil)
  · intro label given
    rcases List.mem_append.mp given with earlier | new
    · exact (faithful.leads label earlier).append _
    · have count : bench.assembler.listing.items.size = bench.emissions.length := by
        simpa using faithful.realized.length_eq
      have size : bench.assembler.listing.size =
          (bench.emissions.flatMap Emission.bytes).length := by
        rw [Listing.size_eq_codeSize, codeSize_of_realizes faithful.realized]
      obtain ⟨passed, rest, there⟩ := Emit.leadsTo_of_mem_run count size new bench.line
      exact ⟨bench.emissions, _, [], passed, rest, rfl, there⟩
  · have bytes : Instruction.encode ⟨(emit.content bench.assembler.pool).1, operands⟩ =
        (emit.emission bench.assembler.pool bench.line).bytes := by
      simp [Instruction.encode, ← Operands.flatMap_fields, fields, Emission.bytes,
        Emit.emission, List.flatMap_map]
    rw [code, Workbench.emit, placed, Listing.assemble_push, ObjectCode.writeInstruction,
      bytes, faithful.line, ← code, ← faithful.written]
    rfl

theorem Faithful.patch {bench after : Workbench} (faithful : bench.Faithful)
    {position : Nat} (patched : bench.call (.patch position) = some after) :
    after.Faithful := by
  simp only [call, Option.bind_eq_bind, Option.bind_eq_some_iff, Option.pure_def,
    Option.some.injEq] at patched
  obtain ⟨label, given, assembler, resolved, written, rewritten, rfl⟩ := patched
  have leads := faithful.leads label (List.mem_of_getElem? given)
  obtain ⟨patches, realized⟩ := leads.resolve faithful.realized
  -- the listing and the bytes measure the same distance, so they fail alike
  rw [faithful.written, code, patches] at rewritten
  rw [Assembler.resolve] at resolved
  cases measured : bench.assembler.listing.distance label with
  | error failure =>
      rw [measured] at resolved
      cases resolved
  | ok distance =>
      rw [measured] at resolved rewritten
      cases resolved
      cases rewritten
      exact ⟨faithful.line, realized distance, faithful.leads, rfl⟩

theorem Faithful.call {bench after : Workbench} (faithful : bench.Faithful)
    {call : AssemblerCall} (done : bench.call call = some after) : after.Faithful := by
  cases call with
  | setLine line =>
      cases done
      exact ⟨rfl, faithful.realized, faithful.leads, faithful.written⟩
  | emit emit =>
      cases done
      exact faithful.emit emit
  | patch position => exact faithful.patch done

theorem Faithful.callAll {bench after : Workbench} (faithful : bench.Faithful)
    {calls : List AssemblerCall} (done : bench.callAll calls = some after) :
    after.Faithful := by
  induction calls generalizing bench with
  | nil =>
      cases done
      exact faithful
  | cons first rest ih =>
      obtain ⟨middle, called, done⟩ := Option.bind_eq_some_iff.mp done
      exact ih (faithful.call called) done

end Workbench

/-! ## Reading -/

namespace ObjectCode

/-- Reading finds an emission at an offset. -/
structure HasEmission (code : ObjectCode) (offset : Nat) (emission : Emission) : Prop where
  opcode : code.readOpcode offset = some emission.opcode
  length : code.instructionLength offset = some emission.size
  fields : code.HasFields (offset + 1) emission.fields
  lines : ∀ place < emission.size, code.lineAt (offset + place) = some emission.line

/-- Reading finds some emissions in a row from an offset up to the end of the code. -/
def HasEmissions (code : ObjectCode) : Nat → List Emission → Prop
  | offset, [] => offset = code.size
  | offset, emission :: rest =>
      code.HasEmission offset emission ∧ code.HasEmissions (offset + emission.size) rest

theorem filterMap_opcodeAt_starts {code : ObjectCode} {offset : Nat}
    {emissions : List Emission} (has : code.HasEmissions offset emissions) :
    (Emission.starts offset emissions).filterMap code.opcodeAt =
      emissions.map (·.opcode) := by
  induction emissions generalizing offset with
  | nil => rfl
  | cons emission rest ih =>
      have first : code.opcodeAt offset = some emission.opcode := by
        simp [opcodeAt, has.1.length, has.1.opcode]
      rw [Emission.starts, List.filterMap_cons_some first, ih has.2, List.map_cons]

end ObjectCode

section Reading

variable {items : List Placed} {emissions : List Emission}

theorem startsFrom_of_realizes (realized : List.Forall₂ Placed.Realizes items emissions)
    (offset : Nat) : startsFrom offset items = Emission.starts offset emissions := by
  induction realized generalizing offset with
  | nil => rfl
  | cons first _ ih => rw [startsFrom, Emission.starts, first.size_eq, ih]

theorem wellShaped_of_realizes (realized : List.Forall₂ Placed.Realizes items emissions) :
    ∀ item ∈ items, item.instruction.WellShaped := by
  induction realized with
  | nil => simp
  | cons first _ ih => exact List.forall_mem_cons.mpr ⟨first.shaped, ih⟩

theorem toList_walk_assemble {listing : Listing}
    (realized : List.Forall₂ Placed.Realizes listing.items.toList emissions) :
    listing.assemble.walk.toList = Emission.starts 0 emissions := by
  have items : listing.items.toList = [] ++ listing.items.toList ++ [] := by simp
  have located := Listing.located_assemble items (wellShaped_of_realizes realized)
  have ends : 0 + codeSize listing.items.toList = listing.assemble.size := by
    rw [Nat.zero_add, Listing.size_assemble, Listing.size_eq_codeSize]
  calc listing.assemble.walk.toList = [] ++ startsFrom 0 listing.items.toList :=
        ObjectCode.toList_walkFrom located ends #[]
    _ = Emission.starts 0 emissions := startsFrom_of_realizes realized 0

theorem Placed.Realizes.hasEmission {code : ObjectCode} {item : Placed} {emission : Emission}
    (realizes : item.Realizes emission) {front back : List UInt8} {before after : List UInt32}
    (bytes : code.bytes.toList = front ++ item.instruction.encode ++ back)
    (lines : code.lines.toList =
      before ++ List.replicate item.instruction.size item.line ++ after)
    (beside : before.length = front.length) :
    code.HasEmission front.length emission := by
  have holds := ObjectCode.holds_of_bytes_eq bytes
  have here := ObjectCode.instructionAt_of_holds realizes.shaped holds
  have length := ObjectCode.instructionLength_of_instructionAt here
  constructor
  · rw [ObjectCode.readOpcode, holds.1, Option.bind_some, Opcode.ofByte?_toByte,
      realizes.opcode]
  · rw [length, realizes.size_eq]
  · have operands := holds.2
    rw [← Operands.flatMap_fields] at operands
    exact ObjectCode.hasFields_of_holds realizes.fields operands
  · intro place inside
    rw [← realizes.size_eq] at inside
    have within : place < (List.replicate item.instruction.size item.line).length := by
      simpa using inside
    rw [ObjectCode.lineAt, ← Array.getElem?_toList, lines, ← beside, List.append_assoc,
      List.getElem?_append_right (Nat.le_add_right _ _), Nat.add_sub_cancel_left,
      List.getElem?_append_left within, List.getElem?_replicate, if_pos inside,
      realizes.line]

theorem hasEmissions_assemble {listing : Listing} {front : List Placed}
    (split : listing.items.toList = front ++ items)
    (realized : List.Forall₂ Placed.Realizes items emissions) :
    listing.assemble.HasEmissions (codeSize front) emissions := by
  induction realized generalizing front with
  | nil =>
      rw [List.append_nil] at split
      rw [ObjectCode.HasEmissions, Listing.size_assemble, Listing.size_eq_codeSize, split]
  | @cons item emission rest emissions first _ ih =>
      have bytes : listing.assemble.bytes.toList =
          front.flatMap (·.instruction.encode) ++ item.instruction.encode ++
            rest.flatMap (·.instruction.encode) := by
        simp [Listing.toList_bytes_assemble, split]
      have lines : listing.assemble.lines.toList =
          (front.flatMap fun item => List.replicate item.instruction.size item.line) ++
              List.replicate item.instruction.size item.line ++
            rest.flatMap fun item => List.replicate item.instruction.size item.line := by
        simp [Listing.toList_lines_assemble, split]
      have beside : (front.flatMap fun item =>
            List.replicate item.instruction.size item.line).length =
          (front.flatMap (·.instruction.encode)).length := by
        simp [List.length_flatMap, Instruction.length_encode]
      have here := first.hasEmission bytes lines beside
      have following := @ih (front ++ [item]) (by simpa using split)
      rw [Listing.length_flatMap_encode] at here
      rw [codeSize_append, codeSize_cons, codeSize_nil, Nat.add_zero,
        first.size_eq] at following
      exact ⟨here, following⟩

end Reading

namespace Workbench

/-- Decoding undoes encoding: after any calls, the finished code has the bytes that were
written and patched, and reading it finds exactly what was emitted. -/
theorem reads_back_of_callAll {pool : ConstantPool} {calls : List AssemblerCall}
    {bench : Workbench} (done : (start pool).callAll calls = some bench) :
    bench.written = bench.code ∧
      bench.code.opcodes.toList = bench.emissions.map (·.opcode) ∧
        bench.code.walk.toList = Emission.starts 0 bench.emissions ∧
          bench.code.HasEmissions 0 bench.emissions := by
  have faithful := (faithful_start pool).callAll done
  have has : bench.code.HasEmissions 0 bench.emissions :=
    hasEmissions_assemble (List.nil_append _).symm faithful.realized
  have walks : bench.code.walk.toList = Emission.starts 0 bench.emissions :=
    toList_walk_assemble faithful.realized
  have opcodes : bench.code.opcodes.toList = bench.emissions.map (·.opcode) := by
    rw [ObjectCode.opcodes, Array.toList_filterMap, walks,
      ObjectCode.filterMap_opcodeAt_starts has]
  exact ⟨faithful.written, opcodes, walks, has⟩

/-- Calls that patch a switch and a jump out of order, one branch of the switch twice, and
change the line in between. -/
def switchCalls : List AssemblerCall :=
  [.setLine 7, .emit (.lookupSwitch [3, -1] (by decide)), .emit (.jump .jump rfl), .setLine 9,
    .patch 1, .emit (.getLocal 300), .patch 0, .patch 3, .emit (.callSite 256 2 1), .patch 2,
    .patch 0]

theorem reads_back_switchCalls :
    ∃ bench, (start {}).callAll switchCalls = some bench ∧ bench.written = bench.code ∧
      bench.code.opcodes.toList = [.lookupSwitch, .jump, .getLocalWide, .callSite] ∧
        bench.code.walk.toList = [0, 17, 20, 23] ∧
          bench.code.HasEmissions 0 bench.emissions := by
  have runs : ((start {}).callAll switchCalls).isSome = true := rfl
  obtain ⟨bench, done⟩ := Option.isSome_iff_exists.mp runs
  have emitted : ((start {}).callAll switchCalls).map (·.emissions) = some
      [⟨.lookupSwitch,
          [.half 2, .distance, .word 3, .distance, .word 0xffffffff, .distance], 7⟩,
        ⟨.jump, [.distance], 7⟩, ⟨.getLocalWide, [.half 300], 9⟩,
        ⟨.callSite, [.half 256, .byte 2, .byte 1], 9⟩] := by
    rfl
  rw [done, Option.map_some, Option.some.injEq] at emitted
  obtain ⟨written, opcodes, walks, has⟩ := reads_back_of_callAll done
  refine ⟨bench, done, written, ?_, ?_, has⟩
  · rw [opcodes, emitted]
    rfl
  · rw [walks, emitted]
    rfl

end Workbench

end CallCode
