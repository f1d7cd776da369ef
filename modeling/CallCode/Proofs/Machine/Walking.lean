import CallCode.Proofs.Machine.Decoding

/-!
# Walking over code

Reading code from an offset on goes from one placed instruction to the next, and
visits no other offset.
-/

namespace CallCode

/-- The offsets of some instructions in a row, the first of which stands at
`offset`. -/
def startsFrom : Nat → List Placed → List Nat
  | _, [] => []
  | offset, placed :: rest =>
      offset :: startsFrom (offset + placed.instruction.size) rest

namespace ObjectCode

/-- The instructions that reading meets from an offset on. -/
def instructionsFrom (code : ObjectCode) (offset : Nat) : List Instruction :=
  (code.walkFrom offset #[]).toList.filterMap code.instructionAt

variable {code : ObjectCode}

theorem length_of_readCases {offset count : Nat} {cases : List SwitchCase}
    (read : code.readCases offset count = some cases) : cases.length = count := by
  induction count generalizing offset cases with
  | zero =>
      cases read
      rfl
  | succ count ih =>
      simp only [readCases, Option.bind_eq_bind, Option.bind_eq_some_iff] at read
      obtain ⟨key, -, distance, -, rest, following, equal⟩ := read
      cases equal
      rw [List.length_cons, ih following]

theorem size_of_readOperands {opcode : Opcode} {offset : Nat} {operands : Operands}
    (plain : opcode ≠ .lookupSwitch)
    (read : code.readOperands offset opcode.shape = some operands) :
    operands.size = opcode.operandSize := by
  have filled : operands.shape = opcode.shape := by
    cases shape : opcode.shape <;>
      (simp only [shape, readOperands, Option.bind_eq_bind, Option.bind_eq_some_iff,
        Option.pure_def, Option.some.injEq] at read
       grind [Operands.shape])
  cases operands <;> cases opcode <;>
    first | rfl | exact absurd rfl plain | cases filled

theorem instructionLength_of_instructionAt {offset : Nat} {instruction : Instruction}
    (found : code.instructionAt offset = some instruction) :
    code.instructionLength offset = some instruction.size := by
  simp only [instructionAt, Option.bind_eq_bind, Option.bind_eq_some_iff, Option.pure_def,
    Option.some.injEq] at found
  obtain ⟨opcode, readOpcode, operands, readOperands, rfl⟩ := found
  by_cases isSwitch : opcode = .lookupSwitch
  · subst isSwitch
    simp only [Opcode.shape, ObjectCode.readOperands, Option.bind_eq_bind,
      Option.bind_eq_some_iff, Option.pure_def, Option.some.injEq] at readOperands
    obtain ⟨count, readCount, fallback, -, cases, readCases, rfl⟩ := readOperands
    have counted := length_of_readCases readCases
    simp only [instructionLength, readOpcode, readCount, Option.bind_eq_bind,
      Option.bind_some, if_true, Option.pure_def, Option.some.injEq, Instruction.size,
      Operands.size, counted]
    omega
  · have size := size_of_readOperands isSwitch readOperands
    simp only [instructionLength, readOpcode, isSwitch, Option.bind_eq_bind,
      Option.bind_some, if_false, Option.pure_def, Instruction.size, size]

/-- Reading goes on behind the instruction at an offset. -/
theorem stride_of_instructionAt {offset : Nat} {instruction : Instruction}
    (found : code.instructionAt offset = some instruction) :
    code.stride offset = instruction.size := by
  rw [stride, instructionLength_of_instructionAt found, Option.getD_some]

/-- Reading visits exactly the offsets of the instructions up to the end of the
code. -/
theorem toList_walkFrom {offset : Nat} {placed : List Placed}
    (located : code.Located offset placed) (ends : offset + codeSize placed = code.size)
    (visited : Array Nat) :
    (code.walkFrom offset visited).toList = visited.toList ++ startsFrom offset placed := by
  induction placed generalizing offset visited with
  | nil =>
      rw [codeSize_nil] at ends
      rw [walkFrom, if_neg (by omega)]
      simp [startsFrom]
  | cons first rest ih =>
      obtain ⟨here, following⟩ := located
      have advances := first.instruction.size_pos
      rw [codeSize_cons] at ends
      rw [walkFrom, if_pos (by omega), stride_of_instructionAt here,
        ih following (by omega) (visited.push offset)]
      simp [startsFrom]

theorem filterMap_startsFrom {offset : Nat} {placed : List Placed}
    (located : code.Located offset placed) :
    (startsFrom offset placed).filterMap code.instructionAt =
      placed.map (·.instruction) := by
  induction placed generalizing offset with
  | nil => rfl
  | cons first rest ih =>
      obtain ⟨here, following⟩ := located
      rw [startsFrom, List.filterMap_cons_some here, ih following, List.map_cons]

theorem exists_of_mem_startsFrom {start offset : Nat} {placed : List Placed}
    (located : code.Located start placed) (member : offset ∈ startsFrom start placed) :
    ∃ item ∈ placed, code.instructionAt offset = some item.instruction := by
  induction placed generalizing start with
  | nil => cases member
  | cons first rest ih =>
      obtain ⟨here, following⟩ := located
      rcases List.mem_cons.mp member with rfl | later
      · exact ⟨first, List.mem_cons_self, here⟩
      · obtain ⟨item, among, found⟩ := ih following later
        exact ⟨item, List.mem_cons_of_mem first among, found⟩

/-- Reading meets exactly the instructions that stand up to the end of the code. -/
theorem instructionsFrom_eq {offset : Nat} {placed : List Placed}
    (located : code.Located offset placed) (ends : offset + codeSize placed = code.size) :
    code.instructionsFrom offset = placed.map (·.instruction) := by
  rw [instructionsFrom, toList_walkFrom located ends, List.nil_append,
    filterMap_startsFrom located]

end ObjectCode

/-- Reading from behind the first instructions of a listing on meets the others. -/
theorem Listing.instructionsFrom_codeSize {listing : Listing} {front placed : List Placed}
    (items : listing.items.toList = front ++ placed)
    (shaped : ∀ item ∈ placed, item.instruction.WellShaped) :
    listing.assemble.instructionsFrom (codeSize front) = placed.map (·.instruction) := by
  have located := located_assemble (by rw [items, List.append_nil]) shaped
  apply ObjectCode.instructionsFrom_eq located
  rw [size_assemble, size_eq_codeSize, items, codeSize_append]

end CallCode
