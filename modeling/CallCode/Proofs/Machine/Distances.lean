import CallCode.Proofs.Machine.Fields

/-!
# Distances in listings

A label leads to the distance of a branch in a listing.  Filling that distance in leaves
all other distances as they are, and whatever stands in the listing beside its distances;
in the assembled code it is the patch of two bytes, where the distance is read.
-/

namespace CallCode

namespace Operands

/-- The distance of a branch, if there is one in the operands. -/
def distanceAt? : Operands → Branch → Option UInt16
  | word distance, .jump => some distance
  | table fallback _, .fallback => some fallback
  | table _ cases, .case position => cases[position]?.map (·.distance)
  | _, _ => .none

/-- The operands with all distances pending; any single half word may be one. -/
def unresolved : Operands → Operands
  | word _ => word pendingDistance
  | table _ cases => table pendingDistance (cases.map fun arm => ⟨arm.key, pendingDistance⟩)
  | operands => operands

variable {operands : Operands} {branch : Branch} {distance : UInt16}

@[simp]
theorem size_unresolved (operands : Operands) : operands.unresolved.size = operands.size := by
  cases operands <;> simp [unresolved, size]

@[simp]
theorem isSome_distanceAt?_unresolved (operands : Operands) (branch : Branch) :
    (operands.unresolved.distanceAt? branch).isSome =
      (operands.distanceAt? branch).isSome := by
  cases operands <;> cases branch <;> simp [unresolved, distanceAt?]

@[simp]
theorem unresolved_setDistance (operands : Operands) (branch : Branch) (distance : UInt16) :
    (operands.setDistance branch distance).unresolved = operands.unresolved := by
  cases operands with
  | word value => cases branch <;> rfl
  | table fallback cases =>
      cases branch with
      | case position =>
          simp only [setDistance, unresolved, table.injEq, true_and]
          apply List.ext_getElem
          · simp
          · intro place _ _
            simp only [List.getElem_map, List.getElem_modify]
            split <;> rfl
      | _ => rfl
  | _ => cases branch <;> rfl

/-- Filling in a distance changes no other one. -/
theorem distanceAt?_setDistance (operands : Operands) (branch other : Branch)
    (distance : UInt16) :
    (operands.setDistance branch distance).distanceAt? other =
      if branch = other then (operands.distanceAt? other).map fun _ => distance
      else operands.distanceAt? other := by
  cases operands with
  | word value => cases branch <;> cases other <;> simp [setDistance, distanceAt?]
  | table fallback cases =>
      cases branch with
      | case position =>
          cases other with
          | case place =>
              by_cases same : position = place
              · subst same
                simp [setDistance, distanceAt?, Function.comp_def]
              · simp [setDistance, distanceAt?, same]
          | _ => simp [setDistance, distanceAt?]
      | _ => cases other <;> simp [setDistance, distanceAt?]
  | _ => cases branch <;> cases other <;> simp [setDistance, distanceAt?]

end Operands

/-- The number of bytes between the opcode of an instruction and the distance of a branch. -/
def Branch.skip : Branch → Nat
  | jump => 0
  | fallback => 2
  | case position => 8 + 6 * position

theorem exists_fields_of_case {cases : List SwitchCase} {position : Nat} {distance : UInt16}
    (found : cases[position]?.map (·.distance) = some distance) :
    ∃ passed rest, (cases.flatMap fun arm =>
        [OperandField.word arm.key.toUInt32, .half arm.distance]) =
          passed ++ .half distance :: rest ∧
      passed.length = 1 + 2 * position ∧
        (passed.flatMap OperandField.bytes).length = 4 + 6 * position := by
  induction cases generalizing position with
  | nil => simp at found
  | cons arm cases ih =>
      cases position with
      | zero =>
          obtain rfl : arm.distance = distance := by simpa using found
          exact ⟨[.word arm.key.toUInt32], _, rfl, rfl, rfl⟩
      | succ position =>
          obtain ⟨passed, rest, split, places, bytes⟩ := ih (by simpa using found)
          refine ⟨.word arm.key.toUInt32 :: .half arm.distance :: passed, rest, ?_, ?_, ?_⟩
          · simpa using split
          · simp only [List.length_cons, places]
            omega
          · simp only [List.flatMap_cons, List.length_append, bytes]
            simp only [OperandField.bytes, bytesOfUInt32, bytesOfUInt16, List.length_cons,
              List.length_nil]
            omega

/-- The distance of a branch is one of the fields of its operands. -/
theorem Operands.exists_fields_of_distanceAt? {operands : Operands} {branch : Branch}
    {distance : UInt16} (found : operands.distanceAt? branch = some distance) :
    operands.shape = branch.shape ∧ ∃ passed rest,
      operands.fields = passed ++ .half distance :: rest ∧ branch.place = passed.length ∧
        (passed.flatMap OperandField.bytes).length = branch.skip := by
  cases branch with
  | jump =>
      cases operands with
      | word value =>
          cases found
          exact ⟨rfl, [], [], rfl, rfl, rfl⟩
      | _ => cases found
  | fallback =>
      cases operands with
      | table fallback cases =>
          cases found
          exact ⟨rfl, [.half cases.length.toUInt16], _, rfl, rfl, rfl⟩
      | _ => cases found
  | case position =>
      cases operands with
      | table fallback cases =>
          obtain ⟨passed, rest, split, places, bytes⟩ := exists_fields_of_case found
          refine ⟨rfl, .half cases.length.toUInt16 :: .half fallback :: passed, rest, ?_, ?_, ?_⟩
          · simp [fields, split]
          · simp only [Branch.place, List.length_cons, places]
            omega
          · simp only [List.flatMap_cons, List.length_append, bytes, Branch.skip]
            simp only [OperandField.bytes, bytesOfUInt16, List.length_cons, List.length_nil]
            omega
      | _ => cases found

/-! ## Listings -/

/-- An instruction with all distances pending, on its line. -/
def Placed.unresolved (placed : Placed) : Placed :=
  ⟨⟨placed.instruction.opcode, placed.instruction.operands.unresolved⟩, placed.line⟩

@[simp]
theorem Placed.unresolved_setDistance (placed : Placed) (branch : Branch)
    (distance : UInt16) :
    (placed.setDistance branch distance).unresolved = placed.unresolved := by
  simp [unresolved, setDistance]

@[simp]
theorem Placed.size_unresolved (placed : Placed) :
    placed.unresolved.instruction.size = placed.instruction.size := by
  simp [unresolved, Instruction.size]

@[simp]
theorem codeSize_map_unresolved (placed : List Placed) :
    codeSize (placed.map Placed.unresolved) = codeSize placed := by
  induction placed with
  | nil => rfl
  | cons first rest ih => simp [ih]

namespace Listing

/-- What stands in a listing beside the distances of branches. -/
def unresolved (listing : Listing) : List Placed :=
  listing.items.toList.map Placed.unresolved

/-- The distance that stands where a label leads. -/
def distanceAt? (listing : Listing) (label : Label) : Option UInt16 :=
  listing.items[label.item]?.bind (·.instruction.operands.distanceAt? label.branch)

@[simp]
theorem unresolved_setDistance (listing : Listing) (label : Label) (distance : UInt16) :
    (listing.setDistance label distance).unresolved = listing.unresolved := by
  apply List.ext_getElem
  · simp [unresolved, setDistance]
  · intro place _ _
    simp only [unresolved, setDistance, List.getElem_map, Array.toList_modify,
      List.getElem_modify]
    split <;> simp

theorem codeSize_unresolved (listing : Listing) :
    codeSize listing.unresolved = listing.size := by
  rw [unresolved, codeSize_map_unresolved, size_eq_codeSize]

theorem distanceAt?_setDistance (listing : Listing) (label other : Label)
    (distance : UInt16) :
    (listing.setDistance label distance).distanceAt? other =
      if label.item = other.item ∧ label.branch = other.branch then
        (listing.distanceAt? other).map fun _ => distance
      else listing.distanceAt? other := by
  rw [distanceAt?, distanceAt?, setDistance, Array.getElem?_modify]
  by_cases same : label.item = other.item
  · rw [if_pos same]
    cases listing.items[other.item]? with
    | none => simp
    | some placed =>
        simp [same, Placed.setDistance, Operands.distanceAt?_setDistance]
  · rw [if_neg same, if_neg fun both => same both.1]

end Listing

/-! ## Labels -/

/-- A label leads to a distance of one of some instructions in a row. -/
def Label.LeadsInto (label : Label) (placed : List Placed) : Prop :=
  ∃ front item back, placed = front ++ item :: back ∧ label.item = front.length ∧
    (item.instruction.operands.distanceAt? label.branch).isSome = true ∧
      label.offset = codeSize front + 1 + label.branch.skip

namespace Label.LeadsInto

variable {label : Label} {listing : Listing} {placed : List Placed}

theorem append (leads : label.LeadsInto placed) (further : List Placed) :
    label.LeadsInto (placed ++ further) := by
  obtain ⟨front, item, back, rfl, among, some, offset⟩ := leads
  exact ⟨front, item, back ++ further, by simp, among, some, offset⟩

theorem item_lt (leads : label.LeadsInto placed) : label.item < placed.length := by
  obtain ⟨front, item, back, rfl, among, -, -⟩ := leads
  simp [among]

/-- The distance where a label leads is a field of its instruction. -/
theorem exists_fields (leads : label.LeadsInto listing.unresolved) :
    ∃ front item back distance passed rest,
      listing.items.toList = front ++ item :: back ∧ label.item = front.length ∧
        listing.distanceAt? label = some distance ∧
          item.instruction.operands.shape = label.branch.shape ∧
            item.instruction.operands.fields = passed ++ .half distance :: rest ∧
              label.branch.place = passed.length ∧
                label.offset =
                  codeSize front + 1 + (passed.flatMap OperandField.bytes).length := by
  obtain ⟨front, item, back, split, among, there, offset⟩ := leads
  obtain ⟨ahead, behind, items, rfl, others⟩ := List.map_eq_append_iff.mp split
  obtain ⟨actual, following, rfl, rfl, -⟩ := List.map_eq_cons_iff.mp others
  rw [Placed.unresolved, Operands.isSome_distanceAt?_unresolved] at there
  obtain ⟨distance, found⟩ := Option.isSome_iff_exists.mp there
  obtain ⟨fits, passed, rest, fields, place, bytes⟩ :=
    Operands.exists_fields_of_distanceAt? found
  rw [List.length_map] at among
  rw [codeSize_map_unresolved] at offset
  refine ⟨ahead, actual, following, distance, passed, rest, items, among, ?_, fits, fields,
    place, by rw [offset, bytes]⟩
  rw [Listing.distanceAt?, ← Array.getElem?_toList, items, among]
  simpa using found

/-- The distance is read where the label says. -/
theorem readUInt16 (leads : label.LeadsInto listing.unresolved) :
    listing.assemble.readUInt16 label.offset = listing.distanceAt? label := by
  obtain ⟨front, item, back, distance, passed, rest, items, -, found, -, fields, -, offset⟩ :=
    leads.exists_fields
  have bytes : listing.assemble.bytes.toList =
      (front.flatMap (·.instruction.encode) ++
          item.instruction.opcode.toByte :: passed.flatMap OperandField.bytes) ++
        bytesOfUInt16 distance ++
        (rest.flatMap OperandField.bytes ++ back.flatMap (·.instruction.encode)) := by
    simp [Listing.toList_bytes_assemble, items, Instruction.encode,
      ← Operands.flatMap_fields, fields, OperandField.bytes]
  have read := ObjectCode.readUInt16_of_holds (ObjectCode.holds_of_bytes_eq bytes)
  rw [List.length_append, List.length_cons, Listing.length_flatMap_encode, ← Nat.add_assoc,
    Nat.add_right_comm, ← offset] at read
  rw [read, found]

/-- Filling in the distance and patching its bytes come to the same. -/
theorem patchJump (leads : label.LeadsInto listing.unresolved) :
    listing.assemble.patchJump label.offset = (listing.distance label).map fun distance =>
      (listing.setDistance label distance).assemble := by
  obtain ⟨front, item, back, distance, passed, rest, items, among, -, fits, fields, place,
    offset⟩ := leads.exists_fields
  exact Listing.patchJump_assemble items fields rfl fits among place offset

/-- A distance ends within the code. -/
theorem offset_add_two_le (leads : label.LeadsInto listing.unresolved) :
    label.offset + 2 ≤ listing.size := by
  obtain ⟨distance, found⟩ : ∃ distance, listing.distanceAt? label = some distance := by
    obtain ⟨_, _, _, distance, _, _, -, -, found, -⟩ := leads.exists_fields
    exact ⟨distance, found⟩
  have read := leads.readUInt16
  rw [found] at read
  simp only [ObjectCode.readUInt16, Option.bind_eq_bind, Option.bind_eq_some_iff] at read
  obtain ⟨_, -, _, low, -⟩ := read
  have bound := (Array.getElem?_eq_some_iff.mp low).1
  rw [← Listing.size_assemble, ObjectCode.size]
  omega

end Label.LeadsInto

end CallCode
