import CallCode.Machine.ObjectCode

/-!
# Listings

A listing holds the instructions of a body while it is being lowered.  A branch
is placed with a pending distance and a label, and resolving the label fills in
the distance from the end of the branch operand to the current end of the code.
-/

namespace CallCode

/-- An instruction and the source line that it was placed on. -/
structure Placed where
  instruction : Instruction
  line : UInt32
  deriving DecidableEq, Repr

/-- Which distance of an instruction a branch uses. -/
inductive Branch
  | jump
  | fallback
  | case (position : Nat)
  deriving DecidableEq, Repr

/-- Write the distance of a branch into operands that have one. -/
def Operands.setDistance (operands : Operands) (branch : Branch)
    (distance : UInt16) : Operands :=
  match operands, branch with
  | .word _, .jump => .word distance
  | .table _ cases, .fallback => .table distance cases
  | .table fallback cases, .case position =>
      .table fallback (cases.modify position fun arm => { arm with distance })
  | _, _ => operands

@[simp]
theorem Operands.size_setDistance (operands : Operands) (branch : Branch)
    (distance : UInt16) :
    (operands.setDistance branch distance).size = operands.size := by
  unfold Operands.setDistance
  split <;> simp [Operands.size]

/-- Write the distance of a branch into an instruction. -/
def Placed.setDistance (branch : Branch) (distance : UInt16) (placed : Placed) :
    Placed :=
  { placed with
    instruction :=
      ⟨placed.instruction.opcode,
        placed.instruction.operands.setDistance branch distance⟩ }

@[simp]
theorem Placed.size_setDistance (branch : Branch) (distance : UInt16)
    (placed : Placed) :
    (placed.setDistance branch distance).instruction.size =
      placed.instruction.size := by
  simp [Placed.setDistance, Instruction.size]

/-- A pending branch: the instruction it belongs to, its place in it, and the
byte offset of its distance. -/
structure Label where
  item : Nat
  branch : Branch
  offset : Nat
  deriving DecidableEq, Repr

/-- The pending branches of a switch, its cases in the order of their keys. -/
structure SwitchLabels where
  fallback : Label
  cases : List Label
  deriving Repr

-- the zero of a sum is the numeral, whatever algebra on numbers is imported
attribute [local instance (high)] Zero.ofOfNat0

/-- Instructions in order, with the number of bytes that they take. -/
structure Listing where
  items : Array Placed := #[]
  size : Nat := 0
  size_eq : size = (items.toList.map (·.instruction.size)).sum := by rfl

namespace Listing

/-- Place an instruction at the end. -/
def push (listing : Listing) (line : UInt32) (instruction : Instruction) :
    Listing where
  items := listing.items.push ⟨instruction, line⟩
  size := listing.size + instruction.size
  size_eq := by simp [listing.size_eq]

/-- Place a branch that waits for its target. -/
def pushJump (listing : Listing) (line : UInt32) (opcode : Opcode) :
    Listing × Label :=
  (listing.push line ⟨opcode, .word pendingDistance⟩,
    ⟨listing.items.size, .jump, listing.size + 1⟩)

/-- Place a switch over `keys` whose branches all wait for their targets. -/
def pushSwitch (listing : Listing) (line : UInt32) (keys : List Int32) :
    Listing × SwitchLabels :=
  let item := listing.items.size
  (listing.push line
      ⟨.lookupSwitch, .table pendingDistance (keys.map (⟨·, pendingDistance⟩))⟩,
    { fallback := ⟨item, .fallback, listing.size + 3⟩
      cases := (List.range keys.length).map fun position =>
        ⟨item, .case position, listing.size + 9 + 6 * position⟩ })

theorem sum_size_modify (items : List Placed) (item : Nat) (branch : Branch)
    (distance : UInt16) :
    ((items.modify item (Placed.setDistance branch distance)).map
        (·.instruction.size)).sum = (items.map (·.instruction.size)).sum := by
  induction items generalizing item with
  | nil => simp
  | cons placed items ih =>
      cases item with
      | zero => simp
      | succ item => simp [ih]

/-- The distance from a pending branch to the current end of the code. -/
def distance (listing : Listing) (label : Label) : Except JumpTooFar UInt16 :=
  branchDistance (listing.size - label.offset - 2)

/-- Fill in the distance of a branch. -/
def setDistance (listing : Listing) (label : Label) (distance : UInt16) :
    Listing where
  items := listing.items.modify label.item (.setDistance label.branch distance)
  size := listing.size
  size_eq := by rw [Array.toList_modify, sum_size_modify, listing.size_eq]

/-- The bytes of the instructions, each on the line of its instruction. -/
def assemble (listing : Listing) : ObjectCode :=
  listing.items.foldl
    (fun code placed => code.writeInstruction placed.line placed.instruction) {}

@[simp]
theorem items_push (listing : Listing) (line : UInt32) (instruction : Instruction) :
    (listing.push line instruction).items = listing.items.push ⟨instruction, line⟩ :=
  rfl

end Listing

end CallCode
