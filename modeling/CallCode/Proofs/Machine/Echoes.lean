import CallCode.Proofs.ConstantIndices

/-!
# Code that is written again

A call of the assembler that is made again, where the pool has all of its constants, adds
none and places the same instruction.  So the second code keeps in step with the first one,
up to the slots of call sites, which are handed out elsewhere.
-/

namespace CallCode

/-- A constant that is added again, to a pool that has grown, has its old index, and the
pool stays as it is. -/
theorem ConstantPool.add_again {pool larger : ConstantPool} {constant : Constant}
    (within : (pool.add constant).2.Within larger) :
    larger.add constant = ((pool.add constant).1, larger) :=
  add_of_get? (within.get? (pool.get?_add constant))

/-! ## Items in step -/

/-- Two items that are the same, or two call sites that differ in related slots. -/
inductive Placed.Echoes (related : UInt16 → UInt16 → Prop) : Placed → Placed → Prop
  | same {placed : Placed} : placed.instruction.site? = none → Echoes related placed placed
  | site {slot other : UInt16} (count flags : UInt8) (line : UInt32) : related slot other →
      Echoes related ⟨⟨.callSite, .site slot count flags⟩, line⟩
        ⟨⟨.callSite, .site other count flags⟩, line⟩

/-- Two assemblers have placed items in step, and are on the same line. -/
structure Assembler.Echoes (related : UInt16 → UInt16 → Prop) (first second : Assembler) :
    Prop where
  line : second.line = first.line
  items : List.Forall₂ (Placed.Echoes related) first.listing.items.toList
    second.listing.items.toList

section Echoes

variable {related : UInt16 → UInt16 → Prop}

namespace Placed.Echoes

variable {placed other : Placed}

theorem size_eq (echoes : placed.Echoes related other) :
    other.instruction.size = placed.instruction.size := by
  cases echoes <;> rfl

theorem line_eq (echoes : placed.Echoes related other) : other.line = placed.line := by
  cases echoes <;> rfl

/-- A call site has no distance that could be filled in. -/
theorem setDistance (echoes : placed.Echoes related other) (branch : Branch)
    (distance : UInt16) :
    (placed.setDistance branch distance).Echoes related (other.setDistance branch distance) := by
  cases echoes with
  | same silent => exact .same ((Listing.site?_setDistance _ _ _).trans silent)
  | site count flags line slots => cases branch <;> exact .site count flags line slots

end Placed.Echoes

theorem forall₂_modify {Item Other : Type} {relation : Item → Other → Prop} {items : List Item}
    {others : List Other} {change : Item → Item} {otherChange : Other → Other}
    (kept : ∀ item other, relation item other → relation (change item) (otherChange other))
    (related : List.Forall₂ relation items others) (position : Nat) :
    List.Forall₂ relation (items.modify position change)
      (others.modify position otherChange) := by
  induction related generalizing position with
  | nil => simp
  | cons first rest ih =>
      cases position with
      | zero => simpa using ⟨kept _ _ first, rest⟩
      | succ position => simpa using ⟨first, ih position⟩

namespace Assembler.Echoes

variable {first second : Assembler}

theorem count_eq (echoes : first.Echoes related second) :
    second.listing.items.size = first.listing.items.size := by
  simpa using echoes.items.length_eq.symm

theorem size_eq (echoes : first.Echoes related second) :
    second.listing.size = first.listing.size := by
  rw [second.listing.size_eq, first.listing.size_eq]
  have sizes : List.Forall₂ (fun placed other => other.instruction.size = placed.instruction.size)
      first.listing.items.toList second.listing.items.toList :=
    echoes.items.imp fun _ _ same => same.size_eq
  generalize first.listing.items.toList = items at sizes
  generalize second.listing.items.toList = others at sizes
  induction sizes with
  | nil => rfl
  | cons same _ ih => simp [same, ih]

theorem push {item other : Placed} (echoes : first.Echoes related second)
    (items : List.Forall₂ (Placed.Echoes related) [item] [other]) {after later : Assembler}
    (placed : after.listing.items = first.listing.items.push item)
    (again : later.listing.items = second.listing.items.push other)
    (line : later.line = after.line) : after.Echoes related later := by
  refine ⟨line, ?_⟩
  rw [placed, again, Array.toList_push, Array.toList_push]
  exact List.rel_append echoes.items items

theorem setLine (echoes : first.Echoes related second) (line : UInt32) :
    (first.setLine line).Echoes related (second.setLine line) :=
  ⟨rfl, echoes.items⟩

/-- Where the distances are in one code, they are in the other, and they are the same. -/
theorem setDistance (echoes : first.Echoes related second) (label : Label)
    (distance : UInt16) :
    (first.setDistance label distance).Echoes related (second.setDistance label distance) := by
  refine ⟨echoes.line, ?_⟩
  simp only [Assembler.setDistance, Listing.setDistance, Array.toList_modify]
  exact forall₂_modify (fun _ _ same => same.setDistance label.branch distance) echoes.items
    label.item

theorem distance_eq (echoes : first.Echoes related second) (label : Label) :
    second.listing.distance label = first.listing.distance label := by
  rw [Listing.distance, Listing.distance, echoes.size_eq]

theorem callSite (echoes : first.Echoes related second) {slot other : UInt16}
    (slots : related slot other) (count flags : UInt8) :
    (first.callSite slot count flags).Echoes related (second.callSite other count flags) := by
  refine echoes.push (.cons ?_ .nil) rfl rfl echoes.line
  rw [echoes.line]
  exact .site count flags first.line slots

theorem jump (echoes : first.Echoes related second) :
    (second.jump .jump).1 = (first.jump .jump).1 ∧
      (first.jump .jump).2.Echoes related (second.jump .jump).2 := by
  constructor
  · simp [Assembler.jump, Listing.pushJump, echoes.count_eq, echoes.size_eq]
  · refine echoes.push (.cons ?_ .nil) rfl rfl echoes.line
    rw [echoes.line]
    exact .same rfl

theorem lookupSwitch (echoes : first.Echoes related second) (keys : List Int32) :
    (second.lookupSwitch keys).1 = (first.lookupSwitch keys).1 ∧
      (first.lookupSwitch keys).2.Echoes related (second.lookupSwitch keys).2 := by
  constructor
  · simp [Assembler.lookupSwitch, Listing.pushSwitch, echoes.count_eq, echoes.size_eq]
  · refine echoes.push (.cons ?_ .nil) rfl rfl echoes.line
    rw [echoes.line]
    exact .same rfl

end Assembler.Echoes

/-! ## Steps that are taken again -/

/-- A step that is taken again, where its constants are known, adds none of them and places
the same items. -/
structure Assembler.Repeats (step : Assembler → Assembler) : Prop where
  within : ∀ assembler : Assembler, assembler.pool.Within (step assembler).pool
  again : ∀ {related : UInt16 → UInt16 → Prop} {first second : Assembler},
    first.Echoes related second → (step first).pool.Within second.pool →
      (step second).pool = second.pool ∧ (step first).Echoes related (step second)

namespace Assembler.Repeats

theorem setLine (line : UInt32) : Repeats (·.setLine line) where
  within assembler := .refl assembler.pool
  again echoes _ := ⟨rfl, echoes.setLine line⟩

theorem emit {opcode : Opcode} {operands : Operands}
    (silent : Instruction.site? ⟨opcode, operands⟩ = none) :
    Repeats (·.emit opcode operands) where
  within assembler := .refl assembler.pool
  again := by
    intro related first second echoes _
    refine ⟨rfl, echoes.push (.cons ?_ .nil) rfl rfl echoes.line⟩
    rw [echoes.line]
    exact .same silent

/-- The index of a constant is the same where the constant is known. -/
theorem intern {step : Assembler → Assembler} {next : Nat → Assembler → Assembler}
    (constant : Constant) (each : ∀ index, Repeats (next index))
    (same : ∀ assembler : Assembler, step assembler =
      next (assembler.intern constant).1 (assembler.intern constant).2) : Repeats step where
  within assembler := by
    rw [same]
    exact (assembler.pool.add_within constant).trans
      ((each _).within (assembler.intern constant).2)
  again := by
    intro related first second echoes known
    rw [same] at known
    have later := ((each (first.intern constant).1).within (first.intern constant).2).trans known
    have known : second.intern constant = ((first.intern constant).1, second) := by
      simp only [Assembler.intern, ConstantPool.add_again later]
    rw [same, same, known]
    exact (each _).again ⟨echoes.line, echoes.items⟩ ‹_›

theorem emitConstant {opcode : Opcode} (constant : Constant)
    (silent : ∀ index, Instruction.site? ⟨opcode, .word index⟩ = none) :
    Repeats (·.emitConstant opcode constant) :=
  intern constant (fun index => emit (silent index.toUInt16)) fun _ => rfl

theorem loadConstant (constant : Constant) : Repeats (·.loadConstant constant) := by
  have places (index : Nat) : Repeats fun assembler : Assembler =>
      if index < 256 then assembler.emit .constant (.byte index.toUInt8)
      else assembler.emit .constantWide (.word index.toUInt16) := by
    by_cases short : index < 256
    · simp only [short, if_true]
      exact emit rfl
    · simp only [short, if_false]
      exact emit rfl
  exact intern constant places fun _ => rfl

theorem loadInt (value : Int64) : Repeats (·.loadInt value) := by
  by_cases zero : value = 0
  · simp only [Assembler.loadInt, zero, if_true]
    exact emit rfl
  by_cases one : value = 1
  · simp only [Assembler.loadInt, one, if_true]
    exact emit rfl
  simp only [Assembler.loadInt, zero, one, if_false]
  exact loadConstant (.int value)

theorem getLocal (slot : UInt16) : Repeats (·.getLocal slot) := by
  by_cases short : slot < 256
  · simp only [Assembler.getLocal, short, if_true]
    exact emit rfl
  · simp only [Assembler.getLocal, short, if_false]
    exact emit rfl

theorem getStaticField (owner : Identity) (name : String) :
    Repeats (·.getStaticField owner name) := by
  have places (first second : Nat) :
      Repeats (·.emit .getStaticField (.words first.toUInt16 second.toUInt16)) := emit rfl
  have named (first : Nat) : Repeats fun assembler : Assembler =>
      (assembler.intern (.ofString name)).2.emit .getStaticField
        (.words first.toUInt16 (assembler.intern (.ofString name)).1.toUInt16) :=
    intern (.ofString name) (places first) fun _ => rfl
  exact intern (.type owner) named fun _ => rfl

theorem arrayInit (element : Identity) (count : UInt16) :
    Repeats (·.arrayInit element count) := by
  have places (index : Nat) : Repeats (·.emit .arrayInit (.words index.toUInt16 count)) := emit rfl
  exact intern (.type element) places fun _ => rfl

theorem invoke (opcode : Opcode) (owner member : Identity) (count : UInt8) :
    Repeats (·.invoke opcode owner member count) := by
  have places (index : Nat) : Repeats (·.emit opcode (.member index.toUInt16 count)) :=
    emit (by cases opcode <;> rfl)
  exact intern (.member owner member) places fun _ => rfl

end Assembler.Repeats

/-- Whether a call places an instruction from which the next one follows, with an opcode that
suits its operands and with no slot. -/
def Emit.isPlain : Emit → Bool
  | byte _ _ _ | half _ _ _ | callSite _ _ _ | jump _ _ | lookupSwitch _ _ => false
  | _ => true

/-- A plain call is made again as it was made before. -/
theorem Emit.repeats {emit : Emit} (plain : emit.isPlain = true) :
    Assembler.Repeats fun assembler => (emit.run assembler).2 := by
  cases emit with
  | plain opcode bare => exact .emit (by cases opcode <;> rfl)
  | loadConstant constant => exact .loadConstant constant
  | loadInt value => exact .loadInt value
  | loadString value => exact .loadConstant (.ofString value)
  | loadNull => exact .emit rfl
  | loadBool value => exact .emit (by cases value <;> rfl)
  | getLocal slot => exact .getLocal slot
  | getRef slot => exact .emit rfl
  | getThis => exact .emit rfl
  | getStaticField owner name => exact .getStaticField owner name
  | arrayInit element count => exact .arrayInit element count
  | despread count mask => exact .emit rfl
  | invoke opcode owner member count invokes => exact .invoke opcode owner member count
  | callAdapter routine count flags => exact .emit rfl
  | getField name | raiseFatal name => exact .emitConstant (.ofString name) fun _ => rfl
  | getOuterThis id | newInstance id | checkCast id | box id | unbox id | loadClass id =>
      exact .emitConstant (.type id) fun _ => rfl
  | byte _ _ _ | half _ _ _ | callSite _ _ _ | jump _ _ | lookupSwitch _ _ => cases plain

end Echoes

end CallCode
