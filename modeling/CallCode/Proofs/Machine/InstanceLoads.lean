import CallCode.Proofs.Machine.Outline

/-!
# Instance loads

Two opcodes push an instance that the code has without being given it: the current one,
and one that encloses it.  What an assembler step adds to them does not depend on the
pool, nor on the distances of branches.
-/

namespace CallCode

/-- Whether an opcode pushes the current instance or an enclosing one. -/
def Opcode.loadsInstance : Opcode → Bool
  | .getThis | .getOuterThis => true
  | _ => false

namespace Listing

/-- The opcodes of a listing that load an instance, in the order of the code. -/
def instanceLoads (listing : Listing) : List Opcode :=
  (listing.items.toList.map (·.instruction.opcode)).filter Opcode.loadsInstance

theorem instanceLoads_push (listing : Listing) (line : UInt32) (instruction : Instruction) :
    (listing.push line instruction).instanceLoads =
      listing.instanceLoads ++ [instruction.opcode].filter Opcode.loadsInstance := by
  simp [instanceLoads]

@[simp]
theorem instanceLoads_setDistance (listing : Listing) (label : Label) (distance : UInt16) :
    (listing.setDistance label distance).instanceLoads = listing.instanceLoads := by
  have same : (listing.items.toList.modify label.item (.setDistance label.branch distance)).map
      (·.instruction.opcode) = listing.items.toList.map (·.instruction.opcode) :=
    map_modify_eq fun _ _ => rfl
  rw [instanceLoads, setDistance, Array.toList_modify, same, instanceLoads]

theorem instanceLoads_eq_outline (listing : Listing) :
    listing.instanceLoads = (listing.outline.map (·.opcode)).filter Opcode.loadsInstance := by
  simp [instanceLoads, outline, Function.comp_def]

end Listing

namespace Assembler

/-- A step of the assembler adds the given instance loads, and no others. -/
def Loads (step : Assembler → Assembler) (loads : List Opcode) : Prop :=
  ∀ assembler, (step assembler).listing.instanceLoads =
    assembler.listing.instanceLoads ++ loads

namespace Loads

/-- A step that places one instruction adds no more than the load that it is. -/
theorem place {step : Assembler → Assembler} {loads : List Opcode}
    (places : ∀ assembler, ∃ line instruction,
      (step assembler).listing = assembler.listing.push line instruction ∧
        [instruction.opcode].filter Opcode.loadsInstance = loads) : Loads step loads := by
  intro assembler
  obtain ⟨line, instruction, placed, rfl⟩ := places assembler
  rw [placed, Listing.instanceLoads_push]

theorem setLine (line : UInt32) : Loads (·.setLine line) [] :=
  fun _ => (List.append_nil _).symm

theorem emit {opcode : Opcode} (silent : opcode.loadsInstance = false) :
    Loads (·.emit opcode) [] :=
  place fun _ => ⟨_, _, rfl, by simp [silent]⟩

theorem getThis : Loads (·.getThis) [.getThis] := place fun _ => ⟨_, _, rfl, rfl⟩

theorem getOuterThis (outer : Identity) : Loads (·.getOuterThis outer) [.getOuterThis] :=
  place fun _ => ⟨_, _, rfl, rfl⟩

theorem loadConstant (constant : Constant) : Loads (·.loadConstant constant) [] := by
  intro assembler
  simp only [Assembler.loadConstant]
  split
  · exact Listing.instanceLoads_push _ _ _
  · exact Listing.instanceLoads_push _ _ _

theorem loadInt (value : Int64) : Loads (·.loadInt value) [] := by
  intro assembler
  simp only [Assembler.loadInt]
  split
  · exact Listing.instanceLoads_push _ _ _
  · split
    · exact Listing.instanceLoads_push _ _ _
    · exact loadConstant (.int value) assembler

theorem loadString (value : String) : Loads (·.loadString value) [] :=
  loadConstant (.ofString value)

theorem loadNull : Loads (·.loadNull) [] := emit rfl

theorem loadBool (value : Bool) : Loads (·.loadBool value) [] :=
  emit (by cases value <;> rfl)

theorem getLocal (slot : UInt16) : Loads (·.getLocal slot) [] := by
  intro assembler
  simp only [Assembler.getLocal]
  split
  · exact Listing.instanceLoads_push _ _ _
  · exact Listing.instanceLoads_push _ _ _

theorem getRef (slot : UInt16) : Loads (·.getRef slot) [] :=
  place fun _ => ⟨_, _, rfl, rfl⟩

theorem getField (name : String) : Loads (·.getField name) [] :=
  place fun _ => ⟨_, _, rfl, rfl⟩

theorem getStaticField (owner : Identity) (name : String) :
    Loads (·.getStaticField owner name) [] :=
  place fun _ => ⟨_, _, rfl, rfl⟩

theorem newInstance (id : Identity) : Loads (·.newInstance id) [] :=
  place fun _ => ⟨_, _, rfl, rfl⟩

theorem arrayInit (element : Identity) (count : UInt16) : Loads (·.arrayInit element count) [] :=
  place fun _ => ⟨_, _, rfl, rfl⟩

theorem despread (count : UInt8) (mask : UInt32) : Loads (·.despread count mask) [] :=
  place fun _ => ⟨_, _, rfl, rfl⟩

theorem invoke {opcode : Opcode} (isInvoke : opcode.isInvoke = true) (owner member : Identity)
    (count : UInt8) : Loads (·.invoke opcode owner member count) [] := by
  cases opcode <;> first | exact place fun _ => ⟨_, _, rfl, rfl⟩ | cases isInvoke

theorem callSite (slot : UInt16) (count flags : UInt8) : Loads (·.callSite slot count flags) [] :=
  place fun _ => ⟨_, _, rfl, rfl⟩

theorem callAdapter (routine count flags : UInt8) :
    Loads (·.callAdapter routine count flags) [] :=
  place fun _ => ⟨_, _, rfl, rfl⟩

theorem callRoutine (routine : Routine) (count : UInt8) :
    Loads (·.callRoutine routine count) [] :=
  callAdapter routine.number count 0

theorem checkCast (target : Identity) : Loads (·.checkCast target) [] :=
  place fun _ => ⟨_, _, rfl, rfl⟩

theorem box (primitive : Identity) : Loads (·.box primitive) [] :=
  place fun _ => ⟨_, _, rfl, rfl⟩

theorem unbox (primitive : Identity) : Loads (·.unbox primitive) [] :=
  place fun _ => ⟨_, _, rfl, rfl⟩

theorem loadClass (id : Identity) : Loads (·.loadClass id) [] :=
  place fun _ => ⟨_, _, rfl, rfl⟩

theorem jump : Loads (fun assembler => (assembler.jump .jump).2) [] :=
  place fun _ => ⟨_, _, rfl, rfl⟩

theorem lookupSwitch (keys : List Int32) :
    Loads (fun assembler => (assembler.lookupSwitch keys).2) [] :=
  place fun _ => ⟨_, _, rfl, rfl⟩

theorem raiseFatal (message : String) : Loads (·.raiseFatal message) [] :=
  place fun _ => ⟨_, _, rfl, rfl⟩

end Loads

end Assembler

end CallCode
