import CallCode.Proofs.Machine.Control
import CallCode.Proofs.Machine.Outline

/-!
# Steps of the assembler

Most steps of the assembler place an instruction from which the next one follows.  None of
them places a call site, which is left to the step that has a slot for it.
-/

namespace CallCode

/-- What a call site says in the code: its slot and the bits of its flags. -/
structure SiteOperands where
  slot : UInt16
  flags : UInt8
  deriving DecidableEq, Repr

/-- The operands of an instruction that calls through a site. -/
def Instruction.site? : Instruction → Option SiteOperands
  | ⟨.callSite, .site slot _ flags⟩ => some ⟨slot, flags⟩
  | _ => none

/-- The call sites of a listing, in the order of the code. -/
def Listing.siteOperands (listing : Listing) : List SiteOperands :=
  listing.items.toList.filterMap (·.instruction.site?)

/-- A local is read in the wide form only if its slot does not fit the short one. -/
def Instruction.isTight : Instruction → Bool
  | ⟨.getLocalWide, .word slot⟩ => !decide (slot < 256)
  | _ => true

/-- The instructions of a listing that could be shorter. -/
def Listing.loose (listing : Listing) : List Placed :=
  listing.items.toList.filter (!·.instruction.isTight)

namespace Listing

@[simp]
theorem siteOperands_push (listing : Listing) (line : UInt32) (instruction : Instruction) :
    (listing.push line instruction).siteOperands =
      listing.siteOperands ++ instruction.site?.toList := by
  rw [siteOperands, items_push, Array.toList_push, List.filterMap_append]
  cases found : instruction.site? <;> simp [siteOperands, found]

/-- The distances of branches are no operands of call sites. -/
theorem site?_setDistance (branch : Branch) (distance : UInt16) (placed : Placed) :
    (placed.setDistance branch distance).instruction.site? = placed.instruction.site? := by
  obtain ⟨⟨opcode, operands⟩, line⟩ := placed
  cases operands <;> cases branch <;> cases opcode <;> rfl

@[simp]
theorem siteOperands_setDistance (listing : Listing) (label : Label) (distance : UInt16) :
    (listing.setDistance label distance).siteOperands = listing.siteOperands := by
  rw [siteOperands, setDistance, Array.toList_modify, siteOperands]
  generalize listing.items.toList = items
  generalize label.item = position
  induction items generalizing position with
  | nil => simp
  | cons placed items ih =>
      cases position with
      | zero => simp [List.filterMap_cons, site?_setDistance]
      | succ position => simp [List.filterMap_cons, ih]

end Listing

/-- Whether an operation is neither a branch nor a call site. -/
def Operation.isPlain : Operation → Bool
  | .callSite _ _ _ => false
  | operation => operation.falls

/-- A step of the assembler that writes known code without branches and call sites, which
reads the given locals. -/
structure Assembler.Step (step : Assembler → Assembler) (code : List Operation)
    (slots : List UInt16) : Prop where
  writes : ∀ assembler : Assembler, assembler.Writes (step assembler) code
  adds : ∀ assembler : Assembler, assembler.Extends (step assembler) slots
  quiet : ∀ assembler : Assembler,
    (step assembler).listing.siteOperands = assembler.listing.siteOperands
  tight : ∀ assembler : Assembler, (step assembler).listing.loose = assembler.listing.loose
  plain : ∀ operation ∈ code, operation.isPlain = true

/-- One item is placed that is no call site and reads the given locals. -/
structure Assembler.Places (before after : Assembler) (slots : List UInt16)
    (item : Placed) : Prop where
  items : after.listing.items = before.listing.items.push item
  shaped : item.instruction.WellShaped
  silent : item.instruction.site? = none
  tight : item.instruction.isTight = true
  reads : item.instruction.slot?.toList = slots

namespace Assembler.Step

theorem single {step : Assembler → Assembler} {operation : Operation} {slots : List UInt16}
    (writes : ∀ assembler : Assembler, assembler.Writes (step assembler) [operation])
    (places : ∀ assembler : Assembler, ∃ item, assembler.Places (step assembler) slots item)
    (plain : operation.isPlain = true) : Assembler.Step step [operation] slots where
  writes := writes
  adds assembler := by
    obtain ⟨item, placed⟩ := places assembler
    rw [← placed.reads]
    exact extends_of_writes (writes assembler) placed.items placed.shaped
  quiet assembler := by
    obtain ⟨item, placed⟩ := places assembler
    simp [Listing.siteOperands, placed.items, placed.silent]
  tight assembler := by
    obtain ⟨item, placed⟩ := places assembler
    simp [Listing.loose, placed.items, placed.tight]
  plain := by simpa using plain

theorem setLine (line : UInt32) : Assembler.Step (·.setLine line) [] [] :=
  ⟨fun assembler => assembler.writes_setLine line,
    fun assembler => assembler.extends_setLine line, fun _ => rfl, fun _ => rfl, by simp⟩

theorem emit {opcode : Opcode} (bare : opcode.shape = .none) :
    Assembler.Step (·.emit opcode) [.plain opcode] [] :=
  single (fun assembler => assembler.writes_plain bare)
    (fun _ => ⟨_, rfl, ⟨bare.symm, trivial⟩, by cases opcode <;> rfl, by cases opcode <;> rfl,
      by cases opcode <;> rfl⟩)
    rfl

theorem loadConstant {constant : Constant}
    (literal : ∀ (pool : ConstantPool) (index : UInt16),
      pool.get? index.toNat = some constant → pool.literal? index = some constant) :
    Assembler.Step (·.loadConstant constant) [.constant constant] [] := by
  refine single (fun assembler => assembler.writes_loadConstant literal) (fun assembler => ?_) rfl
  simp only [Assembler.loadConstant]
  split
  · exact ⟨_, rfl, ⟨rfl, trivial⟩, rfl, rfl, rfl⟩
  · exact ⟨_, rfl, ⟨rfl, trivial⟩, rfl, rfl, rfl⟩

theorem loadInt (value : Int64) : Assembler.Step (·.loadInt value) [.ofInt value] [] := by
  refine single (fun assembler => assembler.writes_loadInt value) (fun assembler => ?_) ?_
  · simp only [Assembler.loadInt, Assembler.loadConstant]
    split
    · exact ⟨_, rfl, ⟨rfl, trivial⟩, rfl, rfl, rfl⟩
    · split
      · exact ⟨_, rfl, ⟨rfl, trivial⟩, rfl, rfl, rfl⟩
      · split
        · exact ⟨_, rfl, ⟨rfl, trivial⟩, rfl, rfl, rfl⟩
        · exact ⟨_, rfl, ⟨rfl, trivial⟩, rfl, rfl, rfl⟩
  · unfold Operation.ofInt
    split
    · rfl
    · split <;> rfl

theorem loadString (value : String) :
    Assembler.Step (·.loadString value) [.constant (.ofString value)] [] := by
  apply loadConstant
  intro pool index found
  simp [ConstantPool.literal?, found, Constant.ofString]

theorem loadNull : Assembler.Step (·.loadNull) [.plain .pushNull] [] := emit rfl

theorem loadBool (value : Bool) :
    Assembler.Step (·.loadBool value) [.plain (if value then .pushTrue else .pushFalse)] [] := by
  apply emit
  cases value <;> rfl

theorem getLocal (slot : UInt16) :
    Assembler.Step (·.getLocal slot) [.readLocal slot] [slot] := by
  refine single (fun assembler => assembler.writes_getLocal slot) (fun assembler => ?_) rfl
  simp only [Assembler.getLocal]
  split
  · rename_i short
    exact ⟨_, rfl, ⟨rfl, trivial⟩, rfl, rfl,
      by simp [Instruction.slot?, toUInt16_toUInt8 short]⟩
  · rename_i wide
    exact ⟨_, rfl, ⟨rfl, trivial⟩, rfl, by simp [Instruction.isTight, wide], rfl⟩

theorem getRef (slot : UInt16) : Assembler.Step (·.getRef slot) [.readCell slot] [slot] :=
  single (fun assembler => assembler.writes_getRef slot)
    (fun _ => ⟨_, rfl, ⟨rfl, trivial⟩, rfl, rfl, rfl⟩) rfl

theorem getThis : Assembler.Step (·.getThis) [.plain .getThis] [] := emit rfl

theorem getOuterThis (outer : Identity) :
    Assembler.Step (·.getOuterThis outer) [.typed .getOuterThis outer] [] :=
  single (fun assembler => assembler.writes_getOuterThis outer)
    (fun _ => ⟨_, rfl, ⟨rfl, trivial⟩, rfl, rfl, rfl⟩) rfl

theorem getField (name : String) :
    Assembler.Step (·.getField name) [.getField name.toUTF8] [] :=
  single (fun assembler => assembler.writes_getField name)
    (fun _ => ⟨_, rfl, ⟨rfl, trivial⟩, rfl, rfl, rfl⟩) rfl

theorem getStaticField (owner : Identity) (name : String) :
    Assembler.Step (·.getStaticField owner name) [.getStaticField owner name.toUTF8] [] :=
  single (fun assembler => assembler.writes_getStaticField owner name)
    (fun _ => ⟨_, rfl, ⟨rfl, trivial⟩, rfl, rfl, rfl⟩) rfl

theorem newInstance (id : Identity) :
    Assembler.Step (·.newInstance id) [.typed .newInstance id] [] :=
  single (fun assembler => assembler.writes_newInstance id)
    (fun _ => ⟨_, rfl, ⟨rfl, trivial⟩, rfl, rfl, rfl⟩) rfl

theorem arrayInit (element : Identity) (count : UInt16) :
    Assembler.Step (·.arrayInit element count) [.arrayInit element count] [] :=
  single (fun assembler => assembler.writes_arrayInit element count)
    (fun _ => ⟨_, rfl, ⟨rfl, trivial⟩, rfl, rfl, rfl⟩) rfl

theorem despread (count : UInt8) (mask : UInt32) :
    Assembler.Step (·.despread count mask) [.despread count mask] [] :=
  single (fun assembler => assembler.writes_despread count mask)
    (fun _ => ⟨_, rfl, ⟨rfl, trivial⟩, rfl, rfl, rfl⟩) rfl

theorem invoke {opcode : Opcode} (isInvoke : opcode.isInvoke = true)
    (owner member : Identity) (count : UInt8) :
    Assembler.Step (·.invoke opcode owner member count)
      [.invoke opcode owner member count] [] := by
  refine single (fun assembler => assembler.writes_invoke isInvoke) (fun assembler => ?_) rfl
  cases opcode <;> first | exact ⟨_, rfl, ⟨rfl, trivial⟩, rfl, rfl, rfl⟩ | cases isInvoke

theorem callAdapter (routine count flags : UInt8) :
    Assembler.Step (·.callAdapter routine count flags) [.callRoutine routine count flags] [] :=
  single (fun assembler => assembler.writes_callAdapter routine count flags)
    (fun _ => ⟨_, rfl, ⟨rfl, trivial⟩, rfl, rfl, rfl⟩) rfl

theorem callRoutine (routine : Routine) (count : UInt8) :
    Assembler.Step (·.callRoutine routine count) [.callRoutine routine.number count 0] [] :=
  callAdapter routine.number count 0

theorem checkCast (target : Identity) :
    Assembler.Step (·.checkCast target) [.typed .checkCast target] [] :=
  single (fun assembler => assembler.writes_checkCast target)
    (fun _ => ⟨_, rfl, ⟨rfl, trivial⟩, rfl, rfl, rfl⟩) rfl

theorem box (primitive : Identity) :
    Assembler.Step (·.box primitive) [.typed .box primitive] [] :=
  single (fun assembler => assembler.writes_box primitive)
    (fun _ => ⟨_, rfl, ⟨rfl, trivial⟩, rfl, rfl, rfl⟩) rfl

theorem unbox (primitive : Identity) :
    Assembler.Step (·.unbox primitive) [.typed .unbox primitive] [] :=
  single (fun assembler => assembler.writes_unbox primitive)
    (fun _ => ⟨_, rfl, ⟨rfl, trivial⟩, rfl, rfl, rfl⟩) rfl

theorem loadClass (id : Identity) :
    Assembler.Step (·.loadClass id) [.typed .loadClass id] [] :=
  single (fun assembler => assembler.writes_loadClass id)
    (fun _ => ⟨_, rfl, ⟨rfl, trivial⟩, rfl, rfl, rfl⟩) rfl

end Assembler.Step

end CallCode
