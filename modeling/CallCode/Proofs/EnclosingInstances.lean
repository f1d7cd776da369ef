import CallCode.Proofs.Lowering.Planned
import CallCode.Proofs.ResolvedTarget
import CallCode.Proofs.StateIndependence
import CallCode.Proofs.StaticCode

/-!
# Enclosing instances

A call without a written receiver may be meant for an instance that encloses the current
one.  Its code then pushes an instance of the class that declares the target, and nothing
asks whether this class encloses the current one.  It need not: an enclosing class may have
inherited the target.
-/

namespace CallCode

open Lower

variable {context : Context}

/-! ## Enclosing classes -/

/-- A class is around another one, through one outer class or more. -/
inductive TypeTable.Encloses (types : TypeTable) (classId : Identity) : Identity → Prop
  | outer {inner : Identity} {decl : TypeDecl} : types.find? inner = some decl →
      decl.outer = some classId → Encloses types classId inner
  | further {inner middle : Identity} {decl : TypeDecl} : types.find? inner = some decl →
      decl.outer = some middle → Encloses types classId middle → Encloses types classId inner

def Mark.outer? : Mark → Option Identity
  | .outer classId => some classId
  | .super _ => none

/-- The classes of which a call and the calls in its operands push an instance, as one that
encloses the current one, in the order of evaluation. -/
def Call.outerClasses (context : Context) (call : Call Expr) : List Identity :=
  (call.marks context).filterMap Mark.outer?

/-- What is asked before the class that declares a target is taken for an enclosing one: the
current class is in some other one, and does not inherit from the declaring class. -/
structure Frame.LooksOutside (frame : Frame) (types : TypeTable) (owner : Identity) : Prop where
  nested : ∃ classId, types.Encloses classId frame.classId
  underived : types.isDerivedFrom (.simple frame.classId) (.simple owner) = false
  unimplemented : types.implementsInterface frame.classId owner = false

theorem BoundCall.looksOutside {call : BoundCall} {owner : Identity}
    (marked : .outer owner ∈ call.marks context) :
    owner = call.target.owner ∧ context.frame.LooksOutside context.types owner := by
  rw [marks] at marked
  split at marked
  · rename_i pushes
    cases List.mem_singleton.mp marked
    refine ⟨rfl, ?_⟩
    unfold instanceLoad? at pushes
    split at pushes
    · cases pushes
    · split at pushes
      · cases pushes
      · split at pushes
        · rename_i reaches
          simp only [Bool.and_eq_true] at reaches
          have asked := reaches.1.1
          simp only [reachesOuter, Bool.and_eq_true, Option.any_eq_true, Bool.not_eq_true',
            Option.isSome_iff_exists] at asked
          obtain ⟨⟨⟨-, decl, found, outer, around⟩, underived⟩, unimplemented⟩ := asked
          exact ⟨⟨outer, .outer found around⟩, underived, unimplemented⟩
        · cases pushes
  · cases marked

theorem Request.looksOutside {request : Request} {owner : Identity}
    (marked : .outer owner ∈ request.ownMarks context) :
    context.frame.LooksOutside context.types owner := by
  unfold ownMarks at marked
  split at marked
  · exact (BoundCall.looksOutside marked).2
  · split at marked
    · cases marked
    · unfold noted at marked
      split at marked
      · cases named : request.selector.name? <;> simp [named] at marked
      · cases marked
  · cases marked

theorem Call.looksOutside {call : Call Expr} {owner : Identity}
    (marked : .outer owner ∈ call.ownMarks context) :
    context.frame.LooksOutside context.types owner := by
  cases call with
  | method call =>
      rw [ownMarks, MethodCall.ownMarks] at marked
      split at marked
      · cases marked
      · exact Request.looksOutside marked
  | static call => exact Request.looksOutside marked
  | create => cases marked
  | chain => cases marked

/-! ## Code that pushes enclosing instances -/

/-- The instructions of some code that push an enclosing instance. -/
def outerPushes (code : List Instruction) : List Instruction :=
  code.filter (·.opcode = .getOuterThis)

theorem outerPushes_append (code further : List Instruction) :
    outerPushes (code ++ further) = outerPushes code ++ outerPushes further :=
  List.filter_append _ _

/-- An instruction that pushes an instance of an enclosing class has the place of the class
in the pool, cut off to two bytes. -/
def Instruction.NamesOuter (pool : ConstantPool) (instruction : Instruction)
    (classId : Identity) : Prop :=
  ∃ place, pool.get? place = some (.type classId) ∧
    instruction = ⟨.getOuterThis, .word place.toUInt16⟩

theorem Instruction.NamesOuter.later {pool larger : ConstantPool} {instruction : Instruction}
    {classId : Identity} (names : instruction.NamesOuter pool classId)
    (within : pool.Within larger) : instruction.NamesOuter larger classId := by
  obtain ⟨place, found, placed⟩ := names
  exact ⟨place, within.get? found, placed⟩

/-- In a pool that is not too large, the name is read back. -/
theorem Instruction.NamesOuter.operation? {pool : ConstantPool} {instruction : Instruction}
    {classId : Identity} (names : instruction.NamesOuter pool classId)
    (small : pool.size ≤ maxConstants) :
    instruction.operation? pool = some (.typed .getOuterThis classId) := by
  obtain ⟨place, found, rfl⟩ := names
  have inside : place < pool.size := (Array.getElem?_eq_some_iff.mp found).1
  have whole : place.toUInt16.toNat = place :=
    UInt16.toNat_ofNat_of_lt' (Nat.lt_of_lt_of_le inside small)
  have read : pool.type? place.toUInt16 = some classId :=
    ConstantPool.type?_of_get? (by rw [whole, found])
  simp [Instruction.operation?, read]

namespace Assembler

/-- Items were added whose pushes of enclosing instances name the given classes. -/
structure PushesOuter (before after : Assembler) (classes : List Identity) : Prop where
  within : before.pool.Within after.pool
  places : ∃ placed, after.listing.items.toList = before.listing.items.toList ++ placed ∧
    List.Forall₂ (Instruction.NamesOuter after.pool)
      (outerPushes (placed.map (·.instruction))) classes

namespace PushesOuter

variable {first second third before after : Assembler} {classes further : List Identity}

theorem refl (assembler : Assembler) : assembler.PushesOuter assembler [] :=
  ⟨.refl assembler.pool, [], (List.append_nil _).symm, .nil⟩

theorem trans (left : first.PushesOuter second classes)
    (right : second.PushesOuter third further) :
    first.PushesOuter third (classes ++ further) := by
  obtain ⟨within, placed, items, names⟩ := left
  obtain ⟨upper, morePlaced, moreItems, moreNames⟩ := right
  refine ⟨within.trans upper, placed ++ morePlaced, ?_, ?_⟩
  · rw [moreItems, items, List.append_assoc]
  · rw [List.map_append, outerPushes_append]
    exact List.rel_append (names.imp fun _ _ name => name.later upper) moreNames

/-- One item was added that pushes no enclosing instance. -/
theorem push {item : Placed} (within : before.pool.Within after.pool)
    (items : after.listing.items = before.listing.items.push item)
    (other : item.instruction.opcode ≠ .getOuterThis) : before.PushesOuter after [] := by
  refine ⟨within, [item], by rw [items, Array.toList_push], ?_⟩
  simp [outerPushes, other]

end PushesOuter

theorem pushesOuter_getOuterThis (assembler : Assembler) (outer : Identity) :
    assembler.PushesOuter (assembler.getOuterThis outer) [outer] := by
  refine ⟨assembler.pool.add_within _, [⟨⟨.getOuterThis, .word _⟩, assembler.line⟩],
    Array.toList_push, ?_⟩
  exact .cons ⟨_, assembler.knows_intern (.type outer), rfl⟩ .nil

end Assembler

namespace Emit

/-- No other call pushes an enclosing instance. -/
theorem opcode_ne_getOuterThis {emit : Emit} (plain : emit.isPlain = true)
    (other : ∀ outer, emit ≠ .getOuterThis outer) (pool : ConstantPool) :
    (emit.content pool).1 ≠ .getOuterThis := by
  have literal (constant : Constant) : (constantContent pool constant).1 ≠ .getOuterThis := by
    rw [constantContent]
    split <;> simp
  cases emit with
  | plain opcode bare =>
      rintro rfl
      cases bare
  | invoke opcode owner member count invokes =>
      rintro rfl
      cases invokes
  | loadConstant constant => exact literal constant
  | loadString value => exact literal (.ofString value)
  | loadInt value =>
      rw [content]
      split
      · simp
      · split
        · simp
        · exact literal (.int value)
  | loadBool value => cases value <;> simp [content]
  | getLocal slot =>
      rw [content]
      split <;> simp
  | getOuterThis outer => exact absurd rfl (other outer)
  | byte => cases plain
  | half => cases plain
  | jump => cases plain
  | _ => simp [content]

theorem pushesOuter {emit : Emit} (plain : emit.isPlain = true) (assembler : Assembler) :
    assembler.PushesOuter (emit.run assembler).2 (emit.marks.filterMap Mark.outer?) := by
  by_cases names : ∃ outer, emit = .getOuterThis outer
  · obtain ⟨outer, rfl⟩ := names
    exact assembler.pushesOuter_getOuterThis outer
  · have other (outer : Identity) : emit ≠ .getOuterThis outer := fun same => names ⟨outer, same⟩
    have unmarked : emit.marks = [] := by
      cases emit with
      | getOuterThis outer => exact absurd rfl (other outer)
      | _ => rfl
    obtain ⟨operands, placed, -, -, -⟩ := emit.emits_run assembler
    rw [unmarked]
    exact .push ((repeats plain).within assembler) (congrArg Listing.items placed)
      (opcode_ne_getOuterThis plain other assembler.pool)

end Emit

/-! ## Runs -/

/-- Code without branches, once placed, is left as it is, so that its pushes of enclosing
instances are those of its marks. -/
theorem Lower.Planned.pushesOuter {Result : Type} {action : Lower Result} {marks : List Mark}
    (planned : Planned context False action marks) {before after : LoweringState}
    {result : Result} (run : Runs action context before result after) :
    before.assembler.PushesOuter after.assembler (marks.filterMap Mark.outer?) := by
  induction planned generalizing before after with
  | pure value =>
      obtain ⟨-, rfl⟩ := (runs_pure _).mp run
      exact .refl _
  | bind _ _ left right =>
      obtain ⟨value, middle, first, second⟩ := (runs_bind _ _).mp run
      rw [List.filterMap_append]
      exact (left first).trans (right value second)
  | fail error => cases run
  | read _ ih =>
      obtain ⟨_, _, reads, run⟩ := (runs_bind _ _).mp run
      obtain ⟨rfl, rfl⟩ := runs_read.mp reads
      exact ih run
  | peek _ _ ih =>
      obtain ⟨_, _, gets, run⟩ := (runs_bind _ _).mp run
      obtain ⟨rfl, rfl⟩ := runs_get.mp gets
      exact ih _ run
  | write emit plain =>
      cases (runs_write _).mp run
      exact Emit.pushesOuter plain before.assembler
  | setLine line =>
      cases (runs_write _).mp run
      exact ⟨.refl _, [], (List.append_nil _).symm, .nil⟩
  -- filling in a distance could overwrite an operand, as nothing here says what a label is of
  | jump never => cases never
  | lookupSwitch _ never => cases never
  | resolve _ never => cases never
  | track action =>
      obtain ⟨stack, -, rfl⟩ := (runs_track _).mp run
      exact .refl _
  | restore stack =>
      cases (runs_modify _).mp run
      exact .refl _
  | send site count _ ih =>
      obtain ⟨slot, _, allocates, run⟩ := (runs_bind _ _).mp run
      obtain ⟨ledger, -, rfl⟩ := (runs_consult _).mp allocates
      obtain ⟨_, _, writes, run⟩ := (runs_bind _ _).mp run
      cases (runs_write _).mp writes
      have sends : before.assembler.PushesOuter
          (before.assembler.callSite slot count site.flags.bits) [] :=
        .push (.refl _) rfl (by simp)
      exact sends.trans (ih run)
  | recordSuper name =>
      cases (runs_modify _).mp run
      exact .refl _
  | table target position =>
      obtain ⟨ledger, -, rfl⟩ := (runs_consult _).mp run
      exact .refl _
  | report table position =>
      cases (runs_modify _).mp run
      exact .refl _

/-- The part of a switch with its branches pushes no enclosing instance. -/
theorem pushesOuter_placeSwitch {classId : Identity} {table : CandidateTable}
    {position : Position} {key newInstance vector : ValueType} {rest : TypeStack}
    {before after : LoweringState} (entered : before.stack = key :: newInstance :: vector :: rest)
    (run : Runs (placeSwitch context classId table position) context before () after) :
    before.assembler.PushesOuter after.assembler [] := by
  -- what stood before the switch is left as it was, so that opcodes are enough for the rest
  obtain ⟨placed, items, grows, -, -⟩ := placeSwitch_run entered run
  have added := loads_placeSwitch table before () after run
  rw [Listing.instanceLoads, items, List.map_append, List.filter_append] at added
  have silent := List.filter_eq_nil_iff.mp (List.append_cancel_left added)
  have none : outerPushes (placed.map (·.instruction)) = [] := by
    apply List.filter_eq_nil_iff.mpr
    intro instruction member pushes
    obtain ⟨item, among, rfl⟩ := List.mem_map.mp member
    apply silent item.instruction.opcode (List.mem_map_of_mem among)
    rw [of_decide_eq_true pushes]
    rfl
  exact ⟨grows.within, placed, items, by rw [none]; exact .nil⟩

/-- A chained call that its hook declined pushes what its arguments do. -/
theorem DeclinedSteps.pushesOuter {call : ChainCall Expr} {hooked after : LoweringState}
    {way : Construction} (steps : DeclinedSteps context call.operands hooked way after) :
    hooked.assembler.PushesOuter after.assembler ((Call.chain call).outerClasses context) := by
  have planned : ∀ operand ∈ call.operands.arguments, operand.Planned context False := by
    rw [ChainCall.arguments_operands]
    exact planned_operandsOf call.arguments
  rw [Call.outerClasses, ChainCall.marks_operands]
  cases steps with
  | direct called tabled bound chains =>
      have enough := (arity_of_boundCandidate bound).symm
      have pushes := (planned_chainDirectly planned (Nat.le_of_eq enough)).pushesOuter chains
      exact pushes
  | keySwitch called tabled unbound switches =>
      rw [lowerSwitch_eq, runs_bind] at switches
      obtain ⟨⟨⟩, entered, enters, places⟩ := switches
      have entrance := (planned_enterDispatch planned _).pushesOuter enters
      have branches := pushesOuter_placeSwitch (stack_of_lowerSwitch enters) places
      rw [← List.append_nil (List.filterMap _ _)]
      exact entrance.trans branches

/-! ## Emitted code -/

namespace LoweringState

/-- The instructions between two states that push an enclosing instance, in the order of the
code. -/
def outerPushes (before after : LoweringState) : List Instruction :=
  CallCode.outerPushes
    (after.assembler.listing.assemble.instructionsFrom before.assembler.listing.size)

end LoweringState

section Calls

variable {before after : LoweringState}

end Calls

end CallCode
