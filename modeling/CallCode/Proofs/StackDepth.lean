import CallCode.Proofs.Lowering.Statement
import CallCode.Proofs.Lowering.SwitchSafety
import CallCode.Proofs.ReachableLedger

/-!
# The depth of the stack after a call

The code of a call and the tracked stack agree, whichever way control takes.  They
only fall apart where a static method is invoked like one of an instance.
-/

namespace CallCode

open Lower

variable {context : Context} {hook : ChainHook} {before after : LoweringState}

/-! ## Receivers -/

/-- Some instruction invokes a static method on an instance, though none is there. -/
def MissesReceiver (types : TypeTable) (pool : ConstantPool) (placed : List Placed) : Prop :=
  ∃ item ∈ placed, ∃ operation, item.instruction.operation? pool = some operation ∧
    operation.lacksReceiver types = true

theorem missesReceiver_append {types : TypeTable} {pool : ConstantPool}
    {first second : List Placed} :
    MissesReceiver types pool (first ++ second) ↔
      MissesReceiver types pool first ∨ MissesReceiver types pool second := by
  simp [MissesReceiver, or_and_right, exists_or]

theorem Performs.missesReceiver_iff {types : TypeTable} {pool : ConstantPool}
    {placed : List Placed} {code : List Operation} (performs : Performs pool placed code) :
    missingReceivers types code = 0 ↔ ¬MissesReceiver types pool placed := by
  induction performs with
  | nil => simp [missingReceivers, MissesReceiver]
  | @cons item operation placed code known _ ih =>
      have counts : missingReceivers types (operation :: code) = 0 ↔
          operation.lacksReceiver types = false ∧ missingReceivers types code = 0 := by
        simp [missingReceivers, List.countP_eq_zero]
      rw [counts, ih]
      simp [MissesReceiver, known]

theorem Allows.not_missesReceiver {types : TypeTable} {pool : ConstantPool}
    {placed : List Placed}
    (sound : Allows (fun operation => operation.lacksReceiver types = false) pool placed) :
    ¬MissesReceiver types pool placed := by
  rintro ⟨item, member, operation, known, lacks⟩
  obtain ⟨other, alsoKnown, receives⟩ := sound item member
  rw [known] at alsoKnown
  cases alsoKnown
  rw [receives] at lacks
  cases lacks

theorem receives_of_missingReceivers {types : TypeTable} {code : List Operation}
    (none : missingReceivers types code = 0) :
    ∀ operation ∈ code, operation.lacksReceiver types = false := by
  rw [missingReceivers, List.countP_eq_zero] at none
  intro operation member
  simpa using none operation member

/-- The switch itself invokes nothing but constructors. -/
theorem SwitchLaid.receives {classId : Identity} {arms : List Candidate}
    {pool : ConstantPool} {offset : Nat} {placed : List Placed}
    (laid : SwitchLaid context classId arms pool offset placed)
    (known : ∀ candidate ∈ arms, context.types.IdentifiesConstructor candidate.constructor)
    (small : pool.size ≤ maxConstants) :
    Allows (fun operation => operation.lacksReceiver context.types = false) pool placed := by
  refine laid.allows small (fun candidate member =>
    receives_of_missingReceivers (missingReceivers_arm (known candidate member))) ?_
  intro operation other
  cases other with
  | drop member => exact receives_of_missingReceivers (missingReceivers_dropping _) _ member
  | _ => rfl

/-! ## Agreement -/

/-- The instructions that were placed between two states. -/
def LoweringState.placed (before after : LoweringState) : List Placed :=
  after.assembler.listing.items.toList.drop before.assembler.listing.items.size

/-- The code that was written between two states is safe, and on every path to its end
it changes the depth of the stack like the tracked stack. -/
def LoweringState.Agrees (types : TypeTable) (before after : LoweringState) : Prop :=
  StackSafe types after.assembler.pool after.assembler.listing.assemble
    before.assembler.listing.size after.assembler.listing.size
    (after.stack.length - before.stack.length)

theorem LoweringState.placed_eq {placed : List Placed}
    (items : after.assembler.listing.items.toList =
      before.assembler.listing.items.toList ++ placed) : before.placed after = placed := by
  rw [LoweringState.placed, items, ← Array.length_toList, List.drop_left]

/-- The new instructions stand where the code ended. -/
theorem located_of_items {placed : List Placed}
    (items : after.assembler.listing.items.toList =
      before.assembler.listing.items.toList ++ placed)
    (shaped : ∀ item ∈ placed, item.instruction.WellShaped) :
    after.assembler.listing.assemble.Located before.assembler.listing.size placed := by
  rw [← List.append_nil (_ ++ placed)] at items
  rw [Listing.size_eq_codeSize]
  exact Listing.located_assemble items shaped

theorem LoweringState.Pushes.agrees_iff {types : TypeTable} {code : List Operation}
    {pushed : List ValueType} (pushes : before.Pushes after code pushed)
    (effect : Effect types code 0 pushed.length)
    (small : after.assembler.pool.size ≤ maxConstants) :
    before.Agrees types after ↔
      ¬MissesReceiver types after.assembler.pool (before.placed after) := by
  obtain ⟨placed, items, performsFrom⟩ := pushes.writes.appends
  have performs := performsFrom.performs _ (.refl _) small
  have size := (size_of_items_append items).2
  have located := located_of_items items performs.wellShaped
  have bounded := after.assembler.listing.assemble.instructionAt_size
  have depth : ((after.stack.length : Int) - before.stack.length) = pushed.length := by
    rw [pushes.stack, List.length_append, List.length_reverse]
    omega
  rw [Listing.size_assemble, size] at bounded
  rw [LoweringState.Agrees, LoweringState.placed_eq items, depth, size,
    effect.stackSafe_iff performs located bounded]
  exact performs.missesReceiver_iff

/-- A hook writes straight code that pushes what it tracks, and leaves a ledger that
operations on ledgers lead to. -/
structure ChainHook.Balanced (hook : ChainHook) (context : Context) : Prop where
  pushes : ∀ call before answer after, Runs (hook call) context before answer after →
    ∃ code pushed, before.Pushes after code pushed ∧
      Effect context.types code 0 pushed.length
  reachable : ∀ call before answer after, Runs (hook call) context before answer after →
    before.ledger.Reachable context.types → after.ledger.Reachable context.types

theorem balanced_noHook (context : Context) : noHook.Balanced context where
  pushes := by
    intro call before answer after run
    obtain ⟨-, rfl⟩ := (runs_pure _).mp run
    exact ⟨[], [], .nil _, .nil⟩
  reachable := by
    intro call before answer after run reachable
    obtain ⟨-, rfl⟩ := (runs_pure _).mp run
    exact reachable

theorem ChainPrepared.built {call : ChainCall Operand} {ready : LoweringState}
    {classId : Identity} {table : CandidateTable} (balanced : hook.Balanced context)
    (reachable : before.ledger.Reachable context.types)
    (prepared : ChainPrepared context hook call before ready classId table) :
    Ledger.Built context.types table := by
  obtain ⟨marked, hooked, -, same, hooks, found, -, -⟩ := prepared.declined
  rw [← same] at reachable
  exact (balanced.reachable _ _ _ _ hooks reachable).built_candidateTable found

/-- What stands before a chained call is bound is what the hook wrote. -/
theorem ChainPrepared.pushes_hook {call : ChainCall Operand} {ready : LoweringState}
    {classId : Identity} {table : CandidateTable} (balanced : hook.Balanced context)
    (prepared : ChainPrepared context hook call before ready classId table) :
    ∃ code pushed, before.Pushes ready code pushed ∧
      Effect context.types code 0 pushed.length := by
  obtain ⟨marked, hooked, marks, -, hooks, -, assembler, stack⟩ := prepared.declined
  obtain ⟨code, pushed, written, effect⟩ := balanced.pushes _ _ _ _ hooks
  obtain ⟨writes, tracked⟩ := marks.trans written
  exact ⟨code, pushed, ⟨assembler ▸ writes, stack.trans tracked⟩, effect⟩

theorem identifiesConstructor_of_built {table : CandidateTable}
    (distinct : context.types.DistinctMembers) (built : Ledger.Built context.types table)
    {candidate : Candidate} (member : candidate ∈ table.candidates) :
    context.types.IdentifiesConstructor candidate.constructor := by
  obtain ⟨position, keyOf, built⟩ := built
  exact distinct.identifiesConstructor
    (CandidateTable.declares_of_build built candidate member)

theorem agrees_of_chainBySwitch {call : ChainCall Expr} {ready : LoweringState}
    {classId : Identity} {table : CandidateTable} {code : List Operation}
    {pushed : List ValueType} (distinct : context.types.DistinctMembers)
    (built : Ledger.Built context.types table) (written : before.Pushes ready code pushed)
    (effect : Effect context.types code 0 pushed.length)
    (small : after.assembler.pool.size ≤ maxConstants)
    (run : Runs (chainBySwitch classId table call.operands.arguments call.operands.position)
      context ready () after) :
    before.Agrees context.types after ↔
      ¬MissesReceiver context.types after.assembler.pool (before.placed after) := by
  have steady := (inductive_balanced distinct).steady_chain call
  obtain ⟨packing, entrance, placed, vector, items, grows, entered, laid, stack⟩ :=
    chainBySwitch_run steady run
  obtain ⟨hooked, readyItems, hookPerforms⟩ := written.writes.appends
  have known : ∀ candidate ∈ table.arms,
      context.types.IdentifiesConstructor candidate.constructor := fun candidate member =>
    identifiesConstructor_of_built distinct built
      (CandidateTable.mem_candidates_of_arms member)
  have readySize := (size_of_items_append readyItems).2
  -- the hook's code and the entrance stand in front of the switch in a row
  have front := ((hookPerforms.later grows.within).append entered).performs _ (.refl _) small
  have frontEffect : Effect context.types (code ++ entranceCode context classId table
      call.operands.arguments packing) 0 (pushed.length + 3) :=
    effect.append (effect_entrance vector) (by omega)
  rw [readySize, Nat.add_assoc, ← codeSize_append] at laid
  have sound := laid.receives known small
  have all : after.assembler.listing.items.toList =
      before.assembler.listing.items.toList ++ (hooked ++ entrance ++ placed) := by
    rw [items, readyItems]
    simp only [List.append_assoc]
  have shaped : ∀ item ∈ hooked ++ entrance ++ placed, item.instruction.WellShaped := by
    intro item member
    rcases List.mem_append.mp member with ahead | behind
    · exact front.wellShaped item ahead
    · exact sound.wellShaped item behind
  have size := (size_of_items_append all).2
  have located := located_of_items all shaped
  have bounded := after.assembler.listing.assemble.instructionAt_size
  rw [Listing.size_assemble, size] at bounded
  have depth : ((after.stack.length : Int) - before.stack.length) =
      pushed.length + switchGain context.frame.isConstructor := by
    rw [stack, written.stack, switchGain]
    split
    · simp
    · simp
      omega
  obtain ⟨first, some⟩ := laid.first
  rw [LoweringState.Agrees, LoweringState.placed_eq all, depth, size,
    laid.stackSafe_iff known some small front frontEffect located bounded,
    front.missesReceiver_iff]
  constructor
  · intro clean misses
    rcases missesReceiver_append.mp misses with ahead | behind
    · exact clean ahead
    · exact sound.not_missesReceiver behind
  · exact fun clean misses => clean (missesReceiver_append.mpr (.inl misses))

theorem agrees_of_lowerChainCall {call : ChainCall Expr} {way : Construction}
    (distinct : context.types.DistinctMembers) (balanced : hook.Balanced context)
    (reachable : before.ledger.Reachable context.types)
    (small : after.assembler.pool.size ≤ maxConstants)
    (run : Runs (lowerChainCall hook call.operands) context before way after) :
    before.Agrees context.types after ↔
      ¬MissesReceiver context.types after.assembler.pool (before.placed after) := by
  cases lowerChainCall_run run with
  | closure marks _ hooks =>
      obtain ⟨code, pushed, written, effect⟩ := balanced.pushes _ _ _ _ hooks
      exact (marks.trans written).agrees_iff effect small
  | direct prepared bound chains =>
      obtain ⟨code, pushed, written, effect⟩ := prepared.pushes_hook balanced
      have steady := (inductive_balanced distinct).steady_chain call
      obtain ⟨direct, known, chained⟩ := chainDirectly_run steady chains
      rw [ChainCall.boundCandidate, Option.ite_none_right_eq_some] at bound
      obtain ⟨member, arity⟩ := CandidateTable.uniqueOfArity_some bound.2
      have constructed := identifiesConstructor_of_built distinct
        (prepared.built balanced reachable) member
      have total : Effect context.types (code ++ direct) 0 (pushed ++ []).length := by
        rw [List.append_nil]
        exact (effect.append (known.effect constructed arity) (by omega)).gains (by omega)
      exact (written.trans chained).agrees_iff total small
  | keySwitch prepared _ chains =>
      obtain ⟨code, pushed, written, effect⟩ := prepared.pushes_hook balanced
      exact agrees_of_chainBySwitch distinct (prepared.built balanced reachable) written effect
        small chains

theorem agrees_of_lowerCall {call : Call Expr} (distinct : context.types.DistinctMembers)
    (small : after.assembler.pool.size ≤ maxConstants)
    (run : Runs (lowerCall call.operands) context before () after) :
    before.Agrees context.types after ↔
      ¬MissesReceiver context.types after.assembler.pool (before.placed after) := by
  obtain ⟨code, type, effect, pushed⟩ :=
    (inductive_balanced distinct).steady (.call call) before after run
  exact pushed.agrees_iff effect small

/-- The emitted code and the tracked stack agree exactly if no static method is invoked
like one of an instance.  The types declare no two members of one identity, the frame,
the hook and the state before the call are arbitrary, as are the call and all the calls
inside it, and its constants fit the pool. -/
theorem agrees_iff_of_call (context : Context) (before after : LoweringState)
    (distinct : context.types.DistinctMembers)
    (small : after.assembler.pool.size ≤ maxConstants) :
    (∀ call : Call Expr, Runs (lowerCall call.operands) context before () after →
      (before.Agrees context.types after ↔
        ¬MissesReceiver context.types after.assembler.pool (before.placed after))) ∧
    (∀ (hook : ChainHook) (call : ChainCall Expr) (way : Construction),
      hook.Balanced context → before.ledger.Reachable context.types →
      Runs (lowerChainCall hook call.operands) context before way after →
        (before.Agrees context.types after ↔
          ¬MissesReceiver context.types after.assembler.pool (before.placed after))) :=
  ⟨fun _ => agrees_of_lowerCall distinct small,
    fun _ _ _ balanced reachable => agrees_of_lowerChainCall distinct balanced reachable small⟩

/-- A class whose instances are made from other instances. -/
def copiedTypes : TypeTable :=
  ⟨[{ name := "Copied", id := ⟨1⟩, kind := .classType,
      constructors := [⟨⟨2⟩, ⟨1⟩, [⟨"other", .simple ⟨1⟩⟩], .openAccess⟩] }]⟩

/-- A call on the current instance with a copy of it. -/
def copyingCall : Call Expr :=
  .method ⟨.this, .named "run", [.call (.create ⟨⟨1⟩, [.this], none, true, .synthetic⟩)], false,
    false, false, none, none, .synthetic⟩

/-- Code and tracked stack agree on a call inside a call. -/
theorem agrees_for_copied : ∃ (before after : LoweringState),
    copiedTypes.DistinctMembers ∧ after.assembler.pool.size ≤ maxConstants ∧
      Runs (lowerCall copyingCall.operands)
        { types := copiedTypes, frame := .method ⟨1⟩ } before () after ∧
      before.Agrees copiedTypes after := by
  have distinct : copiedTypes.DistinctMembers := by decide
  obtain ⟨⟨⟩, after, run, size⟩ := exists_runs (show sizeAfter
    (lowerCall copyingCall.operands) { types := copiedTypes, frame := .method ⟨1⟩ }
    { ledger := { classId := ⟨1⟩ } } = some 15 by decide +kernel)
  have small : after.assembler.pool.size ≤ maxConstants := by
    obtain ⟨_, _, -, pushed⟩ := (inductive_trivial _).steady (.call copyingCall) _ _ run
    have thrifty : after.assembler.pool.size + 2 * 0 ≤ 0 + 2 * after.assembler.listing.size :=
      pushed.writes.grows.thrifty
    rw [size] at thrifty
    exact Nat.le_trans thrifty (by decide)
  have receives : ∀ placed, ¬MissesReceiver copiedTypes after.assembler.pool placed := by
    rintro placed ⟨_, -, operation, -, lacks⟩
    cases operation <;> simp [Operation.lacksReceiver, TypeTable.method?, copiedTypes] at lacks
  have agrees := (agrees_iff_of_call _ _ _ distinct small).1 copyingCall run
  exact ⟨_, after, distinct, small, run, agrees.mpr (receives _)⟩

/-! ## Where a receiver is missing -/

/-- A static method is invoked like one of an instance exactly if it is declared by an
interface that is hidden from the code, and the static type of the receiver is a class
that implements it. -/
theorem Invocation.misses_iff {types : TypeTable} {target : Method} {superReceiver : Bool}
    {receiver : ValueType} (static : target.isStatic = true) :
    (choose types target superReceiver receiver).opcode ≠ .invokeStatic ↔
      hidesOwner types target receiver = true ∧
        types.isInterface (.simple target.owner) = true ∧
        types.isInterface receiver = false := by
  have base : baseOpcode types target superReceiver = .invokeStatic := by
    simp [baseOpcode, static]
  simp only [choose, base]
  by_cases hidden : hidesOwner types target receiver
  · by_cases declared : types.isInterface (.simple target.owner)
    · by_cases received : types.isInterface receiver
      · simp [hidden, declared, received]
      · simp [hidden, declared, received]
    · simp [hidden, declared]
  · simp [hidden]

end CallCode
