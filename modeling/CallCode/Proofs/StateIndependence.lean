import CallCode.Proofs.Lowering.ChainOutcome
import CallCode.Proofs.Lowering.Parallel
import CallCode.Proofs.Lowering.SwitchPaths
import CallCode.Proofs.Lowering.SwitchSymbols
import CallCode.Proofs.MethodBodies
import CallCode.Proofs.StackDepth

/-!
# Independence of what was lowered before

The pool of a class, its call sites and the tables that it has looked up grow with every
body.  They decide how wide an index is, how long a branch is and which slot a call gets,
but neither how a call is lowered nor what its code says.
-/

namespace CallCode

open Lower LoweringState

/-- The symbols of the code that was written between two states. -/
def LoweringState.symbols (before after : LoweringState) : Option (List Symbol) :=
  after.assembler.listing.assemble.symbolsFrom after.assembler.pool
    before.assembler.listing.size

/-- Two runs have left the same stack and code with the same symbols, with slots relative
to the first of them where slots are counted up. -/
structure LoweringState.SameCode (first after second later : LoweringState) : Prop where
  stack : later.stack = after.stack
  symbols : after.assembler.pool.size ≤ maxConstants → later.assembler.pool.size ≤ maxConstants →
    ∃ symbols others, first.symbols after = some symbols ∧ second.symbols later = some others ∧
      withoutSlots others = withoutSlots symbols ∧
      (first.ledger.allocator = SiteTable.allocate →
        second.ledger.allocator = SiteTable.allocate →
          relativeSlots others = relativeSlots symbols)

/-! ## Symbols of a run -/

section Symbols

variable {before entered after : LoweringState} {code : List Operation}

/-- What was placed has no instruction that could be shorter. -/
theorem isTight_of_loose {placed : List Placed}
    (items : after.assembler.listing.items.toList =
      before.assembler.listing.items.toList ++ placed)
    (tight : after.assembler.listing.loose = before.assembler.listing.loose) :
    ∀ item ∈ placed, item.instruction.isTight = true := by
  rw [Listing.loose, items, List.filter_append, Listing.loose] at tight
  have none := List.append_right_eq_self.mp tight
  intro item member
  have kept := List.filter_eq_nil_iff.mp none item member
  simpa using kept

/-- Behind straight code that starts where a run starts, the rest is read with the numbers
that follow. -/
theorem symbols_of_writes {placed : List Placed} {further : List Symbol}
    (writes : before.assembler.Writes entered.assembler code)
    (tight : entered.assembler.listing.loose = before.assembler.listing.loose)
    (straight : ∀ operation ∈ code, operation.isBranch = false)
    (items : after.assembler.listing.items.toList =
      entered.assembler.listing.items.toList ++ placed)
    (within : entered.assembler.pool.Within after.assembler.pool)
    (small : after.assembler.pool.size ≤ maxConstants)
    (shaped : ∀ item ∈ placed, item.instruction.WellShaped)
    (rest : ∀ starts,
      after.assembler.listing.assemble.Located entered.assembler.listing.size placed →
      Numbered starts entered.assembler.listing.size code.length placed →
        after.assembler.listing.assemble.Spelled after.assembler.pool starts
          entered.assembler.listing.size placed further) :
    before.symbols after = some (code.map Operation.straightSymbol ++ further) := by
  obtain ⟨entrance, enteredItems, performs⟩ := writes.appends
  have known := performs.performs _ within small
  have count : entrance.length = code.length := known.length_eq
  have all : after.assembler.listing.items.toList =
      before.assembler.listing.items.toList ++ (entrance ++ placed) := by
    rw [items, enteredItems, List.append_assoc]
  have located : after.assembler.listing.assemble.Located before.assembler.listing.size
      (entrance ++ placed) := by
    rw [Listing.size_eq_codeSize]
    apply Listing.located_assemble (by rw [all, List.append_nil])
    intro item member
    rcases List.mem_append.mp member with early | late
    · exact known.wellShaped item early
    · exact shaped item late
  have start : before.assembler.listing.size + codeSize entrance =
      entered.assembler.listing.size := (size_of_items_append enteredItems).2.symm
  obtain ⟨inEntrance, behind⟩ :=
    (ObjectCode.located_append _ _ entrance placed).mp located
  -- the entrance has one instruction for each operation, so that the pool does not show in
  -- the numbers behind it, although it does in their offsets
  have numbered := Numbered.of_startsFrom before.assembler.listing.size (entrance ++ placed)
  have numberedBehind := numbered.right
  rw [start] at behind numberedBehind
  rw [Nat.zero_add, count] at numberedBehind
  apply ObjectCode.symbolsFrom_of_spelled located
  · rw [Listing.size_assemble]
    exact (size_of_items_append all).2.symm
  · apply ObjectCode.Spelled.append
    · exact ObjectCode.spelled_straight inEntrance known straight
        (isTight_of_loose enteredItems tight)
    · rw [start]
      exact rest _ behind numberedBehind

theorem symbols_of_straight (writes : before.assembler.Writes after.assembler code)
    (tight : after.assembler.listing.loose = before.assembler.listing.loose)
    (straight : ∀ operation ∈ code, operation.isBranch = false)
    (small : after.assembler.pool.size ≤ maxConstants) :
    before.symbols after = some (code.map Operation.straightSymbol) := by
  have symbols := symbols_of_writes writes tight straight (List.append_nil _).symm (.refl _) small
    (by simp) fun _ _ _ => .nil
  rwa [List.append_nil] at symbols

theorem symbols_of_switch {context : Context} {classId : Identity} {arms : List Candidate}
    {placed : List Placed} (writes : before.assembler.Writes entered.assembler code)
    (tight : entered.assembler.listing.loose = before.assembler.listing.loose)
    (straight : ∀ operation ∈ code, operation.isBranch = false)
    (items : after.assembler.listing.items.toList =
      entered.assembler.listing.items.toList ++ placed)
    (within : entered.assembler.pool.Within after.assembler.pool)
    (laid : SwitchLaid context classId arms after.assembler.pool
      entered.assembler.listing.size placed)
    (small : after.assembler.pool.size ≤ maxConstants) :
    before.symbols after = some (code.map Operation.straightSymbol ++
      switchSymbols context classId code.length arms) :=
  symbols_of_writes writes tight straight items within small (laid.wellShaped small)
    fun _ located numbered => laid.spelled small located numbered

end Symbols

/-! ## Two runs -/

/-- Two runs have left the same stack and code with the same symbols but for slots. -/
structure Pairing.Matches (pairing : Pairing) (first after second later : LoweringState) :
    Prop where
  stack : later.stack = after.stack
  symbols : after.assembler.pool.size ≤ maxConstants → later.assembler.pool.size ≤ maxConstants →
    ∃ symbols others, first.symbols after = some symbols ∧ second.symbols later = some others ∧
      List.Forall₂ (Symbol.Alike pairing.slots) symbols others

section Matching

variable {pairing : Pairing} {first entered after second between later : LoweringState}

theorem straightSymbols_alike {related : Int → Int → Prop} {code other : List Operation}
    (alike : List.Forall₂ (Operation.Alike related) code other) :
    List.Forall₂ (Symbol.Alike related) (code.map Operation.straightSymbol)
      (other.map Operation.straightSymbol) := by
  rw [List.forall₂_map_left_iff, List.forall₂_map_right_iff]
  exact alike.imp fun _ _ same => same.straightSymbol

theorem isBranch_of_alike {related : Int → Int → Prop} {code other : List Operation}
    (alike : List.Forall₂ (Operation.Alike related) code other) :
    (∀ operation ∈ code, operation.isBranch = false) ∧
      ∀ operation ∈ other, operation.isBranch = false := by
  induction alike with
  | nil => simp
  | cons same _ ih =>
      rw [List.forall_mem_cons, List.forall_mem_cons]
      exact ⟨⟨same.isBranch_left, ih.1⟩, same.isBranch_right, ih.2⟩

theorem LoweringState.Parallel.matches (parallel : Parallel pairing first after second later) :
    pairing.Matches first after second later := by
  obtain ⟨beside, ⟨code, other, writes, otherWrites, alike⟩, tight, otherTight⟩ := parallel
  obtain ⟨straight, otherStraight⟩ := isBranch_of_alike alike
  refine ⟨beside.stack.symm, fun small otherSmall => ?_⟩
  exact ⟨_, _, symbols_of_straight writes tight straight small,
    symbols_of_straight otherWrites otherTight otherStraight otherSmall,
    straightSymbols_alike alike⟩

/-- Behind straight code, two runs place a switch on one table alike. -/
theorem LoweringState.Parallel.matches_switch {context : Context} {classId : Identity}
    {table : CandidateTable} {position : Position} {key newInstance vector : ValueType}
    {rest : TypeStack} (parallel : Parallel pairing first entered second between)
    (stack : entered.stack = key :: newInstance :: vector :: rest)
    (places : Runs (placeSwitch context classId table position) context entered () after)
    (otherPlaces : Runs (placeSwitch context classId table position) context between () later) :
    pairing.Matches first after second later := by
  obtain ⟨beside, ⟨code, other, writes, otherWrites, alike⟩, tight, otherTight⟩ := parallel
  obtain ⟨straight, otherStraight⟩ := isBranch_of_alike alike
  have otherStack := beside.stack.symm.trans stack
  obtain ⟨placed, items, grows, laid, left⟩ := placeSwitch_run stack places
  obtain ⟨otherPlaced, otherItems, otherGrows, otherLaid, otherLeft⟩ :=
    placeSwitch_run otherStack otherPlaces
  refine ⟨otherLeft.trans left.symm, fun small otherSmall => ?_⟩
  have symbols := symbols_of_switch writes tight straight items grows.within laid small
  have others := symbols_of_switch otherWrites otherTight otherStraight otherItems
    otherGrows.within otherLaid otherSmall
  rw [← alike.length_eq] at others
  refine ⟨_, _, symbols, others, List.rel_append (straightSymbols_alike alike) ?_⟩
  exact List.forall₂_same.mpr fun symbol member => .same (slot?_of_mem_switchSymbols member)

end Matching

/-! ## Chained calls -/

def ChainHook.Straight (hook : ChainHook) (context : Context) : Prop :=
  ∀ call : ChainCall Expr, ∃ walk, Lower.Straight context (hook call.operands) walk

section Chains

variable {context : Context} {hook : ChainHook} {call : ChainCall Expr} {pairing : Pairing}
  {first hooked after second between later : LoweringState} {answer other : Bool}

theorem Hooked.parallel (hooks : hook.Straight context) (beside : first.Beside pairing second)
    (offered : Hooked context hook call.operands first answer hooked)
    (otherOffered : Hooked context hook call.operands second other between) :
    other = answer ∧ Parallel pairing first hooked second between := by
  obtain ⟨walk, straight⟩ := hooks call
  obtain ⟨marked, marks, answers⟩ := offered
  obtain ⟨otherMarked, otherMarks, otherAnswers⟩ := otherOffered
  obtain ⟨-, early⟩ := (straight_markLine _).parallel beside marks otherMarks
  obtain ⟨same, late⟩ := straight.parallel early.beside answers otherAnswers
  exact ⟨same, early.trans late⟩

theorem Hooked.keeps (hooks : hook.Straight context)
    (offered : Hooked context hook call.operands first answer hooked) : first.Keeps hooked := by
  obtain ⟨walk, straight⟩ := hooks call
  obtain ⟨marked, marks, answers⟩ := offered
  have early := (straight_markLine _).reads.advances marks
  exact early.keeps.trans (straight.reads.advances answers).keeps

theorem LoweringState.Keeps.valid {before after : LoweringState} {types : TypeTable}
    (keeps : before.Keeps after) (valid : before.ledger.Valid types) :
    after.ledger.Valid types := by
  rw [Ledger.Valid, keeps.tables, keeps.keyOf]
  exact valid

theorem LoweringState.report_eq (state : LoweringState) (types : TypeTable)
    (table : CandidateTable) (position : Position) : ∃ reported diagnostics,
      state.report types table position =
        { state with ledger := { state.ledger with reported }, diagnostics } := by
  unfold LoweringState.report Ledger.reportCollisions
  split <;> exact ⟨_, _, rfl⟩

theorem stack_of_lowerSwitch {classId : Identity} {table : CandidateTable}
    {before entered : LoweringState}
    (enters : Runs (enterDispatch context classId table call.operands.arguments
      call.operands.position) context
      (before.report context.types table call.operands.position) () entered) :
    entered.stack = .int :: instanceType context classId context.frame.isConstructor ::
      .objectArray :: before.stack := by
  have steady := (inductive_trivial context).steady_chain call
  have enters : Runs (enterSwitch context classId table call.operands.arguments
      call.operands.position) context before () entered := enters
  obtain ⟨_, -, -, stack⟩ :=
    enterSwitch_run (fun argument member => (steady argument member).loaded) enters
  exact stack

/-- Two states that know the same tables look up the same one. -/
theorem table_unique {classId : Identity} {position : Position} {table otherTable : CandidateTable}
    {ledger otherLedger : Ledger} (valid : hooked.ledger.Valid context.types)
    (otherValid : between.ledger.Valid context.types)
    (keyOf : between.ledger.keyOf = hooked.ledger.keyOf)
    (tabled : Ledger.candidateTable context.types classId position hooked.ledger =
      .ok table ledger)
    (otherTabled : Ledger.candidateTable context.types classId position between.ledger =
      .ok otherTable otherLedger) : otherTable = table := by
  have otherIs := (otherValid.candidateTable otherTabled).1
  rw [keyOf] at otherIs
  exact (valid.candidateTable tabled).1.unique otherIs

theorem LoweringState.Parallel.looked {classId : Identity} {position : Position}
    {table otherTable : CandidateTable} {ledger otherLedger : Ledger}
    (parallel : Parallel pairing first hooked second between)
    (tabled : Ledger.candidateTable context.types classId position hooked.ledger =
      .ok table ledger)
    (otherTabled : Ledger.candidateTable context.types classId position between.ledger =
      .ok otherTable otherLedger) :
    Parallel pairing first { hooked with ledger } second { between with ledger := otherLedger } := by
  obtain ⟨tables, rfl⟩ := Ledger.candidateTable_keeps tabled
  obtain ⟨otherTables, rfl⟩ := Ledger.candidateTable_keeps otherTabled
  have beside := parallel.beside
  apply parallel.trans
  exact .of_same ⟨beside.stack, beside.left, beside.right, beside.tables⟩ rfl rfl

theorem LoweringState.Parallel.report (parallel : Parallel pairing first hooked second between)
    (types : TypeTable) (table : CandidateTable) (position : Position) :
    Parallel pairing first (hooked.report types table position) second
      (between.report types table position) := by
  obtain ⟨reported, diagnostics, reports⟩ := hooked.report_eq types table position
  obtain ⟨otherReported, otherDiagnostics, otherReports⟩ := between.report_eq types table position
  rw [reports, otherReports]
  have beside := parallel.beside
  apply parallel.trans
  exact .of_same ⟨beside.stack, beside.left, beside.right, beside.tables⟩ rfl rfl

/-- A chained call that its hook declined goes the same way with the same table. -/
theorem DeclinedSteps.matches {way otherWay : Construction}
    (parallel : Parallel pairing first hooked second between)
    (valid : hooked.ledger.Valid context.types) (otherValid : between.ledger.Valid context.types)
    (keyOf : between.ledger.keyOf = hooked.ledger.keyOf)
    (steps : DeclinedSteps context call.operands hooked way after)
    (otherSteps : DeclinedSteps context call.operands between otherWay later) :
    otherWay = way ∧ pairing.Matches first after second later := by
  cases steps with
  | direct called tabled bound chains =>
      cases otherSteps with
      | direct otherCalled otherTabled otherBound otherChains =>
          cases called.symm.trans otherCalled
          obtain rfl := table_unique valid otherValid keyOf tabled otherTabled
          cases bound.symm.trans otherBound
          have ready := parallel.looked tabled otherTabled
          obtain ⟨-, chained⟩ :=
            (ChainCall.straight_direct _ bound).parallel ready.beside chains otherChains
          exact ⟨rfl, (ready.trans chained).matches⟩
      | keySwitch otherCalled otherTabled unbound =>
          cases called.symm.trans otherCalled
          obtain rfl := table_unique valid otherValid keyOf tabled otherTabled
          cases bound.symm.trans unbound
  | keySwitch called tabled unbound switches =>
      cases otherSteps with
      | direct otherCalled otherTabled bound =>
          cases called.symm.trans otherCalled
          obtain rfl := table_unique valid otherValid keyOf tabled otherTabled
          cases bound.symm.trans unbound
      | @keySwitch _ table _ _ otherCalled otherTabled _ otherSwitches =>
          cases called.symm.trans otherCalled
          obtain rfl := table_unique valid otherValid keyOf tabled otherTabled
          rw [lowerSwitch_eq, runs_bind] at switches otherSwitches
          obtain ⟨⟨⟩, entered, enters, places⟩ := switches
          obtain ⟨⟨⟩, otherEntered, otherEnters, otherPlaces⟩ := otherSwitches
          have ready := (parallel.looked tabled otherTabled).report context.types table
            call.operands.position
          obtain ⟨-, entrance⟩ := (straight_enterDispatch call.straight_arguments _ _ _).parallel
            ready.beside enters otherEnters
          have stack := stack_of_lowerSwitch enters
          exact ⟨rfl, (ready.trans entrance).matches_switch stack places otherPlaces⟩

theorem matches_of_chain {way otherWay : Construction} (hooks : hook.Straight context)
    (beside : first.Beside pairing second) (valid : first.ledger.Valid context.types)
    (otherValid : second.ledger.Valid context.types)
    (keyOf : second.ledger.keyOf = first.ledger.keyOf)
    (run : Runs (lowerChainCall hook call.operands) context first way after)
    (otherRun : Runs (lowerChainCall hook call.operands) context second otherWay later) :
    otherWay = way ∧ pairing.Matches first after second later := by
  obtain ⟨answer, hooked, offered, steps⟩ := lowerChainCall_steps run
  obtain ⟨other, between, otherOffered, otherSteps⟩ := lowerChainCall_steps otherRun
  obtain ⟨rfl, parallel⟩ := Hooked.parallel hooks beside offered otherOffered
  cases other with
  | true =>
      obtain ⟨rfl, rfl⟩ := steps
      obtain ⟨rfl, rfl⟩ := otherSteps
      exact ⟨rfl, parallel.matches⟩
  | false =>
      have kept := offered.keeps hooks
      have otherKept := otherOffered.keeps hooks
      refine DeclinedSteps.matches parallel (kept.valid valid) (otherKept.valid otherValid) ?_
        steps otherSteps
      rw [kept.keyOf, otherKept.keyOf, keyOf]

end Chains

/-! ## All calls -/

/-- Two states in which a call of a class may be lowered: reachable ones with one key
function and one tracked stack, whatever else was lowered before each of them. -/
structure LoweringState.Akin (types : TypeTable) (first second : LoweringState) : Prop where
  stack : second.stack = first.stack
  keyOf : second.ledger.keyOf = first.ledger.keyOf
  reachable : first.ledger.Reachable types
  otherReachable : second.ledger.Reachable types

/-- Any two bodies of a class start in such states, be it the first of a fresh unit and one
behind many others. -/
theorem ClassUnit.Reached.akin {unit other : ClassUnit} (reached : unit.Reached)
    (otherReached : other.Reached) (types : other.types = unit.types)
    (keyOf : other.ledger.keyOf = unit.ledger.keyOf) :
    unit.initialState.Akin unit.types other.initialState := by
  have otherReachable := otherReached.ledger.1
  rw [types] at otherReachable
  exact ⟨rfl, keyOf, reached.ledger.1, otherReachable⟩

theorem straight_noHook (context : Context) : noHook.Straight context :=
  fun _ => ⟨{}, .pure false⟩

section Calls

variable {context : Context} {first after second later : LoweringState}

theorem beside_unrelated (stack : second.stack = first.stack) :
    first.Beside (.unrelated first.ledger.allocator second.ledger.allocator) second :=
  ⟨stack.symm, rfl, rfl, trivial⟩

theorem beside_counted (stack : second.stack = first.stack)
    (counts : first.ledger.allocator = SiteTable.allocate)
    (otherCounts : second.ledger.allocator = SiteTable.allocate) :
    first.Beside (.counted (first.ledger.sites.count - second.ledger.sites.count)) second :=
  ⟨stack.symm, counts, otherCounts, rfl⟩

/-- What matches under every pairing is the same code. -/
theorem sameCode_of_matches (stack : second.stack = first.stack)
    (each : ∀ pairing : Pairing, first.Beside pairing second →
      pairing.Matches first after second later) : first.SameCode after second later := by
  have unrelated := each _ (beside_unrelated stack)
  refine ⟨unrelated.stack, fun small otherSmall => ?_⟩
  obtain ⟨symbols, others, spelled, otherSpelled, alike⟩ := unrelated.symbols small otherSmall
  refine ⟨symbols, others, spelled, otherSpelled, (withoutSlots_eq alike).symm, ?_⟩
  intro counts otherCounts
  -- the symbols are the same ones, now with what is known of counted slots
  obtain ⟨_, _, again, otherAgain, shifted⟩ :=
    (each _ (beside_counted stack counts otherCounts)).symbols small otherSmall
  cases spelled.symm.trans again
  cases otherSpelled.symm.trans otherAgain
  exact (relativeSlots_eq shifted).symm

theorem Lower.Straight.sameCode {Result : Type} {action : Lower Result} {walk : Walk}
    {result other : Result} (straight : Straight context action walk)
    (stack : second.stack = first.stack) (run : Runs action context first result after)
    (otherRun : Runs action context second other later) :
    other = result ∧ first.SameCode after second later := by
  constructor
  · exact (straight.parallel (beside_unrelated stack) run otherRun).1
  · apply sameCode_of_matches stack
    exact fun pairing beside => (straight.parallel beside run otherRun).2.matches

end Calls

/-- Lowering does not depend on what was lowered before.  From two reachable states of a
class with the same tracked stack, a call that is lowered from both is lowered in the same
way, leaves the same stack, and, if the constants fit both pools, has the same symbols, with
slots relative to the first of them where slots are counted up.  Other allocators decide on
their slots, and on nothing else. -/
theorem lowering_independent {context : Context} {first after second later : LoweringState}
    (akin : first.Akin context.types second) :
    (∀ (call : MethodCall Expr) (tier otherTier : Tier),
      Runs (lowerMethodCall call.operands) context first tier after →
      Runs (lowerMethodCall call.operands) context second otherTier later →
        otherTier = tier ∧ first.SameCode after second later) ∧
    (∀ (call : StaticCall Expr) (tier otherTier : Tier),
      Runs (lowerStaticCall call.operands) context first tier after →
      Runs (lowerStaticCall call.operands) context second otherTier later →
        otherTier = tier ∧ first.SameCode after second later) ∧
    (∀ (call : NewCall Expr) (way otherWay : Construction),
      Runs (lowerNewCall call.operands) context first way after →
      Runs (lowerNewCall call.operands) context second otherWay later →
        otherWay = way ∧ first.SameCode after second later) ∧
    (∀ (hook : ChainHook) (call : ChainCall Expr) (way otherWay : Construction),
      hook.Straight context →
      Runs (lowerChainCall hook call.operands) context first way after →
      Runs (lowerChainCall hook call.operands) context second otherWay later →
        otherWay = way ∧ first.SameCode after second later) := by
  refine ⟨?_, ?_, ?_, ?_⟩
  · intro call tier otherTier run otherRun
    exact (MethodCall.straight_lower call.straight).sameCode akin.stack run otherRun
  · rintro ⟨owner, name, arguments, target, position⟩ tier otherTier run otherRun
    exact (StaticCall.straight_lower (straight_operandsOf arguments)).sameCode akin.stack run
      otherRun
  · rintro ⟨classId, arguments, target, anonymous, position⟩ way otherWay run otherRun
    exact (NewCall.straight_lower (straight_operandsOf arguments)).sameCode akin.stack run otherRun
  · intro hook call way otherWay hooks run otherRun
    have chains (pairing : Pairing) (beside : first.Beside pairing second) :=
      matches_of_chain hooks beside akin.reachable.valid akin.otherReachable.valid akin.keyOf run
        otherRun
    constructor
    · exact (chains _ (beside_unrelated akin.stack)).1
    · apply sameCode_of_matches akin.stack
      exact fun pairing beside => (chains pairing beside).2

/-- Little code that starts without constants needs few of them. -/
theorem small_of_keySwitch {context : Context} {call : ChainCall Expr}
    {before after : LoweringState}
    (run : Runs (lowerChainCall noHook call.operands) context before .keySwitch after)
    (start : before.assembler = {}) (short : 2 * after.assembler.listing.size ≤ maxConstants) :
    after.assembler.pool.size ≤ maxConstants := by
  cases lowerChainCall_run run with
  | keySwitch prepared _ switches =>
      obtain ⟨marked, hooked, marks, -, hooks, -, same, -⟩ := prepared.declined
      obtain ⟨-, rfl⟩ := (runs_pure _).mp hooks
      obtain ⟨_, _, _, -, -, grows, -⟩ :=
        chainBySwitch_run ((inductive_trivial context).steady_chain call) switches
      rw [same] at grows
      have thrifty := (marks.writes.grows.trans grows).thrifty
      rw [start] at thrifty
      change _ ≤ 0 + 2 * _ at thrifty
      omega

/-- A class of instances that can be copied, with nothing lowered yet. -/
def copyingUnit : ClassUnit where
  types := copiedTypes
  ledger := { classId := ⟨1⟩, keyOf := fun _ => 7 }

/-- A body with a call through a site, `x.f()`. -/
def sendingBody : MethodBody where
  name := "f"
  frame := .method ⟨1⟩
  action := (Entry.call (.method ⟨.read ⟨"x", 1, .object, false⟩, .named "f", [], false, false,
    false, none, none, .synthetic⟩)).lower noHook
  stepwise _ := Entry.stepwise (fun _ => .noHook _) _

/-- `this(D.class.g())` -/
def chainedCopy : ChainCall Expr :=
  ⟨.sameClass, [.call (.method ⟨.classLiteral ⟨5⟩, .named "g", [], false, false, false, none,
    none, .synthetic⟩)], .synthetic⟩

/-- In a fresh unit and behind another body, a switch has the same symbols, although the
slot of the call in it is another one. -/
theorem symbols_behind_another_body :
    let context := copyingUnit.context (.method ⟨1⟩)
    let second := (copyingUnit.lower sendingBody).2.initialState
    ∃ after later,
      Runs (lowerChainCall noHook chainedCopy.operands) context copyingUnit.initialState
        .keySwitch after ∧
      Runs (lowerChainCall noHook chainedCopy.operands) context second .keySwitch later ∧
      after.ledger.sites.names = ["g"] ∧ later.ledger.sites.names = ["f", "g"] ∧
      later.stack = after.stack ∧
      ∃ symbols others, copyingUnit.initialState.symbols after = some symbols ∧
        second.symbols later = some others ∧
        relativeSlots others = relativeSlots symbols := by
  intro context second
  have fresh : copyingUnit.Reached := .start _ (.fresh _ _ _) SiteTable.appends_allocate
  have grows := ClassUnit.grows_lower fresh.ledger.2 sendingBody
  have akin : copyingUnit.initialState.Akin context.types second :=
    fresh.akin (.body sendingBody fresh) (copyingUnit.lower_keeps sendingBody).1 grows.keyOf
  obtain ⟨after, run⟩ := exists_runs_of_answer? (show answer?
    (lowerChainCall noHook chainedCopy.operands) context copyingUnit.initialState =
      some .keySwitch by decide +kernel)
  obtain ⟨later, otherRun⟩ := exists_runs_of_answer? (show answer?
    (lowerChainCall noHook chainedCopy.operands) context second = some .keySwitch by
      decide +kernel)
  have known : after.assembler.listing.size = 61 ∧ after.ledger.sites.names = ["g"] := by
    rw [← show final _ = after from congrArg final run]
    decide +kernel
  have otherKnown : later.assembler.listing.size = 61 ∧
      later.ledger.sites.names = ["f", "g"] := by
    rw [← show final _ = later from congrArg final otherRun]
    decide +kernel
  have small := small_of_keySwitch run rfl (by rw [known.1]; decide)
  have otherSmall := small_of_keySwitch otherRun rfl (by rw [otherKnown.1]; decide)
  obtain ⟨-, stack, same⟩ := (lowering_independent akin).2.2.2 noHook chainedCopy _ _
    (straight_noHook _) run otherRun
  obtain ⟨symbols, others, spelled, otherSpelled, -, relative⟩ := same small otherSmall
  exact ⟨after, later, run, otherRun, known.2, otherKnown.2, stack, symbols, others, spelled,
    otherSpelled, relative rfl grows.allocator⟩

end CallCode
