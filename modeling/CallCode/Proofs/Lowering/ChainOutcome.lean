import CallCode.Proofs.CandidateTable
import CallCode.Proofs.Lowering.Statement
import CallCode.Proofs.Lowering.StraightCalls
import CallCode.Proofs.ReachableLedger

/-!
# Outcomes of constructor chaining

A chained call reads its arguments once, also where a switch has many arms.  A switch with
more cases than can be counted is never completed: the branch of its first case is too
long.
-/

namespace CallCode

open Lower

variable {context : Context} {before : LoweringState}

/-! ## Direct binding -/

theorem arity_of_boundCandidate {call : ChainCall Operand} {frame : Frame}
    {table : CandidateTable} {candidate : Candidate}
    (bound : call.boundCandidate frame table = some candidate) :
    candidate.constructor.params.length = call.arguments.length := by
  rw [ChainCall.boundCandidate, Option.ite_none_right_eq_some] at bound
  exact (CandidateTable.uniqueOfArity_some bound.2).2

theorem straight_chainDirectly {arguments : List Operand} {constructor : Constructor}
    (straight : ∀ operand ∈ arguments, operand.Straight context)
    (enough : arguments.length ≤ constructor.params.length) (classId : Identity)
    (position : Position) :
    Straight context (chainDirectly classId constructor arguments position)
      (operandWalk context arguments) := by
  refine .then straight_depth fun start => .then (.write .getThis) fun _ => ?_
  refine .read (.then (straight_push _) fun _ => ?_)
  refine .finish (straight_zip enough fun operand member param => ?_) fun _ => ?_
  · refine .finish (straight operand member) fun _ => ?_
    split
    · exact straight_coerceTo _
    · exact .pure _
  · refine .after_accept fun count _ => ?_
    exact .then (.write (.invoke rfl _ _ _)) fun _ => straight_dropAbove _

/-! ## Parts of a switch -/

theorem straight_selectKey (classId : Identity) (arguments : List Operand)
    (candidates : Nat) : Straight context (selectKey classId arguments candidates) {} := by
  refine .then (.write (.emit rfl)) fun _ => .then (.track _) fun _ => ?_
  refine .then (.write (.loadInt _)) fun _ => .then (straight_push _) fun _ => ?_
  refine .then (.write (.loadClass _)) fun _ => .then (straight_push _) fun _ => ?_
  refine .then (.write (.loadInt _)) fun _ => .then (straight_push _) fun _ => ?_
  exact .then (.write (.callRoutine _ _)) fun _ => straight_replace _ _

theorem straight_loadInstance (classId : Identity) (inConstructor : Bool) :
    Straight context (loadInstance classId inConstructor) {} := by
  unfold loadInstance
  split
  · exact .then (.write .getThis) fun _ => .read (straight_push _)
  · exact .then (.write (.newInstance _)) fun _ => straight_push _

theorem straight_arrangeReceiver (inConstructor : Bool) :
    Straight context (arrangeReceiver inConstructor) {} := by
  unfold arrangeReceiver
  split
  · refine .then (.write (.emit rfl)) fun _ => .then (.track _) fun _ => ?_
    exact .then (.write (.emit rfl)) fun _ => .track _
  · refine .then (.write (.emit rfl)) fun _ => .then (.track _) fun _ => ?_
    refine .then (.write (.emit rfl)) fun _ => .then (.track _) fun _ => ?_
    exact .then (.write (.emit rfl)) fun _ => .then (.track _) fun _ => .pure _

theorem straight_unpackElement (position : Nat) (type : ValueType) :
    Straight context (unpackElement position type) {} := by
  refine .then (.write (.emit rfl)) fun _ => .then (.track _) fun _ => ?_
  refine .then (.write (.loadInt _)) fun _ => .then (straight_push _) fun _ => ?_
  refine .then (.write (.emit rfl)) fun _ => .then (straight_replace _ _) fun _ => ?_
  refine .then (straight_coerceTo _) fun _ => ?_
  exact .then (.write (.emit rfl)) fun _ => .track _

theorem straight_unpackRest (position : Nat) (type : ValueType) :
    Straight context (unpackRest position type) {} := by
  refine .then (.write (.loadInt _)) fun _ => .then (straight_push _) fun _ => ?_
  refine .then (.write (.loadClass _)) fun _ => .then (straight_push _) fun _ => ?_
  refine .then (.write (.callRoutine _ _)) fun _ => ?_
  exact .then (.write (.checkCast _)) fun _ => straight_replace _ _

theorem straight_unpackVector (position : Nat) (params : List Param) :
    Straight context (unpackVector position params) {} := by
  fun_induction unpackVector position params with
  | case1 position =>
      exact .then (.write (.emit rfl)) fun _ => .then (.track _) fun _ => .pure _
  | case2 position param isArray => exact straight_unpackRest _ _
  | case3 position param isSingle ih => exact .then (straight_unpackElement _ _) fun _ => ih
  | case4 position param params several ih =>
      exact .then (straight_unpackElement _ _) fun _ => ih

theorem straight_lowerArm (classId : Identity) (candidate : Candidate)
    (inConstructor : Bool) (position : Position) :
    Straight context (lowerArm classId candidate inConstructor position) {} := by
  refine .then (straight_arrangeReceiver _) fun _ => ?_
  exact .then (straight_unpackVector _ _) fun _ => straight_runConstructor _ _ _

theorem straight_dropVector (inConstructor : Bool) :
    Straight context (dropVector inConstructor) {} := by
  have pops : Straight context (do
      write (·.emit .pop)
      let _ ← track .pop) {} :=
    .then (.write (.emit rfl)) fun _ => .then (.track _) fun _ => .pure _
  unfold dropVector
  dsimp only
  split
  · exact .then (.write (.emit rfl)) fun _ => .then (.track _) fun _ => pops
  · exact pops

/-! ## Arms -/

variable {classId : Identity} {inConstructor : Bool} {position : Position}
  {entry : TypeStack}

theorem reads_placeArm {arm : Candidate × Label} (awaits : arm.2.branch ≠ .jump) :
    Reads (placeArm classId inConstructor position entry arm) context [] := by
  refine .then (reads_restore entry) fun _ => ?_
  refine .then (fun state => .resolve (Assembler.awaits_of_ne_jump _ awaits)) fun _ => ?_
  refine .then ((straight_lowerArm _ _ _ _).reads) fun _ => .then (fun state => ?_) fun _ => ?_
  · exact ⟨state.assembler.extends_jump, rfl, rfl, rfl, rfl⟩
  · exact .then reads_get fun _ => reads_pure _

theorem hasJump_placeArm {arm : Candidate × Label} {exit : Label × TypeStack}
    {after : LoweringState}
    (run : Runs (placeArm classId inConstructor position entry arm) context before exit after) :
    after.assembler.HasJump exit.1 := by
  simp only [placeArm, runs_bind, runs_writeLabelled, runs_get, runs_pure] at run
  obtain ⟨_, _, -, _, _, -, _, lowered, -, _, _, ⟨rfl, rfl⟩, _, _, ⟨rfl, rfl⟩, rfl, rfl⟩ := run
  exact lowered.assembler.hasJump_jump

theorem reads_lowerArms {arms : List (Candidate × Label)}
    (awaits : ∀ arm ∈ arms, arm.2.branch ≠ .jump) :
    Reads (lowerArms classId inConstructor position entry arms) context [] := by
  rw [lowerArms_eq]
  induction arms with
  | nil => exact reads_pure _
  | cons arm arms ih =>
      rw [List.mapM_cons]
      refine .then (reads_placeArm (awaits arm List.mem_cons_self)) fun _ => ?_
      refine .then (ih fun other member => ?_) fun _ => reads_pure _
      exact awaits other (List.mem_cons_of_mem arm member)

/-- Every exit of an arm is a pending jump at the end of the arms. -/
theorem hasJump_lowerArms {arms : List (Candidate × Label)}
    {exits : List (Label × TypeStack)} {after : LoweringState}
    (awaits : ∀ arm ∈ arms, arm.2.branch ≠ .jump)
    (run : Runs (lowerArms classId inConstructor position entry arms) context before exits
      after) : ∀ exit ∈ exits, after.assembler.HasJump exit.1 := by
  rw [lowerArms_eq] at run
  induction arms generalizing before exits with
  | nil =>
      rw [List.mapM_nil, runs_pure] at run
      rw [← run.1]
      simp
  | cons arm arms ih =>
      simp only [List.mapM_cons, runs_bind, runs_pure] at run
      obtain ⟨first, middle, places, others, _, lowers, rfl, rfl⟩ := run
      have rest : ∀ other ∈ arms, other.2.branch ≠ .jump := fun other member =>
        awaits other (List.mem_cons_of_mem arm member)
      intro exit member
      rcases List.mem_cons.mp member with rfl | later
      · have advances := Leads.advances (reads_lowerArms rest middle) lowers
        exact (hasJump_placeArm places).later advances.code
      · exact ih rest lowers exit later

theorem leads_resolveAll {exits : List Label}
    (jumps : ∀ exit ∈ exits, before.assembler.HasJump exit) :
    (exits.forM resolve).Leads context before [] := by
  induction exits generalizing before with
  | nil => exact reads_pure _ before
  | cons exit exits ih =>
      have resolves : (resolve exit).Leads context before [] :=
        .resolve (jumps exit List.mem_cons_self).awaits
      refine .then resolves fun _ middle run => ih fun other member => ?_
      exact (jumps other (List.mem_cons_of_mem exit member)).later
        (resolves.advances run).code

/-! ## Switches -/

/-- The distance of the first case does not fit its operand if there are too many cases
to be counted. -/
theorem stops_lowerArms {candidate : Candidate} {arms : List (Candidate × Label)}
    {label : Label} (far : 65536 ≤ before.assembler.listing.size - label.offset - 2) :
    (lowerArms classId inConstructor position entry ((candidate, label) :: arms)).Stops context
      before := by
  have tooFar : before.assembler.listing.distance label =
      .error ⟨before.assembler.listing.size - label.offset - 2⟩ := by
    simp only [Listing.distance, branchDistance]
    rw [if_neg (by omega)]
  have resolves : (resolve label).Stops context { before with stack := entry } := by
    refine .behind (runs_get.mpr ⟨rfl, rfl⟩) (.refl _) (.refl _) ?_
    simp only [tooFar]
    exact ⟨_, _, rfl, .refl _, .refl _⟩
  have restores : Runs (restore entry) context before () { before with stack := entry } :=
    (runs_modify _).mpr rfl
  rw [lowerArms_eq, List.mapM_cons]
  refine .ahead ?_ _
  exact .behind restores (.refl _) ⟨rfl, rfl, rfl, rfl⟩ (.ahead resolves _)

theorem stops_placeSwitch {table : CandidateTable} {key : ValueType} {rest : TypeStack}
    (entered : before.stack = key :: rest) (many : 65536 ≤ table.arms.length) :
    (placeSwitch context classId table position).Stops context before := by
  refine .behind ((runs_writeLabelled _).mpr ⟨rfl, rfl⟩) (.refl _) ⟨rfl, rfl, rfl, rfl⟩ ?_
  refine .behind (runs_pop.mpr ⟨rest, entered, rfl⟩) (.refl _) ⟨rfl, rfl, rfl, rfl⟩ ?_
  refine .behind (runs_get.mpr ⟨rfl, rfl⟩) (.refl _) (.refl _) ?_
  cases all : table.arms with
  | nil => simp [all] at many
  | cons candidate others =>
      refine .ahead ?_ _
      rw [cases_lookupSwitch, caseLabels, List.length_map, List.length_cons, List.range'_succ,
        List.map_cons, List.map_cons, List.zip_cons_cons]
      apply stops_lowerArms
      rw [all, List.length_cons] at many
      simp [caseLabel, Assembler.lookupSwitch, Listing.pushSwitch, Listing.push,
        Instruction.size, Operands.size]
      omega

theorem leads_placeSwitch {table : CandidateTable} {key : ValueType} {rest : TypeStack}
    (entered : before.stack = key :: rest) :
    (placeSwitch context classId table position).Leads context before [] := by
  rcases Nat.lt_or_ge table.arms.length 65536 with few | many
  · refine .then ⟨Assembler.extends_lookupSwitch _ (by simpa using few), rfl, rfl, rfl, rfl⟩
      fun labels switched switches => ?_
    obtain ⟨rfl, -⟩ := (runs_writeLabelled _).mp switches
    refine .then (reads_track _ _) fun _ popped _ => .then (reads_get _) fun _ _ _ => ?_
    have awaits : ∀ arm ∈ table.arms.zip
        (before.assembler.lookupSwitch (table.arms.map (·.key))).1.cases,
        arm.2.branch ≠ .jump := fun arm member =>
      Assembler.branch_ne_jump_of_cases (List.of_mem_zip member).2
    refine .then (reads_lowerArms awaits _) fun exits lowered lowers => ?_
    have jumps := hasJump_lowerArms awaits lowers
    refine .then (reads_restore _ _) fun _ restored restores => ?_
    have kept := ((reads_restore _ _).advances restores).code
    have falls : ∀ state, (resolve (before.assembler.lookupSwitch
        (table.arms.map (·.key))).1.fallback).Leads context state [] := fun state =>
      .resolve (Assembler.awaits_of_ne_jump _ Branch.noConfusion)
    have raises : Reads (write (·.raiseFatal incompatibleClassMessage)) context [] :=
      reads_write fun assembler => assembler.extends_raiseFatal _
    refine .then (falls _) fun _ fallen falling => .then (raises _) fun _ fatal fatals => ?_
    have later := (kept.trans ((falls _).advances falling).code).trans
      ((raises _).advances fatals).code
    rw [forM_fst]
    refine .then (leads_resolveAll fun exit member => ?_) fun _ resolved _ => ?_
    · obtain ⟨pair, among, rfl⟩ := List.mem_map.mp member
      exact (jumps pair among).later later
    · split
      · exact .then (reads_restore _ _) fun _ _ _ => (straight_dropVector _).reads _
      · exact reads_fail_bind _ _ _
  · exact (stops_placeSwitch entered many).leads

/-- What a switch does once the collisions of its table are reported. -/
def lowerSwitch (context : Context) (classId : Identity) (table : CandidateTable)
    (arguments : List Operand) (position : Position) : Lower Unit := do
  packVector arguments position
  selectKey classId arguments table.candidates.length
  loadInstance classId context.frame.isConstructor
  write (·.emit .swap)
  track .swap
  placeSwitch context classId table position

/-- What a switch does before its branches. -/
def enterDispatch (context : Context) (classId : Identity) (table : CandidateTable)
    (arguments : List Operand) (position : Position) : Lower Unit := do
  packVector arguments position
  selectKey classId arguments table.candidates.length
  loadInstance classId context.frame.isConstructor
  write (·.emit .swap)
  track .swap

theorem straight_enterDispatch {arguments : List Operand}
    (straight : ∀ operand ∈ arguments, operand.Straight context) (classId : Identity)
    (table : CandidateTable) (position : Position) :
    Straight context (enterDispatch context classId table arguments position)
      (operandWalk context arguments) := by
  refine .finish (straight_packVector straight position) fun _ => ?_
  refine .then (straight_selectKey _ _ _) fun _ => .then (straight_loadInstance _ _) fun _ => ?_
  exact .then (.write (.emit rfl)) fun _ => .track _

theorem stack_of_enterDispatch {table : CandidateTable} {arguments : List Operand}
    {after : LoweringState}
    (run : Runs (enterDispatch context classId table arguments position) context before ()
      after) :
    ∃ key newInstance vector rest, after.stack = key :: newInstance :: vector :: rest := by
  simp only [enterDispatch, runs_bind, runs_swap] at run
  obtain ⟨_, packed, -, _, selected, selects, _, loaded, loads, _, written, writes, _, _, _,
    swapped, rfl⟩ := run
  obtain ⟨vector, rest, found⟩ : ∃ vector rest, packed.stack = vector :: rest := by
    simp only [selectKey, runs_bind, runs_write, runs_dup] at selects
    obtain ⟨_, _, rfl, _, _, ⟨vector, rest, found, -⟩, -⟩ := selects
    exact ⟨vector, rest, found⟩
  have stack := ((selectKey_run selects).trans (loadInstance_run loads)).stack
  rw [found] at stack
  rw [runs_write] at writes
  rw [writes] at swapped
  cases stack.symm.trans swapped
  exact ⟨_, _, vector, rest, rfl⟩

theorem lowerSwitch_eq (table : CandidateTable) (arguments : List Operand) :
    lowerSwitch context classId table arguments position = (do
      enterDispatch context classId table arguments position
      placeSwitch context classId table position) := by
  simp only [lowerSwitch, enterDispatch, bind_assoc]

theorem reads_lowerSwitch {arguments : List Operand}
    (straight : ∀ operand ∈ arguments, operand.Straight context) (table : CandidateTable) :
    Reads (lowerSwitch context classId table arguments position) context
      (operandWalk context arguments).slots := by
  rw [lowerSwitch_eq, ← List.append_nil (operandWalk context arguments).slots]
  intro state
  refine Leads.bind ((straight_enterDispatch straight _ _ _).reads _) fun _ entered enters => ?_
  obtain ⟨key, newInstance, vector, rest, stack⟩ := stack_of_enterDispatch enters
  exact leads_placeSwitch stack

/-- The state once the collisions of a table are reported. -/
def LoweringState.report (state : LoweringState) (types : TypeTable) (table : CandidateTable)
    (position : Position) : LoweringState :=
  { state with
    ledger := (state.ledger.reportCollisions types table position state.diagnostics).1
    diagnostics := (state.ledger.reportCollisions types table position state.diagnostics).2 }

/-! ## Chained calls -/

theorem ChainCall.straight_arguments (call : ChainCall Expr) :
    ∀ operand ∈ call.operands.arguments, operand.Straight context := by
  rw [ChainCall.arguments_operands]
  exact straight_operandsOf call.arguments

/-- A chained call that is bound at once is lowered straight. -/
theorem ChainCall.straight_direct {call : ChainCall Expr} {table : CandidateTable}
    {candidate : Candidate} (classId : Identity)
    (bound : call.operands.boundCandidate context.frame table = some candidate) :
    Straight context (chainDirectly classId candidate.constructor call.operands.arguments
      call.operands.position) ((Call.chain call).walk context) := by
  rw [ChainCall.walk_operands]
  have enough := (arity_of_boundCandidate bound).symm
  exact straight_chainDirectly call.straight_arguments (Nat.le_of_eq enough) _ _

/-- A chained call that is bound at once reads the locals of its arguments. -/
theorem ChainCall.reads_direct {call : ChainCall Expr} {table : CandidateTable}
    {candidate : Candidate}
    (bound : call.operands.boundCandidate context.frame table = some candidate) :
    Reads (chainDirectly classId candidate.constructor call.operands.arguments
      call.operands.position) context ((Call.chain call).slots context) :=
  (straight_direct classId bound).reads

/-- So does one with a switch, as the arms take what was evaluated. -/
theorem ChainCall.reads_switch (call : ChainCall Expr) (table : CandidateTable) :
    Reads (lowerSwitch context classId table call.operands.arguments call.operands.position)
      context ((Call.chain call).slots context) := by
  have reads : Reads (lowerSwitch context classId table call.operands.arguments
      call.operands.position) context _ := reads_lowerSwitch call.straight_arguments table
  rwa [← ChainCall.walk_operands] at reads

/-- The hook was offered a call, answered, and left a state. -/
def Hooked (context : Context) (hook : ChainHook) (call : ChainCall Operand)
    (before : LoweringState) (answer : Bool) (hooked : LoweringState) : Prop :=
  ∃ marked, Runs (markLine call.position) context before () marked ∧
    Runs (hook call) context marked answer hooked

theorem Hooked.unique {hook : ChainHook} {call : ChainCall Operand}
    {first second : LoweringState} {answer other : Bool}
    (one : Hooked context hook call before answer first)
    (another : Hooked context hook call before other second) :
    other = answer ∧ second = first := by
  obtain ⟨marked, marks, hooks⟩ := one
  obtain ⟨_, marksAgain, hooksAgain⟩ := another
  obtain ⟨-, rfl⟩ := runs_unique marks marksAgain
  exact runs_unique hooks hooksAgain

/-- The hook declined a call, and the table of the called class was looked up. -/
structure ChainReady (context : Context) (hook : ChainHook) (call : ChainCall Operand)
    (before ready : LoweringState) (classId : Identity) (table : CandidateTable) :
    Prop where
  called : call.calledClass context = .ok classId
  declined : ∃ hooked ledger, Hooked context hook call before false hooked ∧
    Ledger.candidateTable context.types classId call.position hooked.ledger =
      .ok table ledger ∧ ready = { hooked with ledger }

/-- The ways in which a chained call may end. -/
inductive ChainEnds (context : Context) (hook : ChainHook) (call : ChainCall Operand)
    (before : LoweringState) : Option Fault → LoweringState → Prop
  | hooked {marked fault after} : Runs (markLine call.position) context before () marked →
      Ends (hook call) context marked (some fault) after →
      ChainEnds context hook call before (some fault) after
  | taken {after} : Hooked context hook call before true after →
      ChainEnds context hook call before none after
  | uncalled {error after} : Hooked context hook call before false after →
      call.calledClass context = .error error →
      ChainEnds context hook call before (some (.rejected error)) after
  | untabled {classId error hooked ledger} : Hooked context hook call before false hooked →
      call.calledClass context = .ok classId →
      Ledger.candidateTable context.types classId call.position hooked.ledger =
        .error error ledger →
      ChainEnds context hook call before (some (.rejected error)) { hooked with ledger }
  | direct {ready classId table candidate fault after} :
      ChainReady context hook call before ready classId table →
      call.boundCandidate context.frame table = some candidate →
      Ends (chainDirectly classId candidate.constructor call.arguments call.position) context
        ready fault after →
      ChainEnds context hook call before fault after
  | keySwitch {ready classId table fault after} :
      ChainReady context hook call before ready classId table →
      call.boundCandidate context.frame table = none →
      Ends (lowerSwitch context classId table call.arguments call.position) context
        (ready.report context.types table call.position) fault after →
      ChainEnds context hook call before fault after

theorem ends_chainBySwitch {table : CandidateTable} {arguments : List Operand}
    {fault : Option Fault} {after : LoweringState}
    (ends : Ends (chainBySwitch classId table arguments position) context before fault after) :
    Ends (lowerSwitch context classId table arguments position) context
      (before.report context.types table position) fault after := by
  cases fault with
  | none =>
      obtain ⟨result, run⟩ := ends
      exact ⟨result, run⟩
  | some fault => exact ends

theorem lowerChainCall_ends {hook : ChainHook} {call : ChainCall Operand}
    {fault : Option Fault} {after : LoweringState}
    (ends : Ends (lowerChainCall hook call) context before fault after) :
    ChainEnds context hook call before fault after := by
  rcases ends_bind ends with ⟨failed, marks⟩ | ⟨_, marked, marks, ends⟩
  · rw [ends_markLine marks] at failed
    cases failed
  rcases ends_bind ends with ⟨failed, hooks⟩ | ⟨answer, hooked, hooks, ends⟩
  · obtain ⟨fault, rfl⟩ := Option.isSome_iff_exists.mp failed
    exact .hooked marks hooks
  have offered : Hooked context hook call before answer hooked := ⟨marked, marks, hooks⟩
  cases answer with
  | true =>
      cases fault with
      | none =>
          obtain ⟨_, run⟩ := ends
          obtain ⟨-, rfl⟩ := (runs_pure _).mp run
          exact .taken offered
      | some fault => cases ends
  | false =>
      have ends := ends_read_bind ends
      rcases ends_accept_bind ends with ⟨error, uncalled, rfl, rfl⟩ | ⟨classId, called, ends⟩
      · exact .uncalled offered uncalled
      rcases ends_consult_bind ends with
        ⟨error, ledger, untabled, rfl, rfl⟩ | ⟨table, ledger, tabled, ends⟩
      · exact .untabled offered called untabled
      have ready : ChainReady context hook call before { hooked with ledger } classId table :=
        ⟨called, hooked, ledger, offered, tabled, rfl⟩
      split at ends
      · rename_i candidate bound
        exact .direct ready bound (ends_of_ends_map ends)
      · rename_i unbound
        exact .keySwitch ready unbound (ends_chainBySwitch (ends_of_ends_map ends))

/-- What a chained call does that its hook declined, if it succeeds. -/
inductive DeclinedSteps (context : Context) (call : ChainCall Operand)
    (hooked : LoweringState) : Construction → LoweringState → Prop
  | direct {classId table ledger candidate after} :
      call.calledClass context = .ok classId →
      Ledger.candidateTable context.types classId call.position hooked.ledger =
        .ok table ledger →
      call.boundCandidate context.frame table = some candidate →
      Runs (chainDirectly classId candidate.constructor call.arguments call.position) context
        { hooked with ledger } () after →
      DeclinedSteps context call hooked .direct after
  | keySwitch {classId table ledger after} :
      call.calledClass context = .ok classId →
      Ledger.candidateTable context.types classId call.position hooked.ledger =
        .ok table ledger →
      call.boundCandidate context.frame table = none →
      Runs (lowerSwitch context classId table call.arguments call.position) context
        (LoweringState.report { hooked with ledger } context.types table call.position) ()
        after →
      DeclinedSteps context call hooked .keySwitch after

theorem lowerChainCall_steps {hook : ChainHook} {call : ChainCall Operand}
    {way : Construction} {after : LoweringState}
    (run : Runs (lowerChainCall hook call) context before way after) :
    ∃ answer hooked, Hooked context hook call before answer hooked ∧
      if answer then way = .generatedClosure ∧ after = hooked
      else DeclinedSteps context call hooked way after := by
  rw [lowerChainCall, runs_bind] at run
  obtain ⟨_, marked, marks, run⟩ := run
  rw [runs_bind] at run
  obtain ⟨answer, hooked, hooks, run⟩ := run
  refine ⟨answer, hooked, ⟨marked, marks, hooks⟩, ?_⟩
  cases answer with
  | true =>
      simp only [if_true, runs_pure] at run
      exact ⟨run.1.symm, run.2.symm⟩
  | false =>
      simp only [Bool.false_eq_true, if_false, runs_bind, runs_read, runs_accept,
        runs_consult] at run
      obtain ⟨_, _, ⟨rfl, rfl⟩, classId, _, ⟨called, rfl⟩, table, _, ⟨ledger, tabled, rfl⟩,
        run⟩ := run
      split at run
      · rename_i candidate bound
        simp only [runs_bind, runs_pure] at run
        obtain ⟨_, _, chains, rfl, rfl⟩ := run
        exact .direct called tabled bound chains
      · rename_i unbound
        simp only [runs_bind, runs_pure] at run
        obtain ⟨_, _, chains, rfl, rfl⟩ := run
        exact .keySwitch called tabled unbound chains

/-- The ways in which a chained call may end that its hook declined. -/
inductive DeclinedEnds (context : Context) (call : ChainCall Operand)
    (hooked : LoweringState) : Option Fault → LoweringState → Prop
  | uncalled {error} : call.calledClass context = .error error →
      DeclinedEnds context call hooked (some (.rejected error)) hooked
  | untabled {classId error} : call.calledClass context = .ok classId →
      Ledger.candidateTable context.types classId call.position hooked.ledger =
        .error error hooked.ledger →
      DeclinedEnds context call hooked (some (.rejected error)) hooked
  | direct {classId table ledger candidate fault after} :
      call.calledClass context = .ok classId →
      Ledger.candidateTable context.types classId call.position hooked.ledger =
        .ok table ledger →
      call.boundCandidate context.frame table = some candidate →
      Ends (chainDirectly classId candidate.constructor call.arguments call.position) context
        { hooked with ledger } fault after →
      DeclinedEnds context call hooked fault after
  | keySwitch {classId table ledger fault after} :
      call.calledClass context = .ok classId →
      Ledger.candidateTable context.types classId call.position hooked.ledger =
        .ok table ledger →
      call.boundCandidate context.frame table = none →
      Ends (lowerSwitch context classId table call.arguments call.position) context
        (LoweringState.report { hooked with ledger } context.types table call.position) fault
        after →
      DeclinedEnds context call hooked fault after

theorem ends_of_declined {hook : ChainHook} {call : ChainCall Operand}
    {hooked after : LoweringState} {fault : Option Fault}
    (offered : Hooked context hook call before false hooked)
    (ends : Ends (lowerChainCall hook call) context before fault after) :
    DeclinedEnds context call hooked fault after := by
  cases lowerChainCall_ends ends with
  | hooked marks failed =>
      obtain ⟨_, marksAgain, hooks⟩ := offered
      obtain ⟨-, rfl⟩ := runs_unique marks marksAgain
      cases hooks.symm.trans failed
  | taken taken => cases (offered.unique taken).1
  | uncalled declined uncalled =>
      obtain ⟨-, rfl⟩ := declined.unique offered
      exact .uncalled uncalled
  | untabled declined called untabled =>
      obtain ⟨-, rfl⟩ := declined.unique offered
      obtain rfl := Ledger.eq_of_candidateTable_error untabled
      exact .untabled called untabled
  | direct ready bound chains =>
      obtain ⟨_, ledger, declined, tabled, rfl⟩ := ready.declined
      obtain ⟨-, rfl⟩ := declined.unique offered
      exact .direct ready.called tabled bound chains
  | keySwitch ready unbound switches =>
      obtain ⟨_, ledger, declined, tabled, rfl⟩ := ready.declined
      obtain ⟨-, rfl⟩ := declined.unique offered
      exact .keySwitch ready.called tabled unbound switches

end CallCode
