import CallCode.Proofs.Lowering.ArmExtent
import CallCode.Proofs.Lowering.ScheduledCalls

/-!
# Switches that are too long

The distance of a branch has two bytes.  Where a branch is longer, lowering breaks off and
reports no error.  Only a switch has branches: those of its cases lead over the arms in front
of theirs, that of its fallback leads over all arms, and those at the ends of arms over the
arms behind them.  So whether a chained call breaks off is told by the sizes of the arms.
-/

namespace CallCode

namespace Lower

variable {Result Middle : Type} {context : Context} {before middle : LoweringState}

/-- The action ends with a result, or with an error that is reported. -/
def Settles (action : Lower Result) (context : Context) (before : LoweringState) : Prop :=
  (∃ result after, Runs action context before result after) ∨
    ∃ error after, action context before = .error (.rejected error) after

theorem settles_of_runs {action : Lower Result} {result : Result} {after : LoweringState}
    (run : Runs action context before result after) : action.Settles context before :=
  .inl ⟨result, after, run⟩

theorem settles_bind {first : Lower Middle} {next : Middle → Lower Result} :
    (first >>= next).Settles context before ↔
      first.Settles context before ∧
        ∀ value middle, Runs first context before value middle →
          (next value).Settles context middle := by
  simp only [Settles, Runs, bind, ReaderT.bind, EStateM.bind]
  cases outcome : first context before with
  | ok value middle => simp
  | error fault middle => simp

/-- Behind an action that succeeds, what follows decides. -/
theorem settles_behind {first : Lower Middle} {next : Middle → Lower Result} {value : Middle}
    (run : Runs first context before value middle) :
    (first >>= next).Settles context before ↔ (next value).Settles context middle := by
  rw [settles_bind]
  constructor
  · exact fun both => both.2 value middle run
  · refine fun settles => ⟨settles_of_runs run, fun other last again => ?_⟩
    obtain ⟨rfl, rfl⟩ := runs_unique run again
    exact settles

theorem settles_pure (value : Result) : (pure value : Lower Result).Settles context before :=
  settles_of_runs ((runs_pure value).mpr ⟨rfl, rfl⟩)

theorem settles_map {action : Lower Middle} (change : Middle → Result) :
    (action >>= fun value => pure (change value)).Settles context before ↔
      action.Settles context before := by
  rw [settles_bind]
  exact and_iff_left fun value middle _ => settles_pure (change value)

theorem settles_fail (error : LoweringError) :
    (fail error : Lower Result).Settles context before :=
  .inr ⟨error, before, rfl⟩

theorem settles_modify (change : LoweringState → LoweringState) :
    (modify change : Lower Unit).Settles context before :=
  .inl ⟨(), change before, rfl⟩

theorem settles_accept (outcome : Except LoweringError Result) :
    (accept outcome).Settles context before := by
  cases outcome with
  | ok value => exact settles_pure value
  | error error => exact settles_fail error

theorem settles_track (action : StackAction Result) :
    (track action).Settles context before := by
  unfold Settles Runs track
  cases action before.stack <;> simp

theorem settles_consult (action : EStateM LoweringError Ledger Result) :
    (consult action).Settles context before := by
  unfold Settles Runs consult
  cases action before.ledger <;> simp

/-- A branch may end here exactly if its distance has two bytes. -/
theorem settles_resolve {label : Label} : (resolve label).Settles context before ↔
    before.assembler.listing.size - label.offset - 2 < 65536 := by
  rw [resolve, settles_behind (runs_get.mpr ⟨rfl, rfl⟩)]
  unfold Listing.distance branchDistance
  by_cases near : before.assembler.listing.size - label.offset - 2 < 65536
  · simp only [near, if_true, iff_true]
    exact settles_modify _
  · simp only [near, if_false, iff_false]
    rintro (⟨_, _, run⟩ | ⟨_, _, rejected⟩)
    · cases run
    · cases rejected

/-- Without branches, no branch is too long. -/
theorem Straight.settles {action : Lower Result} {walk : Walk}
    (straight : Straight context action walk) (before : LoweringState) :
    action.Settles context before := by
  induction straight generalizing before with
  | pure value => exact settles_pure value
  | bind _ _ left right =>
      exact settles_bind.mpr ⟨left before, fun value middle _ => right value middle⟩
  | fail error => exact settles_fail error
  | read _ ih => exact ih before
  | peek _ _ ih => exact ih before before
  | write step => exact settles_modify _
  | track action => exact settles_track action
  | send site count _ ih =>
      refine settles_bind.mpr ⟨settles_consult _, fun slot middle _ => ?_⟩
      exact settles_bind.mpr ⟨settles_modify _, fun _ last _ => ih last⟩
  | recordSuper name => exact settles_modify _

theorem settles_markLine (position : Position) :
    (markLine position).Settles context before :=
  (straight_markLine position).settles before

theorem settles_resolveAll {exits : List Label}
    (near : ∀ exit ∈ exits, before.assembler.listing.size - exit.offset - 2 < 65536) :
    (exits.forM resolve).Settles context before := by
  induction exits generalizing before with
  | nil => exact settles_pure ()
  | cons exit exits ih =>
      rw [List.forall_mem_cons] at near
      refine settles_bind.mpr ⟨settles_resolve.mpr near.1, fun _ middle resolves => ih ?_⟩
      obtain ⟨distance, -, rfl⟩ := (runs_resolve exit).mp resolves
      exact near.2

end Lower

open Lower

variable {context : Context} {before after : LoweringState} {classId : Identity}
  {position : Position} {newInstance vector : ValueType} {rest : TypeStack}

/-! ## Distances -/

/-- The distances of the cases of a switch, and behind them that of its fallback, where the
arms that are left stand behind code of some extent.  The arm of a constructor with too many
parameters is rejected, so that nothing behind it is measured. -/
def branchDistances (context : Context) (classId : Identity) (cases : Nat) :
    Extent → List Candidate → List Nat
  | extent, [] => [6 * cases + extent.size]
  | extent, candidate :: arms =>
      (6 * arms.length + extent.size) ::
        if candidate.constructor.params.length < 256 then
          branchDistances context classId cases (extent.behindArm context classId candidate) arms
        else []

/-- The number of parameters of the constructors of some arms. -/
def paramCount : List Candidate → Nat
  | [] => 0
  | candidate :: arms => candidate.constructor.params.length + paramCount arms

theorem size_behindArm (context : Context) (classId : Identity) (extent : Extent)
    (candidate : Candidate) :
    extent.size + (10 + 4 * candidate.constructor.params.length) ≤
        (extent.behindArm context classId candidate).size ∧
      (extent.behindArm context classId candidate).size ≤
        extent.size + (11 + 12 * candidate.constructor.params.length) := by
  have branches : Spans [.jump .jump rfl] 3 3 := .fixed fun _ => rfl
  have spans := ((Spans.arm context classId candidate).append branches).mono
    (show 10 + 4 * candidate.constructor.params.length ≤ _ by omega)
    (show _ ≤ 11 + 12 * candidate.constructor.params.length by omega)
  exact ⟨spans.least extent, spans.most extent⟩

/-- No distance is longer than what the cases and arms take at most. -/
theorem branchDistances_le {extent : Extent} {arms : List Candidate} {cases : Nat}
    (counted : arms.length ≤ cases) :
    ∀ distance ∈ branchDistances context classId cases extent arms,
      distance ≤ 6 * cases + extent.size + 11 * arms.length + 12 * paramCount arms := by
  induction arms generalizing extent with
  | nil => simp [branchDistances, paramCount]
  | cons candidate arms ih =>
      have most := (size_behindArm context classId extent candidate).2
      rw [List.length_cons] at counted
      rw [branchDistances, List.forall_mem_cons, List.length_cons, paramCount]
      refine ⟨by omega, fun distance member => ?_⟩
      split at member
      · have shorter := ih (Nat.le_of_succ_le counted) distance member
        omega
      · simp at member

/-- If no arm is rejected, the fallback leads over what the cases and arms take at least. -/
theorem exists_branchDistance_ge {extent : Extent} {arms : List Candidate} (cases : Nat)
    (few : ∀ candidate ∈ arms, candidate.constructor.params.length < 256) :
    ∃ distance ∈ branchDistances context classId cases extent arms,
      6 * cases + extent.size + 10 * arms.length + 4 * paramCount arms ≤ distance := by
  induction arms generalizing extent with
  | nil => exact ⟨_, List.mem_singleton_self _, by simp [paramCount]⟩
  | cons candidate arms ih =>
      have least := (size_behindArm context classId extent candidate).1
      rw [List.forall_mem_cons] at few
      obtain ⟨distance, member, long⟩ := @ih (extent.behindArm context classId candidate) few.2
      rw [branchDistances, if_pos few.1, List.length_cons, paramCount]
      exact ⟨distance, List.mem_cons_of_mem _ member, by omega⟩

/-- Every branch of the switch over a table has a distance of two bytes, where its arms start
with a pool. -/
def CandidateTable.Fits (table : CandidateTable) (context : Context) (classId : Identity)
    (pool : ConstantPool) : Prop :=
  ∀ distance ∈ branchDistances context classId table.arms.length { pool } table.arms,
    distance < 65536

namespace CandidateTable

variable {table : CandidateTable} {pool : ConstantPool}

theorem fits_of_small (small : 17 * table.arms.length + 12 * paramCount table.arms < 65536) :
    table.Fits context classId pool := by
  intro distance member
  have most := branchDistances_le (Nat.le_refl _) distance member
  dsimp only at most
  omega

theorem not_fits_of_large
    (few : ∀ candidate ∈ table.arms, candidate.constructor.params.length < 256)
    (large : 65536 ≤ 16 * table.arms.length + 4 * paramCount table.arms) :
    ¬table.Fits context classId pool := by
  intro fits
  obtain ⟨distance, member, least⟩ :=
    @exists_branchDistance_ge context classId { pool } table.arms table.arms.length few
  have short := fits distance member
  dsimp only at least
  omega

end CandidateTable

/-- Lowering an arm settles exactly if the branch to it is short enough. -/
theorem settles_placeArm {candidate : Candidate} {label : Label} :
    (placeArm classId context.frame.isConstructor position (newInstance :: vector :: rest)
      (candidate, label)).Settles context before ↔
      before.assembler.listing.size - label.offset - 2 < 65536 := by
  have restores : Runs (restore (newInstance :: vector :: rest)) context before () _ :=
    (runs_modify _).mpr rfl
  rw [placeArm, settles_behind restores, settles_bind, settles_resolve]
  refine and_iff_left fun _ middle _ => settles_bind.mpr ⟨?_, fun _ last _ => ?_⟩
  · exact (straight_lowerArm _ _ _ _).settles _
  · rw [settles_behind ((runs_writeLabelled _).mpr ⟨rfl, rfl⟩),
      settles_behind (runs_get.mpr ⟨rfl, rfl⟩)]
    exact settles_pure _

/-- The constructor of an arm that is placed has not too many parameters. -/
theorem few_of_placeArm {candidate : Candidate} {label : Label} {exit : Label × TypeStack}
    (run : Runs (placeArm classId context.frame.isConstructor position
      (newInstance :: vector :: rest) (candidate, label)) context before exit after) :
    candidate.constructor.params.length < 256 := by
  simp only [placeArm, restore, runs_bind, runs_modify, runs_resolve] at run
  obtain ⟨_, _, rfl, _, _, ⟨_, _, rfl⟩, _, _, lowers, -⟩ := run
  exact (lowerArm_run rfl lowers).1

/-- Lowering the arms settles and leaves the fallback near enough exactly if every distance is
short enough. -/
theorem settles_lowerArms {extent : Extent} {arms : List Candidate}
    {item offset first cases : Nat} (total : first + arms.length = cases)
    (reached : extent.Reached (offset + 5 + 6 * cases) before.assembler) :
    ((lowerArms classId context.frame.isConstructor position (newInstance :: vector :: rest)
        (arms.zip (caseLabels item offset first arms.length))).Settles context before ∧
      ∀ exits after, Runs (lowerArms classId context.frame.isConstructor position
          (newInstance :: vector :: rest)
          (arms.zip (caseLabels item offset first arms.length))) context before exits after →
        after.assembler.listing.size - (offset + 3) - 2 < 65536) ↔
      ∀ distance ∈ branchDistances context classId cases extent arms, distance < 65536 := by
  simp only [lowerArms_eq]
  -- `extent` is what the arms in front occupy, so that it grows along the induction
  induction arms generalizing before extent first with
  | nil =>
      have reach : before.assembler.listing.size - (offset + 3) - 2 =
          6 * cases + extent.size := by
        have size := reached.size
        omega
      simp only [List.zip_nil_left, List.mapM_nil, runs_pure, branchDistances,
        List.mem_singleton, forall_eq, settles_pure, true_and]
      rw [← reach]
      constructor
      · exact fun near => near [] before ⟨rfl, rfl⟩
      · rintro near _ _ ⟨-, rfl⟩
        exact near
  | cons candidate arms ih =>
      rw [List.length_cons] at total
      have shift : first + 1 + arms.length = cases := by omega
      have reach : before.assembler.listing.size - (caseLabel item offset first).offset - 2 =
          6 * arms.length + extent.size := by
        have size := reached.size
        rw [size, caseLabel]
        dsimp only
        omega
      have labels : caseLabels item offset first (candidate :: arms).length =
          caseLabel item offset first :: caseLabels item offset (first + 1) arms.length := by
        rw [caseLabels, List.length_cons, List.range'_succ, List.map_cons, caseLabels]
      rw [labels, List.zip_cons_cons, List.mapM_cons, branchDistances,
        List.forall_mem_cons]
      -- the case is closed before its arm is written, so that its distance decides first
      by_cases near : 6 * arms.length + extent.size < 65536
      · by_cases few : candidate.constructor.params.length < 256
        · obtain ⟨exit, middle, places, later⟩ := runs_placeArm extent (reach ▸ near) few reached
          rw [if_pos few, ← ih shift later, settles_behind places, settles_map]
          simp only [near, true_and, runs_bind, runs_pure]
          refine and_congr_right fun _ => ⟨fun each exits last lowers => ?_, ?_⟩
          · exact each _ _ ⟨_, _, places, _, _, lowers, rfl, rfl⟩
          · rintro each _ last ⟨_, _, again, exits, _, lowers, -, rfl⟩
            obtain ⟨rfl, rfl⟩ := runs_unique places again
            exact each exits _ lowers
        · rw [if_neg few]
          simp only [near, true_and, List.not_mem_nil, false_imp_iff, implies_true, iff_true]
          refine ⟨settles_bind.mpr ⟨settles_placeArm.mpr (reach ▸ near), fun _ _ places => ?_⟩,
            fun _ _ run => ?_⟩
          · exact absurd (few_of_placeArm places) few
          · obtain ⟨_, _, places, -⟩ := (runs_bind _ _).mp run
            exact absurd (few_of_placeArm places) few
      · simp only [near, false_and, iff_false]
        intro both
        have first := (settles_bind.mp both.1).1
        rw [settles_placeArm, reach] at first
        exact near first

/-! ## Switches -/

/-- The branch at the end of an arm stands behind where the first arm starts. -/
theorem ArmsLaid.lt_offset {runs : Candidate → List Placed → Prop} {exits : Nat → UInt16 → Prop}
    {item start entry : Nat} {arms : List Candidate} {cases : List SwitchCase}
    {labels : List Label} {placed : List Placed}
    (laid : ArmsLaid runs exits item start entry arms cases labels placed) :
    ∀ label ∈ labels, start < label.offset := by
  induction laid with
  | nil => simp
  | cons _ _ _ _ ih =>
      rw [List.forall_mem_cons]
      refine ⟨Nat.lt_succ_of_le (Nat.le_add_right _ _), fun label member => ?_⟩
      exact Nat.lt_of_le_of_lt (by omega) (ih label member)

/-- What a switch does once its arms are placed. -/
def closeSwitch (context : Context) (entry : TypeStack) (fallback : Label)
    (exits : List (Label × TypeStack)) : Lower Unit := do
  restore entry
  resolve fallback
  write (·.raiseFatal incompatibleClassMessage)
  exits.forM fun (exit, _) => resolve exit
  match exits.getLast? with
  | some (_, stack) => restore stack
  | none => fail (.internal .switchHasNoArms)
  dropVector context.frame.isConstructor

/-- The branches at the ends of arms are no longer than that of the fallback. -/
theorem settles_closeSwitch {entry : TypeStack} {fallback : Label}
    {exits : List (Label × TypeStack)}
    (behind : ∀ exit ∈ exits, fallback.offset + 3 ≤ exit.1.offset) :
    (closeSwitch context entry fallback exits).Settles context before ↔
      before.assembler.listing.size - fallback.offset - 2 < 65536 := by
  have restores : Runs (restore entry) context before () _ := (runs_modify _).mpr rfl
  rw [closeSwitch, settles_behind restores, settles_bind, settles_resolve]
  refine ⟨And.left, fun near => ⟨near, fun _ fallen falls => ?_⟩⟩
  obtain ⟨distance, -, rfl⟩ := (runs_resolve fallback).mp falls
  refine settles_bind.mpr ⟨settles_modify _, fun _ fatal fails => ?_⟩
  obtain rfl := (runs_write _).mp fails
  rw [forM_fst, settles_bind]
  constructor
  · refine settles_resolveAll fun label member => ?_
    obtain ⟨exit, among, rfl⟩ := List.mem_map.mp member
    have later := behind exit among
    have size : ((before.assembler.setDistance fallback distance).raiseFatal
        incompatibleClassMessage).listing.size = before.assembler.listing.size + 3 := rfl
    rw [size]
    omega
  · intro _ resolved _
    cases exits.getLast? with
    | none =>
        exact settles_bind.mpr ⟨settles_fail _, fun _ _ fails => ((runs_fail _).mp fails).elim⟩
    | some exit =>
        refine settles_bind.mpr ⟨settles_modify _, fun _ kept _ => ?_⟩
        exact (straight_dropVector _).settles kept

theorem settles_placeSwitch {table : CandidateTable} {key : ValueType}
    (entered : before.stack = key :: newInstance :: vector :: rest) :
    (placeSwitch context classId table position).Settles context before ↔
      table.Fits context classId before.assembler.pool := by
  let labels := (before.assembler.lookupSwitch (table.arms.map (·.key))).1
  let switched := (before.assembler.lookupSwitch (table.arms.map (·.key))).2
  let opened : LoweringState :=
    { before with assembler := switched, stack := newInstance :: vector :: rest }
  have cases : labels.cases = caseLabels before.assembler.listing.items.size
      before.assembler.listing.size 0 table.arms.length := by
    rw [cases_lookupSwitch, List.length_map]
  have switches : Runs (writeLabelled (·.lookupSwitch (table.arms.map (·.key)))) context before
      labels { before with assembler := switched } := (runs_writeLabelled _).mpr ⟨rfl, rfl⟩
  have pops : Runs (track .pop) context { before with assembler := switched } key opened :=
    runs_pop.mpr ⟨_, entered, rfl⟩
  have reached : Extent.Reached { pool := before.assembler.pool }
      (before.assembler.listing.size + 5 + 6 * table.arms.length) opened.assembler := by
    refine ⟨?_, rfl⟩
    simp [opened, switched, Assembler.lookupSwitch, Listing.pushSwitch, Listing.push,
      Instruction.size, Operands.size]
    omega
  have places : placeSwitch context classId table position = (do
      let labels ← writeLabelled (·.lookupSwitch (table.arms.map (·.key)))
      let _ ← track .pop
      let entry := (← get).stack
      let exits ← lowerArms classId context.frame.isConstructor position entry
        (table.arms.zip labels.cases)
      closeSwitch context entry labels.fallback exits) := rfl
  rw [places, settles_behind switches, settles_behind pops,
    settles_behind (runs_get.mpr ⟨rfl, rfl⟩), settles_bind, cases]
  -- the branches at the ends of arms stand behind the switch, so that the fallback decides
  refine Iff.trans (and_congr_right fun _ => forall_congr' fun exits =>
    forall_congr' fun lowered => imp_congr_right fun lowers =>
      settles_closeSwitch fun exit member => ?_)
    (settles_lowerArms (Nat.zero_add _) reached)
  rw [← cases] at lowers
  have offset : labels.fallback.offset = before.assembler.listing.size + 3 := rfl
  obtain ⟨_, placed, -, -, laid, -⟩ := layCases_run rfl rfl lowers
  have later := laid.lt_offset exit.1 (List.mem_map_of_mem member)
  omega

theorem settles_lowerSwitch {table : CandidateTable} {arguments : List Operand}
    (straight : ∀ operand ∈ arguments, operand.Straight context) :
    (lowerSwitch context classId table arguments position).Settles context before ↔
      ∀ entered, Runs (enterDispatch context classId table arguments position) context before ()
          entered →
        table.Fits context classId entered.assembler.pool := by
  rw [lowerSwitch_eq, settles_bind]
  constructor
  · intro both entered enters
    obtain ⟨key, newInstance, vector, rest, stack⟩ := stack_of_enterDispatch enters
    exact (settles_placeSwitch stack).mp (both.2 () entered enters)
  · refine fun near => ⟨(straight_enterDispatch straight _ _ _).settles before, ?_⟩
    intro _ entered enters
    obtain ⟨key, newInstance, vector, rest, stack⟩ := stack_of_enterDispatch enters
    exact (settles_placeSwitch stack).mpr (near entered enters)

/-! ## Chained calls -/

/-- A call that its hook declined settles exactly if the switch does that it may need. -/
theorem settles_lowerDeclined (call : ChainCall Expr) (hooked : LoweringState) :
    (lowerDeclined call.operands).Settles context hooked ↔
      ∀ classId table ledger, call.operands.calledClass context = .ok classId →
        Ledger.candidateTable context.types classId call.operands.position hooked.ledger =
          .ok table ledger →
        call.operands.boundCandidate context.frame table = none →
        (lowerSwitch context classId table call.operands.arguments
          call.operands.position).Settles context
          (LoweringState.report { hooked with ledger } context.types table
            call.operands.position) := by
  have reports : ∀ classId table state,
      (chainBySwitch classId table call.operands.arguments call.operands.position).Settles context
          state ↔
        (lowerSwitch context classId table call.operands.arguments
          call.operands.position).Settles context
          (state.report context.types table call.operands.position) := fun _ _ _ => Iff.rfl
  rw [lowerDeclined, settles_behind (runs_read.mpr ⟨rfl, rfl⟩)]
  constructor
  · intro settles classId table ledger called tabled unbound
    rw [settles_behind ((runs_accept _).mpr ⟨called, rfl⟩),
      settles_behind ((runs_consult _).mpr ⟨ledger, tabled, rfl⟩), unbound] at settles
    exact (reports _ _ _).mp ((settles_map _).mp settles)
  · intro switches
    refine settles_bind.mpr ⟨settles_accept _, fun classId _ accepts => ?_⟩
    obtain ⟨called, rfl⟩ := (runs_accept _).mp accepts
    refine settles_bind.mpr ⟨settles_consult _, fun table _ consults => ?_⟩
    obtain ⟨ledger, tabled, rfl⟩ := (runs_consult _).mp consults
    split
    · rename_i candidate bound
      exact (settles_map _).mpr ((ChainCall.straight_direct classId bound).settles _)
    · rename_i unbound
      exact (settles_map _).mpr ((reports _ _ _).mpr (switches _ _ _ called tabled unbound))

theorem settles_lowerChainCall (hook : ChainHook) (call : ChainCall Expr) :
    (lowerChainCall hook call.operands).Settles context before ↔
      (∀ marked, Runs (markLine call.operands.position) context before () marked →
        (hook call.operands).Settles context marked) ∧
      ∀ ready classId table entered,
        ChainReady context hook call.operands before ready classId table →
        call.operands.boundCandidate context.frame table = none →
        Runs (enterDispatch context classId table call.operands.arguments
          call.operands.position) context
          (ready.report context.types table call.operands.position) () entered →
        table.Fits context classId entered.assembler.pool := by
  rw [lowerChainCall_eq, settles_bind]
  constructor
  · rintro ⟨-, offered⟩
    refine ⟨fun marked marks => (settles_bind.mp (offered () marked marks)).1, ?_⟩
    intro ready classId table entered prepared unbound enters
    obtain ⟨hooked, ledger, ⟨marked, marks, hooks⟩, tabled, rfl⟩ := prepared.declined
    have declines := (settles_bind.mp (offered () marked marks)).2 false hooked hooks
    have switches := (settles_lowerDeclined call hooked).mp declines classId table ledger
      prepared.called tabled unbound
    exact (settles_lowerSwitch call.straight_arguments).mp switches entered enters
  · rintro ⟨hooks, fits⟩
    refine ⟨settles_markLine _, fun _ marked marks => ?_⟩
    refine settles_bind.mpr ⟨hooks marked marks, fun answer hooked offered => ?_⟩
    cases answer with
    | true => exact settles_pure _
    | false =>
        refine (settles_lowerDeclined call hooked).mpr fun classId table ledger called tabled
          unbound => (settles_lowerSwitch call.straight_arguments).mpr fun entered enters => ?_
        exact fits _ classId table entered
          ⟨called, hooked, ledger, ⟨marked, marks, offered⟩, tabled, rfl⟩ unbound enters

/-- Whatever the class, the frame and the arguments are, a chained call ends with a result or
with an error exactly if its hook does and, where it needs a switch, every branch of the switch
has a distance of two bytes.  All have that if there are not too many arms and parameters; and
of enough of them, unless one is rejected, some branch is too long, so that lowering breaks
off. -/
theorem settles_chainCall_iff (context : Context) (hook : ChainHook) (call : ChainCall Expr)
    (state : LoweringState) :
    ((lowerChainCall hook call.operands).Settles context state ↔
      (∀ marked, Runs (markLine call.operands.position) context state () marked →
        (hook call.operands).Settles context marked) ∧
      ∀ ready classId table entered,
        ChainReady context hook call.operands state ready classId table →
        call.operands.boundCandidate context.frame table = none →
        Runs (enterDispatch context classId table call.operands.arguments
          call.operands.position) context
          (ready.report context.types table call.operands.position) () entered →
        table.Fits context classId entered.assembler.pool) ∧
    ∀ classId (table : CandidateTable) pool,
      (17 * table.arms.length + 12 * paramCount table.arms < 65536 →
        table.Fits context classId pool) ∧
      ((∀ candidate ∈ table.arms, candidate.constructor.params.length < 256) →
        65536 ≤ 16 * table.arms.length + 4 * paramCount table.arms →
        ¬table.Fits context classId pool) :=
  ⟨settles_lowerChainCall hook call, fun _ _ _ =>
    ⟨CandidateTable.fits_of_small, CandidateTable.not_fits_of_large⟩⟩

end CallCode
