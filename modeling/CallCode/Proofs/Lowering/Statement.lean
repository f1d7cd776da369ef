import CallCode.Proofs.Lowering.SwitchLayout

/-!
# Calls as statements

A chained call offers itself to the hook first.  If the hook declines, the called
class and its candidates decide between direct binding and the switch.  Any other
call is lowered as the expression that it is.
-/

namespace CallCode

open Lower

variable {context : Context} {hook : ChainHook} {before after : LoweringState}

/-- What a chained call does before it is bound: the hook declines, and the table of
the called class is looked up. -/
structure ChainPrepared (context : Context) (hook : ChainHook) (call : ChainCall Operand)
    (before ready : LoweringState) (classId : Identity) (table : CandidateTable) :
    Prop where
  called : call.calledClass context = .ok classId
  declined : ∃ marked hooked, before.Pushes marked [] [] ∧ marked.ledger = before.ledger ∧
    Runs (hook call) context marked false hooked ∧
    Ledger.candidateTable context.types classId call.position hooked.ledger =
      .ok table ready.ledger ∧
    ready.assembler = hooked.assembler ∧ ready.stack = hooked.stack

/-- The ways in which a chained call is lowered. -/
inductive ChainSteps (context : Context) (hook : ChainHook) (call : ChainCall Operand)
    (before after : LoweringState) : Construction → Prop
  | closure {marked} : before.Pushes marked [] [] → marked.ledger = before.ledger →
      Runs (hook call) context marked true after →
      ChainSteps context hook call before after .generatedClosure
  | direct {ready classId table candidate} :
      ChainPrepared context hook call before ready classId table →
      call.boundCandidate context.frame table = some candidate →
      Runs (chainDirectly classId candidate.constructor call.arguments call.position)
        context ready () after →
      ChainSteps context hook call before after .direct
  | keySwitch {ready classId table} :
      ChainPrepared context hook call before ready classId table →
      call.boundCandidate context.frame table = none →
      Runs (chainBySwitch classId table call.arguments call.position) context ready ()
        after →
      ChainSteps context hook call before after .keySwitch

theorem isConstructor_of_boundCandidate {call : ChainCall Operand} {frame : Frame}
    {table : CandidateTable} {candidate : Candidate}
    (bound : call.boundCandidate frame table = some candidate) :
    frame.isConstructor = true ∧ containsSpread (sources call.arguments) = false := by
  unfold ChainCall.boundCandidate at bound
  rw [Option.ite_none_right_eq_some, Bool.and_eq_true, Bool.not_eq_true'] at bound
  exact bound.1

theorem markLine_ledger {position : Position}
    (run : Runs (markLine position) context before () after) :
    after.ledger = before.ledger := by
  rw [runs_markLine] at run
  split at run <;> rw [run]

theorem lowerChainCall_run {call : ChainCall Operand} {way : Construction}
    (run : Runs (lowerChainCall hook call) context before way after) :
    ChainSteps context hook call before after way := by
  rw [lowerChainCall, runs_bind] at run
  obtain ⟨_, marked, marks, run⟩ := run
  have start := markLine_run marks
  have ledger := markLine_ledger marks
  rw [runs_bind] at run
  obtain ⟨answer, hooked, hooks, run⟩ := run
  cases answer with
  | true =>
      simp only [if_true, runs_pure] at run
      obtain ⟨rfl, rfl⟩ := run
      exact .closure start ledger hooks
  | false =>
      simp only [Bool.false_eq_true, if_false, runs_bind, runs_read, runs_accept,
        runs_consult] at run
      obtain ⟨_, _, ⟨rfl, rfl⟩, classId, _, ⟨called, rfl⟩, table, _, ⟨later, found, rfl⟩,
        run⟩ := run
      have prepared : ChainPrepared context hook call before { hooked with ledger := later }
          classId table :=
        ⟨called, marked, hooked, start, ledger, hooks, found, rfl, rfl⟩
      split at run
      · rename_i candidate bound
        simp only [runs_bind, runs_pure] at run
        obtain ⟨_, _, chains, rfl, rfl⟩ := run
        exact .direct prepared bound chains
      · rename_i unbound
        simp only [runs_bind, runs_pure] at run
        obtain ⟨_, _, chains, rfl, rfl⟩ := run
        exact .keySwitch prepared unbound chains

end CallCode
