import CallCode.Proofs.Lowering.ChainOutcome

/-!
# Bodies in steps

The body of a method is any sequence of steps.  It may go on behind an error, and may look
at all of the state but the tables that happen to be there already.  However it ends, what
the bodies of a class share has only grown, and it is the same whichever tables were there.
-/

namespace CallCode

open Lower

/-- Run an action and go on with its outcome, except behind a branch that became too long. -/
def Lower.attempt {Middle Result : Type} (action : Lower Middle)
    (next : Except LoweringError Middle → Lower Result) : Lower Result :=
  fun context before =>
    match action context before with
    | .ok value after => next (.ok value) context after
    | .error (.rejected error) after => next (.error error) context after
    | .error (.jumpTooFar failure) after => .error (.jumpTooFar failure) after

/-- A state with other tables. -/
def LoweringState.withTables (state : LoweringState) (tables : List CandidateTable) :
    LoweringState :=
  { state with ledger := { state.ledger with tables } }

/-- Actions that are sequences of steps. -/
inductive Lower.Stepwise (context : Context) : {Result : Type} → Lower Result → Prop
  | pure {Result : Type} (value : Result) : Stepwise context (pure value)
  | bind {Middle Result : Type} {first : Lower Middle} {next : Middle → Lower Result} :
      Stepwise context first → (∀ value, Stepwise context (next value)) →
      Stepwise context (first >>= next)
  | throw {Result : Type} (fault : Fault) : Stepwise context (throw fault : Lower Result)
  | attempt {Middle Result : Type} {action : Lower Middle}
      {next : Except LoweringError Middle → Lower Result} : Stepwise context action →
      (∀ outcome, Stepwise context (next outcome)) → Stepwise context (attempt action next)
  | read {Result : Type} {next : Context → Lower Result} :
      Stepwise context (next context) → Stepwise context (read >>= next)
  | look {Result : Type} {next : LoweringState → Lower Result} :
      (∀ (state : LoweringState) (tables : List CandidateTable),
        next (state.withTables tables) = next state) →
      (∀ state, Stepwise context (next state)) → Stepwise context (get >>= next)
  | write {step : Assembler → Assembler} :
      (∀ assembler : Assembler, assembler.pool.Within (step assembler).pool) →
      Stepwise context (write step)
  | writeLabelled {Result : Type} {step : Assembler → Result × Assembler} :
      (∀ assembler : Assembler, assembler.pool.Within (step assembler).2.pool) →
      Stepwise context (writeLabelled step)
  | track {Result : Type} (action : StackAction Result) : Stepwise context (track action)
  | restore (stack : TypeStack) : Stepwise context (restore stack)
  | table (target : Identity) (position : Position) :
      Stepwise context (consult (Ledger.candidateTable context.types target position))
  | report (table : CandidateTable) (position : Position) :
      Stepwise context (modify fun state => state.report context.types table position)
  | allocate (site : CallSite) : Stepwise context (consult (Ledger.allocate site))
  | recordSuper (name : String) : Stepwise context
      (modify fun state => { state with ledger := state.ledger.recordSuper name })

namespace Lower.Stepwise

variable {Result Middle Thing : Type} {context : Context}

theorem fail (error : LoweringError) : Stepwise context (fail error : Lower Result) :=
  .throw _

theorem after_accept {outcome : Except LoweringError Middle} {next : Middle → Lower Result}
    (right : ∀ value, outcome = .ok value → Stepwise context (next value)) :
    Stepwise context (accept outcome >>= next) := by
  cases outcome with
  | ok value => exact right value rfl
  | error error => exact .fail error

theorem forM {things : List Thing} {action : Thing → Lower Unit}
    (each : ∀ thing, Stepwise context (action thing)) :
    Stepwise context (things.forM action) := by
  induction things with
  | nil => exact .pure ()
  | cons thing things ih => exact .bind (each thing) fun _ => ih

theorem mapM {things : List Thing} {action : Thing → Lower Result}
    (each : ∀ thing, Stepwise context (action thing)) :
    Stepwise context (things.mapM action) := by
  induction things with
  | nil => exact .pure []
  | cons thing things ih =>
      rw [List.mapM_cons]
      exact .bind (each thing) fun _ => .bind ih fun _ => .pure _

theorem of_straight {action : Lower Result} {walk : Walk}
    (straight : Straight context action walk) : Stepwise context action := by
  induction straight with
  | pure value => exact .pure value
  | bind _ _ left right => exact .bind left right
  | fail error => exact .fail error
  | read _ ih => exact .read ih
  | peek same _ ih => exact .look (fun state tables => same _ _ rfl) ih
  | write step => exact .write fun assembler => (step.writes assembler).within
  | track action => exact .track action
  | send site count _ ih =>
      apply Stepwise.bind (.allocate site)
      intro slot
      apply Stepwise.bind _ fun _ => ih
      exact .write fun assembler => (assembler.writes_callSite _ _ _).within
  | recordSuper name => exact .recordSuper name

theorem resolve (label : Label) : Stepwise context (resolve label) := by
  apply Stepwise.look
  · exact fun _ _ => rfl
  · intro state
    split
    · exact .write fun assembler => .refl assembler.pool
    · exact .throw _

theorem placeArm (classId : Identity) (inConstructor : Bool) (position : Position)
    (entry : TypeStack) (arm : Candidate × Label) :
    Stepwise context (placeArm classId inConstructor position entry arm) := by
  refine .bind (.restore entry) fun _ => .bind (resolve arm.2) fun _ => ?_
  refine .bind (of_straight (straight_lowerArm _ _ _ _)) fun _ => ?_
  refine .bind (.writeLabelled fun assembler => .refl assembler.pool) fun _ => ?_
  exact .look (fun _ _ => rfl) fun _ => .pure _

theorem placeSwitch (classId : Identity) (table : CandidateTable) (position : Position) :
    Stepwise context (placeSwitch context classId table position) := by
  refine .bind (.writeLabelled fun assembler => .refl assembler.pool) fun labels => ?_
  refine .bind (.track _) fun _ => .look (fun _ _ => rfl) fun state => ?_
  refine .bind (mapM (placeArm _ _ _ _)) fun exits => .bind (.restore _) fun _ => ?_
  refine .bind (resolve _) fun _ => .bind (.write fun assembler => ?_) fun _ => ?_
  · exact (assembler.writes_raiseFatal _).within
  refine .bind (forM fun exit => resolve exit.1) fun _ => ?_
  split
  · exact .bind (.restore _) fun _ => of_straight (straight_dropVector _)
  · exact .fail _

/-- A chained call is a sequence of steps if its hook is. -/
theorem lowerChainCall {hook : ChainHook} {call : ChainCall Expr}
    (hooks : Stepwise context (hook call.operands)) :
    Stepwise context (lowerChainCall hook call.operands) := by
  refine .bind (of_straight (straight_markLine _)) fun _ => .bind hooks fun answer => ?_
  split
  · exact .pure _
  refine .read (.after_accept fun classId _ => .bind (.table _ _) fun table => ?_)
  split
  · rename_i candidate bound
    exact .bind (of_straight (ChainCall.straight_direct classId bound)) fun _ => .pure _
  · refine .bind (.read (.bind (.report table _) fun _ => ?_)) fun _ => .pure _
    have switches : Stepwise context (lowerSwitch context classId table
        call.operands.arguments call.operands.position) := by
      rw [lowerSwitch_eq]
      exact .bind (of_straight (straight_enterDispatch call.straight_arguments _ _ _)) fun _ =>
        placeSwitch classId table call.operands.position
    exact switches

theorem noHook (call : ChainCall Operand) : Stepwise context (noHook call) := .pure false

end Lower.Stepwise

end CallCode
