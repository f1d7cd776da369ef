import CallCode.Proofs.Lowering.ScheduledCalls

/-!
# Planned lowering

All of lowering goes by a plan.  What an action writes next is fixed by the types, the frame,
the tracked stack and the tables of the class, and by no constant, slot or code that is there
already.  An action is planned if it is put together from such steps.  Its marks come along.
A schedule whose operands are loaded as planned is a plan.
-/

namespace CallCode

namespace Lower

/-- Planned actions and the marks that they leave.  There are branches in their code only
where `jumps` holds. -/
inductive Planned (context : Context) (jumps : Prop) :
    {Result : Type} → Lower Result → List Mark → Prop
  | pure {Result : Type} (value : Result) : Planned context jumps (pure value) []
  | bind {Middle Result : Type} {first : Lower Middle} {next : Middle → Lower Result}
      {marks further : List Mark} : Planned context jumps first marks →
      (∀ value, Planned context jumps (next value) further) →
      Planned context jumps (first >>= next) (marks ++ further)
  /-- What an action would have left behind a failure does not matter. -/
  | fail {Result : Type} (error : LoweringError) (marks : List Mark) :
      Planned context jumps (fail error : Lower Result) marks
  | read {Result : Type} {next : Context → Lower Result} {marks : List Mark} :
      Planned context jumps (next context) marks → Planned context jumps (read >>= next) marks
  /-- Of the state, only the tracked stack decides what follows. -/
  | peek {Result : Type} {next : LoweringState → Lower Result} {marks : List Mark} :
      (∀ first second : LoweringState, first.stack = second.stack → next first = next second) →
      (∀ state, Planned context jumps (next state) marks) →
      Planned context jumps (get >>= next) marks
  | write (emit : Emit) : emit.isPlain = true →
      Planned context jumps (write fun assembler => (emit.run assembler).2) emit.marks
  | setLine (line : UInt32) : Planned context jumps (write (·.setLine line)) []
  | jump : jumps → Planned context jumps (writeLabelled (·.jump .jump)) []
  | lookupSwitch (keys : List Int32) : jumps →
      Planned context jumps (writeLabelled (·.lookupSwitch keys)) []
  | resolve (label : Label) : jumps → Planned context jumps (resolve label) []
  | track {Result : Type} (action : StackAction Result) : Planned context jumps (track action) []
  | restore (stack : TypeStack) : Planned context jumps (restore stack) []
  /-- The slot of a call goes nowhere but into its call site. -/
  | send (site : CallSite) (count : UInt8) {next : Lower Result} {marks : List Mark} :
      Planned context jumps next marks →
      Planned context jumps (do
        let slot ← consult (Ledger.allocate site)
        write (·.callSite slot count site.flags.bits)
        next) marks
  | recordSuper (name : String) : Planned context jumps
      (modify fun state => { state with ledger := state.ledger.recordSuper name })
      [.super name]
  | table (target : Identity) (position : Position) :
      Planned context jumps (consult (Ledger.candidateTable context.types target position)) []
  | report (table : CandidateTable) (position : Position) :
      Planned context jumps (modify fun state => state.report context.types table position) []

end Lower

open Lower

variable {context : Context} {jumps : Prop}

/-- An operand is loaded as planned, with the marks of its expression. -/
def Operand.Planned (context : Context) (jumps : Prop) (operand : Operand) : Prop :=
  Lower.Planned context jumps operand.load (operand.source.marks context)

theorem planned_markLine (position : Position) :
    Lower.Planned context jumps (markLine position) [] := by
  unfold markLine
  split
  · exact .pure ()
  · exact .setLine position.line

/-! ## Schedules -/

/-- The marks that a stage leaves. -/
def Stage.marks (context : Context) : Stage → List Mark
  | .mark left => [left]
  | .load operand => operand.source.marks context
  | .line _ | .dispatch | .adapt => []

theorem Stage.flatMap_marks_of_isCall {stages : List Stage}
    (calls : ∀ stage ∈ stages, stage.isCall = true) :
    stages.flatMap (Stage.marks context) = [] := by
  refine List.flatMap_eq_nil_iff.mpr fun stage member => ?_
  cases stage with
  | dispatch | adapt => rfl
  | line _ | mark _ | load _ => cases calls _ member

theorem Stage.flatMap_marks_mark (marks : List Mark) :
    (marks.map Stage.mark).flatMap (Stage.marks context) = marks := by
  rw [List.flatMap_map]
  exact marks.flatMap_singleton'

/-- What is scheduled goes as planned if all that is loaded does. -/
theorem Lower.Scheduled.planned {Result : Type} {action : Lower Result} {stages : List Stage}
    (scheduled : Scheduled context jumps action stages)
    (loads : ∀ operand, .load operand ∈ stages → operand.Planned context jumps) :
    Planned context jumps action (stages.flatMap (Stage.marks context)) := by
  induction scheduled with
  | pure value => exact .pure value
  | bind _ _ left right =>
      rw [List.flatMap_append]
      refine .bind (left fun operand member => ?_) fun value => right value fun operand member => ?_
      · exact loads operand (List.mem_append_left _ member)
      · exact loads operand (List.mem_append_right _ member)
  | fail error => exact .fail error _
  | read _ ih => exact .read (ih loads)
  | peek alike _ ih => exact .peek alike fun state => ih state loads
  | load operand =>
      rw [List.flatMap_singleton]
      exact loads operand (List.mem_singleton.mpr rfl)
  | @free _ _ operand free _ ih =>
      have none : operand.source.marks context = [] := by rw [Expr.marks, free]; rfl
      rw [List.flatMap_singleton, Stage.marks, none]
      exact ih fun _ member => by cases member
  | write emit plain =>
      rw [Stage.flatMap_marks_mark]
      exact .write emit plain
  | dispatch emit plain calls =>
      have writes : Planned context jumps _ emit.marks := .write emit plain
      rwa [emit.marks_of_dispatches calls] at writes
  | send site count _ ih =>
      refine .send site count (ih fun operand member => ?_)
      exact loads operand (List.mem_cons_of_mem _ member)
  | @adapt _ _ stages further _ calls ih =>
      have before := ih fun operand member => by
        rcases List.mem_append.mp member with early | late
        · exact loads operand (List.mem_append_left _ early)
        · cases calls _ late
      rw [List.flatMap_append, Stage.flatMap_marks_of_isCall calls] at before
      rw [List.flatMap_append]
      exact before
  | @absorb _ _ operand stages _ calls ih =>
      have before := ih fun other member => by
        rcases List.mem_cons.mp member with same | late
        · exact loads other (same ▸ List.mem_cons_self)
        · cases calls _ late
      rw [List.flatMap_cons, Stage.flatMap_marks_of_isCall calls] at before
      exact before
  | markLine position => exact planned_markLine position
  | jump jumps => exact .jump jumps
  | lookupSwitch keys jumps => exact .lookupSwitch keys jumps
  | resolve label jumps => exact .resolve label jumps
  | track action => exact .track action
  | restore stack => exact .restore stack
  | recordSuper name => exact .recordSuper name
  | table target position => exact .table target position
  | report table position => exact .report table position

/-! ## Expressions and calls -/

theorem operandMarks_eq (operands : List Operand) :
    operandMarks context operands =
      (loadedCalls context operands).flatMap (Call.ownMarks context) := by
  rw [loadedCalls, List.flatMap_assoc]
  rfl

theorem ChainCall.marks_operands (call : ChainCall Expr) :
    (Call.chain call).marks context = operandMarks context call.operands.arguments := by
  rw [Call.marks, Call.evaluated_eq, List.flatMap_cons, operandMarks_eq]
  rfl

theorem Stage.flatMap_marks_load (operands : List Operand) :
    (operands.map Stage.load).flatMap (Stage.marks context) = operandMarks context operands :=
  List.flatMap_map _ _ _

/-- Operands that are loaded before anything is called leave their marks. -/
theorem Lower.Scheduled.planned_operands {Result : Type} {action : Lower Result}
    {operands : List Operand} {stage : Stage}
    (scheduled : Scheduled context jumps action (operands.map .load ++ [stage]))
    (calls : stage.isCall = true)
    (planned : ∀ operand ∈ operands, operand.Planned context jumps) :
    Planned context jumps action (operandMarks context operands) := by
  have whole := scheduled.planned fun operand member => by
    rcases List.mem_append.mp member with early | late
    · obtain ⟨_, among, same⟩ := List.mem_map.mp early
      exact planned operand (Stage.load.inj same ▸ among)
    · obtain rfl := List.mem_singleton.mp late
      cases calls
  rw [List.flatMap_append, Stage.flatMap_marks_load, Stage.flatMap_marks_of_isCall,
    List.append_nil] at whole
  · exact whole
  · simpa using calls

/-- What is scheduled as a call leaves the marks of the calls that are evaluated in it. -/
theorem Lower.Scheduled.planned_call {Result : Type} {action : Lower Result} {call : Call Expr}
    {position : Position}
    (scheduled : Scheduled context jumps action
      (callStages position (call.ownMarks context) (call.loaded context)))
    (planned : ∀ operand ∈ call.loaded context, operand.Planned context jumps) :
    Planned context jumps action (call.marks context) := by
  have whole := scheduled.planned fun operand member =>
    planned operand (load_mem_callStages.mp member)
  have marks : (callStages position (call.ownMarks context) (call.loaded context)).flatMap
      (Stage.marks context) = call.marks context := by
    rw [Call.marks, Call.evaluated_eq, List.flatMap_cons, ← operandMarks_eq, callStages,
      List.flatMap_cons, List.flatMap_append, List.flatMap_append, Stage.flatMap_marks_mark,
      Stage.flatMap_marks_load]
    simp [Stage.marks]
  rwa [marks] at whole

/-- All expressions are loaded as planned. -/
theorem plannedProperty : LoadedProperty context jumps (Operand.Planned context jumps) where
  plain operand free scheduled := by
    have none : operand.source.marks context = [] := by rw [Expr.marks, free]; rfl
    rw [Operand.Planned, none]
    exact scheduled.planned fun _ member => by cases member
  around outer inner same scheduled planned := by
    have loads := scheduled.planned fun operand member => by
      rw [Stage.load.inj (List.mem_singleton.mp member)]
      exact planned
    rw [List.flatMap_singleton, Stage.marks, Expr.marks] at loads
    rw [Operand.Planned, Expr.marks]
    change Planned context jumps outer.lower ((outer.evaluated context).flatMap _)
    rw [same]
    exact loads
  call call planned := call.scheduled_lower.planned_call planned

theorem Expr.planned (expr : Expr) : expr.operand.Planned context jumps := plannedProperty.expr expr

theorem planned_operandsOf (exprs : List Expr) :
    ∀ operand ∈ operandsOf exprs, operand.Planned context jumps :=
  plannedProperty.operands exprs

theorem Call.planned_lower (call : Call Expr) :
    Planned context jumps (lowerCall call.operands) (call.marks context) :=
  call.scheduled_lower.planned_call (plannedProperty.loaded call)

theorem MethodCall.planned_lower (call : MethodCall Expr) :
    Planned context jumps (lowerMethodCall call.operands) ((Call.method call).marks context) :=
  MethodCall.scheduled_lower.planned_call (plannedProperty.loaded (.method call))

theorem StaticCall.planned_lower (call : StaticCall Expr) :
    Planned context jumps (lowerStaticCall call.operands) ((Call.static call).marks context) :=
  StaticCall.scheduled_lower.planned_call (plannedProperty.loaded (.static call))

theorem NewCall.planned_lower (call : NewCall Expr) :
    Planned context jumps (lowerNewCall call.operands) ((Call.create call).marks context) :=
  NewCall.scheduled_lower.planned_call (plannedProperty.loaded (.create call))

theorem planned_chainDirectly {classId : Identity} {position : Position}
    {arguments : List Operand} {constructor : Constructor}
    (planned : ∀ operand ∈ arguments, operand.Planned context jumps)
    (enough : arguments.length ≤ constructor.params.length) :
    Planned context jumps (chainDirectly classId constructor arguments position)
      (operandMarks context arguments) :=
  (scheduled_chainDirectly enough).planned_operands rfl planned

theorem planned_enterDispatch {classId : Identity} {position : Position}
    {arguments : List Operand} (planned : ∀ operand ∈ arguments, operand.Planned context jumps)
    (table : CandidateTable) :
    Planned context jumps (enterDispatch context classId table arguments position)
      (operandMarks context arguments) :=
  (scheduled_enterDispatch table arguments).planned_operands rfl planned

/-- However a chained call is made, its marks are those of its arguments. -/
theorem ChainCall.planned_declined (call : ChainCall Expr) :
    Planned context True (lowerDeclined call.operands) ((Call.chain call).marks context) := by
  have planned : ∀ operand ∈ call.operands.arguments, operand.Planned context True := by
    rw [ChainCall.arguments_operands]
    exact planned_operandsOf call.arguments
  rw [ChainCall.marks_operands]
  exact call.operands.scheduled_declined.planned_operands rfl planned

end CallCode
