import CallCode.Proofs.Lowering.Bodies
import CallCode.Proofs.Lowering.EvaluatedCalls

/-!
# What bodies ask for

A body asks for one thing after another, and a hook may ask for others in between.  Each of
them is a task, which was lowered to its end or rejected on the way.
-/

namespace CallCode

open Lower

/-- Something that a body asked for in a context, and whether it was lowered to its end. -/
structure Task where
  context : Context
  entry : Entry
  lowered : Bool

/-- The calls that are evaluated in what a body asked for. -/
def Entry.evaluated (context : Context) : Entry → List (Call Expr)
  | .expr operand => operand.evaluated context
  | .call called => called.evaluated context
  | .chain chained => (Call.chain chained).evaluated context

/-- The calls of a task. -/
def Task.calls (task : Task) : List (Call Expr) := task.entry.evaluated task.context

/-- The tasks on the way of a body from one state to another, each of which may have been
rejected. -/
inductive Works (context : Context) : LoweringState → List Task → LoweringState → Prop
  | start (state : LoweringState) : Works context state [] state
  | mark {position : Position} {before after : LoweringState} :
      Runs (markLine position) context before () after → Works context before [] after
  | expr {operand : Expr} {before after : LoweringState} {fault : Option Fault} :
      Ends operand.lower context before fault after →
      Works context before [⟨context, .expr operand, fault.isNone⟩] after
  | call {called : Call Expr} {before after : LoweringState} {fault : Option Fault} :
      Ends (lowerCall called.operands) context before fault after →
      Works context before [⟨context, .call called, fault.isNone⟩] after
  /-- A chained call goes on behind the tasks of a hook that declines it. -/
  | chain {hook : ChainHook} {chained : ChainCall Expr} {tasks : List Task}
      {before hooked after : LoweringState} {fault : Option Fault} :
      Works context before tasks hooked →
      Hooked context hook chained.operands before false hooked →
      Ends (lowerChainCall hook chained.operands) context before fault after →
      Works context before (tasks ++ [⟨context, .chain chained, fault.isNone⟩]) after
  | append {first second third : LoweringState} {tasks others : List Task} :
      Works context first tasks second → Works context second others third →
      Works context first (tasks ++ others) third

variable {context : Context} {hook : ChainHook} {before after : LoweringState}
  {fault : Option Fault}

/-- All that a hook does is to work on tasks. -/
def ChainHook.Works (hook : ChainHook) : Prop :=
  ∀ (call : ChainCall Expr) context before fault after,
    Ends (hook call.operands) context before fault after →
      ∃ tasks, CallCode.Works context before tasks after

theorem Hooked.works {call : ChainCall Expr} {answer : Bool} (works : hook.Works)
    (offered : Hooked context hook call.operands before answer after) :
    ∃ tasks, Works context before tasks after := by
  obtain ⟨marked, marks, hooks⟩ := offered
  obtain ⟨tasks, worked⟩ := works call context marked none after ⟨answer, hooks⟩
  exact ⟨_, .append (.mark marks) worked⟩

theorem Entry.works (works : hook.Works) {entry : Entry}
    (ends : Ends (entry.lower hook) context before fault after) :
    ∃ tasks, Works context before tasks after := by
  cases entry with
  | expr operand => exact ⟨_, .expr ends⟩
  | call called => exact ⟨_, .call ends⟩
  | chain chained =>
      have chains : Ends (lowerChainCall hook chained.operands) context before fault after :=
        ends_of_ends_map ends
      have behind {hooked : LoweringState}
          (offered : Hooked context hook chained.operands before false hooked) :
          ∃ tasks, Works context before tasks after := by
        obtain ⟨tasks, worked⟩ := offered.works works
        exact ⟨_, .chain worked offered chains⟩
      cases lowerChainCall_ends chains with
      | hooked marks failed =>
          obtain ⟨tasks, worked⟩ := works _ _ _ _ _ failed
          exact ⟨_, .append (.mark marks) worked⟩
      | taken offered => exact offered.works works
      | uncalled offered => exact behind offered
      | untabled offered => exact behind offered
      | direct ready =>
          obtain ⟨_, _, offered, -⟩ := ready.declined
          exact behind offered
      | keySwitch ready =>
          obtain ⟨_, _, offered, -⟩ := ready.declined
          exact behind offered

theorem Lowerings.works (works : hook.Works) (lowerings : Lowerings hook context before after) :
    ∃ tasks, Works context before tasks after := by
  induction lowerings with
  | none => exact ⟨[], .start _⟩
  | more _ ends _ ih =>
      obtain ⟨tasks, worked⟩ := ih
      obtain ⟨others, more⟩ := Entry.works works ends
      exact ⟨_, .append worked more⟩

theorem Lower.OnlyLowers.works {Result : Type} {action : Lower Result} (works : hook.Works)
    (lowers : action.OnlyLowers hook) (ends : Ends action context before fault after) :
    ∃ tasks, Works context before tasks after := by
  obtain ⟨middle, lowerings, ⟨rfl, -⟩ | ⟨entry, last⟩⟩ := lowers _ _ _ _ ends
  · exact lowerings.works works
  · obtain ⟨tasks, worked⟩ := lowerings.works works
    obtain ⟨others, more⟩ := Entry.works works last
    exact ⟨_, .append worked more⟩

theorem ChainHook.Plain.works (plain : hook.Plain) : hook.Works := by
  induction plain with
  | none =>
      intro call context before fault after ends
      cases fault with
      | none =>
          obtain ⟨_, run⟩ := ends
          obtain ⟨-, rfl⟩ := (runs_pure _).mp run
          exact ⟨[], .start _⟩
      | some fault => cases ends
  | asks _ lowers ih => exact fun call _ _ _ _ ends => (lowers call).works ih ends

/-! ## Bodies that succeed -/

/-- Where the action succeeds, all of its tasks were lowered. -/
def Lower.Completes {Result : Type} (action : Lower Result) : Prop :=
  ∀ context before result after, Runs action context before result after →
    ∃ tasks, Works context before tasks after ∧ ∀ task ∈ tasks, task.lowered = true

theorem Lower.Runs.ends {Result : Type} {action : Lower Result} {result : Result}
    (run : Runs action context before result after) : Ends action context before none after :=
  ⟨result, run⟩

theorem completes_noHook (call : ChainCall Operand) : (noHook call).Completes := by
  intro context before answer after run
  obtain ⟨-, rfl⟩ := (runs_pure _).mp run
  exact ⟨[], .start _, by simp⟩

theorem Call.completes (call : Call Expr) : (lowerCall call.operands).Completes :=
  fun _ _ _ _ run => ⟨_, .call run.ends, by simp⟩

theorem ChainCall.completes {hook : ChainHook} (call : ChainCall Expr)
    (hooks : (hook call.operands).Completes) : (lowerChainCall hook call.operands).Completes := by
  intro context before way after run
  obtain ⟨answer, hooked, ⟨marked, marks, hookRun⟩, steps⟩ := lowerChainCall_steps run
  obtain ⟨tasks, works, all⟩ := hooks _ _ _ _ hookRun
  have marksFirst : Works context before ([] ++ tasks) hooked := .append (.mark marks) works
  cases answer with
  | true =>
      obtain ⟨-, rfl⟩ := steps
      exact ⟨tasks, marksFirst, all⟩
  | false =>
      refine ⟨_, .chain marksFirst ⟨marked, marks, hookRun⟩ run.ends, ?_⟩
      rw [List.forall_mem_append]
      exact ⟨all, by simp⟩

end CallCode
