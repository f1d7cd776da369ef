import CallCode.Proofs.Lowering.Statement

/-!
# The tracked stack of a call

A call puts exactly one entry on the tracked stack and leaves every entry below it
alone.  A chained call inside a constructor leaves none.
-/

namespace CallCode

open Lower

variable {context : Context} {before after : LoweringState}

/-- The type that a request leaves, where it is known which way it is made. -/
def Request.Leaves (request : Request) (context : Context) (type : ValueType) :
    Tier → Prop
  | .direct => ∃ call,
      request.normalize.boundCall context.types context.frame.options = .ok (some call) ∧
        type = if call.target.returnType.isVoid then .object else call.target.returnType
  | _ => type = .object

/-- The type that a way of construction leaves. -/
def Construction.leaves (classId : Identity) : Construction → ValueType
  | .direct | .anonymousSubclass => .simple classId
  | _ => .object

theorem Method.resultType_eq (target : Method) :
    target.resultType =
      if target.returnType.isVoid then .object else target.returnType := by
  unfold Method.resultType Method.result?
  split <;> rfl

theorem RequestCodes.leaves {codes : OperandCodes} {sender : Identity} {request : Request}
    {tier : Tier} {code : List Operation} {type : ValueType}
    (known : RequestCodes context codes sender request.normalize tier code type) :
    request.Leaves context type tier := by
  cases known with
  | direct bound _ => exact ⟨_, bound, Method.resultType_eq _⟩
  | cached => rfl
  | uncached => rfl

theorem stack_of_lowerMethodCall {call : MethodCall Expr} {tier : Tier}
    (run : Runs (lowerMethodCall call.operands) context before tier after) : ∃ type,
      after.stack = type :: before.stack ∧
        (call.operands.request context).Leaves context type tier := by
  obtain ⟨code, type, way, pushed⟩ := (inductive_trivial context).method_run run
  refine ⟨type, pushed.stack, ?_⟩
  cases way with
  | closure => rfl
  | request _ made => exact made.leaves

theorem stack_of_lowerStaticCall {call : StaticCall Expr} {tier : Tier}
    (run : Runs (lowerStaticCall call.operands) context before tier after) : ∃ type,
      after.stack = type :: before.stack ∧
        call.operands.request.Leaves context type tier := by
  obtain ⟨code, type, way, pushed⟩ := (inductive_trivial context).static_run run
  exact ⟨type, pushed.stack, way.leaves⟩

theorem stack_of_lowerNewCall {call : NewCall Expr} {way : Construction}
    (run : Runs (lowerNewCall call.operands) context before way after) :
    after.stack = way.leaves call.classId :: before.stack := by
  obtain ⟨code, type, made, pushed⟩ := (inductive_trivial context).create_run run
  rw [← NewCall.classId_operands]
  cases made with
  | anonymous => exact pushed.stack
  | direct => exact pushed.stack
  | site => exact pushed.stack

/-- With no hook, a chained call starts from the stack that it found. -/
theorem ChainPrepared.stack_eq {call : ChainCall Operand} {ready : LoweringState}
    {classId : Identity} {table : CandidateTable}
    (prepared : ChainPrepared context noHook call before ready classId table) :
    ready.stack = before.stack := by
  obtain ⟨marked, hooked, marks, -, hooks, -, -, stack⟩ := prepared.declined
  obtain ⟨-, rfl⟩ := (runs_pure _).mp hooks
  exact stack.trans marks.stack

theorem stack_of_lowerChainCall {call : ChainCall Expr} {way : Construction}
    (run : Runs (lowerChainCall noHook call.operands) context before way after) :
    ∃ classId, call.operands.calledClass context = .ok classId ∧
      after.stack = (if context.frame.isConstructor then [] else [.simple classId]) ++
        before.stack := by
  have steady := (inductive_trivial context).steady_chain call
  cases lowerChainCall_run run with
  | closure _ _ hooks => cases ((runs_pure _).mp hooks).1
  | direct prepared bound chains =>
      obtain ⟨code, _, pushed⟩ := chainDirectly_run steady chains
      refine ⟨_, prepared.called, ?_⟩
      rw [pushed.stack, prepared.stack_eq, (isConstructor_of_boundCandidate bound).1]
      rfl
  | keySwitch prepared _ chains =>
      obtain ⟨_, _, _, -, -, -, -, -, stack⟩ := chainBySwitch_run steady chains
      refine ⟨_, prepared.called, ?_⟩
      rw [stack, prepared.stack_eq]

/-- One call leaves one value.  In every frame and from every state, a lowered method
or static call and a `new` call put one entry on the tracked stack, of the type that
goes with the way they were made; a chained call puts the new instance there, or
nothing inside a constructor. -/
theorem one_value_of_call (context : Context) (before after : LoweringState) :
    (∀ (call : MethodCall Expr) (tier : Tier),
      Runs (lowerMethodCall call.operands) context before tier after → ∃ type,
        after.stack = type :: before.stack ∧
          (call.operands.request context).Leaves context type tier) ∧
    (∀ (call : StaticCall Expr) (tier : Tier),
      Runs (lowerStaticCall call.operands) context before tier after → ∃ type,
        after.stack = type :: before.stack ∧
          call.operands.request.Leaves context type tier) ∧
    (∀ (call : NewCall Expr) (way : Construction),
      Runs (lowerNewCall call.operands) context before way after →
        after.stack = way.leaves call.classId :: before.stack) ∧
    (∀ (call : ChainCall Expr) (way : Construction),
      Runs (lowerChainCall noHook call.operands) context before way after → ∃ classId,
        call.operands.calledClass context = .ok classId ∧
          after.stack = (if context.frame.isConstructor then [] else [.simple classId]) ++
            before.stack) :=
  ⟨fun _ _ => stack_of_lowerMethodCall, fun _ _ => stack_of_lowerStaticCall,
    fun _ _ => stack_of_lowerNewCall, fun _ _ => stack_of_lowerChainCall⟩

/-- A call on the current instance leaves one value of the root class. -/
theorem one_value_of_plain_call : ∃ (call : MethodCall Expr) (before after : LoweringState),
    Runs (lowerMethodCall call.operands) { types := .empty, frame := .method ⟨1⟩ } before
      .cached after ∧ after.stack = .object :: before.stack := by
  let call : MethodCall Expr := { receiver := .this, selector := .named "run", arguments := [] }
  obtain ⟨after, run⟩ : ∃ after, Runs (lowerMethodCall call.operands)
      { types := .empty, frame := .method ⟨1⟩ } { ledger := { classId := ⟨1⟩ } } .cached after :=
    ⟨_, rfl⟩
  obtain ⟨type, stack, rfl⟩ := (one_value_of_call _ _ after).1 call .cached run
  exact ⟨call, _, after, run, stack⟩

end CallCode
