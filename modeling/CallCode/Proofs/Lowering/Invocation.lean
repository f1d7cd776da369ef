import CallCode.Lowering.Invocation
import CallCode.Proofs.Lowering.Binding

/-!
# The code of statically bound invocations

An invocation pushes a receiver only for an instance target.  Behind it stand the
arguments, one value for each parameter of the target, and all of them are replaced
by the result.
-/

namespace CallCode

open Lower

variable {context : Context} {codes : OperandCodes} {before after : LoweringState}

theorem coercionCode_self (types : TypeTable) (type : ValueType) :
    coercionCode types type type = [] := by
  simp [coercionCode]

theorem coercedType_self (types : TypeTable) (type : ValueType) :
    coercedType types type type = type := by
  simp [coercedType]

/-! ## Receivers -/

/-- The code that loads the receiver of an instance target. -/
inductive ReceiverCodes (context : Context) (codes : OperandCodes) (target : Method) (implicitThis : Bool) :
    Option Operand → List Operation → ValueType → Prop
  | unwritten : ReceiverCodes context codes target implicitThis none [.plain .getThis]
      (.simple context.frame.classId)
  | outer {receiver : Operand} : receiver.source.isThis →
      ReceiverCodes context codes target implicitThis (some receiver)
        [.typed .getOuterThis target.owner] (.simple target.owner)
  | written {receiver : Operand} {code type} :
      receiver.CodesAs context codes (.simple target.owner) code type →
      ReceiverCodes context codes target implicitThis (some receiver) code type

theorem loadReceiver_run {target : Method} {implicitThis : Bool}
    {receiver : Option Operand} (steady : ∀ operand ∈ receiver, operand.Steady context codes)
    (run : Runs (loadReceiver target implicitThis receiver) context before () after) :
    ∃ code type, ReceiverCodes context codes target implicitThis receiver code type ∧
      before.Pushes after code [type] := by
  cases receiver with
  | none =>
      simp only [loadReceiver, runs_bind, runs_write, runs_read, runs_push] at run
      obtain ⟨_, _, rfl, _, _, ⟨rfl, rfl⟩, rfl⟩ := run
      exact ⟨_, _, .unwritten, Assembler.writes_getThis _, rfl⟩
  | some receiver =>
      simp only [loadReceiver, runs_bind, runs_read] at run
      obtain ⟨_, _, ⟨rfl, rfl⟩, run⟩ := run
      split at run
      · rename_i reaches
        simp only [runs_bind, runs_write, runs_push] at run
        obtain ⟨_, _, rfl, _, _, rfl, coerces⟩ := run
        obtain ⟨source, coerced⟩ := coerceTo_run coerces
        obtain ⟨rest, above, below⟩ := coerced.stack
        obtain ⟨rfl, rfl⟩ := List.cons.inj above
        rw [coercedType_self] at below
        have writes := (Assembler.writes_getOuterThis _ _).trans coerced.writes
        rw [coercionCode_self] at writes
        simp only [Bool.and_eq_true] at reaches
        exact ⟨_, _, .outer reaches.2, writes, below⟩
      · have loads : Runs (loadAs receiver (.simple target.owner)) context before () after := run
        obtain ⟨code, type, known, pushed⟩ := loadAs_run (steady receiver rfl) loads
        exact ⟨code, type, .written known, pushed⟩

/-- The code that gives the receiver its static type. -/
def narrowingCode (top receiverType : ValueType) : List Operation :=
  if top = receiverType then [] else [.typed .checkCast receiverType.signature]

theorem narrowReceiver_run {receiverType top : ValueType} {rest : TypeStack}
    (found : before.stack = top :: rest)
    (run : Runs (narrowReceiver receiverType) context before () after) :
    before.Retypes after (narrowingCode top receiverType) top receiverType := by
  simp only [narrowReceiver, runs_bind, runs_get] at run
  obtain ⟨_, _, ⟨rfl, rfl⟩, run⟩ := run
  unfold narrowingCode
  by_cases same : top = receiverType
  · subst same
    simp only [found, List.head?_cons, ne_eq, not_true_eq_false, if_false, runs_pure] at run
    obtain ⟨-, rfl⟩ := run
    rw [if_pos rfl]
    exact .nil found
  · simp only [found, List.head?_cons, ne_eq, Option.some.injEq, same, not_false_eq_true,
      if_true, runs_bind, runs_write, runs_replace] at run
    obtain ⟨_, _, rfl, -, rfl⟩ := run
    rw [if_neg same]
    exact ⟨Assembler.writes_checkCast _ _, rest, found, by simp⟩

/-! ## Invocations -/

/-- The static type of a receiver, written or not. -/
def receiverTypeIn (context : Context) : Option Operand → ValueType
  | some operand => context.typeOf operand.source
  | none => .simple context.frame.classId

/-- How a target is invoked on a receiver. -/
def invocationOf (context : Context) (target : Method) (receiver : Option Operand) :
    Invocation :=
  .choose context.types target (receiver.any (·.source.isSuper))
    (receiverTypeIn context receiver)

/-- The instruction that invokes a target. -/
def invokingOperation (context : Context) (target : Method)
    (receiver : Option Operand) : Operation :=
  .invoke (invocationOf context target receiver).opcode
    (invocationOf context target receiver).owner target.id target.params.length.toUInt8

/-- Only the receiver of an instance target is narrowed. -/
theorem Invocation.isStatic_of_narrowsReceiver {types : TypeTable} {target : Method}
    {superReceiver : Bool} {receiver : ValueType}
    (narrows : (choose types target superReceiver receiver).narrowsReceiver = true) :
    target.isStatic = false := by
  by_contra static
  have base : baseOpcode types target superReceiver = .invokeStatic := by
    simp [baseOpcode, static]
  simp only [choose, base] at narrows
  split at narrows
  · contradiction
  · simp at narrows
    split at narrows
    · split at narrows <;> simp at narrows
    · simp at narrows

/-- The code of an invocation, without what stands for a missing result. -/
inductive InvocationCodes (context : Context) (codes : OperandCodes) (target : Method) (implicitThis : Bool)
    (receiver : Option Operand) (arguments : List Operand) : List Operation → Prop
  | static {loads types} : target.isStatic = true → target.params.length < 256 →
      BindingCodes context codes arguments target.params loads types →
      InvocationCodes context codes target implicitThis receiver arguments
        (loads ++ [invokingOperation context target receiver])
  | instance {receiving type narrowing loads types} : target.isStatic = false →
      target.params.length < 256 →
      ReceiverCodes context codes target implicitThis receiver receiving type →
      narrowing = (if (invocationOf context target receiver).narrowsReceiver then
        narrowingCode type (receiverTypeIn context receiver) else []) →
      BindingCodes context codes arguments target.params loads types →
      InvocationCodes context codes target implicitThis receiver arguments
        (receiving ++ narrowing ++ loads ++ [invokingOperation context target receiver])

/-- The type of the result of a target, if it leaves one. -/
def Method.result? (target : Method) : Option ValueType :=
  if target.returnType.isVoid then none else some target.returnType

theorem Invocation.isInvoke_baseOpcode (types : TypeTable) (target : Method)
    (superReceiver : Bool) : (baseOpcode types target superReceiver).isInvoke = true := by
  unfold baseOpcode
  split
  · rfl
  · split
    · rfl
    · split <;> rfl

theorem Invocation.isInvoke_choose (types : TypeTable) (target : Method)
    (superReceiver : Bool) (receiver : ValueType) :
    (choose types target superReceiver receiver).opcode.isInvoke = true := by
  have base := isInvoke_baseOpcode types target superReceiver
  simp only [choose]
  split
  · split <;> exact base
  · split
    · exact base
    · split
      · exact base
      · split
        · split
          · rfl
          · exact base
        · exact base

theorem writes_invoking (assembler : Assembler) (context : Context) (target : Method)
    (receiver : Option Operand) :
    assembler.Writes
      (assembler.invoke (invocationOf context target receiver).opcode
        (invocationOf context target receiver).owner target.id
        target.params.length.toUInt8)
      [invokingOperation context target receiver] :=
  assembler.writes_invoke (Invocation.isInvoke_choose _ _ _ _)

/-- What is left to do once the receiver stands above `start` operands. -/
def finishInvocation (context : Context) (target : Method) (receiver : Option Operand)
    (arguments : List Operand) (position : Position) (start : Nat) :
    Lower (Option ValueType) := do
  bindArguments arguments target.params
  let count ← accept (byteCount target.params.length position)
  write (·.invoke (invocationOf context target receiver).opcode
    (invocationOf context target receiver).owner target.id count)
  dropAbove start
  if target.returnType.isVoid then
    return none
  push target.returnType
  return some target.returnType

theorem invokeTarget_eq (target : Method) (implicitThis : Bool)
    (receiver : Option Operand) (arguments : List Operand) (position : Position) :
    invokeTarget target implicitThis receiver arguments position = (do
      let context ← read
      let start ← depth
      if !target.isStatic then
        loadReceiver target implicitThis receiver
      if (invocationOf context target receiver).narrowsReceiver then
        narrowReceiver (receiverTypeIn context receiver)
      finishInvocation context target receiver arguments position start) :=
  rfl

theorem finishInvocation_run {target : Method} {receiver : Option Operand}
    {arguments : List Operand} {position : Position} {received : List ValueType}
    {start : TypeStack} {result : Option ValueType}
    (steady : ∀ argument ∈ arguments, argument.Steady context codes)
    (stack : before.stack = received ++ start)
    (run : Runs (finishInvocation context target receiver arguments position start.length)
      context before result after) :
    result = target.result? ∧ target.params.length < 256 ∧ ∃ loads types,
      BindingCodes context codes arguments target.params loads types ∧
        before.assembler.Writes after.assembler
          (loads ++ [invokingOperation context target receiver]) ∧
        after.stack = result.toList ++ start := by
  simp only [finishInvocation, runs_bind, runs_accept, byteCount_ok, runs_write,
    runs_dropAbove] at run
  obtain ⟨_, bound, binds, _, _, ⟨⟨few, rfl⟩, rfl⟩, _, _, rfl, _, _, ⟨-, rfl⟩, run⟩ := run
  obtain ⟨loads, types, known, pushed⟩ := bindArguments_run steady binds
  have writes := pushed.writes.trans (writes_invoking _ context target receiver)
  have dropped : bound.stack.drop (bound.stack.length - start.length) = start := by
    rw [pushed.stack, stack, ← List.append_assoc, List.length_append, Nat.add_sub_cancel,
      List.drop_left]
  unfold Method.result?
  split at run
  · rename_i isVoid
    obtain ⟨rfl, rfl⟩ := (runs_pure _).mp run
    rw [if_pos isVoid]
    exact ⟨rfl, few, loads, types, known, writes, dropped⟩
  · rename_i isValue
    simp only [runs_bind, runs_push, runs_pure] at run
    obtain ⟨_, _, rfl, rfl, rfl⟩ := run
    rw [if_neg isValue]
    exact ⟨rfl, few, loads, types, known, writes, congrArg _ dropped⟩

theorem invokeTarget_run {target : Method} {implicitThis : Bool}
    {receiver : Option Operand} {arguments : List Operand} {position : Position}
    {result : Option ValueType} (receiverSteady : ∀ operand ∈ receiver, operand.Steady context codes)
    (steady : ∀ argument ∈ arguments, argument.Steady context codes)
    (run : Runs (invokeTarget target implicitThis receiver arguments position)
      context before result after) : result = target.result? ∧ ∃ code,
      InvocationCodes context codes target implicitThis receiver arguments code ∧
        before.Pushes after code result.toList := by
  rw [invokeTarget_eq] at run
  simp only [runs_bind, runs_read, runs_depth] at run
  obtain ⟨_, _, ⟨rfl, rfl⟩, _, _, ⟨rfl, rfl⟩, run⟩ := run
  by_cases static : target.isStatic
  · have keeps : (invocationOf context target receiver).narrowsReceiver = false := by
      by_contra narrows
      rw [Bool.not_eq_false] at narrows
      rw [Invocation.isStatic_of_narrowsReceiver narrows] at static
      contradiction
    simp only [static, keeps, Bool.not_true, Bool.false_eq_true, if_false] at run
    have bare : before.stack = [] ++ before.stack := rfl
    obtain ⟨rfl, few, loads, types, known, writes, stack⟩ :=
      finishInvocation_run steady bare run
    refine ⟨rfl, _, .static static few known, writes, ?_⟩
    rw [stack]
    cases target.result? <;> rfl
  · rw [Bool.not_eq_true] at static
    simp only [static, Bool.not_false, if_true, runs_bind] at run
    obtain ⟨_, received, receives, run⟩ := run
    obtain ⟨receiving, type, receiverKnown, pushed⟩ := loadReceiver_run receiverSteady receives
    have finish : ∀ {middle : LoweringState} {narrowing : List Operation} {top : ValueType},
        narrowing = (if (invocationOf context target receiver).narrowsReceiver then
          narrowingCode type (receiverTypeIn context receiver) else []) →
        before.Pushes middle (receiving ++ narrowing) [top] →
        Runs (finishInvocation context target receiver arguments position
          before.stack.length) context middle result after →
        result = target.result? ∧ ∃ code,
          InvocationCodes context codes target implicitThis receiver arguments code ∧
            before.Pushes after code result.toList := by
      intro middle narrowing top narrowed ready finishing
      obtain ⟨rfl, few, loads, types, known, writes, stack⟩ :=
        finishInvocation_run steady ready.stack finishing
      refine ⟨rfl, _, .instance static few receiverKnown narrowed known, ?_, ?_⟩
      · rw [List.append_assoc]
        exact ready.writes.trans writes
      · rw [stack]
        cases target.result? <;> rfl
    by_cases narrows : (invocationOf context target receiver).narrowsReceiver
    · rw [if_pos narrows, runs_bind] at run
      obtain ⟨_, narrowed, narrowing, run⟩ := run
      have retyped := narrowReceiver_run pushed.stack narrowing
      exact finish (by rw [if_pos narrows]) (pushed.retype retyped).2 run
    · rw [if_neg narrows] at run
      exact finish (by rw [if_neg narrows]) (by simpa using pushed) run

/-! ## Results -/

/-- The code that stands for a missing result, if there is none. -/
def materializingCode (target : Method) : List Operation :=
  if target.returnType.isVoid then [.plain .pushNull] else []

/-- The type of the operand that a bound call leaves. -/
def Method.resultType (target : Method) : ValueType := target.result?.getD .object

theorem boundCall_run {target : Method} {implicitThis : Bool}
    {receiver : Option Operand} {arguments : List Operand} {position : Position}
    (receiverSteady : ∀ operand ∈ receiver, operand.Steady context codes)
    (steady : ∀ argument ∈ arguments, argument.Steady context codes)
    (run : Runs (do
      let result ← invokeTarget target implicitThis receiver arguments position
      materialize result) context before () after) : ∃ code,
      InvocationCodes context codes target implicitThis receiver arguments code ∧
        before.Pushes after (code ++ materializingCode target) [target.resultType] := by
  rw [runs_bind] at run
  obtain ⟨_, invoked, invokes, run⟩ := run
  obtain ⟨rfl, code, known, pushed⟩ := invokeTarget_run receiverSteady steady invokes
  refine ⟨code, known, ?_⟩
  unfold materializingCode Method.resultType
  unfold Method.result? at run pushed ⊢
  by_cases isVoid : target.returnType.isVoid
  · simp only [isVoid, if_true, materialize, runs_bind, runs_write, runs_push] at run
    obtain ⟨_, _, rfl, rfl⟩ := run
    simp only [isVoid, if_true, Option.getD_none]
    refine ⟨pushed.writes.trans (Assembler.writes_loadNull _), ?_⟩
    simp [pushed.stack, isVoid]
  · simp only [isVoid, Bool.false_eq_true, if_false, materialize, runs_pure] at run
    obtain ⟨-, rfl⟩ := run
    simpa [isVoid] using pushed

end CallCode
