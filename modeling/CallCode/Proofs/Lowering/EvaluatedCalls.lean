import CallCode.Proofs.Lowering.Evaluation
import CallCode.Proofs.Machine.InstanceLoads

/-!
# Evaluated calls

The calls that are evaluated where a call is lowered are itself and those in the operands
that it loads.  Three kinds of calls load an instance that no expression names: one of a
closure in a field of the instance, one that is bound to a proved target without its
receiver, and one that is bound to a target of an enclosing class.
-/

namespace CallCode

/-- The instance that a bound call loads in place of its receiver. -/
def BoundCall.instanceLoad? (call : BoundCall) (context : Context) : Option Opcode :=
  if call.target.isStatic then none
  else
    match call.receiver with
    | none => some .getThis
    | some receiver =>
        if reachesOuter context.types context.frame call.target call.implicitThis &&
            !context.frame.inGeneratedFunction && receiver.source.isThis then
          some .getOuterThis
        else none

/-- The instance that a request loads in place of its receiver, if it is bound. -/
def Request.instanceLoad? (request : Request) (context : Context) : Option Opcode :=
  match request.normalize.boundCall context.types context.frame.options with
  | .ok (some call) => call.instanceLoad? context
  | _ => none

/-- The instance that a method call loads for its closure or in place of its receiver. -/
def MethodCall.instanceLoad? (call : MethodCall Operand) (context : Context) : Option Opcode :=
  match call.closureField? context with
  | some field => if field.isStatic then none else some .getThis
  | none => (call.request context).instanceLoad? context

/-- The instance that a call loads by itself, besides those that its operands load. -/
def Call.instanceLoad? (context : Context) : Call Expr → Option Opcode
  | .method call => call.operands.instanceLoad? context
  | .static call => call.operands.request.instanceLoad? context
  | .create _ | .chain _ => none

mutual

/-- The calls that are evaluated in an expression, each before those in its operands. -/
def Expr.evaluated (context : Context) : Expr → List (Call Expr)
  | .cast _ operand => operand.evaluated context
  | .spread operand => operand.evaluated context
  | .call call => call.evaluated context
  | .null | .bool _ | .int _ | .string _ | .read _ | .this | .super | .classLiteral _ => []
termination_by structural expr => expr

/-- The calls that are evaluated where a call is lowered, itself first. -/
def Call.evaluated (context : Context) : Call Expr → List (Call Expr)
  | .method call => .method call :: call.evaluatedOperands context
  | .static ⟨owner, name, arguments, optimizedTarget, position⟩ =>
      .static ⟨owner, name, arguments, optimizedTarget, position⟩ ::
        evaluatedIn context arguments
  | .create ⟨classId, arguments, optimizedTarget, anonymous, position⟩ =>
      .create ⟨classId, arguments, optimizedTarget, anonymous, position⟩ ::
        evaluatedIn context arguments
  | .chain ⟨target, arguments, position⟩ =>
      .chain ⟨target, arguments, position⟩ :: evaluatedIn context arguments
termination_by structural call => call

/-- The calls that are evaluated in the operands of a method call: in its receiver, unless
it is bound to a static target, in its selector, unless it is bound at all, and in its
arguments. -/
def MethodCall.evaluatedOperands (context : Context) : MethodCall Expr → List (Call Expr)
  | ⟨receiver, selector, arguments, safe, spreadSafe, implicitThis, target,
      optimizedTarget, position⟩ =>
      let bound := (MethodCall.operands ⟨receiver, selector, arguments, safe, spreadSafe,
        implicitThis, target, optimizedTarget, position⟩).boundTarget? context
      (if bound.any (·.isStatic) then [] else receiver.evaluated context) ++
        (if bound.isSome then [] else selector.evaluated context) ++
        evaluatedIn context arguments
termination_by structural call => call

def Selector.evaluated (context : Context) : Selector Expr → List (Call Expr)
  | .named _ => []
  | .computed value => value.evaluated context
termination_by structural selector => selector

def evaluatedIn (context : Context) : List Expr → List (Call Expr)
  | [] => []
  | expr :: exprs => expr.evaluated context ++ evaluatedIn context exprs
termination_by structural exprs => exprs

end

mutual

/-- Whether `super` stands anywhere in an expression. -/
def Expr.mentionsSuper : Expr → Bool
  | .super => true
  | .cast _ operand => operand.mentionsSuper
  | .spread operand => operand.mentionsSuper
  | .call call => call.mentionsSuper
  | .null | .bool _ | .int _ | .string _ | .read _ | .this | .classLiteral _ => false
termination_by structural expr => expr

def Call.mentionsSuper : Call Expr → Bool
  | .method call => call.mentionsSuper
  | .static ⟨_, _, arguments, _, _⟩ => mentionSuper arguments
  | .create ⟨_, arguments, _, _, _⟩ => mentionSuper arguments
  | .chain ⟨_, arguments, _⟩ => mentionSuper arguments
termination_by structural call => call

def MethodCall.mentionsSuper : MethodCall Expr → Bool
  | ⟨receiver, selector, arguments, _, _, _, _, _, _⟩ =>
      receiver.mentionsSuper || selector.mentionsSuper || mentionSuper arguments
termination_by structural call => call

def Selector.mentionsSuper : Selector Expr → Bool
  | .named _ => false
  | .computed value => value.mentionsSuper
termination_by structural selector => selector

def mentionSuper : List Expr → Bool
  | [] => false
  | expr :: exprs => expr.mentionsSuper || mentionSuper exprs
termination_by structural exprs => exprs

end

variable {context : Context}

/-- The instances that the calls in an expression load by themselves. -/
def Expr.instanceLoads (context : Context) (expr : Expr) : List Opcode :=
  (expr.evaluated context).filterMap (Call.instanceLoad? context)

/-- The instances that a call and the calls in its operands load by themselves. -/
def Call.instanceLoads (context : Context) (call : Call Expr) : List Opcode :=
  (call.evaluated context).filterMap (Call.instanceLoad? context)

theorem Call.instanceLoads_cons (call : Call Expr) (calls : List (Call Expr)) :
    (call :: calls).filterMap (Call.instanceLoad? context) =
      (call.instanceLoad? context).toList ++
        calls.filterMap (Call.instanceLoad? context) := by
  cases found : call.instanceLoad? context <;> simp [found]

theorem Expr.instanceLoads_of_isThis {expr : Expr} (isThis : expr.isThis = true) :
    expr.instanceLoads context = [] := by
  cases expr <;> first | rfl | cases isThis

/-! ## Operands -/

/-- The instances that the calls in some operands load by themselves. -/
def operandLoads (context : Context) (operands : List Operand) : List Opcode :=
  operands.flatMap fun operand => operand.source.instanceLoads context

theorem operandLoads_append (operands others : List Operand) :
    operandLoads context (operands ++ others) =
      operandLoads context operands ++ operandLoads context others :=
  List.flatMap_append

theorem operandLoads_singleton (operand : Operand) :
    operandLoads context [operand] = operand.source.instanceLoads context :=
  List.flatMap_singleton _ _

theorem operandLoads_operandsOf (exprs : List Expr) :
    operandLoads context (operandsOf exprs) =
      (evaluatedIn context exprs).filterMap (Call.instanceLoad? context) := by
  induction exprs with
  | nil => rfl
  | cons expr exprs ih =>
      rw [operandsOf, evaluatedIn, List.filterMap_append, ← ih]
      rfl

/-- The instances that the calls in the value load by themselves that a selector
computes. -/
def Selector.valueLoads (context : Context) (selector : Selector Operand) : List Opcode :=
  operandLoads context selector.value?.toList

theorem Selector.valueLoads_of_name? {selector : Selector Operand} {name : String}
    (named : selector.name? = some name) : selector.valueLoads context = [] := by
  rw [valueLoads, value?_of_name? named]
  rfl

theorem Selector.valueLoads_operands (selector : Selector Expr) :
    selector.operands.valueLoads context =
      (selector.evaluated context).filterMap (Call.instanceLoad? context) := by
  cases selector with
  | named => rfl
  | computed value =>
      rw [Selector.operands, Selector.valueLoads, Selector.value?, Option.toList_some,
        operandLoads_singleton]
      rfl

/-! ## Requests -/

namespace Request

/-- The instances that a request loads, by itself or for the calls in those of its operands
that are loaded. -/
def instanceLoads (context : Context) (request : Request) : List Opcode :=
  (request.instanceLoad? context).toList ++
    ((if (request.boundTarget? context).any (·.isStatic) then []
        else request.receiver.source.instanceLoads context) ++
      (if (request.boundTarget? context).isSome then []
        else request.selector.valueLoads context) ++
      operandLoads context request.arguments)

theorem instanceLoads_of_bound {request : Request} {call : BoundCall}
    (bound : request.normalize.boundCall context.types context.frame.options =
      .ok (some call)) :
    request.instanceLoads context = (call.instanceLoad? context).toList ++
      ((if call.target.isStatic then [] else request.receiver.source.instanceLoads context) ++
        operandLoads context request.arguments) := by
  simp [instanceLoads, instanceLoad?, boundTarget?, bound]

theorem instanceLoads_of_unbound {request : Request}
    (unbound : request.normalize.boundCall context.types context.frame.options = .ok none) :
    request.instanceLoads context = request.receiver.source.instanceLoads context ++
      request.selector.valueLoads context ++ operandLoads context request.arguments := by
  simp [instanceLoads, instanceLoad?, boundTarget?, unbound]

/-- There are no calls in a receiver that a proved target does without. -/
def ReceiverIsBare (context : Context) (request : Request) : Prop :=
  request.routine = .invokeOnCurrent ∨ request.routine = .invokeStatic →
    request.receiver.source.instanceLoads context = []

theorem operandLoads_receiver {request : Request} {call : BoundCall}
    (bare : request.ReceiverIsBare context)
    (bound : request.normalize.boundCall context.types context.frame.options =
      .ok (some call)) :
    operandLoads context call.receiver.toList =
      request.receiver.source.instanceLoads context := by
  cases binds_of_boundCall bound with
  | lookup => rw [normalize_receiver]; exact operandLoads_singleton _
  | resolved => rw [normalize_receiver]; exact operandLoads_singleton _
  | proved proved known =>
      -- here the receiver is not loaded at all, so it must not have had calls in it
      rw [bare (isCurrent_of_fastTarget? proved)]
      rfl

end Request

/-! ## Calls -/

namespace MethodCall

/-- The instances that a method call loads, by itself or for the calls in those of its
operands that are loaded. -/
def instanceLoads (context : Context) (call : MethodCall Operand) : List Opcode :=
  (call.instanceLoad? context).toList ++
    ((if (call.boundTarget? context).any (·.isStatic) then []
        else call.receiver.source.instanceLoads context) ++
      (if (call.boundTarget? context).isSome then [] else call.selector.valueLoads context) ++
      operandLoads context call.arguments)

variable {call : MethodCall Operand}

theorem instanceLoads_of_closureField? {field : Field}
    (found : call.closureField? context = some field) :
    call.instanceLoads context =
      (if field.isStatic then [] else [.getThis]) ++ operandLoads context call.arguments := by
  have unbound : call.boundTarget? context = none := by
    simp [boundTarget?, found]
  have own : (call.instanceLoad? context).toList =
      if field.isStatic then [] else [.getThis] := by
    cases static : field.isStatic <;> simp [instanceLoad?, found, static]
  obtain ⟨⟨name, named⟩, isThis, -⟩ := spec_of_closureField? found
  simp [instanceLoads, own, unbound, Expr.instanceLoads_of_isThis isThis,
    Selector.valueLoads_of_name? named]

theorem valueLoads_request :
    (call.request context).selector.valueLoads context = call.selector.valueLoads context := by
  rw [Selector.valueLoads, value?_request, Selector.valueLoads]

theorem instanceLoads_of_request (absent : call.closureField? context = none) :
    (call.request context).instanceLoads context = call.instanceLoads context := by
  simp [Request.instanceLoads, instanceLoads, instanceLoad?, boundTarget?, absent,
    receiver_request, arguments_request, valueLoads_request]

theorem receiverIsBare_request : (call.request context).ReceiverIsBare context := by
  rw [Request.ReceiverIsBare, routine_request, receiver_request]
  exact fun current => Expr.instanceLoads_of_isThis (isThis_of_current current)

theorem instanceLoads_operands (call : MethodCall Expr) :
    (Call.method call).instanceLoads context = call.operands.instanceLoads context := by
  obtain ⟨receiver, selector, arguments, safe, spreadSafe, implicitThis, target,
    optimizedTarget, position⟩ := call
  rw [Call.instanceLoads, Call.evaluated, Call.instanceLoads_cons, MethodCall.instanceLoads,
    MethodCall.evaluatedOperands]
  generalize static : Option.any _ _ = isStatic
  generalize bound : Option.isSome _ = isBound
  simp only [MethodCall.operands, operandLoads_operandsOf, Selector.valueLoads_operands,
    List.filterMap_append, Expr.instanceLoads]
  cases isStatic <;> cases isBound <;> rfl

end MethodCall

theorem StaticCall.receiverIsBare_request (call : StaticCall Operand) :
    call.request.ReceiverIsBare context :=
  fun _ => rfl

theorem StaticCall.instanceLoads_operands (call : StaticCall Expr) :
    (Call.static call).instanceLoads context = call.operands.request.instanceLoads context := by
  obtain ⟨owner, name, arguments, optimizedTarget, position⟩ := call
  have received : ∀ call : StaticCall Operand,
      call.request.receiver.source.instanceLoads context = [] := fun _ => rfl
  have selected : ∀ call : StaticCall Operand,
      call.request.selector.valueLoads context = [] := fun _ => rfl
  rw [Call.instanceLoads, Call.evaluated, Call.instanceLoads_cons, Request.instanceLoads,
    received, selected, ite_self, ite_self, ← operandLoads_operandsOf]
  rfl

theorem NewCall.instanceLoads_operands (call : NewCall Expr) :
    (Call.create call).instanceLoads context =
      operandLoads context call.operands.arguments := by
  obtain ⟨classId, arguments, optimizedTarget, anonymous, position⟩ := call
  rw [Call.instanceLoads, Call.evaluated, Call.instanceLoads_cons, ← operandLoads_operandsOf]
  rfl

theorem ChainCall.instanceLoads_operands (call : ChainCall Expr) :
    (Call.chain call).instanceLoads context =
      operandLoads context call.operands.arguments := by
  obtain ⟨target, arguments, position⟩ := call
  rw [Call.instanceLoads, Call.evaluated, Call.instanceLoads_cons, ← operandLoads_operandsOf]
  rfl

/-! ## Calls that need no instance -/

/-- The frame is one of a static method that trusts no proved targets, and no enclosing
instance can be meant in it. -/
structure Frame.IsDetached (frame : Frame) (types : TypeTable) : Prop where
  static : frame.isStaticMethod = true
  slow : frame.options.fastPath = false
  flat : frame.inGeneratedFunction = true ∨
    (types.find? frame.classId).any (·.outer.isSome) = false

namespace Frame.IsDetached

variable (detached : context.frame.IsDetached context.types)

include detached

theorem instanceLoad?_request (request : Request) : request.instanceLoad? context = none := by
  have inside : ∀ target implicitThis, (reachesOuter context.types context.frame target
      implicitThis && !context.frame.inGeneratedFunction) = false := by
    intro target implicitThis
    rcases detached.flat with generated | flat
    · simp [generated]
    · simp [reachesOuter, flat]
  have still : ∀ target implicitThis receiver,
      BoundCall.instanceLoad? ⟨target, implicitThis, some receiver⟩ context = none := by
    intro target implicitThis receiver
    simp [BoundCall.instanceLoad?, inside]
  unfold Request.instanceLoad?
  split
  · rename_i call bound
    cases Request.binds_of_boundCall bound with
    | lookup => exact still _ _ _
    | resolved => exact still _ _ _
    | proved proved =>
        simp [Request.fastTarget?, detached.slow] at proved
  · rfl

theorem instanceLoad?_method (call : MethodCall Operand) :
    call.instanceLoad? context = none := by
  unfold MethodCall.instanceLoad?
  split
  · rename_i field found
    obtain ⟨-, isThis, admitted⟩ := MethodCall.spec_of_closureField? found
    have isStatic : field.isStatic = true := by
      simpa [MethodCall.onClass, isThis, detached.static] using admitted
    rw [if_pos isStatic]
  · exact detached.instanceLoad?_request _

/-- In a detached frame no call loads an instance by itself. -/
theorem instanceLoad?_call (call : Call Expr) : call.instanceLoad? context = none := by
  cases call with
  | method call => exact detached.instanceLoad?_method _
  | static call => exact detached.instanceLoad?_request _
  | create call => rfl
  | chain call => rfl

end Frame.IsDetached

end CallCode
