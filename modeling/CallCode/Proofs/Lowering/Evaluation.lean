import CallCode.Proofs.Lowering.Expression

/-!
# Walks over expressions

A walk over an expression meets the locals that its code reads and the messages that are
sent through call sites, both in the order of evaluation.  The messages of the operands of
a call come before that of the call.
-/

namespace CallCode

open Lower

/-- The target that a request is bound to, if it is bound to one. -/
def Request.boundTarget? (request : Request) (context : Context) : Option Method :=
  match request.normalize.boundCall context.types context.frame.options with
  | .ok (some call) => some call.target
  | _ => none

/-- The target that a method call is bound to, if it is bound to one. -/
def MethodCall.boundTarget? (call : MethodCall Operand) (context : Context) :
    Option Method :=
  if (call.closureField? context).isSome then none
  else (call.request context).boundTarget? context

mutual

/-- The slots of the locals in an expression, from the left to the right. -/
def Expr.slots (context : Context) : Expr → List UInt16
  | .read source => [source.slot]
  | .cast _ operand => operand.slots context
  | .spread operand => operand.slots context
  | .call call => call.slots context
  | .null | .bool _ | .int _ | .string _ | .this | .super | .classLiteral _ => []
termination_by structural expr => expr

/-- The slots of the locals in a call, from the left to the right. -/
def Call.slots (context : Context) : Call Expr → List UInt16
  | .method call => call.slots context
  | .static ⟨_, _, arguments, _, _⟩ => slotsOf context arguments
  | .create ⟨_, arguments, _, _, _⟩ => slotsOf context arguments
  | .chain ⟨_, arguments, _⟩ => slotsOf context arguments
termination_by structural call => call

/-- The slots of the locals in a method call: those of its receiver, unless it is bound
to a static target, of its selector, unless it is bound at all, and of its arguments. -/
def MethodCall.slots (context : Context) : MethodCall Expr → List UInt16
  | ⟨receiver, selector, arguments, safe, spreadSafe, implicitThis, target,
      optimizedTarget, position⟩ =>
      let bound := (MethodCall.operands ⟨receiver, selector, arguments, safe, spreadSafe,
        implicitThis, target, optimizedTarget, position⟩).boundTarget? context
      (if bound.any (·.isStatic) then [] else receiver.slots context) ++
        (if bound.isSome then [] else selector.slots context) ++ slotsOf context arguments
termination_by structural call => call

/-- The slots of the locals in a selector. -/
def Selector.slots (context : Context) : Selector Expr → List UInt16
  | .named _ => []
  | .computed value => value.slots context
termination_by structural selector => selector

/-- The slots of the locals in some expressions, from the left to the right. -/
def slotsOf (context : Context) : List Expr → List UInt16
  | [] => []
  | expr :: exprs => expr.slots context ++ slotsOf context exprs
termination_by structural exprs => exprs

end

/-- The message of a request that is sent through a call site. -/
def Request.sent? (request : Request) (context : Context) : Option String :=
  if (request.boundTarget? context).isSome then none else request.cachedName?

/-- The message of a method call that is sent through a call site. -/
def MethodCall.sent? (call : MethodCall Operand) (context : Context) : Option String :=
  if (call.closureField? context).isSome then none else (call.request context).sent? context

/-- The message of a `new` call that is sent through a call site. -/
def NewCall.sent? (call : NewCall Operand) (context : Context) : Option String :=
  match call.anonymous, call.fastConstructor context with
  | false, .ok none => some constructorSite
  | _, _ => none

mutual

/-- The messages that are sent through call sites where an expression is lowered. -/
def Expr.messages (context : Context) : Expr → List String
  | .cast _ operand => operand.messages context
  | .spread operand => operand.messages context
  | .call call => call.messages context
  | .null | .bool _ | .int _ | .string _ | .read _ | .this | .super | .classLiteral _ => []
termination_by structural expr => expr

/-- The messages that are sent through call sites where a call is lowered. -/
def Call.messages (context : Context) : Call Expr → List String
  | .method call => call.messages context
  | .static ⟨owner, name, arguments, optimizedTarget, position⟩ =>
      messagesOf context arguments ++ ((StaticCall.operands ⟨owner, name, arguments,
        optimizedTarget, position⟩).request.sent? context).toList
  | .create ⟨classId, arguments, optimizedTarget, anonymous, position⟩ =>
      messagesOf context arguments ++ ((NewCall.operands ⟨classId, arguments,
        optimizedTarget, anonymous, position⟩).sent? context).toList
  | .chain ⟨_, arguments, _⟩ => messagesOf context arguments
termination_by structural call => call

/-- The messages of a method call: those of its receiver, unless it is bound to a static
target, of its selector, unless it is bound at all, of its arguments, and its own. -/
def MethodCall.messages (context : Context) : MethodCall Expr → List String
  | ⟨receiver, selector, arguments, safe, spreadSafe, implicitThis, target,
      optimizedTarget, position⟩ =>
      let call := MethodCall.operands ⟨receiver, selector, arguments, safe, spreadSafe,
        implicitThis, target, optimizedTarget, position⟩
      (if (call.boundTarget? context).any (·.isStatic) then [] else receiver.messages context) ++
        (if (call.boundTarget? context).isSome then [] else selector.messages context) ++
        messagesOf context arguments ++ (call.sent? context).toList
termination_by structural call => call

/-- The messages of a selector. -/
def Selector.messages (context : Context) : Selector Expr → List String
  | .named _ => []
  | .computed value => value.messages context
termination_by structural selector => selector

/-- The messages of some expressions, from the left to the right. -/
def messagesOf (context : Context) : List Expr → List String
  | [] => []
  | expr :: exprs => expr.messages context ++ messagesOf context exprs
termination_by structural exprs => exprs

end

/-- What a walk in the order of evaluation meets. -/
structure Walk where
  /-- The slots of the locals that are read. -/
  slots : List UInt16 := []
  /-- The messages that are sent through call sites. -/
  messages : List String := []

namespace Walk

instance : Append Walk :=
  ⟨fun first second => ⟨first.slots ++ second.slots, first.messages ++ second.messages⟩⟩

/-- One walk after another. -/
def each {Thing : Type} (things : List Thing) (walk : Thing → Walk) : Walk :=
  ⟨things.flatMap fun thing => (walk thing).slots,
    things.flatMap fun thing => (walk thing).messages⟩

variable (first second third : Walk)

@[simp]
theorem slots_append : (first ++ second).slots = first.slots ++ second.slots := rfl

@[simp]
theorem messages_append : (first ++ second).messages = first.messages ++ second.messages := rfl

theorem append_empty : first ++ {} = first := by
  obtain ⟨slots, messages⟩ := first
  change Walk.mk (slots ++ []) (messages ++ []) = _
  rw [List.append_nil, List.append_nil]

theorem append_assoc : first ++ second ++ third = first ++ (second ++ third) := by
  change Walk.mk (_ ++ _ ++ _) (_ ++ _ ++ _) = Walk.mk (_ ++ (_ ++ _)) (_ ++ (_ ++ _))
  rw [List.append_assoc, List.append_assoc]

section Each

variable {Thing Other : Type} {walk : Thing → Walk}

theorem each_cons (thing : Thing) (things : List Thing) :
    each (thing :: things) walk = walk thing ++ each things walk := rfl

theorem each_singleton (thing : Thing) : each [thing] walk = walk thing :=
  append_empty (walk thing)

theorem each_append (things others : List Thing) :
    each (things ++ others) walk = each things walk ++ each others walk := by
  change Walk.mk _ _ = Walk.mk _ _
  rw [List.flatMap_append, List.flatMap_append]
  rfl

/-- What is paired with the things does not matter, if there is enough of it. -/
theorem each_zip (walk : Thing → Walk) {things : List Thing} {others : List Other}
    (enough : things.length ≤ others.length) :
    each (things.zip others) (fun pair => walk pair.1) = each things walk := by
  conv_rhs => rw [← List.map_fst_zip enough]
  rw [each, each, List.flatMap_map, List.flatMap_map]

end Each

end Walk

/-- What a walk over an expression meets. -/
def Expr.walk (context : Context) (expr : Expr) : Walk :=
  ⟨expr.slots context, expr.messages context⟩

/-- What a walk over a call meets. -/
def Call.walk (context : Context) (call : Call Expr) : Walk :=
  ⟨call.slots context, call.messages context⟩

variable {context : Context}

theorem walk_of_isThis {expr : Expr} (isThis : expr.isThis = true) :
    expr.walk context = {} := by
  cases expr <;> first | rfl | cases isThis

/-! ## Operands -/

/-- What a walk over the sources of some operands meets. -/
def operandWalk (context : Context) (operands : List Operand) : Walk :=
  .each operands fun operand => operand.source.walk context

theorem operandWalk_singleton (operand : Operand) :
    operandWalk context [operand] = operand.source.walk context :=
  Walk.each_singleton operand

theorem walk_arguments (exprs : List Expr) :
    ⟨slotsOf context exprs, messagesOf context exprs⟩ =
      operandWalk context (operandsOf exprs) := by
  induction exprs with
  | nil => rfl
  | cons expr exprs ih =>
      have rest := ih
      rw [operandsOf, operandWalk, Walk.each_cons, ← operandWalk, ← rest]
      rfl

/-- What a walk over the value meets that a selector computes. -/
def Selector.valueWalk (context : Context) (selector : Selector Operand) : Walk :=
  operandWalk context selector.value?.toList

theorem Selector.valueWalk_of_name? {selector : Selector Operand} {name : String}
    (named : selector.name? = some name) : selector.valueWalk context = {} := by
  rw [valueWalk, value?_of_name? named]
  rfl

theorem Selector.walk_operands (selector : Selector Expr) :
    ⟨selector.slots context, selector.messages context⟩ =
      selector.operands.valueWalk context := by
  cases selector with
  | named => rfl
  | computed value =>
      rw [Selector.operands, Selector.valueWalk, Selector.value?, Option.toList_some,
        operandWalk_singleton]
      rfl

/-- What a walk over the receiver meets that is loaded for a target. -/
def Method.receiverWalk (context : Context) (target : Method) (receiver : Option Operand) :
    Walk :=
  if target.isStatic then {} else operandWalk context receiver.toList

/-- A message that is sent, if there is one. -/
def Walk.sending (message : Option String) : Walk := { messages := message.toList }

theorem Walk.append_sending_none (walk : Walk) : walk ++ sending none = walk := append_empty walk

theorem Walk.mk_append_sending (slots : List UInt16) (messages : List String)
    (message : Option String) :
    Walk.mk slots (messages ++ message.toList) = ⟨slots, messages⟩ ++ sending message := by
  change _ = Walk.mk (slots ++ []) _
  rw [List.append_nil]
  rfl

/-! ## Requests -/

namespace Request

/-- What a walk over the operands of a request meets that is not bound. -/
def operandWalk (context : Context) (request : Request) : Walk :=
  request.receiver.source.walk context ++ request.selector.valueWalk context ++
    CallCode.operandWalk context request.arguments

/-- What a walk over a request meets: its receiver, unless it is bound to a static target,
its selector, unless it is bound at all, its arguments, and its own message. -/
def walk (context : Context) (request : Request) : Walk :=
  (if (request.boundTarget? context).any (·.isStatic) then {}
    else request.receiver.source.walk context) ++
    (if (request.boundTarget? context).isSome then {} else request.selector.valueWalk context) ++
    CallCode.operandWalk context request.arguments ++ .sending (request.sent? context)

theorem walk_of_bound {request : Request} {target : Method}
    (bound : request.boundTarget? context = some target) :
    request.walk context =
      (if target.isStatic then {} else request.receiver.source.walk context) ++
        CallCode.operandWalk context request.arguments := by
  rw [walk, sent?, bound]
  simp only [Option.any_some, Option.isSome_some, if_true, Walk.append_empty]
  exact Walk.append_empty _

theorem walk_of_unbound {request : Request} (unbound : request.boundTarget? context = none) :
    request.walk context = request.operandWalk context ++ .sending request.cachedName? := by
  rw [walk, sent?, unbound]
  rfl

/-- A target that is proved for a call without a written receiver is loaded with another
one, but there is nothing to meet in what it replaces. -/
def CurrentIsPlain (context : Context) (request : Request) : Prop :=
  request.routine = .invokeOnCurrent ∨ request.routine = .invokeStatic →
    request.receiver.source.walk context = {}

theorem isCurrent_of_fastTarget? {request : Request} {options : Options} {target : Identity}
    (proved : request.normalize.fastTarget? options = some target) :
    request.routine = .invokeOnCurrent ∨ request.routine = .invokeStatic := by
  unfold fastTarget? at proved
  dsimp only at proved
  rw [Option.ite_none_right_eq_some] at proved
  simp only [normalize_routine, Bool.and_eq_true, Bool.or_eq_true, beq_iff_eq] at proved
  exact proved.1.1.2

theorem receiverWalk_eq {request : Request} {call : BoundCall}
    (plain : request.CurrentIsPlain context)
    (bound : request.normalize.boundCall context.types context.frame.options =
      .ok (some call)) :
    CallCode.operandWalk context call.receiver.toList =
      request.receiver.source.walk context := by
  cases binds_of_boundCall bound with
  | lookup => rw [normalize_receiver]; exact operandWalk_singleton _
  | resolved => rw [normalize_receiver]; exact operandWalk_singleton _
  | proved proved known =>
      rw [plain (isCurrent_of_fastTarget? proved)]
      rfl

@[simp]
theorem normalize_cachedName? (request : Request) :
    request.normalize.cachedName? = request.cachedName? := by
  unfold normalize
  split <;> rfl

end Request

/-! ## Method calls -/

namespace MethodCall

variable {call : MethodCall Operand}

theorem routine_request : (call.request context).routine = call.routine context.frame := by
  unfold MethodCall.request
  split <;> rfl

theorem receiver_request : (call.request context).receiver = call.receiver := by
  unfold MethodCall.request
  split <;> rfl

theorem arguments_request : (call.request context).arguments = call.arguments := by
  unfold MethodCall.request
  split <;> rfl

/-- The selector of a call of a functional interface is a name, like the one that
replaces it. -/
theorem value?_request :
    (call.request context).selector.value? = call.selector.value? := by
  unfold MethodCall.request
  split
  · rename_i method found
    unfold functionalMethod? at found
    split at found
    · rename_i called
      rw [Selector.value?_of_name? called.1]
      rfl
    · cases found
  · rfl

/-- Calls on the current instance and static calls are made without another receiver. -/
theorem isThis_of_current {frame : Frame}
    (current : call.routine frame = .invokeOnCurrent ∨ call.routine frame = .invokeStatic) :
    call.receiver.source.isThis = true := by
  unfold MethodCall.routine at current
  split at current
  · rename_i static
    simp only [MethodCall.onClass, Bool.and_eq_true] at static
    exact static.1
  · split at current
    · rcases current with same | same <;> cases same
    · split at current
      · assumption
      · rcases current with same | same <;> cases same

theorem currentIsPlain_request : (call.request context).CurrentIsPlain context := by
  rw [Request.CurrentIsPlain, routine_request, receiver_request]
  exact fun current => walk_of_isThis (isThis_of_current current)

theorem valueWalk_request :
    (call.request context).selector.valueWalk context = call.selector.valueWalk context := by
  rw [Selector.valueWalk, value?_request, Selector.valueWalk]

/-- What a walk over the operands of a method call meets, as far as they are loaded, and
its own message. -/
def operandWalk (context : Context) (call : MethodCall Operand) : Walk :=
  (if (call.boundTarget? context).any (·.isStatic) then {}
    else call.receiver.source.walk context) ++
    (if (call.boundTarget? context).isSome then {} else call.selector.valueWalk context) ++
    CallCode.operandWalk context call.arguments ++ .sending (call.sent? context)

/-- The closure of a field is called by its name on the current instance, and one of a
static field where the call is static. -/
theorem spec_of_closureField? {field : Field}
    (found : call.closureField? context = some field) :
    (∃ name, call.selector.name? = some name) ∧ call.receiver.source.isThis = true ∧
      (field.isStatic || !call.onClass context.frame) = true := by
  simp only [closureField?, guard, Option.bind_eq_bind, Option.bind_eq_some_iff] at found
  obtain ⟨name, named, _, unwritten, _, -, other, -, _, admitted, _, -, same⟩ := found
  cases same
  split at unwritten
  · rename_i implicit
    rw [Bool.and_eq_true] at implicit
    split at admitted
    · rename_i reached
      exact ⟨⟨name, named⟩, implicit.2, reached⟩
    · cases admitted
  · cases unwritten

theorem walk_of_closureField? {field : Field}
    (found : call.closureField? context = some field) :
    call.operandWalk context = CallCode.operandWalk context call.arguments := by
  have unbound : call.boundTarget? context = none := by
    simp [boundTarget?, found]
  have unsent : call.sent? context = none := by
    simp [sent?, found]
  obtain ⟨⟨name, named⟩, isThis, -⟩ := spec_of_closureField? found
  rw [operandWalk, unbound, unsent]
  simp only [Option.any_none, Option.isSome_none, Bool.false_eq_true, if_false,
    walk_of_isThis isThis, Selector.valueWalk_of_name? named]
  exact Walk.append_empty _

theorem walk_of_request (absent : call.closureField? context = none) :
    (call.request context).walk context = call.operandWalk context := by
  simp [Request.walk, operandWalk, boundTarget?, sent?, absent, receiver_request,
    arguments_request, valueWalk_request]

end MethodCall

/-- A class and a name have nothing to meet, so only the arguments of a static call do. -/
theorem StaticCall.walk_request (call : StaticCall Operand) :
    call.request.walk context =
      operandWalk context call.arguments ++ .sending (call.request.sent? context) := by
  have received : call.request.receiver.source.walk context = {} := rfl
  have selected : call.request.selector.valueWalk context = {} := rfl
  rw [Request.walk, received, selected, ite_self, ite_self]
  rfl

/-- A walk over a method call meets what one over its operands does. -/
theorem MethodCall.walk_operands (call : MethodCall Expr) :
    (Call.method call).walk context = call.operands.operandWalk context := by
  obtain ⟨receiver, selector, arguments, safe, spreadSafe, implicitThis, target,
    optimizedTarget, position⟩ := call
  rw [Call.walk, Call.slots, Call.messages, MethodCall.slots, MethodCall.messages,
    MethodCall.operandWalk]
  generalize static : Option.any _ _ = isStatic
  generalize bound : Option.isSome _ = isBound
  rw [MethodCall.operands, ← walk_arguments, ← Selector.walk_operands]
  rw [Walk.mk_append_sending]
  cases isStatic <;> cases isBound <;> rfl

theorem StaticCall.walk_operands (call : StaticCall Expr) :
    (Call.static call).walk context = operandWalk context call.operands.arguments ++
      .sending (call.operands.request.sent? context) := by
  obtain ⟨owner, name, arguments, optimizedTarget, position⟩ := call
  rw [Call.walk, Call.slots, Call.messages, Walk.mk_append_sending, walk_arguments]
  rfl

theorem NewCall.walk_operands (call : NewCall Expr) :
    (Call.create call).walk context = operandWalk context call.operands.arguments ++
      .sending (call.operands.sent? context) := by
  obtain ⟨classId, arguments, optimizedTarget, anonymous, position⟩ := call
  rw [Call.walk, Call.slots, Call.messages, Walk.mk_append_sending, walk_arguments]
  rfl

theorem ChainCall.walk_operands (call : ChainCall Expr) :
    (Call.chain call).walk context = operandWalk context call.operands.arguments := by
  obtain ⟨kind, arguments, position⟩ := call
  rw [Call.walk, Call.slots, Call.messages, walk_arguments]
  rfl

end CallCode
