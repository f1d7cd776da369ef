import CallCode.Proofs.Lowering.Straight

/-!
# Straight calls

Every expression is lowered straight, on a walk over it, and so is every call that is no
constructor chaining.
-/

namespace CallCode

open Lower

variable {context : Context}

/-! ## Method calls -/

theorem straight_callClosure {arguments : List Operand}
    (straight : ∀ operand ∈ arguments, operand.Straight context) (field : Field)
    (position : Position) :
    Straight context (callClosure field arguments position)
      (operandWalk context arguments) := by
  refine .read (.then straight_depth fun start => ?_)
  have calls : Straight context (do
      push field.type
      let _ ← boxTop
      packVector arguments position
      write (·.callRoutine .invokeClosure 2)
      collapse start .object) (operandWalk context arguments) := by
    refine .then (straight_push _) fun _ => .then straight_boxTop fun _ => ?_
    refine .finish (straight_packVector straight position) fun _ => ?_
    exact .then (.write (.callRoutine _ _)) fun _ => straight_collapse _ _
  dsimp only
  split
  · exact .then (.write (.getStaticField _ _)) fun _ => calls
  · refine .then (.write .getThis) fun _ => ?_
    exact .then (.write (.getField _)) fun _ => calls

namespace MethodCall

variable {call : MethodCall Operand}

/-- The operands of a method call are loaded straight. -/
structure Straight (context : Context) (call : MethodCall Operand) : Prop where
  receiver : call.receiver.Straight context
  selector : ∀ value ∈ call.selector.value?, value.Straight context
  arguments : ∀ argument ∈ call.arguments, argument.Straight context

theorem Straight.request (straight : call.Straight context) :
    (call.request context).Straight context := by
  unfold MethodCall.request
  split
  · refine ⟨straight.receiver, ?_, straight.arguments⟩
    simp [Selector.value?]
  · exact ⟨straight.receiver, straight.selector, straight.arguments⟩

theorem straight_lower (straight : call.Straight context) :
    Lower.Straight context (lowerMethodCall call) (call.operandWalk context) := by
  refine .then (straight_markLine _) fun _ => .read ?_
  split
  · rename_i field found
    rw [walk_of_closureField? found]
    exact .finish (straight_callClosure straight.arguments field call.position) fun _ =>
      .pure _
  · rename_i absent
    rw [← walk_of_request absent]
    exact straight_makeCall straight.request currentIsPlain_request

end MethodCall

theorem straight_classOperand (id : Identity) : (classOperand id).Straight context :=
  .then (.write (.loadClass _)) fun _ => straight_push _

theorem StaticCall.straight_lower {call : StaticCall Operand}
    (straight : ∀ operand ∈ call.arguments, operand.Straight context) :
    Straight context (lowerStaticCall call)
      (operandWalk context call.arguments ++ .sending (call.request.sent? context)) := by
  have ready : call.request.Straight context :=
    ⟨straight_classOperand call.owner, by simp [StaticCall.request, Selector.value?], straight⟩
  have plain : call.request.CurrentIsPlain context := fun _ => rfl
  rw [lowerStaticCall_eq, ← call.walk_request]
  exact .then (straight_markLine _) fun _ => straight_makeCall ready plain

/-! ## Construction -/

theorem straight_allocateInstance (classId : Identity) :
    Straight context (allocateInstance classId) {} := by
  refine .then (.write (.newInstance _)) fun _ => .then (.write (.emit rfl)) fun _ => ?_
  exact .then (straight_push _) fun _ => straight_push _

theorem straight_runConstructor (classId : Identity) (constructor : Constructor)
    (position : Position) :
    Straight context (runConstructor classId constructor position) {} := by
  refine .after_accept fun count _ => ?_
  exact .then (.write (.invoke rfl _ _ _)) fun _ => .track _

/-- A captured local sends nothing, whether its value is read or its cell. -/
theorem straight_loadCaptured {argument : Operand} (straight : argument.Straight context) :
    Straight context (loadCaptured argument) (argument.source.walk context) := by
  have loads : Straight context argument.load (argument.source.walk context) := straight
  unfold loadCaptured
  split
  · rename_i source isRead
    rw [isRead] at loads ⊢
    split
    · exact .finish (.write (.getRef _)) fun _ => straight_push _
    · exact loads
  · exact loads

namespace NewCall

variable {call : NewCall Operand}

theorem straight_constructAnonymous
    (straight : ∀ operand ∈ call.arguments, operand.Straight context) :
    Straight context (constructAnonymous call) (operandWalk context call.arguments) := by
  refine .read (.after_accept fun constructor found => ?_)
  have enough := (params_of_anonymousConstructor found).symm
  refine .then (straight_allocateInstance _) fun _ => ?_
  refine .finish (straight_zip (Nat.le_of_eq enough) fun argument member param => ?_) fun _ =>
    straight_runConstructor _ _ _
  exact .finish (straight_loadCaptured (straight argument member)) fun _ =>
    straight_coerceTo _

theorem straight_lower (straight : ∀ operand ∈ call.arguments, operand.Straight context) :
    Straight context (lowerNewCall call)
      (operandWalk context call.arguments ++ .sending (call.sent? context)) := by
  refine .then (straight_markLine _) fun _ => ?_
  dsimp only
  split
  · rename_i anonymous
    have unsent : call.sent? context = none := by simp [sent?, anonymous]
    rw [unsent, Walk.append_sending_none]
    exact .finish (straight_constructAnonymous straight) fun _ => .pure _
  · rename_i named
    rw [Bool.not_eq_true] at named
    refine .read (.after_accept fun constructor found => ?_)
    cases constructor with
    | some constructor =>
        have unsent : call.sent? context = none := by simp [sent?, named, found]
        rw [unsent, Walk.append_sending_none]
        refine .then (straight_allocateInstance _) fun _ => ?_
        refine .finish (straight_bindArguments straight constructor.params) fun _ => ?_
        exact .then (straight_runConstructor _ _ _) fun _ => .pure _
    | none =>
        have sent : call.sent? context = some constructorSite := by simp [sent?, named, found]
        rw [sent]
        have calls := straight_callThroughSite (straight_classOperand call.classId) straight
          constructorSite {} call.position
        exact .finish calls fun _ => .pure _

end NewCall

/-! ## Expressions -/

mutual

theorem Expr.straight : (expr : Expr) → expr.operand.Straight context
  | .null => .then (.write .loadNull) fun _ => straight_push _
  | .bool _ => .then (.write (.loadBool _)) fun _ => straight_push _
  | .int _ => .then (.write (.loadInt _)) fun _ => straight_push _
  | .string _ => .then (.write (.loadString _)) fun _ => straight_push _
  | .read _ => .finish (.write (.getLocal _)) fun _ => straight_push _
  | .this => by
      refine .read ?_
      split
      · exact .then (.write (.loadClass _)) fun _ => straight_push _
      · exact .then (.write .getThis) fun _ => straight_push _
  | .super => .then (.write .getThis) fun _ => .read (straight_push _)
  | .classLiteral id => straight_classOperand id
  | .cast target operand => .finish (Expr.straight operand) fun _ => straight_coerceTo target
  | .spread operand => Expr.straight operand
  | .call call => Call.straight_lower call

theorem Call.straight_lower :
    (call : Call Expr) → Straight context (lowerCall call.operands) (call.walk context)
  | .method call => by
      rw [MethodCall.walk_operands]
      exact .finish (MethodCall.straight_lower (MethodCall.straight call)) fun _ => .pure _
  | .static ⟨_, _, arguments, _, _⟩ => by
      rw [StaticCall.walk_operands]
      exact .finish (StaticCall.straight_lower (straight_operandsOf arguments)) fun _ => .pure _
  | .create ⟨_, arguments, _, _, _⟩ => by
      rw [NewCall.walk_operands]
      exact .finish (NewCall.straight_lower (straight_operandsOf arguments)) fun _ => .pure _
  | .chain _ => .fail _ _

theorem MethodCall.straight : (call : MethodCall Expr) → call.operands.Straight context
  | ⟨receiver, selector, arguments, _, _, _, _, _, _⟩ =>
      ⟨Expr.straight receiver, Selector.straight selector, straight_operandsOf arguments⟩

theorem Selector.straight : (selector : Selector Expr) →
    ∀ value ∈ selector.operands.value?, value.Straight context
  | .named _ => by simp [Selector.operands, Selector.value?]
  | .computed value => by
      simp only [Selector.operands, Selector.value?, Option.mem_def, Option.some.injEq,
        forall_eq']
      exact Expr.straight value

theorem straight_operandsOf : (exprs : List Expr) →
    ∀ operand ∈ operandsOf exprs, operand.Straight context
  | [] => by simp [operandsOf]
  | expr :: exprs => by
      simp only [operandsOf, List.mem_cons, forall_eq_or_imp]
      exact ⟨Expr.straight expr, straight_operandsOf exprs⟩

end

/-- The code of an expression reads the locals of a walk over it. -/
theorem Expr.reads_lower (expr : Expr) : Reads expr.lower context (expr.slots context) :=
  Straight.reads expr.straight

/-- However a call is made, its code reads the locals of a walk over it. -/
theorem Call.reads_lower (call : Call Expr) :
    Reads (lowerCall call.operands) context (call.slots context) :=
  call.straight_lower.reads

end CallCode
