import CallCode.Lowering.Expression
import CallCode.Proofs.Lowering.Construction

/-!
# The code of expressions

Every expression pushes one value.  What is known of the code of expressions is
closed under the ways to lower one, and then it is known of all of them.
-/

namespace CallCode

open Lower

variable {context : Context} {codes : OperandCodes} {before after : LoweringState}

@[simp]
theorem MethodCall.arguments_operands (call : MethodCall Expr) :
    call.operands.arguments = operandsOf call.arguments := by
  cases call
  rfl

@[simp]
theorem StaticCall.arguments_operands (call : StaticCall Expr) :
    call.operands.arguments = operandsOf call.arguments := by
  cases call
  rfl

@[simp]
theorem NewCall.arguments_operands (call : NewCall Expr) :
    call.operands.arguments = operandsOf call.arguments := by
  cases call
  rfl

@[simp]
theorem NewCall.classId_operands (call : NewCall Expr) :
    call.operands.classId = call.classId := by
  cases call
  rfl

@[simp]
theorem ChainCall.arguments_operands (call : ChainCall Expr) :
    call.operands.arguments = operandsOf call.arguments := by
  cases call
  rfl

/-- What is known of operands follows for an expression from its parts. -/
structure OperandCodes.Inductive (codes : OperandCodes) (context : Context) : Prop where
  null : codes (Expr.operand .null) [.plain .pushNull] .object
  bool : ∀ value, codes (Expr.operand (.bool value))
    [.plain (if value then .pushTrue else .pushFalse)] .boolean
  int : ∀ value, codes (Expr.operand (.int value)) [.ofInt value] .int
  string : ∀ value, codes (Expr.operand (.string value))
    [.constant (.ofString value)] .string
  read : ∀ source, codes (Expr.operand (.read source)) [.readLocal source.slot] source.type
  thisClass : context.frame.isStatic = true →
    codes (Expr.operand .this) [.typed .loadClass context.frame.classId] .metaclass
  thisInstance : context.frame.isStatic = false →
    codes (Expr.operand .this) [.plain .getThis] (context.typeOf .this)
  super : codes (Expr.operand .super) [.plain .getThis] (context.typeOf .super)
  classLiteral : ∀ id, codes (classOperand id) [.typed .loadClass id] .metaclass
  cell : ∀ argument slot,
    codes (capturedOperand argument) [.readCell slot] (.simple .reference)
  captured : ∀ {argument code type}, codes argument code type →
    codes (capturedOperand argument) code type
  cast : ∀ {target operand code source}, codes (Expr.operand operand) code source →
    codes (Expr.operand (.cast target operand))
      (code ++ coercionCode context.types source target)
      (coercedType context.types source target)
  spread : ∀ {operand code type}, codes (Expr.operand operand) code type →
    codes (Expr.operand (.spread operand)) code type
  method : ∀ {call tier code type},
    MethodCodes context codes (MethodCall.operands call) tier code type →
    codes (Expr.operand (.call (.method call))) code type
  static : ∀ {call : StaticCall Expr} {tier code type},
    RequestCodes context codes (call.operands.request.senderIn context.frame)
      call.operands.request.normalize tier code type →
    codes (Expr.operand (.call (.static call))) code type
  create : ∀ {call way code type},
    NewCodes context codes (NewCall.operands call) way code type →
    codes (Expr.operand (.call (.create call))) code type

/-- Nothing has to be known of operands to know how many values they push. -/
theorem inductive_trivial (context : Context) :
    OperandCodes.Inductive (fun _ _ _ => True) context := by
  constructor <;> intros <;> trivial

namespace OperandCodes.Inductive

theorem this_run (known : codes.Inductive context)
    (run : Runs loadThis context before () after) : ∃ code type,
      codes (Expr.operand .this) code type ∧ before.Pushes after code [type] := by
  simp only [loadThis, runs_bind, runs_read, runs_ite, runs_write, runs_push] at run
  obtain ⟨_, _, ⟨rfl, rfl⟩, run⟩ := run
  split at run
  · rename_i static
    obtain ⟨_, _, rfl, rfl⟩ := run
    exact ⟨_, _, known.thisClass static, Assembler.writes_loadClass _ _, rfl⟩
  · rename_i instanced
    rw [Bool.not_eq_true] at instanced
    obtain ⟨_, _, rfl, rfl⟩ := run
    exact ⟨_, _, known.thisInstance instanced, Assembler.writes_getThis _, rfl⟩

theorem steady_captured (known : codes.Inductive context) {argument : Operand}
    (steady : argument.Steady context codes) :
    (capturedOperand argument).Steady context codes :=
  capturedOperand_steady (known.cell argument) (fun _ _ inner => known.captured inner) steady

mutual

/-- Every expression pushes one value by known code. -/
theorem steady (known : codes.Inductive context) :
    (expr : Expr) → expr.operand.Steady context codes
  | .null => by
      intro before after run
      simp only [Expr.operand, Expr.lower, runs_bind, runs_write, runs_push] at run
      obtain ⟨_, _, rfl, rfl⟩ := run
      exact ⟨_, _, known.null, Assembler.writes_loadNull _, rfl⟩
  | .bool value => by
      intro before after run
      simp only [Expr.operand, Expr.lower, runs_bind, runs_write, runs_push] at run
      obtain ⟨_, _, rfl, rfl⟩ := run
      exact ⟨_, _, known.bool value, Assembler.writes_loadBool _ _, rfl⟩
  | .int value => by
      intro before after run
      simp only [Expr.operand, Expr.lower, runs_bind, runs_write, runs_push] at run
      obtain ⟨_, _, rfl, rfl⟩ := run
      exact ⟨_, _, known.int value, Assembler.writes_loadInt _ _, rfl⟩
  | .string value => by
      intro before after run
      simp only [Expr.operand, Expr.lower, runs_bind, runs_write, runs_push] at run
      obtain ⟨_, _, rfl, rfl⟩ := run
      exact ⟨_, _, known.string value, Assembler.writes_loadString _ _, rfl⟩
  | .read source => by
      intro before after run
      simp only [Expr.operand, Expr.lower, runs_bind, runs_write, runs_push] at run
      obtain ⟨_, _, rfl, rfl⟩ := run
      exact ⟨_, _, known.read source, Assembler.writes_getLocal _ _, rfl⟩
  | .this => by
      intro before after run
      exact known.this_run run
  | .super => by
      intro before after run
      simp only [Expr.operand, Expr.lower, loadSuper, runs_bind, runs_write, runs_read,
        runs_push] at run
      obtain ⟨_, _, rfl, _, _, ⟨rfl, rfl⟩, rfl⟩ := run
      exact ⟨_, _, known.super, Assembler.writes_getThis _, rfl⟩
  | .classLiteral id => classOperand_steady (known.classLiteral id)
  | .cast target operand => by
      intro before after run
      simp only [Expr.operand, Expr.lower, runs_bind] at run
      obtain ⟨_, loaded, loads, coerces⟩ := run
      obtain ⟨code, source, inner, pushed⟩ := steady known operand before loaded loads
      obtain ⟨_, coerced⟩ := coerceTo_run coerces
      obtain ⟨rfl, total⟩ := pushed.retype coerced
      exact ⟨_, _, known.cast inner, total⟩
  | .spread operand => by
      intro before after run
      obtain ⟨code, type, inner, pushed⟩ := steady known operand before after run
      exact ⟨code, type, known.spread inner, pushed⟩
  | .call (.method call) => by
      intro before after run
      simp only [Expr.operand, Expr.lower, Call.operands, lowerCall, runs_bind,
        runs_pure] at run
      obtain ⟨tier, _, lowers, -, rfl⟩ := run
      obtain ⟨code, type, inner, pushed⟩ := lowerMethodCall_run (steady_method known call) lowers
      exact ⟨code, type, known.method inner, pushed⟩
  | .call (.static ⟨owner, name, arguments, optimizedTarget, position⟩) => by
      intro before after run
      simp only [Expr.operand, Expr.lower, Call.operands, lowerCall, runs_bind,
        runs_pure] at run
      obtain ⟨tier, _, lowers, -, rfl⟩ := run
      obtain ⟨code, type, inner, pushed⟩ := lowerStaticCall_run (known.classLiteral owner)
        (steady_arguments known arguments) lowers
      exact ⟨code, type, known.static inner, pushed⟩
  | .call (.create ⟨classId, arguments, optimizedTarget, anonymous, position⟩) => by
      intro before after run
      simp only [Expr.operand, Expr.lower, Call.operands, lowerCall, runs_bind,
        runs_pure] at run
      obtain ⟨way, _, lowers, -, rfl⟩ := run
      have plain := steady_arguments known arguments
      obtain ⟨code, type, inner, pushed⟩ := lowerNewCall_run (known.classLiteral classId)
        (fun argument member => known.steady_captured (plain argument member)) plain lowers
      exact ⟨code, type, known.create inner, pushed⟩
  -- a chained call leaves no value, so that it is refused as an operand
  | .call (.chain call) => by
      intro before after run
      simp only [Expr.operand, Expr.lower, Call.operands, lowerCall, runs_fail] at run

theorem steady_method (known : codes.Inductive context) :
    (call : MethodCall Expr) → call.operands.Steady context codes
  | ⟨receiver, selector, arguments, _, _, _, _, _, _⟩ =>
      ⟨steady known receiver, steady_selector known selector, steady_arguments known arguments⟩

theorem steady_selector (known : codes.Inductive context) :
    (selector : Selector Expr) →
      ∀ value ∈ selector.operands.value?, value.Steady context codes
  | .named _ => by simp [Selector.operands, Selector.value?]
  | .computed value => by
      simp only [Selector.operands, Selector.value?, Option.mem_def, Option.some.injEq,
        forall_eq']
      exact steady known value

theorem steady_arguments (known : codes.Inductive context) :
    (exprs : List Expr) → ∀ argument ∈ operandsOf exprs, argument.Steady context codes
  | [] => by simp [operandsOf]
  | expr :: exprs => by
      simp only [operandsOf, List.mem_cons, forall_eq_or_imp]
      exact ⟨steady known expr, steady_arguments known exprs⟩

end

/-! ## Calls of expressions -/

theorem method_run (known : codes.Inductive context) {call : MethodCall Expr} {tier : Tier}
    (run : Runs (lowerMethodCall call.operands) context before tier after) : ∃ code type,
      MethodCodes context codes call.operands tier code type ∧
        before.Pushes after code [type] :=
  lowerMethodCall_run (known.steady_method call) run

theorem static_run (known : codes.Inductive context) {call : StaticCall Expr} {tier : Tier}
    (run : Runs (lowerStaticCall call.operands) context before tier after) : ∃ code type,
      RequestCodes context codes (call.operands.request.senderIn context.frame)
        call.operands.request.normalize tier code type ∧
      before.Pushes after code [type] := by
  obtain ⟨owner, name, arguments, optimizedTarget, position⟩ := call
  exact lowerStaticCall_run (known.classLiteral owner) (known.steady_arguments arguments) run

theorem create_run (known : codes.Inductive context) {call : NewCall Expr}
    {way : Construction}
    (run : Runs (lowerNewCall call.operands) context before way after) : ∃ code type,
      NewCodes context codes call.operands way code type ∧
        before.Pushes after code [type] := by
  obtain ⟨classId, arguments, optimizedTarget, anonymous, position⟩ := call
  have plain := known.steady_arguments arguments
  exact lowerNewCall_run (known.classLiteral classId)
    (fun argument member => known.steady_captured (plain argument member)) plain run

theorem steady_chain (known : codes.Inductive context) (call : ChainCall Expr) :
    ∀ argument ∈ call.operands.arguments, argument.Steady context codes := by
  rw [ChainCall.arguments_operands]
  exact known.steady_arguments call.arguments

end OperandCodes.Inductive

end CallCode
