import CallCode.Proofs.EvaluationOrder
import CallCode.Proofs.Lowering.InstanceLoads

/-!
# Static code

Code without an instance pushes the class for `this`.  It still loads an instance for the
calls that load one by themselves, and for no others.
-/

namespace CallCode

open Lower

variable {context : Context} {before after : LoweringState}

/-! ## Expressions -/

mutual

theorem Expr.loads (static : context.frame.isStatic = true) :
    (expr : Expr) → expr.mentionsSuper = false → expr.operand.Loads context
  | .null, _ => .then (.write .loadNull) fun _ => loads_push _
  | .bool _, _ => .then (.write (.loadBool _)) fun _ => loads_push _
  | .int _, _ => .then (.write (.loadInt _)) fun _ => loads_push _
  | .string _, _ => .then (.write (.loadString _)) fun _ => loads_push _
  | .read _, _ => .then (.write (.getLocal _)) fun _ => loads_push _
  | .this, _ => by
      refine .after_read ?_
      rw [if_pos static]
      exact .then (.write (.loadClass _)) fun _ => loads_push _
  | .classLiteral id, _ => loads_classOperand id
  | .cast target operand, plain => .finish (Expr.loads static operand plain) fun _ =>
      loads_coerceTo target
  | .spread operand, plain => Expr.loads static operand plain
  | .call call, plain => Call.loads_lower static call plain

theorem Call.loads_lower (static : context.frame.isStatic = true) :
    (call : Call Expr) → call.mentionsSuper = false →
      Loads context (lowerCall call.operands) (call.instanceLoads context)
  | .method call, plain => by
      rw [MethodCall.instanceLoads_operands]
      have loads := MethodCall.operandsLoad static call plain
      exact .finish (MethodCall.loads_lower loads) fun _ => .pure _
  | .static ⟨_, _, arguments, _, _⟩, plain => by
      rw [StaticCall.instanceLoads_operands]
      have loads := loads_operandsOf static arguments plain
      exact .finish (StaticCall.loads_lower loads) fun _ => .pure _
  | .create ⟨_, arguments, _, _, _⟩, plain => by
      rw [NewCall.instanceLoads_operands]
      have loads := loads_operandsOf static arguments plain
      exact .finish (NewCall.loads_lower loads) fun _ => .pure _
  | .chain _, _ => .fail _

theorem MethodCall.operandsLoad (static : context.frame.isStatic = true) :
    (call : MethodCall Expr) → call.mentionsSuper = false →
      call.operands.OperandsLoad context
  | ⟨receiver, selector, arguments, _, _, _, _, _, _⟩, plain => by
      simp only [MethodCall.mentionsSuper, Bool.or_eq_false_iff] at plain
      exact ⟨Expr.loads static receiver plain.1.1, Selector.loads static selector plain.1.2,
        loads_operandsOf static arguments plain.2⟩

theorem Selector.loads (static : context.frame.isStatic = true) :
    (selector : Selector Expr) → selector.mentionsSuper = false →
      ∀ value ∈ selector.operands.value?, value.Loads context
  | .named _, _ => by simp [Selector.operands, Selector.value?]
  | .computed value, plain => by
      simp only [Selector.operands, Selector.value?, Option.mem_def, Option.some.injEq,
        forall_eq']
      exact Expr.loads static value plain

theorem loads_operandsOf (static : context.frame.isStatic = true) :
    (exprs : List Expr) → mentionSuper exprs = false →
      ∀ operand ∈ operandsOf exprs, operand.Loads context
  | [], _ => by simp [operandsOf]
  | expr :: exprs, plain => by
      simp only [mentionSuper, Bool.or_eq_false_iff] at plain
      simp only [operandsOf, List.mem_cons, forall_eq_or_imp]
      exact ⟨Expr.loads static expr plain.1, loads_operandsOf static exprs plain.2⟩

end

/-! ## Constructor chaining -/

section Switches

variable {classId : Identity} {position : Position}

theorem loads_selectKey (classId : Identity) (arguments : List Operand) (candidates : Nat) :
    Loads context (selectKey classId arguments candidates) [] := by
  refine .then (.write (.emit rfl)) fun _ => .then (.track _) fun _ => ?_
  refine .then (.write (.loadInt _)) fun _ => .then (loads_push _) fun _ => ?_
  refine .then (.write (.loadClass _)) fun _ => .then (loads_push _) fun _ => ?_
  refine .then (.write (.loadInt _)) fun _ => .then (loads_push _) fun _ => ?_
  exact .then (.write (.callRoutine _ _)) fun _ => loads_replace _ _

/-- Outside a constructor the instance to initialize is a new one. -/
theorem loads_loadInstance (classId : Identity) :
    Loads context (loadInstance classId false) [] :=
  .then (.write (.newInstance _)) fun _ => loads_push _

theorem loads_arrangeReceiver (inConstructor : Bool) :
    Loads context (arrangeReceiver inConstructor) [] := by
  unfold arrangeReceiver
  split
  · refine .then (.write (.emit rfl)) fun _ => .then (.track _) fun _ => ?_
    exact .then (.write (.emit rfl)) fun _ => .track _
  · refine .then (.write (.emit rfl)) fun _ => .then (.track _) fun _ => ?_
    refine .then (.write (.emit rfl)) fun _ => .then (.track _) fun _ => ?_
    exact .then (.write (.emit rfl)) fun _ => .then (.track _) fun _ => .pure _

theorem loads_unpackElement (position : Nat) (type : ValueType) :
    Loads context (unpackElement position type) [] := by
  refine .then (.write (.emit rfl)) fun _ => .then (.track _) fun _ => ?_
  refine .then (.write (.loadInt _)) fun _ => .then (loads_push _) fun _ => ?_
  refine .then (.write (.emit rfl)) fun _ => .then (loads_replace _ _) fun _ => ?_
  refine .then (loads_coerceTo _) fun _ => ?_
  exact .then (.write (.emit rfl)) fun _ => .track _

theorem loads_unpackRest (position : Nat) (type : ValueType) :
    Loads context (unpackRest position type) [] := by
  refine .then (.write (.loadInt _)) fun _ => .then (loads_push _) fun _ => ?_
  refine .then (.write (.loadClass _)) fun _ => .then (loads_push _) fun _ => ?_
  refine .then (.write (.callRoutine _ _)) fun _ => ?_
  exact .then (.write (.checkCast _)) fun _ => loads_replace _ _

theorem loads_unpackVector (position : Nat) (params : List Param) :
    Loads context (unpackVector position params) [] := by
  fun_induction unpackVector position params with
  | case1 position =>
      exact .then (.write (.emit rfl)) fun _ => .then (.track _) fun _ => .pure _
  | case2 position param isArray => exact loads_unpackRest _ _
  | case3 position param isSingle ih => exact .then (loads_unpackElement _ _) fun _ => ih
  | case4 position param params several ih =>
      exact .then (loads_unpackElement _ _) fun _ => ih

theorem loads_placeArm (inConstructor : Bool) (entry : TypeStack) (arm : Candidate × Label) :
    Loads context (placeArm classId inConstructor position entry arm) [] := by
  refine .then (.change fun _ => rfl) fun _ => .then (.resolve _) fun _ => ?_
  refine .then (.then (loads_arrangeReceiver _) fun _ => .then (loads_unpackVector _ _) fun _ =>
    loads_runConstructor _ _ _) fun _ => ?_
  exact .then (.writeLabelled .jump) fun exit => .after_get fun state => .pure _

theorem loads_dropVector (inConstructor : Bool) :
    Loads context (dropVector inConstructor) [] := by
  have pops : Loads context (do
      write (·.emit .pop)
      let _ ← track .pop) [] :=
    .then (.write (.emit rfl)) fun _ => .then (.track _) fun _ => .pure _
  unfold dropVector
  dsimp only
  split
  · exact .then (.write (.emit rfl)) fun _ => .then (.track _) fun _ => pops
  · exact pops

theorem loads_placeSwitch (table : CandidateTable) :
    Loads context (placeSwitch context classId table position) [] := by
  refine .then (.writeLabelled (.lookupSwitch _)) fun labels => ?_
  refine .then (.track _) fun _ => .after_get fun entered => ?_
  refine .then (.mapM_nil fun arm => loads_placeArm _ _ arm) fun exits => ?_
  refine .then (.change fun _ => rfl) fun _ => .then (.resolve _) fun _ => ?_
  refine .then (.write (.raiseFatal _)) fun _ => ?_
  rw [forM_fst]
  refine .then (.forM_nil fun exit => .resolve exit) fun _ => ?_
  split
  · exact .then (.change fun _ => rfl) fun _ => loads_dropVector _
  · exact .fail_bind _ _

/-- Outside a constructor a switch loads what its arguments do. -/
theorem loads_lowerSwitch {arguments : List Operand}
    (outside : context.frame.isConstructor = false)
    (loads : ∀ operand ∈ arguments, operand.Loads context) (table : CandidateTable) :
    Loads context (lowerSwitch context classId table arguments position)
      (operandLoads context arguments) := by
  rw [lowerSwitch, outside]
  refine .finish (loads_packVector loads position) fun _ => ?_
  refine .then (loads_selectKey _ _ _) fun _ => .then (loads_loadInstance _) fun _ => ?_
  refine .then (.write (.emit rfl)) fun _ => ?_
  exact .then (.track _) fun _ => loads_placeSwitch table

end Switches

/-! ## Emitted code -/

/-- The instance loads of the code between two states, in the order of the code. -/
def LoweringState.instanceLoads (before after : LoweringState) : List Opcode :=
  ((after.assembler.listing.assemble.instructionsFrom
    before.assembler.listing.size).map (·.opcode)).filter Opcode.loadsInstance

/-- What was added to the instance loads of a listing is read back from its bytes. -/
theorem Assembler.Extends.instanceLoads {slots : List UInt16} {loads : List Opcode}
    (extended : before.assembler.Extends after.assembler slots)
    (added : after.assembler.listing.instanceLoads =
      before.assembler.listing.instanceLoads ++ loads) : before.instanceLoads after = loads := by
  obtain ⟨-, placed, outline, sound, -⟩ := extended
  have same := Listing.instructionsFrom_of_outline outline fun instruction member =>
    (sound instruction member).shaped
  rw [Listing.instanceLoads_eq_outline, Listing.instanceLoads_eq_outline, outline,
    List.map_append, List.filter_append] at added
  rw [LoweringState.instanceLoads, ← List.append_cancel_left added, ← same, List.map_map]
  simp [Function.comp_def]

/-- Outside constructors, a chained call in static code adds to the code of the hook what
its arguments load. -/
theorem instanceLoads_of_chain {hook : ChainHook} {call : ChainCall Expr} {way : Construction}
    (static : context.frame.isStatic = true) (outside : context.frame.isConstructor = false)
    (plain : (Call.chain call).mentionsSuper = false)
    (run : Runs (lowerChainCall hook call.operands) context before way after) :
    ∃ answer hooked, Hooked context hook call.operands before answer hooked ∧
      if answer then after = hooked
      else hooked.instanceLoads after = (Call.chain call).instanceLoads context := by
  have loads : ∀ operand ∈ call.operands.arguments, operand.Loads context := by
    rw [ChainCall.arguments_operands]
    obtain ⟨target, arguments, position⟩ := call
    exact loads_operandsOf static arguments plain
  have ends : Ends (lowerChainCall hook call.operands) context before none after := ⟨way, run⟩
  cases lowerChainCall_ends ends with
  | taken offered => exact ⟨true, after, offered, rfl⟩
  | direct ready bound _ =>
      -- a constructor is bound at once only in another one
      rw [ChainCall.boundCandidate, outside] at bound
      cases bound
  | keySwitch ready _ switches =>
      obtain ⟨hooked, ledger, offered, -, rfl⟩ := ready.declined
      obtain ⟨_, switches⟩ := switches
      have code := ((call.reads_switch _).advances switches).code
      have added := loads_lowerSwitch outside loads _ _ _ _ switches
      rw [← ChainCall.instanceLoads_operands] at added
      exact ⟨false, hooked, offered, code.instanceLoads added⟩

theorem instanceLoads_of_call {call : Call Expr} (static : context.frame.isStatic = true)
    (plain : call.mentionsSuper = false)
    (run : Runs (lowerCall call.operands) context before () after) :
    before.instanceLoads after = call.instanceLoads context := by
  have code := ((Call.reads_lower call).advances run).code
  exact code.instanceLoads (Call.loads_lower static call plain before () after run)

/-- The code between two states loads the instances that a call and the calls in its
operands load by themselves, and none exactly if none of these calls loads one. -/
def LoweringState.LoadsFor (context : Context) (before after : LoweringState)
    (call : Call Expr) : Prop :=
  before.instanceLoads after = (call.evaluated context).filterMap (Call.instanceLoad? context) ∧
    (before.instanceLoads after = [] ↔
      ∀ inner ∈ call.evaluated context, inner.instanceLoad? context = none)

theorem LoweringState.LoadsFor.of_eq {call : Call Expr}
    (loads : before.instanceLoads after = call.instanceLoads context) :
    before.LoadsFor context after call :=
  ⟨loads, by rw [loads, Call.instanceLoads, List.filterMap_eq_nil_iff]⟩

/-- Static code loads an instance for the calls that load one by themselves, and for no
others.  In every frame without an instance that is no constructor's, and from every state,
the code of a call without `super` loads one instance, in the order of evaluation, for each
call of a closure in a field of the instance, for each call that is bound to a proved
instance target, and for each that is bound to one of an enclosing class.  There are no
such calls in a static method of a class that is in no other one, if proved targets are not
trusted.  A hook that takes a chained call over has the last word on its code. -/
theorem instance_loads_of_static_code (context : Context) (before after : LoweringState)
    (static : context.frame.isStatic = true) (outside : context.frame.isConstructor = false) :
    (∀ call : Call Expr, call.mentionsSuper = false →
      Runs (lowerCall call.operands) context before () after →
        before.LoadsFor context after call) ∧
    (∀ (call : ChainCall Expr) (way : Construction), (Call.chain call).mentionsSuper = false →
      Runs (lowerChainCall noHook call.operands) context before way after →
        before.LoadsFor context after (.chain call)) ∧
    (∀ (hook : ChainHook) (call : ChainCall Expr) (way : Construction),
      (Call.chain call).mentionsSuper = false →
      Runs (lowerChainCall hook call.operands) context before way after →
        ∃ answer hooked, Hooked context hook call.operands before answer hooked ∧
          if answer then after = hooked else hooked.LoadsFor context after (.chain call)) ∧
    (context.frame.IsDetached context.types →
      ∀ call : Call Expr, call.instanceLoad? context = none) := by
  refine ⟨fun call plain run => .of_eq (instanceLoads_of_call static plain run),
    fun call way plain run => ?_, fun hook call way plain run => ?_,
    fun detached => detached.instanceLoad?_call⟩
  · obtain ⟨answer, hooked, offered, loads⟩ := instanceLoads_of_chain static outside plain run
    obtain ⟨rfl, listing⟩ := offered.of_noHook
    refine .of_eq ?_
    rw [LoweringState.instanceLoads, ← listing]
    exact loads
  · obtain ⟨answer, hooked, offered, loads⟩ := instanceLoads_of_chain static outside plain run
    refine ⟨answer, hooked, offered, ?_⟩
    cases answer with
    | true => exact loads
    | false => exact .of_eq loads

/-- An outer class with a method, and a class inside it with a method and a field. -/
def nestedTypes : TypeTable :=
  ⟨[{ name := "Inner", id := ⟨2⟩, kind := .classType, outer := some ⟨1⟩,
      methods := [⟨⟨4⟩, "wave", ⟨2⟩, [], .object, .openAccess⟩],
      fields := [⟨"run", .object, .openAccess⟩] },
    { name := "Outer", id := ⟨1⟩, kind := .classType,
      methods := [⟨⟨3⟩, "greet", ⟨1⟩, [⟨"one", .object⟩, ⟨"other", .object⟩], .object,
        .openAccess⟩] }]⟩

/-- A static initializer of the inner class, where proved targets are trusted. -/
def initializerContext : Context where
  types := nestedTypes
  frame := { classId := ⟨2⟩, isStaticContext := true, options := { fastPath := true } }

/-- `greet(run(), wave())`, resolved to the method of the outer class, with the closure in
the field and a call that is proved to reach the method of the inner class. -/
def greetingCall : Call Expr :=
  .method ⟨.this, .named "greet",
    [.call (.method ⟨.this, .named "run", [], false, false, true, none, none, .synthetic⟩),
      .call (.method ⟨.this, .named "wave", [], false, false, true, none, some ⟨4⟩,
        .synthetic⟩)],
    false, false, true, some ⟨3⟩, none, .synthetic⟩

/-- A static initializer loads an instance of the outer class and one of its own twice. -/
theorem instance_loads_of_initializer : ∃ before after : LoweringState,
    initializerContext.frame.isStatic = true ∧
      initializerContext.frame.isConstructor = false ∧ greetingCall.mentionsSuper = false ∧
      Runs (lowerCall greetingCall.operands) initializerContext before () after ∧
      before.instanceLoads after = [.getOuterThis, .getThis, .getThis] := by
  obtain ⟨⟨⟩, after, run, -⟩ := exists_runs (show sizeAfter (lowerCall greetingCall.operands)
    initializerContext { ledger := { classId := ⟨2⟩ } } = some 25 by decide +kernel)
  have loads := (instance_loads_of_static_code _ _ after rfl rfl).1 greetingCall rfl run
  refine ⟨_, after, rfl, rfl, rfl, run, ?_⟩
  rw [loads.1]
  decide +kernel

end CallCode
