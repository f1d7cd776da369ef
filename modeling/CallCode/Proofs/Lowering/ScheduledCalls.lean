import CallCode.Proofs.Lowering.Schedule

/-!
# Scheduled calls

A call marks its line, leaves its marks, loads its operands and calls something.  The calls
that are evaluated in it are itself and those in the operands on its schedule.
-/

namespace CallCode

open Lower

variable {context : Context} {jumps : Prop}

/-- What happens where a call is lowered that has some marks and operands. -/
def callStages (position : Position) (marks : List Mark) (operands : List Operand) :
    List Stage :=
  .line position :: (marks.map .mark ++ (operands.map .load ++ [.dispatch]))

theorem load_mem_callStages {position : Position} {marks : List Mark} {operands : List Operand}
    {operand : Operand} :
    .load operand ∈ callStages position marks operands ↔ operand ∈ operands := by
  simp [callStages]

/-! ## Method calls -/

theorem scheduled_callClosure (field : Field) (arguments : List Operand) (position : Position) :
    Scheduled context jumps (callClosure field arguments position)
      (arguments.map .load ++ [.dispatch]) := by
  refine .read (.then scheduled_depth fun start => ?_)
  have calls : Scheduled context jumps (do
      push field.type
      let _ ← boxTop
      packVector arguments position
      write (·.callRoutine .invokeClosure 2)
      collapse start .object) (arguments.map .load ++ [.dispatch]) := by
    refine .then (scheduled_push _) fun _ => .then scheduled_boxTop fun _ => ?_
    refine .bind (scheduled_packVector arguments position) fun _ => ?_
    exact .finish (.dispatch (.callAdapter _ _ _) rfl rfl) fun _ => scheduled_collapse _ _
  dsimp only
  split
  · exact .then (.write (.getStaticField _ _) rfl rfl) fun _ => calls
  · refine .then (.write .getThis rfl rfl) fun _ => ?_
    exact .then (.write (.getField _) rfl rfl) fun _ => calls

namespace MethodCall

/-- The operands that a method call loads: its receiver, unless it is bound to a static
target, the value of its selector, unless it is bound at all, and its arguments. -/
def loaded (context : Context) (call : MethodCall Operand) : List Operand :=
  (if (call.boundTarget? context).any (·.isStatic) then [] else [call.receiver]) ++
    (if (call.boundTarget? context).isSome then [] else call.selector.value?.toList) ++
    call.arguments

variable {call : MethodCall Operand}

theorem loaded_of_closureField? {field : Field} (found : call.closureField? context = some field) :
    call.loaded context = call.receiver :: call.arguments := by
  obtain ⟨⟨name, named⟩, -, -⟩ := spec_of_closureField? found
  simp [loaded, boundTarget?, found, Selector.value?_of_name? named]

theorem loaded_request (absent : call.closureField? context = none) :
    (call.request context).loaded context = call.loaded context := by
  simp [Request.loaded, loaded, boundTarget?, absent, receiver_request, arguments_request,
    value?_request]

theorem receiverIsCallFree_request : (call.request context).ReceiverIsCallFree context := by
  rw [Request.ReceiverIsCallFree, routine_request, receiver_request]
  exact fun current => Expr.evaluated_of_isThis (isThis_of_current current)

theorem scheduled_lower : Scheduled context jumps (lowerMethodCall call)
    (callStages call.position (call.ownMarks context) (call.loaded context)) := by
  refine .bind (.markLine call.position) fun _ => .read ?_
  split
  · rename_i field found
    obtain ⟨-, isThis, -⟩ := spec_of_closureField? found
    have closure : Scheduled context jumps _ _ :=
      scheduled_callClosure field call.arguments call.position
    simp only [ownMarks, found, Option.isSome_some, if_true, List.map_nil,
      loaded_of_closureField? found]
    exact .skip (Expr.evaluated_of_isThis isThis) (closure.finish fun _ => .pure _)
  · rename_i absent
    rw [ownMarks, absent, Option.isSome_none, if_neg Bool.false_ne_true,
      ← loaded_request absent]
    exact scheduled_makeCall receiverIsCallFree_request

end MethodCall

theorem scheduled_classOperand (id : Identity) :
    Scheduled context jumps (classOperand id).load [] :=
  .then (.write (.loadClass _) rfl rfl) fun _ => scheduled_push _

theorem StaticCall.scheduled_lower {call : StaticCall Operand} :
    Scheduled context jumps (lowerStaticCall call)
      (callStages call.position (call.request.ownMarks context) (call.request.loaded context)) := by
  rw [lowerStaticCall_eq]
  exact .bind (.markLine call.position) fun _ => scheduled_makeCall fun _ => rfl

/-! ## Construction -/

theorem scheduled_allocateInstance (classId : Identity) :
    Scheduled context jumps (allocateInstance classId) [] := by
  refine .then (.write (.newInstance _) rfl rfl) fun _ => ?_
  refine .then (.write (.plain .dup rfl) rfl rfl) fun _ => ?_
  exact .then (scheduled_push _) fun _ => scheduled_push _

theorem scheduled_runConstructor (classId : Identity) (constructor : Constructor)
    (position : Position) :
    Scheduled context jumps (runConstructor classId constructor position) [.dispatch] := by
  refine .after_accept fun count _ => ?_
  exact .finish (.dispatch (.invoke .invokeSpecial _ _ _ rfl) rfl rfl) fun _ => .track _

/-- The cell of a local is loaded in place of the local. -/
theorem scheduled_loadCaptured (argument : Operand) :
    Scheduled context jumps (loadCaptured argument) [.load argument] := by
  unfold loadCaptured
  split
  · rename_i source isRead
    split
    · refine .free (by rw [isRead]; rfl) ?_
      exact .then (.write (.getRef _) rfl rfl) fun _ => scheduled_push _
    · exact .load argument
  · exact .load argument

namespace NewCall

variable {call : NewCall Operand}

/-- The operands that a `new` call loads.  The class is loaded only for a cached site, but
there are no calls in it. -/
def loaded (call : NewCall Operand) : List Operand := classOperand call.classId :: call.arguments

theorem scheduled_constructAnonymous :
    Scheduled context jumps (constructAnonymous call)
      (call.arguments.map .load ++ [.dispatch]) := by
  refine .read (.after_accept fun constructor found => ?_)
  have enough := (params_of_anonymousConstructor found).symm
  refine .then (scheduled_allocateInstance _) fun _ => ?_
  refine .bind (scheduled_zip (Nat.le_of_eq enough) fun argument param => ?_) fun _ =>
    scheduled_runConstructor _ _ _
  exact .finish (scheduled_loadCaptured argument) fun _ => scheduled_coerceTo _

theorem scheduled_lower :
    Scheduled context jumps (lowerNewCall call) (callStages call.position [] call.loaded) := by
  refine .bind (.markLine call.position) fun _ => ?_
  dsimp only
  split
  · exact .skip rfl (.finish scheduled_constructAnonymous fun _ => .pure _)
  · refine .read (.after_accept fun constructor _ => ?_)
    cases constructor with
    | some constructor =>
        refine .skip rfl (.then (scheduled_allocateInstance _) fun _ => ?_)
        refine .bind (scheduled_bindArguments call.arguments constructor.params) fun _ => ?_
        exact .finish (scheduled_runConstructor _ _ _) fun _ => .pure _
    | none =>
        have calls : Scheduled context jumps _ _ :=
          scheduled_callThroughSite (classOperand call.classId) call.arguments constructorSite {}
            call.position
        exact .finish calls fun _ => .pure _

end NewCall

/-! ## Calls and the calls in them -/

/-- The operands that a call loads. -/
def Call.loaded (context : Context) : Call Expr → List Operand
  | .method call => call.operands.loaded context
  | .static call => call.operands.request.loaded context
  | .create call => call.operands.loaded
  | .chain call => call.operands.arguments

theorem Call.scheduled_lower (call : Call Expr) :
    Scheduled context jumps (lowerCall call.operands)
      (callStages call.position (call.ownMarks context) (call.loaded context)) := by
  cases call with
  | method call =>
      obtain ⟨_, _, _, _, _, _, _, _, _⟩ := call
      exact .finish MethodCall.scheduled_lower fun _ => .pure _
  | static call =>
      obtain ⟨_, _, _, _, _⟩ := call
      exact .finish StaticCall.scheduled_lower fun _ => .pure _
  | create call =>
      obtain ⟨_, _, _, _, _⟩ := call
      exact .finish NewCall.scheduled_lower fun _ => .pure _
  | chain call => exact .fail _ _

/-- The calls that are evaluated where operands are loaded. -/
def loadedCalls (context : Context) (operands : List Operand) : List (Call Expr) :=
  operands.flatMap fun operand => operand.source.evaluated context

theorem loadedCalls_operandsOf (exprs : List Expr) :
    loadedCalls context (operandsOf exprs) = evaluatedIn context exprs := by
  induction exprs with
  | nil => rfl
  | cons expr exprs ih => rw [operandsOf, evaluatedIn, ← ih]; rfl

theorem Selector.loadedCalls_operands (selector : Selector Expr) :
    loadedCalls context selector.operands.value?.toList = selector.evaluated context := by
  cases selector with
  | named => rfl
  | computed value => exact List.flatMap_singleton _ _

/-- The calls that are evaluated where a call is lowered are itself and those in the operands
that it loads. -/
theorem Call.evaluated_eq (call : Call Expr) :
    call.evaluated context = call :: loadedCalls context (call.loaded context) := by
  cases call with
  | method call =>
      obtain ⟨receiver, selector, arguments, safe, spreadSafe, implicitThis, target,
        optimizedTarget, position⟩ := call
      rw [Call.evaluated, MethodCall.evaluatedOperands, Call.loaded, MethodCall.loaded]
      generalize static : Option.any _ _ = isStatic
      generalize bound : Option.isSome _ = isBound
      simp only [MethodCall.operands, ← loadedCalls_operandsOf, ← Selector.loadedCalls_operands]
      cases isStatic <;> cases isBound <;> simp [loadedCalls]
  | static call =>
      obtain ⟨owner, name, arguments, optimizedTarget, position⟩ := call
      rw [Call.evaluated, ← loadedCalls_operandsOf, Call.loaded, Request.loaded]
      have receiver : ∀ call : StaticCall Operand,
          call.request.receiver.source.evaluated context = [] := fun _ => rfl
      have selector : ∀ call : StaticCall Operand, call.request.selector.value? = none :=
        fun _ => rfl
      generalize static : Option.any _ _ = isStatic
      cases isStatic <;> simp [loadedCalls, receiver, selector] <;> rfl
  | create call =>
      obtain ⟨classId, arguments, optimizedTarget, anonymous, position⟩ := call
      rw [Call.evaluated, ← loadedCalls_operandsOf]
      rfl
  | chain call =>
      obtain ⟨target, arguments, position⟩ := call
      rw [Call.evaluated, ← loadedCalls_operandsOf]
      rfl

/-! ## Operands -/

/-- What holds of the operand of an expression whatever it is: it holds of those without
calls, and it passes from an expression to one around it and from the operands of a call to
the call. -/
structure LoadedProperty (context : Context) (jumps : Prop) (holds : Operand → Prop) : Prop where
  plain : ∀ operand : Operand, operand.source.evaluated context = [] →
    Scheduled context jumps operand.load [] → holds operand
  around : ∀ outer inner : Expr, outer.evaluated context = inner.evaluated context →
    Scheduled context jumps outer.lower [.load inner.operand] →
      holds inner.operand → holds outer.operand
  call : ∀ call : Call Expr, (∀ operand ∈ call.loaded context, holds operand) →
    holds (Expr.call call).operand

section Operands

variable {holds : Operand → Prop}

mutual

theorem LoadedProperty.expr (property : LoadedProperty context jumps holds) :
    (expr : Expr) → holds expr.operand
  | .null => property.plain _ rfl (.then (.write .loadNull rfl rfl) fun _ => scheduled_push _)
  | .bool _ =>
      property.plain _ rfl (.then (.write (.loadBool _) rfl rfl) fun _ => scheduled_push _)
  | .int _ => property.plain _ rfl (.then (.write (.loadInt _) rfl rfl) fun _ => scheduled_push _)
  | .string _ =>
      property.plain _ rfl (.then (.write (.loadString _) rfl rfl) fun _ => scheduled_push _)
  | .read _ =>
      property.plain _ rfl (.then (.write (.getLocal _) rfl rfl) fun _ => scheduled_push _)
  | .this => by
      refine property.plain _ rfl (.read ?_)
      split
      · exact .then (.write (.loadClass _) rfl rfl) fun _ => scheduled_push _
      · exact .then (.write .getThis rfl rfl) fun _ => scheduled_push _
  | .super => property.plain _ rfl
      (.then (.write .getThis rfl rfl) fun _ => .read (scheduled_push _))
  | .classLiteral id => property.plain _ rfl (scheduled_classOperand id)
  | .cast target operand => property.around _ operand rfl
      (.finish (.load operand.operand) fun _ => scheduled_coerceTo target)
      (property.expr operand)
  | .spread operand => property.around _ operand rfl (.load operand.operand)
      (property.expr operand)
  | .call call => property.call call (property.loaded call)

theorem LoadedProperty.loaded (property : LoadedProperty context jumps holds) :
    (call : Call Expr) → ∀ operand ∈ call.loaded context, holds operand
  | .method ⟨receiver, selector, arguments, _, _, _, _, _, _⟩ => by
      have received := property.expr receiver
      have selected := property.value selector
      have loads := property.operands arguments
      intro operand member
      rcases List.mem_append.mp member with early | argument
      · rcases List.mem_append.mp early with receives | selects
        · split at receives
          · cases receives
          · exact List.mem_singleton.mp receives ▸ received
        · split at selects
          · cases selects
          · exact selected operand (Option.mem_toList.mp selects)
      · exact loads operand argument
  | .static ⟨owner, _, arguments, _, _⟩ => by
      have received : holds (classOperand owner) := property.plain _ rfl (scheduled_classOperand _)
      have loads := property.operands arguments
      intro operand member
      rcases List.mem_append.mp member with early | argument
      · rcases List.mem_append.mp early with receives | selects
        · split at receives
          · cases receives
          · exact List.mem_singleton.mp receives ▸ received
        · split at selects <;> cases selects
      · exact loads operand argument
  | .create ⟨classId, arguments, _, _, _⟩ => by
      have received : holds (classOperand classId) :=
        property.plain _ rfl (scheduled_classOperand _)
      exact List.forall_mem_cons.mpr ⟨received, property.operands arguments⟩
  | .chain ⟨_, arguments, _⟩ => property.operands arguments

theorem LoadedProperty.value (property : LoadedProperty context jumps holds) :
    (selector : Selector Expr) → ∀ value ∈ selector.operands.value?, holds value
  | .named _ => by simp [Selector.operands, Selector.value?]
  | .computed value => by
      simp only [Selector.operands, Selector.value?, Option.mem_def, Option.some.injEq,
        forall_eq']
      exact property.expr value

theorem LoadedProperty.operands (property : LoadedProperty context jumps holds) :
    (exprs : List Expr) → ∀ operand ∈ operandsOf exprs, holds operand
  | [] => by simp [operandsOf]
  | expr :: exprs => by
      simp only [operandsOf, List.mem_cons, forall_eq_or_imp]
      exact ⟨property.expr expr, property.operands exprs⟩

end

end Operands

/-! ## Constructor chaining -/

section Chaining

variable {classId : Identity} {position : Position}

theorem scheduled_chainDirectly {arguments : List Operand} {constructor : Constructor}
    (enough : arguments.length ≤ constructor.params.length) :
    Scheduled context jumps (chainDirectly classId constructor arguments position)
      (arguments.map .load ++ [.dispatch]) := by
  refine .then scheduled_depth fun start => .then (.write .getThis rfl rfl) fun _ => ?_
  refine .read (.then (scheduled_push _) fun _ => ?_)
  refine .bind (scheduled_zip enough fun operand param => ?_) fun _ => ?_
  · refine .finish (.load operand) fun _ => ?_
    split
    · exact scheduled_coerceTo _
    · exact .pure _
  · refine .after_accept fun count _ => ?_
    exact .finish (.dispatch (.invoke .invokeSpecial _ _ _ rfl) rfl rfl) fun _ =>
      scheduled_dropAbove _

theorem scheduled_selectKey (arguments : List Operand) (candidates : Nat) :
    Scheduled context jumps (selectKey classId arguments candidates) [.dispatch] := by
  refine .then (.write (.plain .dup rfl) rfl rfl) fun _ => .then (.track _) fun _ => ?_
  refine .then (.write (.loadInt _) rfl rfl) fun _ => .then (scheduled_push _) fun _ => ?_
  refine .then (.write (.loadClass _) rfl rfl) fun _ => .then (scheduled_push _) fun _ => ?_
  refine .then (.write (.loadInt _) rfl rfl) fun _ => .then (scheduled_push _) fun _ => ?_
  exact .finish (.dispatch (.callAdapter _ _ _) rfl rfl) fun _ => scheduled_replace _ _

theorem scheduled_loadInstance (inConstructor : Bool) :
    Scheduled context jumps (loadInstance classId inConstructor) [] := by
  unfold loadInstance
  split
  · exact .then (.write .getThis rfl rfl) fun _ => .read (scheduled_push _)
  · exact .then (.write (.newInstance _) rfl rfl) fun _ => scheduled_push _

theorem scheduled_arrangeReceiver (inConstructor : Bool) :
    Scheduled context jumps (arrangeReceiver inConstructor) [] := by
  unfold arrangeReceiver
  split
  · refine .then (.write (.plain .swap rfl) rfl rfl) fun _ => .then (.track _) fun _ => ?_
    exact .then (.write (.plain .dupX1 rfl) rfl rfl) fun _ => .track _
  · refine .then (.write (.plain .dupX1 rfl) rfl rfl) fun _ => .then (.track _) fun _ => ?_
    refine .then (.write (.plain .dup2X1 rfl) rfl rfl) fun _ => .then (.track _) fun _ => ?_
    exact .then (.write (.plain .pop rfl) rfl rfl) fun _ => .then (.track _) fun _ => .pure _

theorem scheduled_unpackElement (place : Nat) (type : ValueType) :
    Scheduled context jumps (unpackElement place type) [] := by
  refine .then (.write (.plain .dup rfl) rfl rfl) fun _ => .then (.track _) fun _ => ?_
  refine .then (.write (.loadInt _) rfl rfl) fun _ => .then (scheduled_push _) fun _ => ?_
  refine .then (.write (.plain .arrayLoad rfl) rfl rfl) fun _ => ?_
  refine .then (scheduled_replace _ _) fun _ => .then (scheduled_coerceTo _) fun _ => ?_
  exact .then (.write (.plain .swap rfl) rfl rfl) fun _ => .track _

theorem scheduled_unpackRest (place : Nat) (type : ValueType) :
    Scheduled context jumps (unpackRest place type) [.dispatch] := by
  refine .then (.write (.loadInt _) rfl rfl) fun _ => .then (scheduled_push _) fun _ => ?_
  refine .then (.write (.loadClass _) rfl rfl) fun _ => .then (scheduled_push _) fun _ => ?_
  refine .finish (.dispatch (.callAdapter _ _ _) rfl rfl) fun _ => ?_
  exact .then (.write (.checkCast _) rfl rfl) fun _ => scheduled_replace _ _

theorem scheduled_unpackVector (place : Nat) (params : List Param) :
    Scheduled context jumps (unpackVector place params) [.adapt] := by
  fun_induction unpackVector place params with
  | case1 place =>
      have pops : Scheduled context jumps (do
          write (·.emit .pop)
          let _ ← track .pop) [] :=
        .then (.write (.plain .pop rfl) rfl rfl) fun _ => .then (.track _) fun _ => .pure _
      exact pops.calls (by simp)
  | case2 place param isArray => exact (scheduled_unpackRest _ _).calls (by decide)
  | case3 place param isSingle ih => exact .then (scheduled_unpackElement _ _) fun _ => ih
  | case4 place param params several ih =>
      exact .then (scheduled_unpackElement _ _) fun _ => ih

theorem scheduled_placeArm (inConstructor : Bool) (entry : TypeStack) (arm : Candidate × Label) :
    Scheduled context True (placeArm classId inConstructor position entry arm) [.adapt] := by
  refine .then (.restore entry) fun _ => .then (.resolve _ trivial) fun _ => ?_
  have runs : Scheduled context True (lowerArm classId arm.1 inConstructor position)
      [.adapt, .dispatch] :=
    .then (scheduled_arrangeReceiver _) fun _ => .bind (scheduled_unpackVector _ _) fun _ =>
      scheduled_runConstructor _ _ _
  refine .finish (runs.calls (by decide)) fun _ => .then (.jump trivial) fun exit => ?_
  exact .peek (fun first second same => by rw [same]) fun _ => .pure _

theorem scheduled_dropVector (inConstructor : Bool) :
    Scheduled context jumps (dropVector inConstructor) [] := by
  have pops : Scheduled context jumps (do
      write (·.emit .pop)
      let _ ← track .pop) [] :=
    .then (.write (.plain .pop rfl) rfl rfl) fun _ => .then (.track _) fun _ => .pure _
  unfold dropVector
  dsimp only
  split
  · exact .then (.write (.plain .swap rfl) rfl rfl) fun _ => .then (.track _) fun _ => pops
  · exact pops

theorem scheduled_placeSwitch (table : CandidateTable) :
    Scheduled context True (placeSwitch context classId table position) [.adapt] := by
  refine .then (.lookupSwitch _ trivial) fun labels => .then (.track _) fun _ => ?_
  refine .peek (fun first second same => by rw [same]) fun entered => ?_
  refine .finish (.mapM_adapt fun arm => scheduled_placeArm _ _ arm) fun exits => ?_
  refine .then (.restore _) fun _ => .then (.resolve _ trivial) fun _ => ?_
  refine .then (.write (.raiseFatal _) rfl rfl) fun _ => ?_
  rw [forM_fst]
  refine .then (.forM_nil fun exit => .resolve exit trivial) fun _ => ?_
  split
  · exact .then (.restore _) fun _ => scheduled_dropVector _
  · exact .fail_bind _ _

theorem scheduled_enterDispatch (table : CandidateTable) (arguments : List Operand) :
    Scheduled context jumps (enterDispatch context classId table arguments position)
      (arguments.map .load ++ [.dispatch]) := by
  refine .bind (scheduled_packVector arguments position) fun _ => ?_
  refine .finish (scheduled_selectKey _ _) fun _ => .then (scheduled_loadInstance _) fun _ => ?_
  exact .then (.write (.plain .swap rfl) rfl rfl) fun _ => .track _

/-- The arguments are loaded once for all arms. -/
theorem scheduled_lowerSwitch (table : CandidateTable) (arguments : List Operand) :
    Scheduled context True (lowerSwitch context classId table arguments position)
      (arguments.map .load ++ [.adapt]) := by
  rw [lowerSwitch_eq]
  have both : Scheduled context True (do
      enterDispatch context classId table arguments position
      placeSwitch context classId table position)
      (arguments.map .load ++ [.dispatch] ++ [.adapt]) :=
    .bind (scheduled_enterDispatch table arguments) fun _ => scheduled_placeSwitch table
  rw [List.append_assoc] at both
  exact both.adapt (by decide)

end Chaining

/-- What a chained call does that its hook declined. -/
def lowerDeclined (call : ChainCall Operand) : Lower Construction := do
  let context ← read
  let classId ← accept (call.calledClass context)
  let table ← consult (Ledger.candidateTable context.types classId call.position)
  match call.boundCandidate context.frame table with
  | some candidate =>
      chainDirectly classId candidate.constructor call.arguments call.position
      return .direct
  | none =>
      chainBySwitch classId table call.arguments call.position
      return .keySwitch

theorem lowerChainCall_eq (hook : ChainHook) (call : ChainCall Operand) :
    lowerChainCall hook call = (do
      markLine call.position
      if ← hook call then
        return .generatedClosure
      lowerDeclined call) :=
  rfl

/-- However a chained call is made, its arguments are loaded before anything is called. -/
theorem ChainCall.scheduled_declined (call : ChainCall Operand) :
    Scheduled context True (lowerDeclined call) (call.arguments.map .load ++ [.adapt]) := by
  refine .read (.after_accept fun classId _ => .then (.table _ _) fun table => ?_)
  split
  · rename_i candidate bound
    have enough := (arity_of_boundCandidate bound).symm
    have chains : Scheduled context True
        (chainDirectly classId candidate.constructor call.arguments call.position)
        (call.arguments.map .load ++ [.dispatch]) :=
      scheduled_chainDirectly (Nat.le_of_eq enough)
    exact (chains.adapt (by decide)).finish fun _ => .pure _
  · refine .finish (.read (.then (.report table _) fun _ => ?_)) fun _ => .pure _
    exact scheduled_lowerSwitch table call.arguments

end CallCode
