import CallCode.Proofs.Lowering.AgreeingContexts
import CallCode.Proofs.Lowering.Planned

/-!
# Calls in contexts that agree

Only `new` calls and chained calls take constructors from the types.  Where every `new` call
in it finds the same constructor, an expression is lowered alike in contexts that agree, and
where the candidates are the same as well, so is a chained call.
-/

namespace CallCode

open Lower

/-! ## Creations -/

mutual

/-- The `new` calls that stand in an expression. -/
def Expr.creations : Expr → List (NewCall Expr)
  | .cast _ operand => operand.creations
  | .spread operand => operand.creations
  | .call call => call.creations
  | .null | .bool _ | .int _ | .string _ | .read _ | .this | .super | .classLiteral _ => []
termination_by structural expr => expr

def Call.creations : Call Expr → List (NewCall Expr)
  | .method call => call.creations
  | .static ⟨_, _, arguments, _, _⟩ => creationsIn arguments
  | .create ⟨classId, arguments, optimizedTarget, anonymous, position⟩ =>
      ⟨classId, arguments, optimizedTarget, anonymous, position⟩ :: creationsIn arguments
  -- no code is written for a chained call that stands as an expression
  | .chain _ => []
termination_by structural call => call

def MethodCall.creations : MethodCall Expr → List (NewCall Expr)
  | ⟨receiver, selector, arguments, _, _, _, _, _, _⟩ =>
      receiver.creations ++ selector.creations ++ creationsIn arguments
termination_by structural call => call

def Selector.creations : Selector Expr → List (NewCall Expr)
  | .named _ => []
  | .computed value => value.creations
termination_by structural selector => selector

def creationsIn : List Expr → List (NewCall Expr)
  | [] => []
  | expr :: exprs => expr.creations ++ creationsIn exprs
termination_by structural exprs => exprs

end

/-- A `new` call finds the same constructor in two contexts, if it looks for one. -/
def NewCall.FindsAlike (first second : Context) (call : NewCall Operand) : Prop :=
  if call.anonymous then
    call.anonymousConstructor second.types = call.anonymousConstructor first.types
  else call.fastConstructor second = call.fastConstructor first

variable {first second : Context}

section Agreeing

variable (agrees : first.Agrees second)
include agrees

/-! ## Method calls -/

theorem alike_callClosure {arguments : List Operand}
    (alike : ∀ operand ∈ arguments, operand.Alike first second) (field : Field)
    (position : Position) : Alike first second (callClosure field arguments position) := by
  refine .read (by rw [agrees.frame]) (.bind rfl fun start => ?_)
  have calls : Alike first second (do
      push field.type
      let _ ← boxTop
      packVector arguments position
      write (·.callRoutine .invokeClosure 2)
      collapse start .object) := by
    refine .bind rfl fun _ => .bind (alike_boxTop agrees) fun _ => ?_
    exact .bind (alike_packVector agrees alike position) fun _ => rfl
  refine .ite (.bind rfl fun _ => calls) ?_
  exact .bind rfl fun _ => .bind rfl fun _ => calls

namespace MethodCall

variable {call : MethodCall Operand}

/-- The operands of a method call are loaded alike. -/
structure Alike (first second : Context) (call : MethodCall Operand) : Prop where
  receiver : call.receiver.Alike first second
  selector : ∀ value ∈ call.selector.value?, value.Alike first second
  arguments : ∀ argument ∈ call.arguments, argument.Alike first second

omit agrees in
theorem Alike.request (alike : call.Alike first second) :
    (call.request first).Alike first second := by
  unfold MethodCall.request
  split
  · refine ⟨alike.receiver, ?_, alike.arguments⟩
    simp [Selector.value?]
  · exact ⟨alike.receiver, alike.selector, alike.arguments⟩

theorem request_agrees (call : MethodCall Operand) : call.request second = call.request first := by
  simp only [MethodCall.request, functionalMethod?, agrees.typeOf, agrees.frame,
    agrees.singleAbstractMethod]

theorem closureField?_agrees (call : MethodCall Operand) :
    call.closureField? second = call.closureField? first := by
  unfold closureField?
  rw [agrees.frame, agrees.hasPossibleMethod]
  congr 1
  funext name
  congr 1
  funext _
  exact agrees.find?_bind _ fun _ => rfl

theorem alike_lower (alike : call.Alike first second) :
    Lower.Alike first second (lowerMethodCall call) := by
  refine .bind (.ite rfl rfl) fun _ => .read ?_ ?_
  · simp only [request_agrees agrees, closureField?_agrees agrees]
  · split
    · exact .bind (alike_callClosure agrees alike.arguments _ _) fun _ => rfl
    · exact alike_makeCall agrees alike.request

end MethodCall

theorem StaticCall.alike_lower {call : StaticCall Operand}
    (alike : ∀ operand ∈ call.arguments, operand.Alike first second) :
    Alike first second (lowerStaticCall call) := by
  have ready : call.request.Alike first second :=
    ⟨rfl, by simp [StaticCall.request, Selector.value?], alike⟩
  rw [lowerStaticCall_eq]
  exact .bind (.ite rfl rfl) fun _ => alike_makeCall agrees ready

/-! ## Construction -/

omit agrees in
theorem alike_runConstructor (classId : Identity) (constructor : Constructor)
    (position : Position) :
    Alike first second (runConstructor classId constructor position) :=
  .after_accept fun _ _ => rfl

omit agrees in
theorem alike_loadCaptured {argument : Operand} (alike : argument.Alike first second) :
    Alike first second (loadCaptured argument) := by
  unfold loadCaptured
  split
  · exact .ite rfl alike
  · exact alike

namespace NewCall

variable {call : NewCall Operand}

theorem alike_constructAnonymous
    (alike : ∀ operand ∈ call.arguments, operand.Alike first second)
    (same : call.anonymousConstructor second.types = call.anonymousConstructor first.types) :
    Alike first second (constructAnonymous call) := by
  refine .read (by simp only [same]) (.after_accept fun constructor _ => .bind rfl fun _ => ?_)
  refine .bind (.forM fun pair member => ?_) fun _ => alike_runConstructor _ _ _
  have loads := alike_loadCaptured (alike pair.1 (List.of_mem_zip member).1)
  exact .bind loads fun _ => alike_coerceTo agrees _

theorem alike_lower (alike : ∀ operand ∈ call.arguments, operand.Alike first second)
    (finds : call.FindsAlike first second) : Alike first second (lowerNewCall call) := by
  refine .bind (.ite rfl rfl) fun _ => ?_
  unfold FindsAlike at finds
  dsimp only
  split
  · rename_i anonymous
    rw [if_pos anonymous] at finds
    exact .bind (alike_constructAnonymous agrees alike finds) fun _ => rfl
  · rename_i named
    rw [if_neg named] at finds
    refine .read (by simp only [finds]) (.after_accept fun found _ => ?_)
    cases found with
    | some constructor =>
        refine .bind rfl fun _ => .bind (alike_bindArguments agrees alike _) fun _ => ?_
        exact .bind (alike_runConstructor _ _ _) fun _ => rfl
    | none =>
        have loads : (classOperand call.classId).Alike first second := rfl
        exact .bind (alike_callThroughSite agrees loads alike _ _ _) fun _ => rfl

end NewCall

end Agreeing

/-! ## Expressions -/

mutual

theorem Expr.alike (agrees : first.Agrees second) : (expr : Expr) →
    (∀ creation ∈ expr.creations, creation.operands.FindsAlike first second) →
      expr.operand.Alike first second
  | .null, _ | .bool _, _ | .int _, _ | .string _, _ | .read _, _ | .classLiteral _, _ => rfl
  | .this, _ => by
      refine .read (by simp only [agrees.frame, agrees.typeOf]) ?_
      exact .ite rfl rfl
  | .super, _ => .bind rfl fun _ => .read (by rw [agrees.typeOf]) rfl
  | .cast target operand, find => .bind (Expr.alike agrees operand find) fun _ =>
      alike_coerceTo agrees target
  | .spread operand, find => Expr.alike agrees operand find
  | .call call, find => Call.alike agrees call find

theorem Call.alike (agrees : first.Agrees second) : (call : Call Expr) →
    (∀ creation ∈ call.creations, creation.operands.FindsAlike first second) →
      Alike first second (lowerCall call.operands)
  | .method call, find =>
      .bind (MethodCall.alike_lower agrees (MethodCall.alike agrees call find)) fun _ => rfl
  | .static ⟨_, _, arguments, _, _⟩, find =>
      .bind (StaticCall.alike_lower agrees (alike_operandsOf agrees arguments find)) fun _ => rfl
  | .create ⟨_, arguments, _, _, _⟩, find => by
      rw [Call.creations, List.forall_mem_cons] at find
      have alike := alike_operandsOf agrees arguments find.2
      exact .bind (NewCall.alike_lower agrees alike find.1) fun _ => rfl
  | .chain _, _ => rfl

theorem MethodCall.alike (agrees : first.Agrees second) : (call : MethodCall Expr) →
    (∀ creation ∈ call.creations, creation.operands.FindsAlike first second) →
      call.operands.Alike first second
  | ⟨receiver, selector, arguments, _, _, _, _, _, _⟩, find => by
      rw [MethodCall.creations, List.forall_mem_append, List.forall_mem_append] at find
      exact ⟨Expr.alike agrees receiver find.1.1, Selector.alike agrees selector find.1.2,
        alike_operandsOf agrees arguments find.2⟩

theorem Selector.alike (agrees : first.Agrees second) : (selector : Selector Expr) →
    (∀ creation ∈ selector.creations, creation.operands.FindsAlike first second) →
      ∀ value ∈ selector.operands.value?, value.Alike first second
  | .named _, _ => by simp [Selector.operands, Selector.value?]
  | .computed value, find => by
      simp only [Selector.operands, Selector.value?, Option.mem_def, Option.some.injEq,
        forall_eq']
      exact Expr.alike agrees value find

theorem alike_operandsOf (agrees : first.Agrees second) : (exprs : List Expr) →
    (∀ creation ∈ creationsIn exprs, creation.operands.FindsAlike first second) →
      ∀ operand ∈ operandsOf exprs, operand.Alike first second
  | [], _ => by simp [operandsOf]
  | expr :: exprs, find => by
      rw [creationsIn, List.forall_mem_append] at find
      simp only [operandsOf, List.mem_cons, forall_eq_or_imp]
      exact ⟨Expr.alike agrees expr find.1, alike_operandsOf agrees exprs find.2⟩

end

/-! ## Constructor chaining -/

section Chaining

variable {classId : Identity} {position : Position} {arguments : List Operand}

theorem alike_resolve (label : Label) : Alike first second (resolve label) := by
  refine .bind rfl fun state => ?_
  split <;> rfl

theorem alike_dropVector (inConstructor : Bool) :
    Alike first second (dropVector inConstructor) :=
  .ite rfl rfl

variable (agrees : first.Agrees second)
include agrees

theorem alike_chainDirectly (alike : ∀ operand ∈ arguments, operand.Alike first second)
    (constructor : Constructor) :
    Alike first second (chainDirectly classId constructor arguments position) := by
  refine .bind rfl fun start => .bind rfl fun _ => .read (by rw [agrees.frame]) ?_
  refine .bind rfl fun _ => .bind (.forM fun pair member => ?_) fun _ => ?_
  · refine .bind (alike pair.1 (List.of_mem_zip member).1) fun _ => ?_
    exact .ite (alike_coerceTo agrees _) rfl
  · exact .after_accept fun _ _ => rfl

theorem alike_loadInstance (inConstructor : Bool) :
    Alike first second (loadInstance classId inConstructor) :=
  .ite (.bind rfl fun _ => .read (by rw [agrees.frame]) rfl) rfl

theorem alike_unpackVector (place : Nat) (params : List Param) :
    Alike first second (unpackVector place params) := by
  have element (place : Nat) (type : ValueType) :
      Alike first second (unpackElement place type) := by
    refine .bind rfl fun _ => .bind rfl fun _ => .bind rfl fun _ => .bind rfl fun _ => ?_
    refine .bind rfl fun _ => .bind rfl fun _ => .bind (alike_coerceTo agrees type) fun _ => ?_
    rfl
  fun_induction unpackVector place params with
  | case1 place => rfl
  | case2 place param isArray => rfl
  | case3 place param isSingle ih => exact .bind (element place param.type) fun _ => ih
  | case4 place param params several ih => exact .bind (element place param.type) fun _ => ih

theorem alike_placeArm (inConstructor : Bool) (entry : TypeStack) (arm : Candidate × Label) :
    Alike first second (placeArm classId inConstructor position entry arm) := by
  refine .bind rfl fun _ => .bind (alike_resolve _) fun _ => .bind ?_ fun _ => rfl
  refine .bind (.ite rfl rfl) fun _ => ?_
  exact .bind (alike_unpackVector agrees 0 _) fun _ => alike_runConstructor _ _ _

theorem alike_placeSwitch (table : CandidateTable) :
    Alike first second (placeSwitch first classId table position) := by
  refine .bind rfl fun labels => .bind rfl fun _ => .bind rfl fun entered => ?_
  refine .bind (.mapM fun arm => alike_placeArm agrees _ _ arm) fun exits => ?_
  refine .bind rfl fun _ => .bind (alike_resolve _) fun _ => .bind rfl fun _ => ?_
  refine .bind (.forM fun exit _ => alike_resolve _) fun _ => ?_
  split
  · exact .bind rfl fun _ => alike_dropVector _
  · rfl

theorem alike_chainBySwitch (alike : ∀ operand ∈ arguments, operand.Alike first second)
    (table : CandidateTable) :
    Alike first second (chainBySwitch classId table arguments position) := by
  have reports (state : LoweringState) :
      state.ledger.reportCollisions second.types table position state.diagnostics =
        state.ledger.reportCollisions first.types table position state.diagnostics := by
    simp only [Ledger.reportCollisions, Ledger.collisionErrors, agrees.typeName]
  refine .read (by simp only [reports, agrees.frame]) (.bind rfl fun _ => ?_)
  refine .bind (alike_packVector agrees alike position) fun _ => .bind rfl fun _ => ?_
  refine .bind (alike_loadInstance agrees _) fun _ => .bind rfl fun _ => .bind rfl fun _ => ?_
  exact alike_placeSwitch agrees table

end Chaining

theorem ChainCall.calledClass_agrees (agrees : first.Agrees second) (call : ChainCall Operand) :
    call.calledClass second = call.calledClass first := by
  have superclass := agrees.find?_bind first.frame.classId fun decl => decl.superclass_bare
  simp only [calledClass, agrees.frame, superclass, agrees.typeName]

/-- A chained call that finds the same candidates in both contexts is lowered alike. -/
theorem ChainCall.alike_declined (agrees : first.Agrees second) (call : ChainCall Expr)
    (find : ∀ creation ∈ creationsIn call.arguments,
      creation.operands.FindsAlike first second)
    (same : ∀ classId, call.operands.calledClass first = .ok classId →
      Ledger.candidateTable second.types classId call.operands.position =
        Ledger.candidateTable first.types classId call.operands.position) :
    Alike first second (lowerDeclined call.operands) := by
  have alike : ∀ operand ∈ call.operands.arguments, operand.Alike first second := by
    rw [ChainCall.arguments_operands]
    exact alike_operandsOf agrees call.arguments find
  refine .read ?_ (.after_accept fun classId _ => .bind rfl fun table => ?_)
  · simp only [calledClass_agrees agrees, agrees.frame]
    cases found : call.operands.calledClass first with
    | error error => rfl
    | ok classId => simp only [accept, pure_bind, same classId found]
  · split
    · exact .bind (alike_chainDirectly agrees alike _) fun _ => rfl
    · exact .bind (alike_chainBySwitch agrees alike table) fun _ => rfl

end CallCode
