import CallCode.Proofs.BareTables
import CallCode.Proofs.Lowering.MethodCall

/-!
# Contexts that agree

Two contexts agree if they differ in the constructors of types alone.  An action that takes
no constructor from the types runs alike in both.
-/

namespace CallCode

open Lower

/-- The contexts differ at most in the constructors of types, and the static types of
expressions do not depend on these. -/
structure Context.Agrees (first second : Context) : Prop where
  types : first.types.bare = second.types.bare
  frame : second.frame = first.frame
  typeOf : second.typeOf = first.typeOf

namespace Lower

/-- An action answers and leaves the same in two contexts, whether it succeeds or not. -/
def Alike {Result : Type} (first second : Context) (action : Lower Result) : Prop :=
  action second = action first

namespace Alike

variable {Middle Result Thing : Type} {first second : Context}

theorem bind {action : Lower Middle} {next : Middle → Lower Result}
    (left : Alike first second action) (right : ∀ value, Alike first second (next value)) :
    Alike first second (action >>= next) := by
  funext state
  have runs (context : Context) : (action >>= next) context state =
      EStateM.bind (action context) (fun value => next value context) state := rfl
  rw [runs, runs, left, funext right]

/-- What an action reads is the same in both contexts. -/
theorem read {next : Context → Lower Result} (same : next second = next first)
    (alike : Alike first second (next first)) : Alike first second (read >>= next) := by
  change next second second = next first first
  rw [same]
  exact alike

theorem after_accept {outcome : Except LoweringError Middle} {next : Middle → Lower Result}
    (right : ∀ value, outcome = .ok value → Alike first second (next value)) :
    Alike first second (accept outcome >>= next) := by
  cases outcome with
  | ok value => exact right value rfl
  | error error => rfl

theorem forM {things : List Thing} {action : Thing → Lower Unit}
    (each : ∀ thing ∈ things, Alike first second (action thing)) :
    Alike first second (things.forM action) := by
  induction things with
  | nil => rfl
  | cons thing things ih =>
      refine .bind (each thing List.mem_cons_self) fun _ => ih fun other member => ?_
      exact each other (List.mem_cons_of_mem thing member)

theorem mapM {things : List Thing} {action : Thing → Lower Result}
    (each : ∀ thing, Alike first second (action thing)) :
    Alike first second (things.mapM action) := by
  induction things with
  | nil => rfl
  | cons thing things ih =>
      rw [List.mapM_cons]
      exact .bind (each thing) fun _ => .bind ih fun _ => rfl

theorem ite {condition : Prop} [Decidable condition] {yes no : Lower Result}
    (holds : Alike first second yes) (fails : Alike first second no) :
    Alike first second (if condition then yes else no) := by
  split
  · exact holds
  · exact fails

end Alike

end Lower

variable {first second : Context}

/-- An operand is loaded alike. -/
def Operand.Alike (first second : Context) (operand : Operand) : Prop :=
  Lower.Alike first second operand.load

section Agreeing

variable (agrees : first.Agrees second)

namespace Context.Agrees

include agrees

/-- A question that does not depend on constructors is answered alike. -/
theorem answer {Answer : Type} {ask : TypeTable → Answer}
    (blind : ∀ table, ask table.bare = ask table) : ask second.types = ask first.types := by
  rw [← blind, ← agrees.types, blind]

theorem isPrimitive : second.types.isPrimitive = first.types.isPrimitive :=
  agrees.answer fun table => funext table.isPrimitive_bare

theorem boxed : second.types.boxed = first.types.boxed :=
  agrees.answer fun table => funext table.boxed_bare

theorem isAssignable : second.types.isAssignable = first.types.isAssignable :=
  agrees.answer fun table => funext fun _ => funext (table.isAssignable_bare _)

theorem method? : second.types.method? = first.types.method? :=
  agrees.answer fun table => funext table.method?_bare

theorem classLookup? : second.types.classLookup? = first.types.classLookup? :=
  agrees.answer TypeTable.classLookup?_bare

theorem singleAbstractMethod :
    second.types.singleAbstractMethod = first.types.singleAbstractMethod :=
  agrees.answer fun table => funext table.singleAbstractMethod_bare

theorem hasPossibleMethod :
    second.types.hasPossibleMethod = first.types.hasPossibleMethod :=
  agrees.answer fun table => by
    funext id name count
    exact table.hasPossibleMethod_bare id name count

theorem typeName : second.types.typeName = first.types.typeName :=
  agrees.answer fun table => funext table.typeName_bare

theorem choose : Invocation.choose second.types = Invocation.choose first.types :=
  agrees.answer fun table => by
    funext target superReceiver receiver
    have opcode : Invocation.baseOpcode table.bare target superReceiver =
        Invocation.baseOpcode table target superReceiver := by
      simp only [Invocation.baseOpcode, TypeTable.isInterface_bare]
    have narrows : Invocation.narrowsVirtual table.bare target receiver =
        Invocation.narrowsVirtual table target receiver := by
      simp only [Invocation.narrowsVirtual, TypeTable.isInterface_bare,
        TypeTable.isPrimitive_bare, TypeTable.isDerivedFrom_bare]
    have hides : Invocation.hidesOwner table.bare target receiver =
        Invocation.hidesOwner table target receiver := by
      simp only [Invocation.hidesOwner, Invocation.receiverInherits, TypeTable.isPublic_bare,
        TypeTable.isFinal_bare, TypeTable.isInterface_bare,
        TypeTable.implementsInterface_bare, TypeTable.isDerivedFrom_bare]
    simp only [Invocation.choose, opcode, narrows, hides, TypeTable.isInterface_bare,
      TypeTable.implementsInterface_bare]

theorem reachesOuter : reachesOuter second.types = reachesOuter first.types :=
  agrees.answer fun table => by
    funext frame target implicitThis
    rw [CallCode.reachesOuter, table.any_find?_bare _ fun _ => rfl,
      TypeTable.isDerivedFrom_bare, TypeTable.implementsInterface_bare, CallCode.reachesOuter]

/-- What is asked of the declaration of a type is answered alike. -/
theorem find?_bind {Answer : Type} (id : Identity) {ask : TypeDecl → Option Answer}
    (same : ∀ decl : TypeDecl, ask decl.bare = ask decl) :
    (second.types.find? id).bind ask = (first.types.find? id).bind ask := by
  have blind (table : TypeTable) :
      (table.bare.find? id).bind ask = (table.find? id).bind ask := by
    rw [TypeTable.find?_bare, Option.bind_map]
    exact congrArg (Option.bind _) (funext same)
  rw [← blind, ← agrees.types, blind]

end Context.Agrees

include agrees

/-! ## Coercions -/

theorem alike_boxTop : Alike first second boxTop := by
  refine .read (by simp only [agrees.isPrimitive, agrees.boxed]) (.bind rfl fun top => ?_)
  exact .ite rfl rfl

theorem alike_coerceTo (target : ValueType) : Alike first second (coerceTo target) := by
  refine .read (by simp only [agrees.isPrimitive, agrees.isAssignable])
    (.bind rfl fun top => ?_)
  have casts (reference : ValueType) : Alike first second (if !first.types.isAssignable
      reference target then do
        write (·.checkCast target.signature)
        replace target 1
      else pure ()) := .ite rfl rfl
  refine .ite rfl (.ite (.ite rfl rfl) ?_)
  exact .ite (.bind (alike_boxTop agrees) casts) (casts top)

omit agrees in
theorem alike_materialize (result : Option ValueType) :
    Alike first second (materialize result) := by
  cases result <;> rfl

/-! ## Arguments -/

section Arguments

variable {operand : Operand} {arguments : List Operand}

theorem alike_loadAs (alike : operand.Alike first second) (type : ValueType) :
    Alike first second (loadAs operand type) :=
  .bind alike fun _ => alike_coerceTo agrees type

theorem alike_loadBoxed (alike : operand.Alike first second) :
    Alike first second (loadBoxed operand) :=
  .bind alike fun _ => .bind (alike_boxTop agrees) fun _ => rfl

theorem alike_loadEach (alike : ∀ operand ∈ arguments, operand.Alike first second)
    (params : List Param) : Alike first second (loadEach arguments params) :=
  .forM fun pair member => alike_loadAs agrees (alike pair.1 (List.of_mem_zip member).1) _

theorem alike_packSurplus (alike : ∀ operand ∈ arguments, operand.Alike first second)
    (element : ValueType) : Alike first second (packSurplus arguments element) := by
  refine .bind (.forM fun operand member => alike_loadAs agrees (alike operand member) element)
    fun _ => ?_
  exact .after_accept fun _ _ => rfl

theorem alike_bindArguments (alike : ∀ operand ∈ arguments, operand.Alike first second)
    (params : List Param) : Alike first second (bindArguments arguments params) := by
  refine .read (by simp only [agrees.typeOf]) ?_
  dsimp only
  split
  · rfl
  · split
    · refine .bind (alike_loadEach agrees (fun operand member => ?_) params) fun _ =>
        alike_packSurplus agrees (fun operand member => ?_) _
      · exact alike operand (List.mem_of_mem_take member)
      · exact alike operand (List.mem_of_mem_drop member)
    · exact .ite (alike_loadEach agrees alike params) rfl

theorem alike_packVector (alike : ∀ operand ∈ arguments, operand.Alike first second)
    (position : Position) : Alike first second (packVector arguments position) := by
  unfold packVector
  dsimp only
  split
  · rfl
  · refine .bind (.forM fun operand member => alike_loadBoxed agrees (alike operand member))
      fun _ => .ite ?_ ?_
    · exact .after_accept fun _ _ => rfl
    · exact .after_accept fun _ _ => rfl

end Arguments

/-! ## Dispatch -/

/-- The operands of a request are loaded alike. -/
structure Request.Alike (first second : Context) (request : Request) : Prop where
  receiver : request.receiver.Alike first second
  selector : ∀ value ∈ request.selector.value?, value.Alike first second
  arguments : ∀ argument ∈ request.arguments, argument.Alike first second

section Dispatch

variable {receiver : Operand} {arguments : List Operand}

theorem alike_callThroughSite (received : receiver.Alike first second)
    (alike : ∀ operand ∈ arguments, operand.Alike first second) (name : String)
    (flags : CallFlags) (position : Position) :
    Alike first second (callThroughSite receiver name arguments flags position) := by
  refine .bind rfl fun start => .bind (alike_loadBoxed agrees received) fun _ => ?_
  dsimp only
  split
  · exact .bind (alike_packVector agrees alike position) fun _ => rfl
  · refine .bind (.forM fun operand member => alike_loadBoxed agrees (alike operand member))
      fun _ => .after_accept fun _ _ => rfl

omit agrees in
theorem alike_loadSender (routine : Routine) (sender : Identity) :
    Alike first second (loadSender routine sender) :=
  .ite rfl rfl

theorem alike_loadSelector {selector : Selector Operand}
    (alike : ∀ value ∈ selector.value?, value.Alike first second) :
    Alike first second (loadSelector selector) := by
  cases selector with
  | named name => rfl
  | computed value => exact alike_loadBoxed agrees (alike value rfl)

theorem alike_loadDispatched {argument : Operand} (alike : argument.Alike first second) :
    Alike first second (loadDispatched argument) := by
  refine .bind (alike_loadBoxed agrees alike) fun _ => ?_
  split <;> rfl

theorem alike_callThroughRoutine {request : Request} (alike : request.Alike first second)
    (sender : Identity) : Alike first second (callThroughRoutine request sender) := by
  have packs : request.packs second = request.packs first := by
    rw [Request.packs, agrees.frame, Request.packs]
  have flags : request.routineFlags second = request.routineFlags first := by
    rw [Request.routineFlags, packs, Request.routineFlags]
  have finishes (start : Nat) : Alike first second (finishRoutineCall request start) := by
    refine .bind (alike_loadBoxed agrees alike.receiver) fun _ => ?_
    refine .bind (alike_loadSelector agrees alike.selector) fun _ => ?_
    refine .read (by simp only [packs, flags]) ?_
    dsimp only
    split
    · exact .bind (alike_packVector agrees alike.arguments _) fun _ => rfl
    · exact .bind (.forM fun argument member =>
        alike_loadDispatched agrees (alike.arguments argument member)) fun _ => rfl
  refine .bind rfl fun start => .bind (alike_loadSender _ _) fun _ => ?_
  dsimp only
  split
  · split
    · exact .bind rfl fun _ => finishes start
    · exact finishes start
  · exact finishes start

end Dispatch

/-! ## Statically bound invocations -/

theorem alike_loadReceiver {receiver : Option Operand}
    (received : ∀ operand ∈ receiver, operand.Alike first second) (target : Method)
    (implicitThis : Bool) : Alike first second (loadReceiver target implicitThis receiver) := by
  cases receiver with
  | none => exact .bind rfl fun _ => .read (by rw [agrees.frame]) rfl
  | some operand =>
      refine .read (by simp only [agrees.reachesOuter, agrees.frame]) ?_
      have converts : Alike first second (coerceTo (.simple target.owner)) :=
        alike_coerceTo agrees _
      dsimp only
      split
      · exact .bind rfl fun _ => .bind rfl fun _ => converts
      · exact .bind (received operand rfl) fun _ => converts

omit agrees in
theorem alike_narrowReceiver (receiverType : ValueType) :
    Alike first second (narrowReceiver receiverType) :=
  .bind rfl fun _ => .ite rfl rfl

theorem alike_invokeTarget {receiver : Option Operand} {arguments : List Operand}
    (received : ∀ operand ∈ receiver, operand.Alike first second)
    (alike : ∀ operand ∈ arguments, operand.Alike first second) (target : Method)
    (implicitThis : Bool) (position : Position) :
    Alike first second (invokeTarget target implicitThis receiver arguments position) := by
  have same : receiverTypeIn second receiver = receiverTypeIn first receiver := by
    cases receiver with
    | none => rw [receiverTypeIn, agrees.frame, receiverTypeIn]
    | some operand => rw [receiverTypeIn, agrees.typeOf, receiverTypeIn]
  have chooses : invocationOf second target receiver = invocationOf first target receiver := by
    rw [invocationOf, agrees.choose, same, invocationOf]
  have finishes (start : Nat) : Alike first second
      (finishInvocation first target receiver arguments position start) := by
    refine .bind (alike_bindArguments agrees alike _) fun _ => .after_accept fun count _ => ?_
    exact .bind rfl fun _ => .bind rfl fun _ => .ite rfl rfl
  have narrows (start : Nat) : Alike first second (do
      if (invocationOf first target receiver).narrowsReceiver then
        narrowReceiver (receiverTypeIn first receiver)
      finishInvocation first target receiver arguments position start) :=
    .ite (.bind (alike_narrowReceiver _) fun _ => finishes start) (finishes start)
  rw [invokeTarget_eq]
  refine .read (by simp only [finishInvocation, chooses, same]) (.bind rfl fun start => ?_)
  exact .ite (.bind (alike_loadReceiver agrees received target implicitThis) fun _ =>
    narrows start) (narrows start)

/-! ## Requests -/

omit agrees in
theorem Request.Alike.normalize {request : Request} (alike : request.Alike first second) :
    request.normalize.Alike first second where
  receiver := by simpa using alike.receiver
  selector := by simpa using alike.selector
  arguments := by simpa using alike.arguments

theorem Context.Agrees.boundCall (request : Request) :
    request.boundCall second.types = request.boundCall first.types := by
  funext options
  simp only [Request.boundCall, Request.resolvedCall, Request.knownMethod, agrees.method?,
    agrees.classLookup?]

theorem alike_makeCall {request : Request} (alike : request.Alike first second) :
    Alike first second (makeCall request) := by
  have ready := alike.normalize
  refine .read (by simp only [agrees.boundCall, agrees.frame])
    (.after_accept fun bound found => ?_)
  cases bound with
  | some call =>
      have received : ∀ operand ∈ call.receiver, operand.Alike first second := by
        intro operand member
        rw [(Request.binds_of_boundCall found).receiver_eq operand member]
        exact ready.receiver
      refine .bind (alike_invokeTarget agrees received ready.arguments _ _ _) fun result => ?_
      exact .bind (alike_materialize result) fun _ => rfl
  | none =>
      dsimp only
      split
      · exact .bind (alike_callThroughSite agrees ready.receiver ready.arguments _ _ _) fun _ => rfl
      · exact .bind (alike_callThroughRoutine agrees ready _) fun _ => rfl

end Agreeing

end CallCode
