import CallCode.Proofs.Lowering.EvaluatedCalls
import CallCode.Proofs.Lowering.SwitchLayout

/-!
# Instance loads of lowered code

What a lowering action adds to the instance loads of the code is known from the calls that
it evaluates.  It is put together along the action, as in straight lowering, but no
constant is looked at, so that nothing is asked of the pool.
-/

namespace CallCode

namespace Lower

/-- Where an action succeeds, it has added the given instance loads to the code. -/
def Loads {Result : Type} (context : Context) (action : Lower Result) (loads : List Opcode) :
    Prop :=
  ∀ before result after, Runs action context before result after →
    after.assembler.listing.instanceLoads = before.assembler.listing.instanceLoads ++ loads

namespace Loads

variable {Result Middle Thing : Type} {context : Context} {loads further : List Opcode}

/-- An action that leaves the code alone adds nothing. -/
theorem still {action : Lower Result}
    (same : ∀ before result after, Runs action context before result after →
      after.assembler = before.assembler) : Loads context action [] := by
  intro before result after run
  rw [same before result after run, List.append_nil]

theorem pure (value : Result) : Loads context (pure value) [] :=
  still fun _ _ _ run => by rw [((runs_pure value).mp run).2]

theorem track (action : StackAction Result) : Loads context (track action) [] := by
  refine still fun before result after run => ?_
  obtain ⟨stack, -, rfl⟩ := (runs_track action).mp run
  rfl

theorem consult (action : EStateM LoweringError Ledger Result) :
    Loads context (consult action) [] := by
  refine still fun before result after run => ?_
  obtain ⟨ledger, -, rfl⟩ := (runs_consult action).mp run
  rfl

/-- A change beside the code adds nothing. -/
theorem change {change : LoweringState → LoweringState}
    (beside : ∀ state, (change state).assembler = state.assembler) :
    Loads context (modify change) [] := by
  refine still fun before result after run => ?_
  rw [(runs_modify change).mp run, beside]

theorem fail (error : LoweringError) : Loads context (fail error : Lower Result) loads :=
  fun _ _ _ run => ((runs_fail error).mp run).elim

theorem write {step : Assembler → Assembler} (adds : Assembler.Loads step loads) :
    Loads context (write step) loads := by
  intro before result after run
  rw [(runs_write step).mp run]
  exact adds before.assembler

theorem writeLabelled {step : Assembler → Result × Assembler}
    (adds : Assembler.Loads (fun assembler => (step assembler).2) loads) :
    Loads context (writeLabelled step) loads := by
  intro before result after run
  rw [((runs_writeLabelled step).mp run).2]
  exact adds before.assembler

theorem resolve (label : Label) : Loads context (resolve label) [] := by
  intro before result after run
  obtain ⟨distance, -, rfl⟩ := (runs_resolve label).mp run
  rw [Assembler.setDistance, Listing.instanceLoads_setDistance, List.append_nil]

theorem bind {first : Lower Middle} {next : Middle → Lower Result}
    (left : Loads context first loads) (right : ∀ value, Loads context (next value) further) :
    Loads context (first >>= next) (loads ++ further) := by
  intro before result after run
  obtain ⟨value, middle, starts, ends⟩ := (runs_bind first next).mp run
  rw [right value middle result after ends, left before value middle starts,
    List.append_assoc]

/-- The first of two actions adds nothing. -/
theorem «then» {first : Lower Middle} {next : Middle → Lower Result}
    (left : Loads context first []) (right : ∀ value, Loads context (next value) loads) :
    Loads context (first >>= next) loads :=
  bind left right

/-- The second of two actions adds nothing. -/
theorem finish {first : Lower Middle} {next : Middle → Lower Result}
    (left : Loads context first loads) (right : ∀ value, Loads context (next value) []) :
    Loads context (first >>= next) loads := by
  have both := left.bind right
  rwa [List.append_nil] at both

theorem after_read {next : Context → Lower Result}
    (right : Loads context (next context) loads) : Loads context (read >>= next) loads :=
  fun before result after run => right before result after run

theorem after_get {next : LoweringState → Lower Result}
    (right : ∀ state, Loads context (next state) loads) :
    Loads context (get >>= next) loads :=
  fun before result after run => right before before result after run

theorem after_accept {outcome : Except LoweringError Middle} {next : Middle → Lower Result}
    (right : ∀ value, outcome = .ok value → Loads context (next value) loads) :
    Loads context (accept outcome >>= next) loads := by
  cases outcome with
  | ok value => exact right value rfl
  | error error => exact fail error

theorem fail_bind (error : LoweringError) (next : Middle → Lower Result) :
    Loads context (Lower.fail error >>= next) loads :=
  fail error

/-- Actions in a row add what each of them adds. -/
theorem forM {things : List Thing} {action : Thing → Lower Unit} {added : Thing → List Opcode}
    (each : ∀ thing ∈ things, Loads context (action thing) (added thing)) :
    Loads context (things.forM action) (things.flatMap added) := by
  induction things with
  | nil => exact pure ()
  | cons thing things ih =>
      rw [List.flatMap_cons]
      refine .bind (each thing List.mem_cons_self) fun _ => ih fun other member => ?_
      exact each other (List.mem_cons_of_mem thing member)

theorem forM_nil {things : List Thing} {action : Thing → Lower Unit}
    (each : ∀ thing, Loads context (action thing) []) :
    Loads context (things.forM action) [] := by
  have all : Loads context (things.forM action) (things.flatMap fun _ => []) :=
    forM fun thing _ => each thing
  rwa [List.flatMap_eq_nil_iff.mpr fun _ _ => rfl] at all

theorem mapM_nil {things : List Thing} {action : Thing → Lower Result}
    (each : ∀ thing, Loads context (action thing) []) :
    Loads context (things.mapM action) [] := by
  induction things with
  | nil => exact pure []
  | cons thing things ih =>
      rw [List.mapM_cons]
      exact .then (each thing) fun _ => .then ih fun _ => pure _

end Loads

variable {context : Context}

theorem loads_push (type : ValueType) : Loads context (push type) [] := .track _

theorem loads_replace (type : ValueType) (count : Nat) :
    Loads context (replace type count) [] := .track _

theorem loads_depth : Loads context depth [] := .track _

theorem loads_collapse (start : Nat) (type : ValueType) :
    Loads context (collapse start type) [] :=
  .then (.track _) fun count => loads_replace type count

theorem loads_dropAbove (start : Nat) : Loads context (dropAbove start) [] :=
  .then (.track _) fun _ => .track _

theorem loads_markLine (position : Position) : Loads context (markLine position) [] := by
  unfold markLine
  split
  · exact .pure ()
  · exact .write (.setLine position.line)

end Lower

open Lower

variable {context : Context}

/-- An operand loads the instances that the calls in its expression load by themselves. -/
def Operand.Loads (context : Context) (operand : Operand) : Prop :=
  Lower.Loads context operand.load (operand.source.instanceLoads context)

/-! ## Coercions -/

theorem loads_boxTop : Loads context boxTop [] := by
  refine .after_read (.then (.track _) fun top => ?_)
  split
  · refine .then (.write (.box _)) fun _ => ?_
    exact .then (loads_replace _ _) fun _ => .pure _
  · exact .pure _

theorem loads_coerceTo (target : ValueType) : Loads context (coerceTo target) [] := by
  refine .after_read (.then (.track _) fun top => ?_)
  split
  · exact .pure _
  · split
    · have unboxes : Loads context (do
          write (·.unbox target.base)
          replace target 1) [] := .then (.write (.unbox _)) fun _ => loads_replace _ _
      dsimp only
      split
      · exact .then (.write (.box _)) fun _ => unboxes
      · exact unboxes
    · have casts : ∀ reference, Loads context (if !context.types.isAssignable reference
            target then do
            write (·.checkCast target.signature)
            replace target 1
          else pure ()) [] := by
        intro reference
        split
        · exact .then (.write (.checkCast _)) fun _ => loads_replace _ _
        · exact .pure _
      dsimp only
      split
      · exact .then loads_boxTop casts
      · exact casts top

theorem loads_materialize (result : Option ValueType) :
    Loads context (materialize result) [] := by
  cases result with
  | some type => exact .pure _
  | none => exact .then (.write .loadNull) fun _ => loads_push _

/-! ## Arguments -/

section Arguments

variable {operand : Operand} {arguments : List Operand}

theorem loads_loadAs (loads : operand.Loads context) (type : ValueType) :
    Loads context (loadAs operand type) (operand.source.instanceLoads context) :=
  .finish loads fun _ => loads_coerceTo type

theorem loads_loadBoxed (loads : operand.Loads context) :
    Loads context (loadBoxed operand) (operand.source.instanceLoads context) :=
  .finish loads fun _ => .then loads_boxTop fun _ => .pure _

theorem loads_loadBoxed_forM (loads : ∀ operand ∈ arguments, operand.Loads context) :
    Loads context (arguments.forM loadBoxed) (operandLoads context arguments) :=
  .forM fun operand member => loads_loadBoxed (loads operand member)

/-- Operands that are handed over one for one are all loaded. -/
theorem loads_zip {params : List Param} {load : Operand × Param → Lower Unit}
    (enough : arguments.length ≤ params.length)
    (each : ∀ operand ∈ arguments, ∀ param, Loads context (load (operand, param))
      (operand.source.instanceLoads context)) :
    Loads context ((arguments.zip params).forM load) (operandLoads context arguments) := by
  have loads : Loads context ((arguments.zip params).forM load)
      ((arguments.zip params).flatMap fun pair => pair.1.source.instanceLoads context) :=
    .forM fun pair member => each pair.1 (List.of_mem_zip member).1 pair.2
  have firsts : (arguments.zip params).flatMap (fun pair =>
      pair.1.source.instanceLoads context) = operandLoads context arguments := by
    conv_rhs => rw [← List.map_fst_zip enough]
    rw [operandLoads, List.flatMap_map]
  rwa [firsts] at loads

theorem loads_loadEach {params : List Param} (enough : arguments.length ≤ params.length)
    (loads : ∀ operand ∈ arguments, operand.Loads context) :
    Loads context (loadEach arguments params) (operandLoads context arguments) :=
  loads_zip enough fun operand member param => loads_loadAs (loads operand member) param.type

theorem loads_packSurplus (loads : ∀ operand ∈ arguments, operand.Loads context)
    (element : ValueType) :
    Loads context (packSurplus arguments element) (operandLoads context arguments) := by
  refine .finish (.forM fun operand member => loads_loadAs (loads operand member) element)
    fun _ => .after_accept fun count _ => ?_
  exact .then (.write (.arrayInit _ _)) fun _ => loads_replace _ _

theorem loads_bindArguments (loads : ∀ operand ∈ arguments, operand.Loads context)
    (params : List Param) :
    Loads context (bindArguments arguments params) (operandLoads context arguments) := by
  refine .after_read ?_
  dsimp only
  split
  · exact .fail_bind _ _
  · split
    · -- the arguments before the rest parameter are loaded one for one, the others into it
      rw [← List.take_append_drop (params.length - 1) arguments, operandLoads_append,
        List.take_append_drop]
      refine .bind (loads_loadEach ?_ fun operand member => ?_) fun _ =>
        loads_packSurplus (fun operand member => ?_) _
      · rw [List.length_take]
        omega
      · exact loads operand (List.mem_of_mem_take member)
      · exact loads operand (List.mem_of_mem_drop member)
    · split
      · rename_i same
        exact loads_loadEach (Nat.le_of_eq same) loads
      · exact .fail _

theorem loads_packVector (loads : ∀ operand ∈ arguments, operand.Loads context)
    (position : Position) :
    Loads context (packVector arguments position) (operandLoads context arguments) := by
  unfold packVector
  dsimp only
  split
  · exact .fail_bind _ _
  · refine .finish (loads_loadBoxed_forM loads) fun _ => ?_
    split
    · refine .after_accept fun count _ => ?_
      exact .then (.write (.despread _ _)) fun _ => loads_replace _ _
    · refine .after_accept fun count _ => ?_
      exact .then (.write (.arrayInit _ _)) fun _ => loads_replace _ _

end Arguments

/-! ## Dispatch -/

theorem loads_callThroughSite {receiver : Operand} {arguments : List Operand}
    (received : receiver.Loads context) (loads : ∀ operand ∈ arguments, operand.Loads context)
    (name : String) (flags : CallFlags) (position : Position) :
    Loads context (callThroughSite receiver name arguments flags position)
      (receiver.source.instanceLoads context ++ operandLoads context arguments) := by
  refine .then loads_depth fun start => .bind (loads_loadBoxed received) fun _ => ?_
  have calls : ∀ count : UInt8, Loads context (do
      let slot ← consult (Ledger.allocate
        ⟨name, { flags with spread := containsSpread (sources arguments) }⟩)
      write (·.callSite slot count
        { flags with spread := containsSpread (sources arguments) }.bits)
      collapse start .object) [] := fun count =>
    .then (.consult _) fun slot => .then (.write (.callSite _ _ _)) fun _ => loads_collapse _ _
  dsimp only
  split
  · exact .finish (loads_packVector loads position) fun _ => .then (.pure _) calls
  · exact .finish (loads_loadBoxed_forM loads) fun _ => .after_accept fun count _ =>
      calls count

theorem loads_loadSender (routine : Routine) (sender : Identity) :
    Loads context (loadSender routine sender) [] := by
  unfold loadSender
  split
  · exact .then (.write .loadNull) fun _ => loads_push _
  · exact .then (.write (.loadClass _)) fun _ => loads_push _

theorem loads_loadSelector {selector : Selector Operand}
    (loads : ∀ value ∈ selector.value?, value.Loads context) :
    Loads context (loadSelector selector) (selector.valueLoads context) := by
  cases selector with
  | named name => exact .then (.write (.loadString _)) fun _ => loads_push _
  | computed value =>
      rw [Selector.valueLoads, Selector.value?, Option.toList_some, operandLoads_singleton]
      exact loads_loadBoxed (loads value rfl)

theorem loads_loadDispatched {argument : Operand} (loads : argument.Loads context) :
    Loads context (loadDispatched argument) (argument.source.instanceLoads context) := by
  refine .finish (loads_loadBoxed loads) fun _ => ?_
  split
  · refine .then (.write (.loadClass _)) fun _ => ?_
    exact .then (.write (.callRoutine _ _)) fun _ => loads_replace _ _
  · exact .pure _

/-- The operands of a request load what the calls in them load by themselves. -/
structure Request.OperandsLoad (context : Context) (request : Request) : Prop where
  receiver : request.receiver.Loads context
  selector : ∀ value ∈ request.selector.value?, value.Loads context
  arguments : ∀ argument ∈ request.arguments, argument.Loads context

theorem Request.OperandsLoad.normalize {request : Request}
    (loads : request.OperandsLoad context) : request.normalize.OperandsLoad context where
  receiver := by simpa using loads.receiver
  selector := by simpa using loads.selector
  arguments := by simpa using loads.arguments

theorem loads_callThroughRoutine {request : Request} (loads : request.OperandsLoad context)
    (sender : Identity) :
    Loads context (callThroughRoutine request sender)
      (request.receiver.source.instanceLoads context ++ request.selector.valueLoads context ++
        operandLoads context request.arguments) := by
  refine .then loads_depth fun start => .then (loads_loadSender _ sender) fun _ => ?_
  have calls : Loads context (do
      write (·.callAdapter request.routine.number
        ((fixedCount request.arguments).getD noCount) (request.routineFlags context).bits)
      collapse start .object) [] :=
    .then (.write (.callAdapter _ _ _)) fun _ => loads_collapse _ _
  have finishes : Loads context (finishRoutineCall request start)
      (request.receiver.source.instanceLoads context ++ request.selector.valueLoads context ++
        operandLoads context request.arguments) := by
    rw [List.append_assoc]
    refine .bind (loads_loadBoxed loads.receiver) fun _ => ?_
    refine .bind (loads_loadSelector loads.selector) fun _ => .after_read ?_
    dsimp only
    split
    · exact .finish (loads_packVector loads.arguments request.position) fun _ => calls
    · exact .finish (.forM fun argument member =>
        loads_loadDispatched (loads.arguments argument member)) fun _ => calls
  dsimp only
  split
  · split
    · exact .then (.change fun _ => rfl) fun _ => finishes
    · exact finishes
  · exact finishes

/-! ## Statically bound invocations -/

/-- An instance target is called on the instance that it loads by itself, or else on its
receiver. -/
theorem loads_loadReceiver {call : BoundCall} (instanced : call.target.isStatic = false)
    (received : ∀ operand ∈ call.receiver, operand.Loads context) :
    Loads context (loadReceiver call.target call.implicitThis call.receiver)
      ((call.instanceLoad? context).toList ++ operandLoads context call.receiver.toList) := by
  obtain ⟨target, implicitThis, receiver⟩ := call
  rw [BoundCall.instanceLoad?, if_neg (by simp [instanced])]
  cases receiver with
  | none => exact .finish (.write .getThis) fun _ => .after_read (loads_push _)
  | some operand =>
      rw [Option.toList_some, operandLoads_singleton]
      refine .after_read ?_
      dsimp only
      split
      · rename_i outer
        simp only [Bool.and_eq_true] at outer
        rw [Expr.instanceLoads_of_isThis outer.2]
        refine .finish (.write (.getOuterThis _)) fun _ => ?_
        exact .then (loads_push _) fun _ => loads_coerceTo _
      · exact loads_loadAs (received operand rfl) _

theorem loads_narrowReceiver (receiverType : ValueType) :
    Loads context (narrowReceiver receiverType) [] := by
  refine .after_get fun state => ?_
  split
  · exact .then (.write (.checkCast _)) fun _ => loads_replace _ _
  · exact .pure _

theorem loads_finishInvocation {arguments : List Operand}
    (loads : ∀ operand ∈ arguments, operand.Loads context) (target : Method)
    (receiver : Option Operand) (position : Position) (start : Nat) :
    Loads context (finishInvocation context target receiver arguments position start)
      (operandLoads context arguments) := by
  refine .finish (loads_bindArguments loads target.params) fun _ => ?_
  refine .after_accept fun count _ => ?_
  refine .then (.write (.invoke (Invocation.isInvoke_choose _ _ _ _) _ _ _)) fun _ => ?_
  refine .then (loads_dropAbove _) fun _ => ?_
  split
  · exact .pure _
  · exact .then (loads_push _) fun _ => .pure _

theorem loads_invokeTarget {call : BoundCall} {arguments : List Operand}
    (received : ∀ operand ∈ call.receiver, operand.Loads context)
    (loads : ∀ operand ∈ arguments, operand.Loads context) (position : Position) :
    Loads context
      (invokeTarget call.target call.implicitThis call.receiver arguments position)
      ((call.instanceLoad? context).toList ++
        ((if call.target.isStatic then [] else operandLoads context call.receiver.toList) ++
          operandLoads context arguments)) := by
  have narrows : ∀ start, Loads context (do
      if (invocationOf context call.target call.receiver).narrowsReceiver then
        narrowReceiver (receiverTypeIn context call.receiver)
      finishInvocation context call.target call.receiver arguments position start)
        (operandLoads context arguments) := by
    intro start
    have finishes := loads_finishInvocation loads call.target call.receiver position start
    dsimp only
    split
    · exact .then (loads_narrowReceiver _) fun _ => finishes
    · exact finishes
  rw [invokeTarget_eq]
  refine .after_read (.then loads_depth fun start => ?_)
  dsimp only
  cases static : call.target.isStatic with
  | true =>
      rw [BoundCall.instanceLoad?, if_pos static]
      exact narrows start
  | false =>
      rw [← List.append_assoc]
      exact .bind (loads_loadReceiver static received) fun _ => narrows start

/-! ## Requests and method calls -/

theorem loads_makeCall {request : Request} (loads : request.OperandsLoad context)
    (bare : request.ReceiverIsBare context) :
    Loads context (makeCall request) (request.instanceLoads context) := by
  have ready := loads.normalize
  refine .after_read (.after_accept fun bound found => ?_)
  cases bound with
  | some call =>
      have received : ∀ operand ∈ call.receiver, operand.Loads context := by
        intro operand member
        rw [(Request.binds_of_boundCall found).receiver_eq operand member]
        exact ready.receiver
      have invokes := loads_invokeTarget received ready.arguments request.normalize.position
      rw [Request.instanceLoads_of_bound found, ← Request.operandLoads_receiver bare found,
        ← request.normalize_arguments]
      refine .finish invokes fun result => ?_
      exact .then (loads_materialize result) fun _ => .pure _
  | none =>
      rw [Request.instanceLoads_of_unbound found]
      dsimp only
      split
      · rename_i name named
        simp only [Request.cachedName?, Option.ite_none_right_eq_some,
          Request.normalize_selector] at named
        rw [Selector.valueLoads_of_name? named.2, List.append_nil]
        have calls := loads_callThroughSite ready.receiver ready.arguments name
          request.normalize.siteFlags request.normalize.position
        simp only [Request.normalize_receiver, Request.normalize_arguments] at calls ⊢
        exact .finish calls fun _ => .pure _
      · have calls := loads_callThroughRoutine ready (request.senderIn context.frame)
        simp only [Request.normalize_receiver, Request.normalize_selector,
          Request.normalize_arguments] at calls
        exact .finish calls fun _ => .pure _

theorem loads_callClosure {arguments : List Operand}
    (loads : ∀ operand ∈ arguments, operand.Loads context) (field : Field)
    (position : Position) :
    Loads context (callClosure field arguments position)
      ((if field.isStatic then [] else [.getThis]) ++ operandLoads context arguments) := by
  refine .after_read (.then loads_depth fun start => ?_)
  have calls : Loads context (do
      push field.type
      let _ ← boxTop
      packVector arguments position
      write (·.callRoutine .invokeClosure 2)
      collapse start .object) (operandLoads context arguments) := by
    refine .then (loads_push _) fun _ => .then loads_boxTop fun _ => ?_
    refine .finish (loads_packVector loads position) fun _ => ?_
    exact .then (.write (.callRoutine _ _)) fun _ => loads_collapse _ _
  dsimp only
  split
  · exact .then (.write (.getStaticField _ _)) fun _ => calls
  · refine .bind (.write .getThis) fun _ => ?_
    exact .then (.write (.getField _)) fun _ => calls

namespace MethodCall

variable {call : MethodCall Operand}

/-- The operands of a method call load what the calls in them load by themselves. -/
structure OperandsLoad (context : Context) (call : MethodCall Operand) : Prop where
  receiver : call.receiver.Loads context
  selector : ∀ value ∈ call.selector.value?, value.Loads context
  arguments : ∀ argument ∈ call.arguments, argument.Loads context

theorem OperandsLoad.request (loads : call.OperandsLoad context) :
    (call.request context).OperandsLoad context := by
  unfold MethodCall.request
  split
  · refine ⟨loads.receiver, ?_, loads.arguments⟩
    simp [Selector.value?]
  · exact ⟨loads.receiver, loads.selector, loads.arguments⟩

theorem loads_lower (loads : call.OperandsLoad context) :
    Lower.Loads context (lowerMethodCall call) (call.instanceLoads context) := by
  refine .then (loads_markLine _) fun _ => .after_read ?_
  split
  · rename_i field found
    rw [instanceLoads_of_closureField? found]
    exact .finish (loads_callClosure loads.arguments field call.position) fun _ => .pure _
  · rename_i absent
    rw [← instanceLoads_of_request absent]
    exact loads_makeCall loads.request receiverIsBare_request

end MethodCall

theorem loads_classOperand (id : Identity) : (classOperand id).Loads context :=
  .then (.write (.loadClass _)) fun _ => loads_push _

theorem StaticCall.loads_lower {call : StaticCall Operand}
    (loads : ∀ operand ∈ call.arguments, operand.Loads context) :
    Loads context (lowerStaticCall call) (call.request.instanceLoads context) := by
  have ready : call.request.OperandsLoad context :=
    ⟨loads_classOperand call.owner, by simp [StaticCall.request, Selector.value?], loads⟩
  rw [lowerStaticCall_eq]
  exact .then (loads_markLine _) fun _ => loads_makeCall ready call.receiverIsBare_request

/-! ## Construction -/

theorem loads_allocateInstance (classId : Identity) :
    Loads context (allocateInstance classId) [] := by
  refine .then (.write (.newInstance _)) fun _ => .then (.write (.emit rfl)) fun _ => ?_
  exact .then (loads_push _) fun _ => loads_push _

theorem loads_runConstructor (classId : Identity) (constructor : Constructor)
    (position : Position) : Loads context (runConstructor classId constructor position) [] := by
  refine .after_accept fun count _ => ?_
  exact .then (.write (.invoke rfl _ _ _)) fun _ => .track _

theorem loads_loadCaptured {argument : Operand} (loads : argument.Loads context) :
    Loads context (loadCaptured argument) (argument.source.instanceLoads context) := by
  have plain : Loads context argument.load (argument.source.instanceLoads context) := loads
  unfold loadCaptured
  split
  · rename_i source isRead
    rw [isRead] at plain ⊢
    split
    · exact .finish (.write (.getRef _)) fun _ => loads_push _
    · exact plain
  · exact plain

namespace NewCall

variable {call : NewCall Operand}

theorem loads_constructAnonymous (loads : ∀ operand ∈ call.arguments, operand.Loads context) :
    Loads context (constructAnonymous call) (operandLoads context call.arguments) := by
  refine .after_read (.after_accept fun constructor found => ?_)
  have enough := (params_of_anonymousConstructor found).symm
  refine .then (loads_allocateInstance _) fun _ => ?_
  refine .finish (loads_zip (Nat.le_of_eq enough) fun argument member param => ?_) fun _ =>
    loads_runConstructor _ _ _
  exact .finish (loads_loadCaptured (loads argument member)) fun _ => loads_coerceTo _

theorem loads_lower (loads : ∀ operand ∈ call.arguments, operand.Loads context) :
    Loads context (lowerNewCall call) (operandLoads context call.arguments) := by
  refine .then (loads_markLine _) fun _ => ?_
  dsimp only
  split
  · exact .finish (loads_constructAnonymous loads) fun _ => .pure _
  · refine .after_read (.after_accept fun constructor _ => ?_)
    cases constructor with
    | some constructor =>
        refine .then (loads_allocateInstance _) fun _ => ?_
        refine .finish (loads_bindArguments loads constructor.params) fun _ => ?_
        exact .then (loads_runConstructor _ _ _) fun _ => .pure _
    | none =>
        have calls := loads_callThroughSite (loads_classOperand call.classId) loads
          constructorSite {} call.position
        exact .finish calls fun _ => .pure _

end NewCall

end CallCode
