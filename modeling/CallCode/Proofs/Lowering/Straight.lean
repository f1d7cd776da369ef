import CallCode.Proofs.Lowering.Evaluation
import CallCode.Proofs.Lowering.Outcome
import CallCode.Proofs.Machine.Steps

/-!
# Straight lowering

Calls and expressions are lowered without branches, by steps that do not look at the
constants and the code that are there.  An action is straight if it is put together from
such steps.  It has a walk: the locals that its code reads and the messages that it sends
through call sites, in order.
-/

namespace CallCode

namespace Lower

/-- Straight actions and the walks that they take. -/
inductive Straight (context : Context) : {Result : Type} → Lower Result → Walk → Prop
  | pure {Result : Type} (value : Result) : Straight context (pure value) {}
  | bind {Middle Result : Type} {first : Lower Middle} {next : Middle → Lower Result}
      {walk further : Walk} : Straight context first walk →
      (∀ value, Straight context (next value) further) →
      Straight context (first >>= next) (walk ++ further)
  /-- What an action would have met behind a failure does not matter. -/
  | fail {Result : Type} (error : LoweringError) (walk : Walk) :
      Straight context (fail error : Lower Result) walk
  | read {Result : Type} {next : Context → Lower Result} {walk : Walk} :
      Straight context (next context) walk → Straight context (read >>= next) walk
  /-- Of the state, only the tracked stack decides what follows. -/
  | peek {Result : Type} {next : LoweringState → Lower Result} {walk : Walk} :
      (∀ first second : LoweringState, first.stack = second.stack → next first = next second) →
      (∀ state, Straight context (next state) walk) →
      Straight context (get >>= next) walk
  | write {step : Assembler → Assembler} {code : List Operation} {slots : List UInt16} :
      Assembler.Step step code slots → Straight context (write step) { slots }
  | track {Result : Type} (action : StackAction Result) : Straight context (track action) {}
  /-- The slot of a call goes nowhere but into its call site. -/
  | send {Result : Type} (site : CallSite) (count : UInt8) {next : Lower Result}
      {walk : Walk} : Straight context next walk →
      Straight context (do
        let slot ← consult (Ledger.allocate site)
        write (·.callSite slot count site.flags.bits)
        next) (.sending site.name ++ walk)
  | recordSuper (name : String) : Straight context
      (modify fun state => { state with ledger := state.ledger.recordSuper name }) {}

namespace Straight

variable {Result Middle Thing : Type} {context : Context} {walk : Walk}

/-- The first of two actions meets nothing. -/
theorem «then» {first : Lower Middle} {next : Middle → Lower Result}
    (left : Straight context first {})
    (right : ∀ value, Straight context (next value) walk) :
    Straight context (first >>= next) walk :=
  .bind left right

/-- The second of two actions meets nothing. -/
theorem finish {first : Lower Middle} {next : Middle → Lower Result}
    (left : Straight context first walk)
    (right : ∀ value, Straight context (next value) {}) :
    Straight context (first >>= next) walk := by
  have both := left.bind right
  rwa [Walk.append_empty] at both

theorem after_accept {outcome : Except LoweringError Middle} {next : Middle → Lower Result}
    (right : ∀ value, outcome = .ok value → Straight context (next value) walk) :
    Straight context (accept outcome >>= next) walk := by
  cases outcome with
  | ok value => exact right value rfl
  | error error => exact .fail error walk

theorem fail_bind (error : LoweringError) (next : Middle → Lower Result) :
    Straight context (Lower.fail error >>= next) walk :=
  .fail error walk

/-- Actions in a row meet what each of them meets. -/
theorem forM {things : List Thing} {action : Thing → Lower Unit} {met : Thing → Walk}
    (each : ∀ thing ∈ things, Straight context (action thing) (met thing)) :
    Straight context (things.forM action) (.each things met) := by
  induction things with
  | nil => exact .pure ()
  | cons thing things ih =>
      rw [Walk.each_cons]
      refine .bind (each thing List.mem_cons_self) fun _ => ih fun other member => ?_
      exact each other (List.mem_cons_of_mem thing member)

/-- The code of a straight action reads the locals of its walk. -/
theorem reads {action : Lower Result} (straight : Straight context action walk) :
    Reads action context walk.slots := by
  induction straight with
  | pure value => exact reads_pure value
  | bind _ _ left right => exact .bind left right
  | fail error => exact reads_fail error
  | read _ ih => exact .after_read ih
  | peek _ _ ih => exact .then reads_get ih
  | write step => exact reads_write step.adds
  | track action => exact reads_track action
  | send site count _ ih =>
      refine .then (reads_allocate site) fun slot => .then ?_ fun _ => ih
      exact reads_write fun assembler => assembler.extends_callSite _ _ _
  | recordSuper name => exact reads_recordSuper name

end Straight

variable {context : Context}

theorem straight_push (type : ValueType) : Straight context (push type) {} := .track _

theorem straight_replace (type : ValueType) (count : Nat) :
    Straight context (replace type count) {} := .track _

theorem straight_depth : Straight context depth {} := .track _

theorem straight_collapse (start : Nat) (type : ValueType) :
    Straight context (collapse start type) {} :=
  .then (.track _) fun count => straight_replace type count

theorem straight_dropAbove (start : Nat) : Straight context (dropAbove start) {} :=
  .then (.track _) fun _ => .track _

theorem straight_markLine (position : Position) : Straight context (markLine position) {} := by
  unfold markLine
  split
  · exact .pure ()
  · exact .write (.setLine position.line)

end Lower

open Lower

variable {context : Context}

/-- An operand is loaded straight, on a walk over its expression. -/
def Operand.Straight (context : Context) (operand : Operand) : Prop :=
  Lower.Straight context operand.load (operand.source.walk context)

/-! ## Coercions -/

theorem straight_boxTop : Straight context boxTop {} := by
  refine .read (.then (.track _) fun top => ?_)
  split
  · refine .then (.write (.box _)) fun _ => ?_
    exact .then (straight_replace _ _) fun _ => .pure _
  · exact .pure _

theorem straight_coerceTo (target : ValueType) : Straight context (coerceTo target) {} := by
  refine .read (.then (.track _) fun top => ?_)
  split
  · exact .pure _
  · split
    · have unboxes : Straight context (do
          write (·.unbox target.base)
          replace target 1) {} := .then (.write (.unbox _)) fun _ => straight_replace _ _
      dsimp only
      split
      · exact .then (.write (.box _)) fun _ => unboxes
      · exact unboxes
    · have casts : ∀ reference, Straight context (if !context.types.isAssignable reference
            target then do
            write (·.checkCast target.signature)
            replace target 1
          else pure ()) {} := by
        intro reference
        split
        · exact .then (.write (.checkCast _)) fun _ => straight_replace _ _
        · exact .pure _
      dsimp only
      split
      · exact .then straight_boxTop casts
      · exact casts top

theorem straight_materialize (result : Option ValueType) :
    Straight context (materialize result) {} := by
  cases result with
  | some type => exact .pure _
  | none => exact .then (.write .loadNull) fun _ => straight_push _

/-! ## Arguments -/

section Arguments

variable {operand : Operand} {arguments : List Operand}

theorem straight_loadAs (straight : operand.Straight context) (type : ValueType) :
    Straight context (loadAs operand type) (operand.source.walk context) :=
  .finish straight fun _ => straight_coerceTo type

theorem straight_loadBoxed (straight : operand.Straight context) :
    Straight context (loadBoxed operand) (operand.source.walk context) :=
  .finish straight fun _ => .then straight_boxTop fun _ => .pure _

theorem straight_loadBoxed_forM (straight : ∀ operand ∈ arguments, operand.Straight context) :
    Straight context (arguments.forM loadBoxed) (operandWalk context arguments) :=
  .forM fun operand member => straight_loadBoxed (straight operand member)

/-- Operands that are handed over one for one are all loaded. -/
theorem straight_zip {params : List Param} {load : Operand × Param → Lower Unit}
    (enough : arguments.length ≤ params.length)
    (each : ∀ operand ∈ arguments, ∀ param, Straight context (load (operand, param))
      (operand.source.walk context)) :
    Straight context ((arguments.zip params).forM load) (operandWalk context arguments) := by
  have straight : Straight context ((arguments.zip params).forM load)
      (.each (arguments.zip params) fun pair => pair.1.source.walk context) :=
    .forM fun pair member => each pair.1 (List.of_mem_zip member).1 pair.2
  rwa [Walk.each_zip (fun operand => operand.source.walk context) enough] at straight

theorem straight_loadEach {params : List Param} (enough : arguments.length ≤ params.length)
    (straight : ∀ operand ∈ arguments, operand.Straight context) :
    Straight context (loadEach arguments params) (operandWalk context arguments) :=
  straight_zip enough fun operand member param =>
    straight_loadAs (straight operand member) param.type

theorem straight_packSurplus (straight : ∀ operand ∈ arguments, operand.Straight context)
    (element : ValueType) :
    Straight context (packSurplus arguments element) (operandWalk context arguments) := by
  refine .finish (.forM fun operand member => straight_loadAs (straight operand member) element)
    fun _ => .after_accept fun count _ => ?_
  exact .then (.write (.arrayInit _ _)) fun _ => straight_replace _ _

theorem straight_bindArguments (straight : ∀ operand ∈ arguments, operand.Straight context)
    (params : List Param) :
    Straight context (bindArguments arguments params) (operandWalk context arguments) := by
  refine .read ?_
  dsimp only
  split
  · exact .fail_bind _ _
  · split
    · have both : operandWalk context arguments =
          operandWalk context (arguments.take (params.length - 1)) ++
            operandWalk context (arguments.drop (params.length - 1)) := by
        rw [operandWalk, operandWalk, operandWalk, ← Walk.each_append, List.take_append_drop]
      rw [both]
      refine .bind (straight_loadEach ?_ fun operand member => ?_) fun _ =>
        straight_packSurplus (fun operand member => ?_) _
      · rw [List.length_take]
        omega
      · exact straight operand (List.mem_of_mem_take member)
      · exact straight operand (List.mem_of_mem_drop member)
    · split
      · rename_i same
        exact straight_loadEach (Nat.le_of_eq same) straight
      · exact .fail _ _

theorem straight_packVector (straight : ∀ operand ∈ arguments, operand.Straight context)
    (position : Position) :
    Straight context (packVector arguments position) (operandWalk context arguments) := by
  unfold packVector
  dsimp only
  split
  · exact .fail_bind _ _
  · refine .finish (straight_loadBoxed_forM straight) fun _ => ?_
    split
    · refine .after_accept fun count _ => ?_
      exact .then (.write (.despread _ _)) fun _ => straight_replace _ _
    · refine .after_accept fun count _ => ?_
      exact .then (.write (.arrayInit _ _)) fun _ => straight_replace _ _

end Arguments

/-! ## Dispatch -/

/-- A call through a site sends its name once all operands are loaded. -/
theorem straight_callThroughSite {receiver : Operand} {arguments : List Operand}
    (received : receiver.Straight context)
    (straight : ∀ operand ∈ arguments, operand.Straight context) (name : String)
    (flags : CallFlags) (position : Position) :
    Straight context (callThroughSite receiver name arguments flags position)
      (receiver.source.walk context ++ operandWalk context arguments ++ .sending name) := by
  rw [Walk.append_assoc]
  refine .then straight_depth fun start => .bind (straight_loadBoxed received) fun _ => ?_
  have calls : ∀ count : UInt8, Straight context (do
      let slot ← consult (Ledger.allocate
        ⟨name, { flags with spread := containsSpread (sources arguments) }⟩)
      write (·.callSite slot count
        { flags with spread := containsSpread (sources arguments) }.bits)
      collapse start .object) (.sending name) :=
    fun count => .send ⟨name, _⟩ count (straight_collapse _ _)
  dsimp only
  split
  · exact .bind (straight_packVector straight position) fun _ => .then (.pure _) calls
  · exact .bind (straight_loadBoxed_forM straight) fun _ => .after_accept fun count _ =>
      calls count

theorem straight_loadSender (routine : Routine) (sender : Identity) :
    Straight context (loadSender routine sender) {} := by
  unfold loadSender
  split
  · exact .then (.write .loadNull) fun _ => straight_push _
  · exact .then (.write (.loadClass _)) fun _ => straight_push _

theorem straight_loadSelector {selector : Selector Operand}
    (straight : ∀ value ∈ selector.value?, value.Straight context) :
    Straight context (loadSelector selector) (selector.valueWalk context) := by
  cases selector with
  | named name => exact .then (.write (.loadString _)) fun _ => straight_push _
  | computed value =>
      rw [Selector.valueWalk, Selector.value?, Option.toList_some,
        operandWalk_singleton]
      exact straight_loadBoxed (straight value rfl)

theorem straight_loadDispatched {argument : Operand} (straight : argument.Straight context) :
    Straight context (loadDispatched argument) (argument.source.walk context) := by
  refine .finish (straight_loadBoxed straight) fun _ => ?_
  split
  · refine .then (.write (.loadClass _)) fun _ => ?_
    exact .then (.write (.callRoutine _ _)) fun _ => straight_replace _ _
  · exact .pure _

/-- The operands of a request are loaded straight. -/
structure Request.Straight (context : Context) (request : Request) : Prop where
  receiver : request.receiver.Straight context
  selector : ∀ value ∈ request.selector.value?, value.Straight context
  arguments : ∀ argument ∈ request.arguments, argument.Straight context

theorem Request.Straight.normalize {request : Request} (straight : request.Straight context) :
    request.normalize.Straight context where
  receiver := by simpa using straight.receiver
  selector := by simpa using straight.selector
  arguments := by simpa using straight.arguments

theorem straight_callThroughRoutine {request : Request} (straight : request.Straight context)
    (sender : Identity) :
    Straight context (callThroughRoutine request sender) (request.operandWalk context) := by
  refine .then straight_depth fun start => .then (straight_loadSender _ sender) fun _ => ?_
  have calls : Straight context (do
      write (·.callAdapter request.routine.number
        ((fixedCount request.arguments).getD noCount) (request.routineFlags context).bits)
      collapse start .object) {} :=
    .then (.write (.callAdapter _ _ _)) fun _ => straight_collapse _ _
  have finishes : Straight context (finishRoutineCall request start)
      (request.operandWalk context) := by
    rw [Request.operandWalk, Walk.append_assoc]
    refine .bind (straight_loadBoxed straight.receiver) fun _ => ?_
    refine .bind (straight_loadSelector straight.selector) fun _ => .read ?_
    dsimp only
    split
    · exact .finish (straight_packVector straight.arguments request.position) fun _ => calls
    · exact .finish (.forM fun argument member =>
        straight_loadDispatched (straight.arguments argument member)) fun _ => calls
  dsimp only
  split
  · split
    · exact .then (.recordSuper _) fun _ => finishes
    · exact finishes
  · exact finishes

/-! ## Statically bound invocations -/

theorem straight_loadReceiver {receiver : Option Operand}
    (straight : ∀ operand ∈ receiver, operand.Straight context) (target : Method)
    (implicitThis : Bool) :
    Straight context (loadReceiver target implicitThis receiver)
      (operandWalk context receiver.toList) := by
  cases receiver with
  | none => exact .then (.write .getThis) fun _ => .read (straight_push _)
  | some operand =>
      rw [Option.toList_some, operandWalk_singleton]
      refine .read ?_
      dsimp only
      split
      · rename_i outer
        simp only [Bool.and_eq_true] at outer
        rw [walk_of_isThis outer.2]
        refine .then (.write (.getOuterThis _)) fun _ => ?_
        exact .then (straight_push _) fun _ => straight_coerceTo _
      · exact straight_loadAs (straight operand rfl) _

theorem straight_narrowReceiver (receiverType : ValueType) :
    Straight context (narrowReceiver receiverType) {} := by
  refine .peek (fun first second same => by rw [same]) fun state => ?_
  split
  · exact .then (.write (.checkCast _)) fun _ => straight_replace _ _
  · exact .pure _

theorem straight_finishInvocation {arguments : List Operand}
    (straight : ∀ operand ∈ arguments, operand.Straight context) (target : Method)
    (receiver : Option Operand) (position : Position) (start : Nat) :
    Straight context (finishInvocation context target receiver arguments position start)
      (operandWalk context arguments) := by
  refine .finish (straight_bindArguments straight target.params) fun _ => ?_
  refine .after_accept fun count _ => ?_
  refine .then (.write (.invoke (Invocation.isInvoke_choose _ _ _ _) _ _ _)) fun _ => ?_
  refine .then (straight_dropAbove _) fun _ => ?_
  split
  · exact .pure _
  · exact .then (straight_push _) fun _ => .pure _

theorem straight_invokeTarget {receiver : Option Operand} {arguments : List Operand}
    (received : ∀ operand ∈ receiver, operand.Straight context)
    (straight : ∀ operand ∈ arguments, operand.Straight context) (target : Method)
    (implicitThis : Bool) (position : Position) :
    Straight context (invokeTarget target implicitThis receiver arguments position)
      (target.receiverWalk context receiver ++ operandWalk context arguments) := by
  have narrows : ∀ start, Straight context (do
      if (invocationOf context target receiver).narrowsReceiver then
        narrowReceiver (receiverTypeIn context receiver)
      finishInvocation context target receiver arguments position start)
        (operandWalk context arguments) := by
    intro start
    have finishes := straight_finishInvocation straight target receiver position start
    dsimp only
    split
    · exact .then (straight_narrowReceiver _) fun _ => finishes
    · exact finishes
  rw [invokeTarget_eq]
  refine .read (.then straight_depth fun start => ?_)
  dsimp only
  unfold Method.receiverWalk
  cases static : target.isStatic with
  | true => exact narrows start
  | false =>
      exact .bind (straight_loadReceiver received target implicitThis) fun _ => narrows start

/-! ## Requests -/

theorem straight_makeCall {request : Request} (straight : request.Straight context)
    (plain : request.CurrentIsPlain context) :
    Straight context (makeCall request) (request.walk context) := by
  have ready := straight.normalize
  refine .read (.after_accept fun bound found => ?_)
  cases bound with
  | some call =>
      have target : request.boundTarget? context = some call.target := by
        simp [Request.boundTarget?, found]
      have received : ∀ operand ∈ call.receiver, operand.Straight context := by
        intro operand member
        rw [(Request.binds_of_boundCall found).receiver_eq operand member]
        exact ready.receiver
      have invokes := straight_invokeTarget received ready.arguments call.target
        call.implicitThis request.normalize.position
      have same : request.walk context = call.target.receiverWalk context call.receiver ++
          operandWalk context request.normalize.arguments := by
        rw [Request.walk_of_bound target, ← Request.receiverWalk_eq plain found,
          Request.normalize_arguments]
        rfl
      rw [same]
      refine .finish invokes fun result => ?_
      exact .then (straight_materialize result) fun _ => .pure _
  | none =>
      have target : request.boundTarget? context = none := by
        simp [Request.boundTarget?, found]
      rw [Request.walk_of_unbound target, ← request.normalize_cachedName?]
      dsimp only
      split
      · rename_i name named
        have unwritten := named
        simp only [Request.cachedName?, Option.ite_none_right_eq_some,
          Request.normalize_selector] at unwritten
        rw [named, Request.operandWalk, Selector.valueWalk_of_name? unwritten.2,
          Walk.append_empty]
        have calls := straight_callThroughSite ready.receiver ready.arguments name
          request.normalize.siteFlags request.normalize.position
        simp only [Request.normalize_receiver, Request.normalize_arguments] at calls ⊢
        exact .finish calls fun _ => .pure _
      · rename_i unnamed
        have calls := straight_callThroughRoutine ready (request.senderIn context.frame)
        simp only [Request.operandWalk, Request.normalize_receiver,
          Request.normalize_selector, Request.normalize_arguments] at calls
        rw [unnamed, Walk.sending, Option.toList_none, Walk.append_empty]
        exact .finish calls fun _ => .pure _

end CallCode
