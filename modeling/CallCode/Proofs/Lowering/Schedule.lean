import CallCode.Proofs.Lowering.ChainOutcome
import CallCode.Proofs.Lowering.Marks
import CallCode.Proofs.Machine.Echoes

/-!
# Schedules

What happens where a call is lowered is known beforehand: a line is marked, marks are left,
operands are loaded, and something is called.  A schedule lists these stages in order.  Each
function of the lowering is scheduled once, whatever its operands are, and what is known of
the operands is put in later.
-/

namespace CallCode

/-- The marks of a call of the assembler. -/
def Emit.marks : Emit → List Mark
  | getOuterThis outer => [.outer outer]
  | _ => []

/-- Whether a call of the assembler places an instruction that calls something. -/
def Emit.dispatches : Emit → Bool
  | invoke _ _ _ _ _ | callSite _ _ _ | callAdapter _ _ _ => true
  | _ => false

theorem Emit.marks_of_dispatches {emit : Emit} (calls : emit.dispatches = true) :
    emit.marks = [] := by
  cases emit <;> first | rfl | cases calls

/-- Something that happens where an action runs. -/
inductive Stage
  /-- The line of a position is marked, if it has one. -/
  | line (position : Position)
  | mark (mark : Mark)
  /-- An operand is loaded, and perhaps adapted by a routine. -/
  | load (operand : Operand)
  /-- An instruction calls something. -/
  | dispatch
  /-- Any number of instructions call something. -/
  | adapt

/-- Whether all that happens is that something is called. -/
def Stage.isCall : Stage → Bool
  | dispatch | adapt => true
  | line _ | mark _ | load _ => false

namespace Lower

/-- Actions and their schedules.  There are branches in their code only where `jumps`
holds. -/
inductive Scheduled (context : Context) (jumps : Prop) :
    {Result : Type} → Lower Result → List Stage → Prop
  | pure {Result : Type} (value : Result) : Scheduled context jumps (pure value) []
  | bind {Middle Result : Type} {first : Lower Middle} {next : Middle → Lower Result}
      {stages further : List Stage} : Scheduled context jumps first stages →
      (∀ value, Scheduled context jumps (next value) further) →
      Scheduled context jumps (first >>= next) (stages ++ further)
  /-- What would have happened behind a failure does not matter. -/
  | fail {Result : Type} (error : LoweringError) (stages : List Stage) :
      Scheduled context jumps (fail error : Lower Result) stages
  | read {Result : Type} {next : Context → Lower Result} {stages : List Stage} :
      Scheduled context jumps (next context) stages →
      Scheduled context jumps (read >>= next) stages
  /-- Of the state, only the tracked stack decides what follows. -/
  | peek {Result : Type} {next : LoweringState → Lower Result} {stages : List Stage} :
      (∀ first second : LoweringState, first.stack = second.stack → next first = next second) →
      (∀ state, Scheduled context jumps (next state) stages) →
      Scheduled context jumps (get >>= next) stages
  | load (operand : Operand) : Scheduled context jumps operand.load [.load operand]
  /-- An operand without calls may be left out, or something else be loaded for it. -/
  | free {Result : Type} {action : Lower Result} {operand : Operand} :
      operand.source.evaluated context = [] → Scheduled context jumps action [] →
      Scheduled context jumps action [.load operand]
  | write (emit : Emit) : emit.isPlain = true → emit.dispatches = false →
      Scheduled context jumps (write fun assembler => (emit.run assembler).2)
        (emit.marks.map .mark)
  | dispatch (emit : Emit) : emit.isPlain = true → emit.dispatches = true →
      Scheduled context jumps (write fun assembler => (emit.run assembler).2) [.dispatch]
  /-- The slot of a call goes nowhere but into its call site. -/
  | send (site : CallSite) (count : UInt8) {next : Lower Result} {stages : List Stage} :
      Scheduled context jumps next stages →
      Scheduled context jumps (do
        let slot ← consult (Ledger.allocate site)
        write (·.callSite slot count site.flags.bits)
        next) (.dispatch :: stages)
  /-- How often something is called at the end need not be said. -/
  | adapt {Result : Type} {action : Lower Result} {stages further : List Stage} :
      Scheduled context jumps action (stages ++ further) →
      (∀ stage ∈ further, stage.isCall = true) →
      Scheduled context jumps action (stages ++ [.adapt])
  /-- What is called behind an operand adapts it. -/
  | absorb {Result : Type} {action : Lower Result} {operand : Operand} {stages : List Stage} :
      Scheduled context jumps action (.load operand :: stages) →
      (∀ stage ∈ stages, stage.isCall = true) →
      Scheduled context jumps action [.load operand]
  | markLine (position : Position) : Scheduled context jumps (markLine position) [.line position]
  | jump : jumps → Scheduled context jumps (writeLabelled (·.jump .jump)) []
  | lookupSwitch (keys : List Int32) : jumps →
      Scheduled context jumps (writeLabelled (·.lookupSwitch keys)) []
  | resolve (label : Label) : jumps → Scheduled context jumps (resolve label) []
  | track {Result : Type} (action : StackAction Result) :
      Scheduled context jumps (track action) []
  | restore (stack : TypeStack) : Scheduled context jumps (restore stack) []
  | recordSuper (name : String) : Scheduled context jumps
      (modify fun state => { state with ledger := state.ledger.recordSuper name })
      [.mark (.super name)]
  | table (target : Identity) (position : Position) :
      Scheduled context jumps (consult (Ledger.candidateTable context.types target position)) []
  | report (table : CandidateTable) (position : Position) :
      Scheduled context jumps (modify fun state => state.report context.types table position) []

namespace Scheduled

variable {Result Middle Thing : Type} {context : Context} {jumps : Prop} {stages : List Stage}

/-- Nothing happens in the first of two actions. -/
theorem «then» {first : Lower Middle} {next : Middle → Lower Result}
    (left : Scheduled context jumps first [])
    (right : ∀ value, Scheduled context jumps (next value) stages) :
    Scheduled context jumps (first >>= next) stages :=
  .bind left right

/-- Nothing happens in the second of two actions. -/
theorem finish {first : Lower Middle} {next : Middle → Lower Result}
    (left : Scheduled context jumps first stages)
    (right : ∀ value, Scheduled context jumps (next value) []) :
    Scheduled context jumps (first >>= next) stages := by
  have both := left.bind right
  rwa [List.append_nil] at both

theorem after_accept {outcome : Except LoweringError Middle} {next : Middle → Lower Result}
    (right : ∀ value, outcome = .ok value → Scheduled context jumps (next value) stages) :
    Scheduled context jumps (accept outcome >>= next) stages := by
  cases outcome with
  | ok value => exact right value rfl
  | error error => exact .fail error stages

theorem fail_bind (error : LoweringError) (next : Middle → Lower Result) :
    Scheduled context jumps (Lower.fail error >>= next) stages :=
  .fail error stages

/-- All that happens is that something is called. -/
theorem calls {action : Lower Result} (scheduled : Scheduled context jumps action stages)
    (all : ∀ stage ∈ stages, stage.isCall = true) : Scheduled context jumps action [.adapt] := by
  have none : Scheduled context jumps action ([] ++ stages) := scheduled
  exact none.adapt all

/-- An operand without calls may as well have been loaded first. -/
theorem skip {action : Lower Result} {operand : Operand}
    (free : operand.source.evaluated context = [])
    (scheduled : Scheduled context jumps action stages) :
    Scheduled context jumps action (.load operand :: stages) := by
  have nothing : Scheduled context jumps (Pure.pure () : Lower Unit) [.load operand] :=
    .free free (.pure ())
  have both := nothing.bind fun _ => scheduled
  rwa [pure_bind] at both

/-- Things in a row are loaded one after another. -/
theorem forM_load {things : List Thing} {operand : Thing → Operand} {action : Thing → Lower Unit}
    (each : ∀ thing ∈ things, Scheduled context jumps (action thing) [.load (operand thing)]) :
    Scheduled context jumps (things.forM action) ((things.map operand).map .load) := by
  induction things with
  | nil => exact .pure ()
  | cons thing things ih =>
      refine .bind (each thing List.mem_cons_self) fun _ => ih fun other member => ?_
      exact each other (List.mem_cons_of_mem thing member)

theorem forM_nil {things : List Thing} {action : Thing → Lower Unit}
    (each : ∀ thing, Scheduled context jumps (action thing) []) :
    Scheduled context jumps (things.forM action) [] := by
  induction things with
  | nil => exact .pure ()
  | cons thing things ih => exact .then (each thing) fun _ => ih

theorem mapM_adapt {things : List Thing} {action : Thing → Lower Result}
    (each : ∀ thing, Scheduled context jumps (action thing) [.adapt]) :
    Scheduled context jumps (things.mapM action) [.adapt] := by
  induction things with
  | nil =>
      have none : Scheduled context jumps (Pure.pure [] : Lower (List Result)) [] := .pure []
      exact none.calls (by simp)
  | cons thing things ih =>
      rw [List.mapM_cons]
      have rest : ∀ value, Scheduled context jumps (do
          let values ← things.mapM action
          Pure.pure (value :: values)) [.adapt] := fun _ => .finish ih fun _ => .pure _
      have both := Scheduled.bind (each thing) rest
      exact both.calls (by decide)

end Scheduled

variable {context : Context} {jumps : Prop}

theorem scheduled_push (type : ValueType) : Scheduled context jumps (push type) [] := .track _

theorem scheduled_replace (type : ValueType) (count : Nat) :
    Scheduled context jumps (replace type count) [] := .track _

theorem scheduled_depth : Scheduled context jumps depth [] := .track _

theorem scheduled_collapse (start : Nat) (type : ValueType) :
    Scheduled context jumps (collapse start type) [] :=
  .then (.track _) fun count => scheduled_replace type count

theorem scheduled_dropAbove (start : Nat) : Scheduled context jumps (dropAbove start) [] :=
  .then (.track _) fun _ => .track _

end Lower

open Lower

variable {context : Context} {jumps : Prop}

/-! ## Coercions -/

theorem scheduled_boxTop : Scheduled context jumps boxTop [] := by
  refine .read (.then (.track _) fun top => ?_)
  split
  · refine .then (.write (.box _) rfl rfl) fun _ => ?_
    exact .then (scheduled_replace _ _) fun _ => .pure _
  · exact .pure _

theorem scheduled_coerceTo (target : ValueType) : Scheduled context jumps (coerceTo target) [] := by
  refine .read (.then (.track _) fun top => ?_)
  split
  · exact .pure _
  · split
    · have unboxes : Scheduled context jumps (do
          write (·.unbox target.base)
          replace target 1) [] :=
        .then (.write (.unbox _) rfl rfl) fun _ => scheduled_replace _ _
      dsimp only
      split
      · exact .then (.write (.box _) rfl rfl) fun _ => unboxes
      · exact unboxes
    · have casts : ∀ reference, Scheduled context jumps (if !context.types.isAssignable reference
            target then do
            write (·.checkCast target.signature)
            replace target 1
          else pure ()) [] := by
        intro reference
        split
        · exact .then (.write (.checkCast _) rfl rfl) fun _ => scheduled_replace _ _
        · exact .pure _
      dsimp only
      split
      · exact .then scheduled_boxTop casts
      · exact casts top

theorem scheduled_materialize (result : Option ValueType) :
    Scheduled context jumps (materialize result) [] := by
  cases result with
  | some type => exact .pure _
  | none => exact .then (.write .loadNull rfl rfl) fun _ => scheduled_push _

/-! ## Arguments -/

theorem scheduled_loadAs (operand : Operand) (type : ValueType) :
    Scheduled context jumps (loadAs operand type) [.load operand] :=
  .finish (.load operand) fun _ => scheduled_coerceTo type

theorem scheduled_loadBoxed (operand : Operand) :
    Scheduled context jumps (loadBoxed operand) [.load operand] :=
  .finish (.load operand) fun _ => .then scheduled_boxTop fun _ => .pure _

theorem scheduled_loadBoxed_forM (arguments : List Operand) :
    Scheduled context jumps (arguments.forM loadBoxed) (arguments.map .load) := by
  have each : Scheduled context jumps (arguments.forM loadBoxed)
      ((arguments.map fun argument => argument).map .load) :=
    .forM_load fun argument _ => scheduled_loadBoxed argument
  rwa [List.map_id'] at each

/-- Operands that are handed over one for one are all loaded. -/
theorem scheduled_zip {arguments : List Operand} {params : List Param}
    {load : Operand × Param → Lower Unit} (enough : arguments.length ≤ params.length)
    (each : ∀ operand param, Scheduled context jumps (load (operand, param)) [.load operand]) :
    Scheduled context jumps ((arguments.zip params).forM load) (arguments.map .load) := by
  conv => arg 4; rw [← List.map_fst_zip enough]
  exact .forM_load fun pair _ => each pair.1 pair.2

theorem scheduled_loadEach {arguments : List Operand} {params : List Param}
    (enough : arguments.length ≤ params.length) :
    Scheduled context jumps (loadEach arguments params) (arguments.map .load) :=
  scheduled_zip enough fun operand param => scheduled_loadAs operand param.type

theorem scheduled_packSurplus (arguments : List Operand) (element : ValueType) :
    Scheduled context jumps (packSurplus arguments element) (arguments.map .load) := by
  have loads : Scheduled context jumps (arguments.forM fun operand => loadAs operand element)
      ((arguments.map fun argument => argument).map .load) :=
    .forM_load fun argument _ => scheduled_loadAs argument element
  rw [List.map_id'] at loads
  refine .finish loads fun _ => .after_accept fun count _ => ?_
  exact .then (.write (.arrayInit _ _) rfl rfl) fun _ => scheduled_replace _ _

theorem scheduled_bindArguments (arguments : List Operand) (params : List Param) :
    Scheduled context jumps (bindArguments arguments params) (arguments.map .load) := by
  refine .read ?_
  dsimp only
  split
  · exact .fail_bind _ _
  · split
    · rw [← List.take_append_drop (params.length - 1) arguments, List.map_append,
        List.take_append_drop]
      refine .bind (scheduled_loadEach ?_) fun _ => scheduled_packSurplus _ _
      rw [List.length_take]
      omega
    · split
      · rename_i same
        exact scheduled_loadEach (Nat.le_of_eq same)
      · exact .fail _ _

theorem scheduled_packVector (arguments : List Operand) (position : Position) :
    Scheduled context jumps (packVector arguments position) (arguments.map .load) := by
  unfold packVector
  dsimp only
  split
  · exact .fail_bind _ _
  · refine .finish (scheduled_loadBoxed_forM arguments) fun _ => ?_
    split
    · refine .after_accept fun count _ => ?_
      exact .then (.write (.despread _ _) rfl rfl) fun _ => scheduled_replace _ _
    · refine .after_accept fun count _ => ?_
      exact .then (.write (.arrayInit _ _) rfl rfl) fun _ => scheduled_replace _ _

/-! ## Dispatch -/

/-- The last stage of a call is that something is called. -/
theorem scheduled_callThroughSite (receiver : Operand) (arguments : List Operand) (name : String)
    (flags : CallFlags) (position : Position) :
    Scheduled context jumps (callThroughSite receiver name arguments flags position)
      (.load receiver :: (arguments.map .load ++ [.dispatch])) := by
  refine .then scheduled_depth fun start => .bind (scheduled_loadBoxed receiver) fun _ => ?_
  have calls : ∀ count : UInt8, Scheduled context jumps (do
      let slot ← consult (Ledger.allocate
        ⟨name, { flags with spread := containsSpread (sources arguments) }⟩)
      write (·.callSite slot count
        { flags with spread := containsSpread (sources arguments) }.bits)
      collapse start .object) [.dispatch] :=
    fun count => .send ⟨name, _⟩ count (scheduled_collapse _ _)
  dsimp only
  split
  · exact .bind (scheduled_packVector arguments position) fun _ => .then (.pure _) calls
  · exact .bind (scheduled_loadBoxed_forM arguments) fun _ => .after_accept fun count _ =>
      calls count

theorem scheduled_loadSender (routine : Routine) (sender : Identity) :
    Scheduled context jumps (loadSender routine sender) [] := by
  unfold loadSender
  split
  · exact .then (.write .loadNull rfl rfl) fun _ => scheduled_push _
  · exact .then (.write (.loadClass _) rfl rfl) fun _ => scheduled_push _

theorem scheduled_loadSelector (selector : Selector Operand) :
    Scheduled context jumps (loadSelector selector) (selector.value?.toList.map .load) := by
  cases selector with
  | named name => exact .then (.write (.loadString _) rfl rfl) fun _ => scheduled_push _
  | computed value => exact scheduled_loadBoxed value

/-- An argument with a written cast is wrapped by a routine, which is part of loading it. -/
theorem scheduled_loadDispatched (argument : Operand) :
    Scheduled context jumps (loadDispatched argument) [.load argument] := by
  have wraps : ∀ target : ValueType, Scheduled context jumps (do
      write (·.loadClass target.signature)
      write (·.callRoutine .wrap 2)
      replace .object 1) [.dispatch] := fun _ =>
    .then (.write (.loadClass _) rfl rfl) fun _ =>
      .finish (.dispatch (.callAdapter _ _ _) rfl rfl) fun _ => scheduled_replace _ _
  have adapts : Scheduled context jumps (loadDispatched argument) [.load argument, .adapt] := by
    refine .bind (scheduled_loadBoxed argument) fun top => ?_
    split
    · exact (wraps _).calls (by decide)
    · exact (Scheduled.pure _).calls (by simp)
  exact adapts.absorb (by decide)

/-- The name that is sent to `super` is noted before the operands are loaded. -/
theorem scheduled_callThroughRoutine (request : Request) (sender : Identity) :
    Scheduled context jumps (callThroughRoutine request sender)
      (request.noted.map .mark ++ (.load request.receiver ::
        (request.selector.value?.toList.map .load ++
          (request.arguments.map .load ++ [.dispatch])))) := by
  refine .then scheduled_depth fun start => .then (scheduled_loadSender _ sender) fun _ => ?_
  have calls : Scheduled context jumps (do
      write (·.callAdapter request.routine.number
        ((fixedCount request.arguments).getD noCount) (request.routineFlags context).bits)
      collapse start .object) [.dispatch] :=
    .finish (.dispatch (.callAdapter _ _ _) rfl rfl) fun _ => scheduled_collapse _ _
  have finishes : Scheduled context jumps (finishRoutineCall request start)
      (.load request.receiver :: (request.selector.value?.toList.map .load ++
        (request.arguments.map .load ++ [.dispatch]))) := by
    refine .bind (scheduled_loadBoxed request.receiver) fun _ => ?_
    refine .bind (scheduled_loadSelector request.selector) fun _ => .read ?_
    dsimp only
    split
    · exact .bind (scheduled_packVector request.arguments request.position) fun _ => calls
    · have loads : Scheduled context jumps (request.arguments.forM loadDispatched)
          ((request.arguments.map fun argument => argument).map .load) :=
        .forM_load fun argument _ => scheduled_loadDispatched argument
      rw [List.map_id'] at loads
      exact .bind loads fun _ => calls
  dsimp only
  rw [Request.noted]
  split
  · cases named : request.selector.name? with
    | some name => exact .bind (.recordSuper name) fun _ => finishes
    | none => exact finishes
  · exact finishes

/-! ## Statically bound invocations -/

theorem Expr.evaluated_of_isThis {expr : Expr} (isThis : expr.isThis = true) :
    expr.evaluated context = [] := by
  cases expr <;> first | rfl | cases isThis

/-- An instance target is called on an enclosing instance, which marks it, or else on its
receiver, or on the current instance in place of a receiver that has no calls. -/
theorem scheduled_loadReceiver {call : BoundCall} {receiver : Operand}
    (instanced : call.target.isStatic = false)
    (same : ∀ operand ∈ call.receiver, operand = receiver)
    (dropped : call.receiver = none → receiver.source.evaluated context = []) :
    Scheduled context jumps (loadReceiver call.target call.implicitThis call.receiver)
      ((call.marks context).map .mark ++ [.load receiver]) := by
  obtain ⟨target, implicitThis, operand?⟩ := call
  change target.isStatic = false at instanced
  simp only [BoundCall.marks, BoundCall.instanceLoad?, instanced, Bool.false_eq_true, if_false]
  cases operand? with
  | none =>
      refine .free (dropped rfl) ?_
      exact .then (.write .getThis rfl rfl) fun _ => .read (scheduled_push _)
  | some operand =>
      obtain rfl := same operand rfl
      refine .read ?_
      dsimp only
      split
      · rename_i outer
        simp only [Bool.and_eq_true] at outer
        refine .bind (.write (.getOuterThis _) rfl rfl) fun _ => .free ?_ ?_
        · exact Expr.evaluated_of_isThis outer.2
        · exact .then (scheduled_push _) fun _ => scheduled_coerceTo _
      · exact scheduled_loadAs operand _

theorem scheduled_narrowReceiver (receiverType : ValueType) :
    Scheduled context jumps (narrowReceiver receiverType) [] := by
  refine .peek (fun first second same => by rw [same]) fun state => ?_
  split
  · exact .then (.write (.checkCast _) rfl rfl) fun _ => scheduled_replace _ _
  · exact .pure _

theorem scheduled_finishInvocation (target : Method) (receiver : Option Operand)
    (arguments : List Operand) (position : Position) (start : Nat) :
    Scheduled context jumps (finishInvocation context target receiver arguments position start)
      (arguments.map .load ++ [.dispatch]) := by
  refine .bind (scheduled_bindArguments arguments target.params) fun _ => ?_
  refine .after_accept fun count _ => ?_
  refine .finish (.dispatch (.invoke _ _ _ _ (Invocation.isInvoke_choose _ _ _ _)) rfl rfl)
    fun _ => .then (scheduled_dropAbove _) fun _ => ?_
  split
  · exact .pure _
  · exact .then (scheduled_push _) fun _ => .pure _

theorem scheduled_invokeTarget {call : BoundCall} {receiver : Operand}
    (same : ∀ operand ∈ call.receiver, operand = receiver)
    (dropped : call.receiver = none → receiver.source.evaluated context = [])
    (arguments : List Operand) (position : Position) :
    Scheduled context jumps
      (invokeTarget call.target call.implicitThis call.receiver arguments position)
      ((call.marks context).map .mark ++
        ((if call.target.isStatic then [] else [receiver]).map .load ++
          (arguments.map .load ++ [.dispatch]))) := by
  have narrows : ∀ start, Scheduled context jumps (do
      if (invocationOf context call.target call.receiver).narrowsReceiver then
        narrowReceiver (receiverTypeIn context call.receiver)
      finishInvocation context call.target call.receiver arguments position start)
        (arguments.map .load ++ [.dispatch]) := by
    intro start
    have finishes : Scheduled context jumps _ _ :=
      scheduled_finishInvocation call.target call.receiver arguments position start
    dsimp only
    split
    · exact .then (scheduled_narrowReceiver _) fun _ => finishes
    · exact finishes
  rw [invokeTarget_eq]
  refine .read (.then scheduled_depth fun start => ?_)
  dsimp only
  cases static : call.target.isStatic with
  | true =>
      rw [BoundCall.marks, BoundCall.instanceLoad?, if_pos static]
      exact narrows start
  | false =>
      rw [← List.append_assoc]
      exact .bind (scheduled_loadReceiver static same dropped) fun _ => narrows start

/-! ## Requests -/

namespace Request

/-- The operands that a request loads: its receiver, unless it is bound to a static target,
the value of its selector, unless it is bound at all, and its arguments. -/
def loaded (context : Context) (request : Request) : List Operand :=
  (if (request.boundTarget? context).any (·.isStatic) then [] else [request.receiver]) ++
    (if (request.boundTarget? context).isSome then [] else request.selector.value?.toList) ++
    request.arguments

/-- There are no calls in a receiver that a proved target does without. -/
def ReceiverIsCallFree (context : Context) (request : Request) : Prop :=
  request.routine = .invokeOnCurrent ∨ request.routine = .invokeStatic →
    request.receiver.source.evaluated context = []

theorem loaded_of_bound {request : Request} {call : BoundCall}
    (bound : request.normalize.boundCall context.types context.frame.options =
      .ok (some call)) :
    request.loaded context =
      (if call.target.isStatic then [] else [request.receiver]) ++ request.arguments := by
  simp [loaded, boundTarget?, bound]

theorem loaded_of_unbound {request : Request}
    (unbound : request.normalize.boundCall context.types context.frame.options = .ok none) :
    request.loaded context =
      request.receiver :: (request.selector.value?.toList ++ request.arguments) := by
  simp [loaded, boundTarget?, unbound]

theorem ownMarks_of_bound {request : Request} {call : BoundCall}
    (bound : request.normalize.boundCall context.types context.frame.options =
      .ok (some call)) :
    request.ownMarks context = call.marks context := by
  rw [ownMarks, bound]

theorem ownMarks_of_unbound {request : Request}
    (unbound : request.normalize.boundCall context.types context.frame.options = .ok none) :
    request.ownMarks context = if request.cachedName?.isSome then [] else request.noted := by
  rw [ownMarks, unbound]

/-- What happens where a request is lowered. -/
def schedule (context : Context) (request : Request) : List Stage :=
  (request.ownMarks context).map .mark ++ ((request.loaded context).map .load ++ [.dispatch])

end Request

theorem scheduled_makeCall {request : Request} (free : request.ReceiverIsCallFree context) :
    Scheduled context jumps (makeCall request) (request.schedule context) := by
  refine .read (.after_accept fun bound found => ?_)
  rw [Request.schedule]
  cases bound with
  | some call =>
      have binds := Request.binds_of_boundCall found
      have same : ∀ operand ∈ call.receiver, operand = request.receiver := by
        intro operand member
        rw [binds.receiver_eq operand member, Request.normalize_receiver]
      have dropped : call.receiver = none → request.receiver.source.evaluated context = [] := by
        intro absent
        cases binds with
        | lookup => cases absent
        | resolved => cases absent
        | proved proved => exact free (Request.isCurrent_of_fastTarget? proved)
      have invokes : Scheduled context jumps _ _ :=
        scheduled_invokeTarget same dropped request.normalize.arguments request.normalize.position
      rw [Request.ownMarks_of_bound found, Request.loaded_of_bound found, List.map_append,
        List.append_assoc, ← request.normalize_arguments]
      refine .finish invokes fun result => ?_
      exact .then (scheduled_materialize result) fun _ => .pure _
  | none =>
      rw [Request.ownMarks_of_unbound found, Request.loaded_of_unbound found,
        ← request.normalize_cachedName?, List.map_cons, List.map_append]
      dsimp only
      split
      · rename_i name named
        have unwritten := named
        simp only [Request.cachedName?, Option.ite_none_right_eq_some,
          Request.normalize_selector] at unwritten
        rw [named, Selector.value?_of_name? unwritten.2]
        have calls : Scheduled context jumps _ _ :=
          scheduled_callThroughSite request.normalize.receiver request.normalize.arguments name
            request.normalize.siteFlags request.normalize.position
        simp only [Request.normalize_receiver, Request.normalize_arguments] at calls ⊢
        exact .finish calls fun _ => .pure _
      · rename_i unnamed
        have calls : Scheduled context jumps _ _ :=
          scheduled_callThroughRoutine request.normalize (request.senderIn context.frame)
        simp only [Request.noted, Request.normalize_routine, Request.normalize_receiver,
          Request.normalize_selector, Request.normalize_arguments] at calls
        rw [unnamed]
        simpa [Request.noted] using calls.finish fun _ => .pure _

end CallCode
