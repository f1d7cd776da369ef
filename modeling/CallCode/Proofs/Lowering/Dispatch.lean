import CallCode.Lowering.Dispatch
import CallCode.Proofs.Lowering.Binding

/-!
# The code of dynamic dispatch

A dispatched call pushes everything that the site or the routine takes, and the
instruction that dispatches it puts one result in place of all of it.
-/

namespace CallCode

open Lower

variable {context : Context} {codes : OperandCodes} {before after : LoweringState}

/-! ## Call sites -/

/-- The code of a call through a cached site; which slot the site got is left open. -/
inductive SiteCodes (context : Context) (codes : OperandCodes) (receiver : Operand) (arguments : List Operand)
    (flags : CallFlags) : List Operation → Prop
  | packed {receiving type packing} (slot : UInt16) : containsSpread (sources arguments) = true →
      receiver.CodesBoxed context codes receiving type →
      VectorCodes context codes arguments packing →
      SiteCodes context codes receiver arguments flags
        (receiving ++ packing ++ [.callSite slot 1 { flags with spread := true }.bits])
  | plain {receiving type loads types} (slot : UInt16) : containsSpread (sources arguments) = false →
      arguments.length < 256 →
      receiver.CodesBoxed context codes receiving type →
      CodesEach (fun operand => operand.CodesBoxed context codes) arguments loads types →
      SiteCodes context codes receiver arguments flags
        (receiving ++ loads ++
          [.callSite slot arguments.length.toUInt8 { flags with spread := false }.bits])

theorem callThroughSite_run {receiver : Operand} {name : String}
    {arguments : List Operand} {flags : CallFlags} {position : Position}
    (receiverSteady : receiver.Steady context codes)
    (steady : ∀ argument ∈ arguments, argument.Steady context codes)
    (run : Runs (callThroughSite receiver name arguments flags position)
      context before () after) : ∃ code, SiteCodes context codes receiver arguments flags code ∧
      before.Pushes after code [.object] := by
  simp only [callThroughSite, runs_bind, runs_depth] at run
  obtain ⟨_, _, ⟨rfl, rfl⟩, _, received, receives, run⟩ := run
  obtain ⟨receiving, type, receiverKnown, ready⟩ := loadBoxed_run receiverSteady receives
  by_cases spread : containsSpread (sources arguments)
  · simp only [spread, if_true, runs_bind, runs_pure, runs_consult, runs_write,
      runs_collapse] at run
    obtain ⟨_, packed, packs, _, _, ⟨rfl, rfl⟩, slot, _, ⟨ledger, _, rfl⟩, _, _, rfl, -,
      rfl⟩ := run
    obtain ⟨packing, known, pushed⟩ := packVector_run steady packs
    refine ⟨_, .packed slot spread receiverKnown known, ?_⟩
    exact (ready.trans pushed).collapse (Assembler.writes_callSite _ slot _ _) rfl
  · simp only [spread, Bool.false_eq_true, if_false, runs_bind, runs_accept, byteCount_ok,
      runs_consult, runs_write, runs_collapse] at run
    obtain ⟨_, loaded, loads, _, _, ⟨⟨few, rfl⟩, rfl⟩, slot, _, ⟨ledger, _, rfl⟩, _, _, rfl,
      -, rfl⟩ := run
    obtain ⟨code, types, each, pushed⟩ := pushes_forM
      (fun argument member _ _ single => loadBoxed_run (steady argument member) single) loads
    rw [Bool.not_eq_true] at spread
    refine ⟨_, .plain slot spread few receiverKnown each, ?_⟩
    exact (ready.trans pushed).collapse (Assembler.writes_callSite _ slot _ _) rfl

/-! ## Routines -/

/-- The code that pushes the sender of a call. -/
def senderCode (routine : Routine) (sender : Identity) : Operation :=
  if routine = .setProperty then .plain .pushNull else .typed .loadClass sender

theorem loadSender_run {routine : Routine} {sender : Identity}
    (run : Runs (loadSender routine sender) context before () after) : ∃ type,
      before.Pushes after [senderCode routine sender] [type] := by
  unfold loadSender at run
  unfold senderCode
  split at run
  · rename_i assigns
    simp only [runs_bind, runs_write, runs_push] at run
    obtain ⟨_, _, rfl, rfl⟩ := run
    rw [if_pos assigns]
    exact ⟨_, Assembler.writes_loadNull _, rfl⟩
  · rename_i calls
    simp only [runs_bind, runs_write, runs_push] at run
    obtain ⟨_, _, rfl, rfl⟩ := run
    rw [if_neg calls]
    exact ⟨_, Assembler.writes_loadClass _ _, rfl⟩

/-- The code that pushes the name that a call sends. -/
inductive SelectorCodes (context : Context) (codes : OperandCodes) : Selector Operand → List Operation → Prop
  | named {name} : SelectorCodes context codes (.named name) [.constant (.ofString name)]
  | computed {value code type} : value.CodesBoxed context codes code type →
      SelectorCodes context codes (.computed value) code

/-- The operand of a selector. -/
def Selector.value? : Selector Operand → Option Operand
  | .named _ => none
  | .computed value => some value

theorem Selector.value?_of_name? {selector : Selector Operand} {name : String}
    (named : selector.name? = some name) : selector.value? = none := by
  cases selector with
  | named => rfl
  | computed => cases named

theorem loadSelector_run {selector : Selector Operand}
    (steady : ∀ value ∈ selector.value?, value.Steady context codes)
    (run : Runs (loadSelector selector) context before () after) : ∃ code type,
      SelectorCodes context codes selector code ∧ before.Pushes after code [type] := by
  cases selector with
  | named name =>
      simp only [loadSelector, runs_bind, runs_write, runs_push] at run
      obtain ⟨_, _, rfl, rfl⟩ := run
      exact ⟨_, _, .named, Assembler.writes_loadString _ _, rfl⟩
  | computed value =>
      obtain ⟨code, type, known, pushed⟩ := loadBoxed_run (steady value rfl) run
      exact ⟨code, type, .computed known, pushed⟩

/-- The code that keeps an explicit cast visible. -/
def wrappingCode : Expr → List Operation
  | .cast target _ =>
      [.typed .loadClass target.signature, .callRoutine Routine.wrap.number 2 0]
  | _ => []

/-- The code of an argument that a routine takes. -/
def Operand.CodesDispatched (context : Context) (codes : OperandCodes) (operand : Operand)
    (code : List Operation) (_ : ValueType) : Prop :=
  ∃ plain boxed, operand.CodesBoxed context codes plain boxed ∧
    code = plain ++ wrappingCode operand.source

theorem loadDispatched_run {operand : Operand} (steady : operand.Steady context codes)
    (run : Runs (loadDispatched operand) context before () after) : ∃ code type,
      operand.CodesDispatched context codes code type ∧ before.Pushes after code [type] := by
  simp only [loadDispatched, runs_bind] at run
  obtain ⟨_, middle, loads, run⟩ := run
  obtain ⟨plain, boxed, known, pushed⟩ := loadBoxed_run steady loads
  cases isCast : operand.source with
  | cast target inner =>
      rw [isCast] at run
      simp only [runs_bind, runs_write, runs_replace] at run
      obtain ⟨_, _, rfl, _, _, rfl, -, rfl⟩ := run
      refine ⟨_, .object, ⟨plain, boxed, known, rfl⟩, ?_, ?_⟩
      · rw [isCast]
        exact pushed.writes.trans ((Assembler.writes_loadClass _ _).trans
          (Assembler.writes_callRoutine _ _ _))
      · simp [pushed.stack]
  | _ =>
      rw [isCast] at run
      obtain ⟨-, rfl⟩ := (runs_pure _).mp run
      refine ⟨_, boxed, ⟨plain, boxed, known, rfl⟩, ?_⟩
      simpa [isCast, wrappingCode] using pushed

/-- Whether a routine takes the arguments of a call as one vector. -/
def Request.packs (request : Request) (context : Context) : Bool :=
  (fixedCount request.arguments).isNone ||
    decide (context.frame.options.maxFixedArguments < request.arguments.length)

/-- The flags of a call through a routine. -/
def Request.routineFlags (request : Request) (context : Context) : CallFlags where
  safe := request.safe
  spreadSafe := request.spreadSafe
  spread := request.packs context

/-- The instruction that calls the routine of a request. -/
def Request.routineOperation (request : Request) (context : Context) : Operation :=
  .callRoutine request.routine.number ((fixedCount request.arguments).getD noCount)
    (request.routineFlags context).bits

/-- The code of the arguments of a routine. -/
inductive RoutineArgumentCodes (context : Context) (codes : OperandCodes) (request : Request) :
    List Operation → Prop
  | packed {code} : request.packs context = true →
      VectorCodes context codes request.arguments code →
      RoutineArgumentCodes context codes request code
  | fixed {code types} : request.packs context = false →
      CodesEach (fun operand => operand.CodesDispatched context codes) request.arguments code
        types →
      RoutineArgumentCodes context codes request code

/-- The code of a call through a routine. -/
inductive RoutineCodes (context : Context) (codes : OperandCodes) (request : Request) (sender : Identity) :
    List Operation → Prop
  | call {receiving type selecting loads} :
      request.receiver.CodesBoxed context codes receiving type →
      SelectorCodes context codes request.selector selecting →
      RoutineArgumentCodes context codes request loads →
      RoutineCodes context codes request sender
        ([senderCode request.routine sender] ++ receiving ++ selecting ++ loads ++
          [request.routineOperation context])

/-- The operands of a call through a routine above its sender, and the call. -/
def finishRoutineCall (request : Request) (start : Nat) : Lower Unit := do
  loadBoxed request.receiver
  loadSelector request.selector
  let context ← read
  if request.packs context then
    packVector request.arguments request.position
  else
    request.arguments.forM loadDispatched
  write (·.callAdapter request.routine.number
    ((fixedCount request.arguments).getD noCount) (request.routineFlags context).bits)
  collapse start .object

/-- Only the ledger changes between the sender and the receiver. -/
theorem callThroughRoutine_split {request : Request} {sender : Identity}
    (run : Runs (callThroughRoutine request sender) context before () after) :
    ∃ sent noted, Runs (loadSender request.routine sender) context before () sent ∧
      noted.assembler = sent.assembler ∧ noted.stack = sent.stack ∧
      Runs (finishRoutineCall request before.stack.length) context noted () after := by
  simp only [callThroughRoutine, runs_bind, runs_depth] at run
  obtain ⟨_, _, ⟨rfl, rfl⟩, _, sent, sends, run⟩ := run
  by_cases onSuper : request.routine = .invokeOnSuper
  · rw [if_pos onSuper] at run
    split at run
    · rename_i name _
      simp only [runs_bind, runs_modify] at run
      obtain ⟨_, _, rfl, run⟩ := run
      refine ⟨sent, { sent with ledger := sent.ledger.recordSuper name }, sends, rfl, rfl, ?_⟩
      simp only [finishRoutineCall, runs_bind]
      exact run
    · exact ⟨sent, sent, sends, rfl, rfl, run⟩
  · rw [if_neg onSuper] at run
    exact ⟨sent, sent, sends, rfl, rfl, run⟩

theorem callThroughRoutine_run {request : Request} {sender : Identity}
    (receiverSteady : request.receiver.Steady context codes)
    (selectorSteady : ∀ value ∈ request.selector.value?, value.Steady context codes)
    (steady : ∀ argument ∈ request.arguments, argument.Steady context codes)
    (run : Runs (callThroughRoutine request sender) context before () after) : ∃ code,
      RoutineCodes context codes request sender code ∧ before.Pushes after code [.object] := by
  obtain ⟨sent, noted, sends, assembler, stack, run⟩ := callThroughRoutine_split run
  obtain ⟨_, senderPushed⟩ := loadSender_run sends
  have ready : before.Pushes noted [senderCode request.routine sender] _ :=
    ⟨assembler ▸ senderPushed.writes, stack.trans senderPushed.stack⟩
  simp only [finishRoutineCall, runs_bind, runs_read] at run
  obtain ⟨_, received, receives, _, named, names, _, _, ⟨rfl, rfl⟩, run⟩ := run
  obtain ⟨receiving, type, receiverKnown, receiverPushed⟩ :=
    loadBoxed_run receiverSteady receives
  obtain ⟨selecting, _, selectorKnown, selectorPushed⟩ := loadSelector_run selectorSteady names
  have prepared := (ready.trans receiverPushed).trans selectorPushed
  by_cases packs : request.packs context
  · simp only [packs, if_true, runs_bind, runs_write, runs_collapse] at run
    obtain ⟨_, loaded, loads, _, _, rfl, -, rfl⟩ := run
    obtain ⟨code, known, pushed⟩ := packVector_run steady loads
    refine ⟨_, .call receiverKnown selectorKnown (.packed packs known), ?_⟩
    exact (prepared.trans pushed).collapse (Assembler.writes_callAdapter _ _ _ _) rfl
  · rw [Bool.not_eq_true] at packs
    simp only [packs, Bool.false_eq_true, if_false, runs_bind, runs_write,
      runs_collapse] at run
    obtain ⟨_, loaded, loads, _, _, rfl, -, rfl⟩ := run
    obtain ⟨code, types, each, pushed⟩ := pushes_forM
      (fun argument member _ _ single => loadDispatched_run (steady argument member) single)
      loads
    refine ⟨_, .call receiverKnown selectorKnown (.fixed packs each), ?_⟩
    exact (prepared.trans pushed).collapse (Assembler.writes_callAdapter _ _ _ _) rfl

end CallCode
