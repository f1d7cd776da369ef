import CallCode.Proofs.Lowering.StraightCalls
import CallCode.Proofs.Machine.Walking

/-!
# Safe navigation

A call that navigates safely says so in the flags of the instruction that dispatches it.
Only sites and routines have flags: a call that is bound to a target is invoked as it
stands, and what it said about a null receiver is lost.
-/

namespace CallCode

open Lower

/-- Whether an opcode calls something. -/
def Opcode.dispatches (opcode : Opcode) : Bool :=
  opcode.isInvoke || opcode == .callSite || opcode == .callAdapter

/-- The flags of an instruction that calls through a site or a routine. -/
def Instruction.flags? (instruction : Instruction) : Option CallFlags :=
  match instruction.operands with
  | .site _ _ flags | .adapter _ _ flags => some (.ofBits flags)
  | _ => none

/-- The instruction that the code between two states calls something with last. -/
def LoweringState.lastDispatch? (before after : LoweringState) : Option Instruction :=
  let added := after.assembler.listing.assemble.instructionsFrom before.assembler.listing.size
  (added.filter (·.opcode.dispatches)).getLast?

/-- Whether the receiver of a call is `super` or a written `this`. -/
def MethodCall.explicitReceiver (call : MethodCall Expr) : Bool :=
  call.receiver.isSuper || (call.receiver.isThis && !call.implicitThis)

/-- Flags that say how a call navigates: an explicit receiver is never null, so that it is
neither looked at nor replaced. -/
structure CallFlags.Navigate (flags : CallFlags) (call : MethodCall Expr) : Prop where
  safe : flags.safe = (call.safe && !call.explicitReceiver)
  spreadSafe : flags.spreadSafe = call.spreadSafe
  implicitThis : call.explicitReceiver = true → flags.implicitThis = false

/-- The instruction that dispatches a call of a tier, and what it says of the call. -/
def Tier.DispatchesBy (tier : Tier) (call : MethodCall Expr) (instruction : Instruction) :
    Prop :=
  match tier with
  | .direct => instruction.opcode.isInvoke = true ∧ instruction.flags? = none
  | .cached => instruction.opcode = .callSite ∧
      ∃ flags, instruction.flags? = some flags ∧ flags.Navigate call
  | .uncached => instruction.opcode = .callAdapter ∧
      ∃ flags, instruction.flags? = some flags ∧ flags.Navigate call
  | .closure => instruction.opcode = .callAdapter ∧ instruction.flags? = some {}

variable {context : Context} {before after : LoweringState}

/-! ## The last dispatch -/

section LastDispatch

variable {slots : List UInt16} {front : List Placed} {last : Placed}

/-- What was added to a listing can be read from the bytes, however large the pool is. -/
theorem LoweringState.lastDispatch?_of_items {placed : List Placed}
    (extended : before.assembler.Extends after.assembler slots)
    (items : after.assembler.listing.items.toList =
      before.assembler.listing.items.toList ++ placed) :
    before.lastDispatch? after =
      ((placed.map (·.instruction)).filter (·.opcode.dispatches)).getLast? := by
  obtain ⟨added, outline, sound, -⟩ := extended.places
  have same : placed.map (·.instruction.pending) = added := by
    rw [Listing.outline, items, List.map_append] at outline
    exact List.append_cancel_left outline
  have shaped : ∀ item ∈ placed, item.instruction.WellShaped := by
    intro item member
    rw [← Instruction.wellShaped_pending]
    refine (sound item.instruction.pending ?_).shaped
    rw [← same]
    exact List.mem_map_of_mem member
  have read := Listing.instructionsFrom_codeSize items shaped
  rw [lastDispatch?, Listing.size_eq_codeSize, read]

/-- Code that ends in a dispatch dispatches by it last, also if null is pushed in place of
a result behind it. -/
theorem LoweringState.lastDispatch?_eq {nulls : List Placed}
    (extended : before.assembler.Extends after.assembler slots)
    (items : after.assembler.listing.items.toList =
      before.assembler.listing.items.toList ++ (front ++ [last] ++ nulls))
    (calls : last.instruction.opcode.dispatches = true)
    (plain : ∀ item ∈ nulls, item.instruction.opcode.dispatches = false) :
    before.lastDispatch? after = some last.instruction := by
  have none : (nulls.map (·.instruction)).filter (·.opcode.dispatches) = [] := by
    rw [List.filter_eq_nil_iff]
    intro instruction member
    obtain ⟨item, among, rfl⟩ := List.mem_map.mp member
    rw [plain item among]
    exact Bool.false_ne_true
  rw [lastDispatch?_of_items extended items]
  simp [none, calls]

theorem PerformsFrom.exists_last {pool : ConstantPool} {placed : List Placed}
    {code : List Operation} {operation : Operation}
    (performs : PerformsFrom pool placed (code ++ [operation])) :
    ∃ front last, placed = front ++ [last] ∧ last.instruction.Spells operation := by
  obtain ⟨front, rest, rfl, -, ends⟩ := performs.split
  rcases ends.spells with _ | ⟨spelled, _ | _⟩
  exact ⟨front, _, rfl, spelled⟩

/-- Code that ends in an instruction without a constant dispatches by it. -/
theorem LoweringState.Pushes.lastDispatch? {code : List Operation} {operation : Operation}
    {types : List ValueType} {instruction : Instruction}
    (pushed : before.Pushes after (code ++ [operation]) types)
    (extended : before.assembler.Extends after.assembler slots)
    (spelled : ∀ placed : Instruction, placed.Spells operation → placed = instruction)
    (calls : instruction.opcode.dispatches = true) :
    before.lastDispatch? after = some instruction := by
  obtain ⟨placed, items, performs⟩ := pushed.writes.appends
  obtain ⟨front, last, rfl, spells⟩ := performs.exists_last
  have same := spelled last.instruction spells
  rw [← List.append_nil (front ++ [last])] at items
  rw [LoweringState.lastDispatch?_eq extended items (by rw [same, calls]) (by simp), same]

end LastDispatch

/-! ## Bound calls -/

theorem finishInvocation_items {target : Method} {receiver : Option Operand}
    {arguments : List Operand} {position : Position} {start : Nat}
    {result : Option ValueType}
    (run : Runs (finishInvocation context target receiver arguments position start) context
      before result after) :
    ∃ front index count line, after.assembler.listing.items.toList =
      front ++ [⟨⟨(invocationOf context target receiver).opcode, .member index count⟩, line⟩] := by
  simp only [finishInvocation, runs_bind, runs_accept, runs_write, runs_dropAbove] at run
  obtain ⟨_, bound, -, count, _, ⟨-, rfl⟩, _, _, rfl, _, _, ⟨-, rfl⟩, run⟩ := run
  have placed : ∃ index line,
      (bound.assembler.invoke (invocationOf context target receiver).opcode
        (invocationOf context target receiver).owner target.id count).listing.items.toList =
      bound.assembler.listing.items.toList ++
        [⟨⟨(invocationOf context target receiver).opcode, .member index count⟩, line⟩] :=
    ⟨_, bound.assembler.line, Array.toList_push⟩
  obtain ⟨index, line, items⟩ := placed
  split at run
  · obtain ⟨-, rfl⟩ := (runs_pure _).mp run
    exact ⟨_, index, count, line, items⟩
  · simp only [runs_bind, runs_push, runs_pure] at run
    obtain ⟨_, _, rfl, -, rfl⟩ := run
    exact ⟨_, index, count, line, items⟩

theorem invokeTarget_items {target : Method} {implicitThis : Bool}
    {receiver : Option Operand} {arguments : List Operand} {position : Position}
    {result : Option ValueType}
    (run : Runs (invokeTarget target implicitThis receiver arguments position) context before
      result after) :
    ∃ front last, after.assembler.listing.items.toList = front ++ [last] ∧
      last.instruction.opcode.isInvoke = true ∧ last.instruction.flags? = none := by
  rw [invokeTarget_eq] at run
  simp only [runs_bind, runs_read, runs_depth] at run
  obtain ⟨_, _, ⟨rfl, rfl⟩, _, _, ⟨rfl, rfl⟩, run⟩ := run
  have finished : ∃ middle,
      Runs (finishInvocation context target receiver arguments position before.stack.length)
        context middle result after := by
    split at run
    · rw [runs_bind] at run
      obtain ⟨_, _, -, run⟩ := run
      split at run
      · rw [runs_bind] at run
        obtain ⟨_, middle, -, run⟩ := run
        exact ⟨middle, run⟩
      · exact ⟨_, run⟩
    · split at run
      · rw [runs_bind] at run
        obtain ⟨_, middle, -, run⟩ := run
        exact ⟨middle, run⟩
      · exact ⟨_, run⟩
  obtain ⟨middle, finishing⟩ := finished
  obtain ⟨front, index, count, line, items⟩ := finishInvocation_items finishing
  exact ⟨front, _, items, Invocation.isInvoke_choose _ _ _ _, rfl⟩

theorem materialize_items {result : Option ValueType}
    (run : Runs (materialize result) context before () after) :
    ∃ nulls, after.assembler.listing.items.toList =
        before.assembler.listing.items.toList ++ nulls ∧
      ∀ item ∈ nulls, item.instruction.opcode.dispatches = false := by
  cases result with
  | some type =>
      obtain ⟨-, rfl⟩ := (runs_pure _).mp run
      exact ⟨[], by simp, by simp⟩
  | none =>
      simp only [materialize, runs_bind, runs_write, runs_push] at run
      obtain ⟨_, _, rfl, rfl⟩ := run
      refine ⟨[⟨⟨.pushNull, .none⟩, before.assembler.line⟩], Array.toList_push, ?_⟩
      rw [List.forall_mem_singleton]
      rfl

theorem makeCall_direct {request : Request}
    (run : Runs (makeCall request) context before .direct after) :
    ∃ (call : BoundCall) (result : Option ValueType) (invoked : LoweringState),
      request.normalize.Binds context.types context.frame.options call ∧
      Runs (invokeTarget call.target call.implicitThis call.receiver request.normalize.arguments
        request.normalize.position) context before result invoked ∧
      Runs (materialize result) context invoked () after := by
  simp only [makeCall, runs_bind, runs_read, runs_accept] at run
  obtain ⟨_, _, ⟨rfl, rfl⟩, bound, _, ⟨found, rfl⟩, run⟩ := run
  cases bound with
  | some call =>
      simp only [runs_bind, runs_pure] at run
      obtain ⟨result, invoked, invokes, _, _, materializes, -, rfl⟩ := run
      exact ⟨call, result, invoked, Request.binds_of_boundCall found, invokes, materializes⟩
  | none =>
      dsimp only at run
      split at run
      · simp only [runs_bind, runs_pure] at run
        obtain ⟨_, _, -, other, -⟩ := run
        cases other
      · simp only [runs_bind, runs_pure] at run
        obtain ⟨_, _, -, other, -⟩ := run
        cases other

theorem lastDispatch?_of_makeCall {request : Request} {codes : OperandCodes}
    {slots : List UInt16} (steady : request.Steady context codes)
    (extended : before.assembler.Extends after.assembler slots)
    (run : Runs (makeCall request) context before .direct after) :
    ∃ instruction, before.lastDispatch? after = some instruction ∧
      instruction.opcode.isInvoke = true ∧ instruction.flags? = none := by
  have ready := steady.normalize
  obtain ⟨call, result, invoked, binds, invokes, materializes⟩ := makeCall_direct run
  have receiverSteady : ∀ operand ∈ call.receiver, operand.Steady context codes := by
    intro operand member
    rw [binds.receiver_eq operand member]
    exact ready.receiver
  obtain ⟨-, code, made, pushed⟩ := invokeTarget_run receiverSteady ready.arguments invokes
  obtain ⟨loads, operation, rfl⟩ : ∃ loads operation, code = loads ++ [operation] := by
    cases made with
    | static => exact ⟨_, _, rfl⟩
    | «instance» => exact ⟨_, _, rfl⟩
  obtain ⟨placed, items, performs⟩ := pushed.writes.appends
  obtain ⟨front, last, rfl, -⟩ := performs.exists_last
  obtain ⟨whole, invoking, ends, isInvoke, flagless⟩ := invokeTarget_items invokes
  obtain rfl : last = invoking := by
    rw [ends, ← List.append_assoc] at items
    exact (List.cons.inj (List.append_inj_right' items rfl)).1.symm
  obtain ⟨nulls, finalItems, plain⟩ := materialize_items materializes
  refine ⟨last.instruction, ?_, isInvoke, flagless⟩
  rw [items, List.append_assoc] at finalItems
  refine LoweringState.lastDispatch?_eq extended finalItems ?_ plain
  rw [Opcode.dispatches, isInvoke]
  rfl

/-! ## Flags -/

namespace MethodCall

variable {call : MethodCall Expr}

/-- A request has the options of its call, unless the receiver is explicit. -/
theorem explicitReceiver_request :
    (call.operands.request context).explicitReceiver = call.explicitReceiver := by
  obtain ⟨receiver, _, _, _, _, _, _, _, _⟩ := call
  unfold MethodCall.request
  split <;> rfl

theorem safe_request : (call.operands.request context).normalize.safe =
    (call.safe && !call.explicitReceiver) := by
  have plain : (call.operands.request context).safe = call.safe := by
    obtain ⟨_, _, _, _, _, _, _, _, _⟩ := call
    unfold MethodCall.request
    split <;> rfl
  unfold Request.normalize
  rw [explicitReceiver_request]
  cases call.explicitReceiver with
  | true => simp
  | false => simp [plain]

theorem spreadSafe_request :
    (call.operands.request context).normalize.spreadSafe = call.spreadSafe := by
  have plain : (call.operands.request context).spreadSafe = call.spreadSafe := by
    obtain ⟨_, _, _, _, _, _, _, _, _⟩ := call
    unfold MethodCall.request
    split <;> rfl
  unfold Request.normalize
  split <;> exact plain

theorem implicitThis_request (explicit : call.explicitReceiver = true) :
    (call.operands.request context).normalize.implicitThis = false := by
  unfold Request.normalize
  rw [explicitReceiver_request, if_pos explicit]

/-- The flags of a cached site navigate like the call, which is not made on every element
of its receiver. -/
theorem navigate_siteFlags {name : String} (spread : Bool)
    (named : (call.operands.request context).normalize.cachedName? = some name) :
    CallFlags.Navigate
      { (call.operands.request context).normalize.siteFlags with spread } call where
  safe := safe_request
  spreadSafe := by
    simp only [Request.cachedName?, Option.ite_none_right_eq_some, Bool.and_eq_true,
      Bool.not_eq_true', spreadSafe_request] at named
    exact named.1.2.symm
  implicitThis := implicitThis_request

theorem navigate_routineFlags :
    ((call.operands.request context).normalize.routineFlags context).Navigate call where
  safe := safe_request
  spreadSafe := spreadSafe_request
  implicitThis := fun _ => rfl

end MethodCall

/-! ## Calls -/

theorem dispatchesBy_callSite {call : MethodCall Expr} {flags : CallFlags}
    (navigate : flags.Navigate call) (slot : UInt16) (count : UInt8) :
    Tier.cached.DispatchesBy call ⟨.callSite, .site slot count flags.bits⟩ :=
  ⟨rfl, flags, congrArg some flags.ofBits_bits, navigate⟩

/-- A call in the direct tier is dispatched without flags. -/
theorem lastDispatch?_of_direct {call : MethodCall Expr}
    (run : Runs (lowerMethodCall call.operands) context before .direct after) :
    ∃ instruction, before.lastDispatch? after = some instruction ∧
      instruction.opcode.isInvoke = true ∧ instruction.flags? = none := by
  simp only [lowerMethodCall, runs_bind, runs_read] at run
  obtain ⟨_, marked, marks, _, _, ⟨rfl, rfl⟩, run⟩ := run
  have sameListing : marked.assembler.listing = before.assembler.listing := by
    rw [runs_markLine] at marks
    split at marks
    · rw [marks]
    · rw [marks]
      rfl
  have same : before.lastDispatch? after = marked.lastDispatch? after := by
    rw [LoweringState.lastDispatch?, ← sameListing, LoweringState.lastDispatch?]
  rw [same]
  split at run
  · simp only [runs_bind, runs_pure] at run
    obtain ⟨_, _, -, other, -⟩ := run
    cases other
  · have straight : (call.operands.request context).Straight context := call.straight.request
    have makes := (straight_makeCall straight MethodCall.currentIsPlain_request).reads
    have steady := ((inductive_trivial context).steady_method call).request
    exact lastDispatch?_of_makeCall steady (makes.advances run).code run

/-- Safe navigation survives outside the tiers that bind a call to what it runs: the site or
the routine that dispatches it has the flags of the call, without those that an explicit
receiver cannot need.  A bound call is invoked without flags. -/
theorem safe_navigation_survives (context : Context) (before after : LoweringState)
    (call : MethodCall Expr) (tier : Tier)
    (run : Runs (lowerMethodCall call.operands) context before tier after) :
    ∃ instruction, before.lastDispatch? after = some instruction ∧
      tier.DispatchesBy call instruction := by
  have reads : Reads (lowerMethodCall call.operands) context _ :=
    (MethodCall.straight_lower call.straight).reads
  have extended := (reads.advances run).code
  obtain ⟨code, type, made, pushed⟩ := (inductive_trivial context).method_run run
  cases made with
  | closure found calls =>
      obtain ⟨packed⟩ := calls
      exact ⟨_, pushed.lastDispatch? extended (fun _ spelled => spelled) rfl, rfl, rfl⟩
  | request absent made =>
      cases made with
      | cached bound named sites =>
          cases sites with
          | packed slot =>
              refine ⟨_, pushed.lastDispatch? extended (fun _ spelled => spelled) rfl, ?_⟩
              exact dispatchesBy_callSite (MethodCall.navigate_siteFlags true named) _ _
          | plain slot =>
              refine ⟨_, pushed.lastDispatch? extended (fun _ spelled => spelled) rfl, ?_⟩
              exact dispatchesBy_callSite (MethodCall.navigate_siteFlags false named) _ _
      | uncached bound unnamed calls =>
          obtain ⟨receiving, selecting, loads⟩ := calls
          refine ⟨_, pushed.lastDispatch? extended (fun _ spelled => spelled) rfl, rfl, _,
            congrArg some (CallFlags.ofBits_bits _), MethodCall.navigate_routineFlags⟩
      | direct => exact lastDispatch?_of_direct run

/-- `x?.m()` -/
def safeCall (target : Option Identity) : MethodCall Expr :=
  ⟨.read ⟨"x", 1, .simple ⟨1⟩, false⟩, .named "m", [], true, false, false, target, none,
    .synthetic⟩

def navigatedTypes : TypeTable :=
  ⟨[{ name := "C", id := ⟨1⟩, kind := .classType,
      methods := [⟨⟨2⟩, "m", ⟨1⟩, [], .object, .openAccess⟩] }]⟩

def navigatedContext : Context := { types := navigatedTypes, frame := .method ⟨1⟩ }

/-- Without a known target, the site of the call has the flag. -/
theorem navigation_of_cached_call : ∃ before after : LoweringState,
    Runs (lowerMethodCall (safeCall none).operands) navigatedContext before .cached after ∧
      ∃ instruction, before.lastDispatch? after = some instruction ∧
        Tier.cached.DispatchesBy (safeCall none) instruction := by
  obtain ⟨after, run⟩ := exists_runs_of_answer? (show answer?
    (lowerMethodCall (safeCall none).operands) navigatedContext
      { ledger := { classId := ⟨1⟩ } } = some .cached by decide +kernel)
  exact ⟨_, after, run,
    safe_navigation_survives navigatedContext _ after (safeCall none) .cached run⟩

/-- Bound to its target, the call is invoked without a flag. -/
theorem navigation_lost_in_bound_call : ∃ (before after : LoweringState) (tier : Tier)
    (instruction : Instruction), tier ≠ .closure ∧ (safeCall (some ⟨2⟩)).safe = true ∧
      (safeCall (some ⟨2⟩)).explicitReceiver = false ∧
      Runs (lowerMethodCall (safeCall (some ⟨2⟩)).operands) navigatedContext before tier
        after ∧
      before.lastDispatch? after = some instruction ∧
      ¬((instruction.opcode = .callSite ∨ instruction.opcode = .callAdapter) ∧
        ∃ flags, instruction.flags? = some flags ∧ flags.safe = true) := by
  obtain ⟨after, run⟩ := exists_runs_of_answer? (show answer?
    (lowerMethodCall (safeCall (some ⟨2⟩)).operands) navigatedContext
      { ledger := { classId := ⟨1⟩ } } = some .direct by decide +kernel)
  obtain ⟨instruction, last, -, flagless⟩ := lastDispatch?_of_direct run
  refine ⟨_, after, .direct, instruction, by decide, rfl, rfl, run, last, ?_⟩
  rintro ⟨-, flags, found, -⟩
  rw [flagless] at found
  cases found

end CallCode
