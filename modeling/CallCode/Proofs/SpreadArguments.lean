import CallCode.Proofs.Lowering.Statement

/-!
# Spread arguments

A spread argument stands for as many values as it has elements, which are counted at
run time.  A call that has one packs its arguments into a vector, with one bit for
every spread position, and hands the vector to a dispatch.  Only a target that the
optimizer proved and an anonymous class are bound without a look at the arguments.
-/

namespace CallCode

open Lower

variable {context : Context} {before after : LoweringState}

/-! ## The mask -/

theorem testBit_spreadMask (arguments : List Expr) (position : Nat)
    (covered : position < maxSpreadArguments) :
    (spreadMask arguments).toNat.testBit position =
      arguments[position]?.any Expr.isSpread := by
  induction arguments generalizing position with
  | nil => simp [spreadMask]
  | cons argument arguments ih =>
      simp only [maxSpreadArguments] at covered ih
      have shifted : ((spreadMask arguments) <<< 1).toNat =
          2 * (spreadMask arguments).toNat % 2 ^ 32 := by
        simp [UInt32.toNat_shiftLeft, Nat.shiftLeft_eq, Nat.mul_comm]
      rw [spreadMask, UInt32.toNat_or, Nat.testBit_or, shifted, Nat.testBit_mod_two_pow]
      cases position with
      | zero => cases spread : argument.isSpread <;> simp [spread] <;> rfl
      | succ position =>
          have rest := ih position (by omega)
          have low : argument.isSpread.toUInt32.toNat < 2 := by
            cases argument.isSpread <;> decide
          have single : argument.isSpread.toUInt32.toNat.testBit (position + 1) = false :=
            Nat.testBit_lt_two_pow
              (Nat.lt_of_lt_of_le low (Nat.le_self_pow (Nat.succ_ne_zero position) 2))
          rw [single, List.getElem?_cons_succ, ← rest]
          simp [Nat.testBit_succ, covered]

/-- A mask has the bits of the spread positions and no others. -/
def MarksSpread (mask : UInt32) (arguments : List Operand) : Prop :=
  ∀ position, mask.toNat.testBit position =
    arguments[position]?.any fun argument => argument.source.isSpread

theorem marksSpread_spreadMask {arguments : List Operand}
    (few : arguments.length ≤ maxSpreadArguments) :
    MarksSpread (spreadMask (sources arguments)) arguments := by
  intro position
  by_cases covered : position < maxSpreadArguments
  · rw [testBit_spreadMask _ _ covered, sources, List.getElem?_map, Option.any_map]
  · have bound := (spreadMask (sources arguments)).toNat_lt
    have high : 2 ^ 32 ≤ 2 ^ position := by
      apply Nat.pow_le_pow_right (by decide)
      simpa [maxSpreadArguments] using covered
    have beyond : arguments.length ≤ position := by omega
    rw [Nat.testBit_lt_two_pow (Nat.lt_of_lt_of_le bound high),
      List.getElem?_eq_none beyond]
    rfl

/-! ## Dispatching a vector -/

theorem loadedCode_classOperand (context : Context) (id : Identity) :
    LoadedCode context (classOperand id) [.typed .loadClass id] .metaclass := by
  let start : LoweringState := { ledger := { classId := id } }
  have run : Runs (classOperand id).load context start ()
      { start with
        assembler := start.assembler.loadClass id
        stack := .metaclass :: start.stack } := by
    simp [classOperand]
  exact ⟨start, _, run, classOperand_load run⟩

/-- The operations that dispatch a call on a vector of its arguments. -/
inductive DispatchesVector : List Operation → Prop
  | site (slot : UInt16) {flags : CallFlags} : flags.spread = true →
      DispatchesVector [.callSite slot 1 flags.bits]
  | routine (routine : Routine) {flags : CallFlags} : flags.spread = true →
      DispatchesVector [.callRoutine routine.number noCount flags.bits]
  | closure : DispatchesVector [.callRoutine Routine.invokeClosure.number 2 0]
  | selection (classId : Identity) (candidates : Nat) :
      DispatchesVector
        [.plain .dup, .ofInt (-1), .typed .loadClass classId, .ofInt (.ofNat candidates),
          .callRoutine Routine.selectConstructor.number 4 0]

/-- Code in which the arguments of a call are loaded in order, packed with a mask of
their spread positions, and dispatched. -/
inductive SpreadCode (context : Context) (arguments : List Operand) :
    List Operation → Prop
  | pack {front loads types count mask dispatch} :
      CodesEach (fun operand => operand.CodesBoxed context (LoadedCode context)) arguments
        loads types →
      count.toNat = arguments.length → MarksSpread mask arguments →
      DispatchesVector dispatch →
      SpreadCode context arguments (front ++ loads ++ [.despread count mask] ++ dispatch)

theorem SpreadCode.of_vector {arguments : List Operand}
    {packing front dispatch : List Operation}
    (spread : containsSpread (sources arguments) = true)
    (vector : VectorCodes context (LoadedCode context) arguments packing)
    (dispatches : DispatchesVector dispatch) :
    SpreadCode context arguments (front ++ packing ++ dispatch) := by
  cases vector with
  | @pack loads types _ few each =>
      have small := few spread
      simp only [maxSpreadArguments] at small
      have byte : arguments.length < 256 := by omega
      have count : arguments.length.toUInt8.toNat = arguments.length :=
        UInt8.toNat_ofNat_of_lt' byte
      rw [CallCode.packing, if_pos spread, ← List.append_assoc]
      exact .pack each count (marksSpread_spreadMask small) dispatches

theorem SiteCodes.spread {receiver : Operand} {arguments : List Operand}
    {flags : CallFlags} {code : List Operation}
    (site : SiteCodes context (LoadedCode context) receiver arguments flags code)
    (spread : containsSpread (sources arguments) = true) :
    SpreadCode context arguments code := by
  cases site with
  | packed slot _ _ vector => exact .of_vector spread vector (.site slot rfl)
  | plain _ absent => simp [absent] at spread

theorem RoutineCodes.spread {request : Request} {sender : Identity}
    {code : List Operation}
    (routine : RoutineCodes context (LoadedCode context) request sender code)
    (spread : containsSpread (sources request.arguments) = true) :
    SpreadCode context request.arguments code := by
  have uncounted : fixedCount request.arguments = none := by
    rw [fixedCount, if_pos spread]
  have packs : request.packs context = true := by simp [Request.packs, uncounted]
  cases routine with
  | call _ _ loads =>
      cases loads with
      | packed _ vector =>
          rw [Request.routineOperation, uncounted]
          exact .of_vector spread vector (.routine request.routine packs)
      | fixed unpacked => simp [packs] at unpacked

theorem ClosureCodes.spread {field : Field} {arguments : List Operand}
    {code : List Operation}
    (closure : ClosureCodes context (LoadedCode context) field arguments code)
    (spread : containsSpread (sources arguments) = true) :
    SpreadCode context arguments code := by
  cases closure with
  | call vector => exact .of_vector spread vector .closure

/-! ## Calls with spread arguments -/

/-- A request is bound to the target that the optimizer proved for it. -/
def Request.trusts (request : Request) (options : Options) : Bool :=
  (request.normalize.fastTarget? options).isSome

theorem Request.isClassLookup_of_spread {request : Request}
    (spread : containsSpread (sources request.arguments) = true) :
    request.isClassLookup = false := by
  unfold isClassLookup
  split
  · rename_i argument _ single
    simp [single, sources, containsSpread] at spread
    simp [spread]
  · rfl

theorem Request.boundCall_of_spread {request : Request} {types : TypeTable}
    {options : Options} {bound : Option BoundCall}
    (spread : containsSpread (sources request.arguments) = true)
    (found : request.boundCall types options = .ok bound) :
    bound.isSome = (request.fastTarget? options).isSome := by
  simp only [boundCall, isClassLookup_of_spread spread, Bool.false_eq_true, if_false] at found
  cases trusted : request.fastTarget? options with
  | some target =>
      rw [trusted] at found
      dsimp only at found
      obtain ⟨method, -, made⟩ := exists_knownMethod found
      cases made
      rfl
  | none =>
      rw [trusted] at found
      simp only [resolvedCall, hasSpread, spread, if_true] at found
      split at found <;> cases found <;> rfl

theorem RequestCodes.spread {sender : Identity} {request : Request} {tier : Tier}
    {code : List Operation} {type : ValueType}
    (made : RequestCodes context (LoadedCode context) sender request.normalize tier code type)
    (spread : containsSpread (sources request.arguments) = true) :
    (tier = .direct ↔ request.trusts context.frame.options = true) ∧
      (tier ≠ .direct → SpreadCode context request.arguments code) := by
  have sameSpread : containsSpread (sources request.normalize.arguments) = true := by
    simpa using spread
  cases made with
  | direct bound _ =>
      have trusts := Request.boundCall_of_spread sameSpread bound
      exact ⟨by simp [Request.trusts, ← trusts], fun other => absurd rfl other⟩
  | cached bound _ site =>
      have trusts := Request.boundCall_of_spread sameSpread bound
      refine ⟨by simp [Request.trusts, ← trusts], fun _ => ?_⟩
      rw [← Request.normalize_arguments]
      exact site.spread sameSpread
  | uncached bound _ routine =>
      have trusts := Request.boundCall_of_spread sameSpread bound
      refine ⟨by simp [Request.trusts, ← trusts], fun _ => ?_⟩
      rw [← Request.normalize_arguments]
      exact routine.spread sameSpread

/-- The arguments of a call were packed and dispatched as one vector. -/
def SpreadDispatched (context : Context) (arguments : List Expr)
    (before after : LoweringState) : Prop :=
  ∃ code, SpreadCode context (operandsOf arguments) code ∧ before.Emits after code

theorem spread_of_lowerMethodCall {call : MethodCall Expr} {tier : Tier}
    (spread : containsSpread call.arguments = true)
    (run : Runs (lowerMethodCall call.operands) context before tier after) :
    (tier = .direct ↔ call.operands.closureField? context = none ∧
      (call.operands.request context).trusts context.frame.options = true) ∧
    (tier ≠ .direct → SpreadDispatched context call.arguments before after) := by
  have steady := (inductive_trivial context).steady_method call
  have loaded : call.operands.Steady context (LoadedCode context) :=
    ⟨steady.receiver.loaded, fun value member => (steady.selector value member).loaded,
      fun argument member => (steady.arguments argument member).loaded⟩
  have sameSpread : containsSpread (sources call.operands.arguments) = true := by
    simpa using spread
  obtain ⟨code, type, known, pushed⟩ := lowerMethodCall_run loaded run
  rw [SpreadDispatched, ← MethodCall.arguments_operands]
  cases known with
  | closure field closure =>
      exact ⟨by simp [field], fun _ => ⟨code, closure.spread sameSpread, pushed.emits⟩⟩
  | request absent made =>
      have arguments : (call.operands.request context).arguments = call.operands.arguments := by
        unfold MethodCall.request
        split <;> rfl
      obtain ⟨direct, packed⟩ := made.spread (by rw [arguments]; exact sameSpread)
      rw [arguments] at packed
      exact ⟨by simp [absent, direct], fun other => ⟨code, packed other, pushed.emits⟩⟩

theorem spread_of_lowerStaticCall {call : StaticCall Expr} {tier : Tier}
    (spread : containsSpread call.arguments = true)
    (run : Runs (lowerStaticCall call.operands) context before tier after) :
    (tier = .direct ↔ call.operands.request.trusts context.frame.options = true) ∧
    (tier ≠ .direct → SpreadDispatched context call.arguments before after) := by
  have steady := (inductive_trivial context).steady_arguments call.arguments
  rw [← StaticCall.arguments_operands] at steady
  obtain ⟨code, type, made, pushed⟩ := lowerStaticCall_run (loadedCode_classOperand _ _)
    (fun argument member => (steady argument member).loaded) run
  have sameSpread : containsSpread (sources call.operands.request.arguments) = true := by
    simpa [StaticCall.request] using spread
  obtain ⟨direct, packed⟩ := made.spread sameSpread
  rw [SpreadDispatched, ← StaticCall.arguments_operands]
  exact ⟨direct, fun other => ⟨code, packed other, pushed.emits⟩⟩

theorem spread_of_lowerNewCall {call : NewCall Expr} {way : Construction}
    (spread : containsSpread call.arguments = true)
    (run : Runs (lowerNewCall call.operands) context before way after) :
    way ≠ .direct ∧ (way = .anonymousSubclass ↔ call.operands.anonymous = true) ∧
      (way ≠ .anonymousSubclass → SpreadDispatched context call.arguments before after) := by
  have known := inductive_trivial context
  have steady := known.steady_arguments call.arguments
  rw [← NewCall.arguments_operands] at steady
  have sameSpread : containsSpread (sources call.operands.arguments) = true := by
    simpa using spread
  obtain ⟨code, type, made, pushed⟩ := lowerNewCall_run (loadedCode_classOperand _ _)
    (fun argument member => (known.steady_captured (steady argument member)).loaded)
    (fun argument member => (steady argument member).loaded) run
  rw [SpreadDispatched, ← NewCall.arguments_operands]
  cases made with
  | anonymous anonymous => simp [anonymous]
  | direct _ fast =>
      unfold NewCall.fastConstructor at fast
      simp only [sameSpread, Bool.or_true, if_true] at fast
      split at fast <;> cases fast
  | site named _ site =>
      exact ⟨by simp, by simp [named],
        fun _ => ⟨code, site.spread sameSpread, pushed.emits⟩⟩

/-- A hook that declines a call has written nothing for it. -/
def ChainHook.DeclinesUntouched (hook : ChainHook) (context : Context) : Prop :=
  ∀ call before after, Runs (hook call) context before false after →
    after.assembler = before.assembler ∧ after.stack = before.stack

theorem ChainPrepared.pushes {hook : ChainHook} {call : ChainCall Operand}
    {ready : LoweringState} {classId : Identity} {table : CandidateTable}
    (declines : hook.DeclinesUntouched context)
    (prepared : ChainPrepared context hook call before ready classId table) :
    before.Pushes ready [] [] := by
  obtain ⟨marked, hooked, marks, -, hooks, -, assembler, stack⟩ := prepared.declined
  obtain ⟨sameAssembler, sameStack⟩ := declines call marked hooked hooks
  refine ⟨?_, ?_⟩
  · rw [assembler, sameAssembler]
    exact marks.writes
  · rw [stack, sameStack]
    exact marks.stack

theorem spread_of_lowerChainCall {hook : ChainHook} {call : ChainCall Expr}
    {way : Construction} (declines : hook.DeclinesUntouched context)
    (spread : containsSpread call.arguments = true)
    (run : Runs (lowerChainCall hook call.operands) context before way after) :
    way ≠ .direct ∧
      (way ≠ .generatedClosure → SpreadDispatched context call.arguments before after) := by
  have steady := (inductive_trivial context).steady_chain call
  have sameSpread : containsSpread (sources call.operands.arguments) = true := by
    simpa using spread
  rw [SpreadDispatched, ← ChainCall.arguments_operands]
  cases lowerChainCall_run run with
  | closure => simp
  | direct _ bound =>
      rw [(isConstructor_of_boundCandidate bound).2] at sameSpread
      contradiction
  | @keySwitch ready classId table prepared _ chains =>
      refine ⟨by simp, fun _ => ?_⟩
      obtain ⟨packing, entrance, placed, vector, items, -, performs, -, -⟩ :=
        chainBySwitch_run (fun argument member => (steady argument member).loaded) chains
      obtain ⟨selecting, entering, rfl, selects, -⟩ := performs.split
      have dispatches : DispatchesVector
          (selectionCode classId call.operands.arguments table.candidates.length) := by
        rw [selectionCode, toldCount, if_pos sameSpread]
        exact .selection _ _
      refine ⟨[] ++ packing ++ selectionCode _ _ _, .of_vector sameSpread vector dispatches,
        selecting, entering ++ placed, ?_, selects⟩
      rw [items, (prepared.pushes declines).writes.items_eq]
      simp

/-- Spread arguments are bound statically exactly where a call trusts the target that
the optimizer proved or makes an anonymous class.  Every other call packs them. -/
theorem spread_arguments_of_call (context : Context) (before after : LoweringState) :
    (∀ (call : MethodCall Expr) (tier : Tier), containsSpread call.arguments = true →
      Runs (lowerMethodCall call.operands) context before tier after →
        (tier = .direct ↔ call.operands.closureField? context = none ∧
          (call.operands.request context).trusts context.frame.options = true) ∧
        (tier ≠ .direct → SpreadDispatched context call.arguments before after)) ∧
    (∀ (call : StaticCall Expr) (tier : Tier), containsSpread call.arguments = true →
      Runs (lowerStaticCall call.operands) context before tier after →
        (tier = .direct ↔ call.operands.request.trusts context.frame.options = true) ∧
        (tier ≠ .direct → SpreadDispatched context call.arguments before after)) ∧
    (∀ (call : NewCall Expr) (way : Construction), containsSpread call.arguments = true →
      Runs (lowerNewCall call.operands) context before way after →
        way ≠ .direct ∧ (way = .anonymousSubclass ↔ call.operands.anonymous = true) ∧
        (way ≠ .anonymousSubclass →
          SpreadDispatched context call.arguments before after)) ∧
    (∀ (hook : ChainHook) (call : ChainCall Expr) (way : Construction),
      hook.DeclinesUntouched context → containsSpread call.arguments = true →
      Runs (lowerChainCall hook call.operands) context before way after →
        way ≠ .direct ∧ (way ≠ .generatedClosure →
          SpreadDispatched context call.arguments before after)) :=
  ⟨fun _ _ => spread_of_lowerMethodCall, fun _ _ => spread_of_lowerStaticCall,
    fun _ _ => spread_of_lowerNewCall, fun _ _ _ => spread_of_lowerChainCall⟩

/-- A call on the current instance with a spread argument packs it. -/
theorem spread_argument_of_plain_call : ∃ (call : MethodCall Expr)
    (before after : LoweringState), containsSpread call.arguments = true ∧
    Runs (lowerMethodCall call.operands) { types := .empty, frame := .method ⟨1⟩ } before
      .cached after ∧
    SpreadDispatched { types := .empty, frame := .method ⟨1⟩ } call.arguments before after := by
  let call : MethodCall Expr :=
    { receiver := .this, selector := .named "run", arguments := [.spread .this] }
  obtain ⟨after, run⟩ : ∃ after, Runs (lowerMethodCall call.operands)
      { types := .empty, frame := .method ⟨1⟩ } { ledger := { classId := ⟨1⟩ } } .cached after :=
    ⟨_, rfl⟩
  have packed := ((spread_arguments_of_call _ _ after).1 call .cached rfl run).2
  exact ⟨call, _, after, rfl, run, packed (by decide)⟩

end CallCode
