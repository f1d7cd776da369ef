import CallCode.Lowering.MethodCall
import CallCode.Proofs.Lowering.Dispatch
import CallCode.Proofs.Lowering.Invocation

/-!
# The code of method calls

Whichever way a method call is made, its code pushes one operand.  The ways differ
in the type under which that operand is tracked.
-/

namespace CallCode

open Lower

variable {context : Context} {codes : OperandCodes} {before after : LoweringState}

/-! ## Class literals -/

/-- A class literal as an operand. -/
def classOperand (id : Identity) : Operand where
  source := .classLiteral id
  load := do
    write (·.loadClass id)
    push .metaclass

theorem classOperand_load {id : Identity}
    (run : Runs (classOperand id).load context before () after) :
    before.Pushes after [.typed .loadClass id] [.metaclass] := by
  simp only [classOperand, runs_bind, runs_write, runs_push] at run
  obtain ⟨_, _, rfl, rfl⟩ := run
  exact ⟨Assembler.writes_loadClass _ _, rfl⟩

theorem classOperand_steady {id : Identity}
    (known : codes (classOperand id) [.typed .loadClass id] .metaclass) :
    (classOperand id).Steady context codes := by
  intro _ _ run
  exact ⟨_, _, known, classOperand_load run⟩

/-! ## Requests -/

namespace Request

@[simp]
theorem normalize_receiver (request : Request) :
    request.normalize.receiver = request.receiver := by
  unfold normalize
  split <;> rfl

@[simp]
theorem normalize_selector (request : Request) :
    request.normalize.selector = request.selector := by
  unfold normalize
  split <;> rfl

@[simp]
theorem normalize_routine (request : Request) :
    request.normalize.routine = request.routine := by
  unfold normalize
  split <;> rfl

@[simp]
theorem normalize_arguments (request : Request) :
    request.normalize.arguments = request.arguments := by
  unfold normalize
  split <;> rfl

/-- The three ways in which a request is bound to a target. -/
inductive Binds (request : Request) (types : TypeTable) (options : Options) :
    BoundCall → Prop
  | lookup {method} : request.isClassLookup = true → types.classLookup? = some method →
      Binds request types options ⟨method, false, some request.receiver⟩
  | proved {target method} : request.fastTarget? options = some target →
      request.knownMethod types target = .ok method →
      Binds request types options ⟨method, true, none⟩
  | resolved {target method} : request.target = some target → request.hasSpread = false →
      request.knownMethod types target = .ok method →
      Binds request types options ⟨method, request.implicitThis, some request.receiver⟩

/-- A target that has to be known is a method of the types. -/
theorem method?_of_knownMethod {request : Request} {types : TypeTable} {target : Identity}
    {method : Method} (known : request.knownMethod types target = .ok method) :
    types.method? target = some method := by
  unfold knownMethod at known
  split at known
  · rename_i found
    cases known
    exact found
  · cases known

/-- What is made of a target is made of a known method. -/
theorem exists_knownMethod {request : Request} {types : TypeTable} {target : Identity}
    {Result : Type} {make : Method → Except LoweringError Result} {result : Result}
    (made : (request.knownMethod types target >>= make) = .ok result) :
    ∃ method, request.knownMethod types target = .ok method ∧ make method = .ok result := by
  cases known : request.knownMethod types target with
  | error error =>
      rw [known] at made
      cases made
  | ok method =>
      rw [known] at made
      exact ⟨method, rfl, made⟩

theorem binds_of_boundCall {request : Request} {types : TypeTable} {options : Options}
    {call : BoundCall} (bound : request.boundCall types options = .ok (some call)) :
    request.Binds types options call := by
  unfold boundCall at bound
  split at bound
  · rename_i method found
    cases bound
    rw [Option.ite_none_right_eq_some] at found
    exact .lookup found.1 found.2
  · split at bound
    · rename_i target proved
      obtain ⟨method, known, same⟩ := exists_knownMethod bound
      cases same
      exact .proved proved known
    · unfold resolvedCall at bound
      split at bound
      · rename_i target found
        split at bound
        · cases bound
        · rename_i plain
          rw [Bool.not_eq_true] at plain
          obtain ⟨method, known, same⟩ := exists_knownMethod bound
          cases same
          exact .resolved found plain known
      · cases bound

/-- A bound call has no other receiver than the request. -/
theorem Binds.receiver_eq {request : Request} {types : TypeTable} {options : Options}
    {call : BoundCall} (binds : request.Binds types options call) :
    ∀ operand ∈ call.receiver, operand = request.receiver := by
  cases binds with
  | lookup => simp
  | proved => simp
  | resolved => simp

/-- The operands of a request all push one value. -/
structure Steady (context : Context) (codes : OperandCodes) (request : Request) : Prop where
  receiver : request.receiver.Steady context codes
  selector : ∀ value ∈ request.selector.value?, value.Steady context codes
  arguments : ∀ argument ∈ request.arguments, argument.Steady context codes

theorem Steady.normalize {request : Request} (steady : request.Steady context codes) :
    request.normalize.Steady context codes where
  receiver := by simpa using steady.receiver
  selector := by simpa using steady.selector
  arguments := by simpa using steady.arguments

end Request

/-- The code of a request, the tier that it is made on and the type of its result. -/
inductive RequestCodes (context : Context) (codes : OperandCodes) (sender : Identity) (request : Request) :
    Tier → List Operation → ValueType → Prop
  | direct {call code} :
      request.boundCall context.types context.frame.options = .ok (some call) →
      InvocationCodes context codes call.target call.implicitThis call.receiver request.arguments
        code →
      RequestCodes context codes sender request .direct (code ++ materializingCode call.target)
        call.target.resultType
  | cached {name code} :
      request.boundCall context.types context.frame.options = .ok none →
      request.cachedName? = some name →
      SiteCodes context codes request.receiver request.arguments request.siteFlags code →
      RequestCodes context codes sender request .cached code .object
  | uncached {code} :
      request.boundCall context.types context.frame.options = .ok none →
      request.cachedName? = none →
      RoutineCodes context codes request sender code →
      RequestCodes context codes sender request .uncached code .object

theorem makeCall_run {request : Request} {tier : Tier} (steady : request.Steady context codes)
    (run : Runs (makeCall request) context before tier after) : ∃ code type,
      RequestCodes context codes (request.senderIn context.frame) request.normalize tier code
        type ∧ before.Pushes after code [type] := by
  have ready := steady.normalize
  simp only [makeCall, runs_bind, runs_read, runs_accept] at run
  obtain ⟨_, _, ⟨rfl, rfl⟩, bound, _, ⟨found, rfl⟩, run⟩ := run
  cases bound with
  | some call =>
      simp only [runs_bind, runs_pure] at run
      obtain ⟨result, invoked, invokes, _, _, materializes, rfl, rfl⟩ := run
      have receiverSteady : ∀ operand ∈ call.receiver, operand.Steady context codes := by
        intro operand member
        rw [(Request.binds_of_boundCall found).receiver_eq operand member]
        exact ready.receiver
      obtain ⟨code, known, pushed⟩ := boundCall_run receiverSteady ready.arguments
        ((runs_bind _ _).mpr ⟨result, invoked, invokes, materializes⟩)
      exact ⟨_, _, .direct found known, pushed⟩
  | none =>
      dsimp only at run
      split at run
      · rename_i name named
        simp only [runs_bind, runs_pure] at run
        obtain ⟨_, _, calls, rfl, rfl⟩ := run
        obtain ⟨code, known, pushed⟩ := callThroughSite_run ready.receiver ready.arguments calls
        exact ⟨_, _, .cached found named known, pushed⟩
      · rename_i unnamed
        simp only [runs_bind, runs_pure] at run
        obtain ⟨_, _, calls, rfl, rfl⟩ := run
        obtain ⟨code, known, pushed⟩ :=
          callThroughRoutine_run ready.receiver ready.selector ready.arguments calls
        exact ⟨_, _, .uncached found unnamed known, pushed⟩

/-! ## Closures in fields -/

/-- The code that pushes a field of the enclosing class. -/
def fieldCode (classId : Identity) (field : Field) : List Operation :=
  if field.isStatic then [.getStaticField classId field.name.toUTF8]
  else [.plain .getThis, .getField field.name.toUTF8]

/-- The code that calls the closure in a field. -/
inductive ClosureCodes (context : Context) (codes : OperandCodes) (field : Field) (arguments : List Operand) :
    List Operation → Prop
  | call {packing} : VectorCodes context codes arguments packing →
      ClosureCodes context codes field arguments
        (fieldCode context.frame.classId field ++ boxingCode context.types field.type ++
          packing ++ [.callRoutine Routine.invokeClosure.number 2 0])

theorem callClosure_run {field : Field} {arguments : List Operand} {position : Position}
    (steady : ∀ argument ∈ arguments, argument.Steady context codes)
    (run : Runs (callClosure field arguments position) context before () after) : ∃ code,
      ClosureCodes context codes field arguments code ∧ before.Pushes after code [.object] := by
  simp only [callClosure, runs_bind, runs_read, runs_depth] at run
  obtain ⟨_, _, ⟨rfl, rfl⟩, _, _, ⟨rfl, rfl⟩, run⟩ := run
  have load : ∃ loaded, before.Pushes loaded (fieldCode context.frame.classId field)
      [field.type] ∧ Runs (do
        let _ ← boxTop
        packVector arguments position
        write (·.callRoutine .invokeClosure 2)
        collapse before.stack.length .object) context loaded () after := by
    unfold fieldCode
    split at run
    · rename_i static
      simp only [runs_bind, runs_write, runs_push] at run
      obtain ⟨_, _, rfl, _, loaded, tracked, run⟩ := run
      rw [if_pos static]
      refine ⟨loaded, ⟨?_, ?_⟩, by simpa only [runs_bind, runs_write] using run⟩
      · rw [tracked]
        exact Assembler.writes_getStaticField _ _ _
      · rw [tracked]
        rfl
    · rename_i static
      simp only [runs_bind, runs_write, runs_push] at run
      obtain ⟨_, _, rfl, _, _, rfl, _, loaded, tracked, run⟩ := run
      rw [if_neg static]
      refine ⟨loaded, ⟨?_, ?_⟩, by simpa only [runs_bind, runs_write] using run⟩
      · rw [tracked]
        exact (Assembler.writes_getThis _).trans (Assembler.writes_getField _ _)
      · rw [tracked]
        rfl
  obtain ⟨loaded, fieldPushed, run⟩ := load
  simp only [runs_bind, runs_write, runs_collapse] at run
  obtain ⟨_, boxed, boxes, _, packed, packs, _, _, rfl, -, rfl⟩ := run
  obtain ⟨source, rfl, retyped⟩ := boxTop_run boxes
  obtain ⟨rfl, ready⟩ := fieldPushed.retype retyped
  obtain ⟨packing, known, pushed⟩ := packVector_run steady packs
  refine ⟨_, .call known, ?_⟩
  exact (ready.trans pushed).collapse (Assembler.writes_callRoutine _ _ _) rfl

/-! ## Calls -/

theorem markLine_run {position : Position}
    (run : Runs (markLine position) context before () after) : before.Pushes after [] [] := by
  rw [runs_markLine] at run
  split at run
  · rw [run]
    exact .nil before
  · rw [run]
    exact ⟨Assembler.writes_setLine _ _, rfl⟩

/-- The code of a method call. -/
inductive MethodCodes (context : Context) (codes : OperandCodes) (call : MethodCall Operand) :
    Tier → List Operation → ValueType → Prop
  | closure {field code} : call.closureField? context = some field →
      ClosureCodes context codes field call.arguments code →
      MethodCodes context codes call .closure code .object
  | request {tier code type} : call.closureField? context = none →
      RequestCodes context codes ((call.request context).senderIn context.frame)
        (call.request context).normalize tier code type →
      MethodCodes context codes call tier code type

/-- The operands of a method call all push one value. -/
structure MethodCall.Steady (context : Context) (codes : OperandCodes) (call : MethodCall Operand) : Prop where
  receiver : call.receiver.Steady context codes
  selector : ∀ value ∈ call.selector.value?, value.Steady context codes
  arguments : ∀ argument ∈ call.arguments, argument.Steady context codes

theorem MethodCall.Steady.request {call : MethodCall Operand}
    (steady : call.Steady context codes) : (call.request context).Steady context codes := by
  unfold MethodCall.request
  split
  · refine ⟨steady.receiver, ?_, steady.arguments⟩
    simp [Selector.value?]
  · exact ⟨steady.receiver, steady.selector, steady.arguments⟩

theorem lowerMethodCall_run {call : MethodCall Operand} {tier : Tier}
    (steady : call.Steady context codes)
    (run : Runs (lowerMethodCall call) context before tier after) : ∃ code type,
      MethodCodes context codes call tier code type ∧ before.Pushes after code [type] := by
  simp only [lowerMethodCall, runs_bind, runs_read] at run
  obtain ⟨_, marked, marks, _, _, ⟨rfl, rfl⟩, run⟩ := run
  have start := markLine_run marks
  split at run
  · rename_i field found
    simp only [runs_bind, runs_pure] at run
    obtain ⟨_, _, calls, rfl, rfl⟩ := run
    obtain ⟨code, known, pushed⟩ := callClosure_run steady.arguments calls
    exact ⟨code, .object, .closure found known, start.trans pushed⟩
  · rename_i absent
    obtain ⟨code, type, known, pushed⟩ := makeCall_run steady.request run
    exact ⟨code, type, .request absent known, start.trans pushed⟩

/-- A static call as a request. -/
def StaticCall.request (call : StaticCall Operand) : Request where
  receiver := classOperand call.owner
  selector := .named call.name
  arguments := call.arguments
  routine := .invokeStatic
  optimizedTarget := call.optimizedTarget
  position := call.position

theorem lowerStaticCall_eq (call : StaticCall Operand) :
    lowerStaticCall call = (do
      markLine call.position
      makeCall call.request) :=
  rfl

theorem lowerStaticCall_run {call : StaticCall Operand} {tier : Tier}
    (owner : codes (classOperand call.owner) [.typed .loadClass call.owner] .metaclass)
    (steady : ∀ argument ∈ call.arguments, argument.Steady context codes)
    (run : Runs (lowerStaticCall call) context before tier after) : ∃ code type,
      RequestCodes context codes (call.request.senderIn context.frame) call.request.normalize tier
        code type ∧ before.Pushes after code [type] := by
  rw [lowerStaticCall_eq, runs_bind] at run
  obtain ⟨_, marked, marks, calls⟩ := run
  have ready : call.request.Steady context codes :=
    ⟨classOperand_steady owner, by simp [StaticCall.request, Selector.value?], steady⟩
  obtain ⟨code, type, known, pushed⟩ := makeCall_run ready calls
  exact ⟨code, type, known, (markLine_run marks).trans pushed⟩

end CallCode
