import CallCode.Proofs.BoundArguments

/-!
# Receivers and the owners they are invoked through

A receiver is converted to the declaring type of its target, but the invocation may name the
member through the static type of the receiver.  Where it does so without a check, the value
on the stack need not be an instance of that type.
-/

namespace CallCode

open Lower

namespace Invocation

variable {types : TypeTable} {target : Method} {superReceiver : Bool} {receiver : ValueType}
  {invocation : Invocation}

/-- The ways in which an owner is named. -/
inductive Chosen (types : TypeTable) (target : Method) (superReceiver : Bool)
    (receiver : ValueType) : Invocation → Prop
  | kept : Chosen types target superReceiver receiver
      ⟨baseOpcode types target superReceiver, target.owner, false⟩
  | special : baseOpcode types target superReceiver = .invokeSpecial →
      Chosen types target superReceiver receiver ⟨.invokeSpecial, receiver.base, false⟩
  | narrowed : baseOpcode types target superReceiver = .invokeVirtual →
      narrowsVirtual types target receiver = true →
      Chosen types target superReceiver receiver ⟨.invokeVirtual, receiver.base, true⟩
  | hidden : baseOpcode types target superReceiver ≠ .invokeSpecial →
      hidesOwner types target receiver = true →
      Chosen types target superReceiver receiver
        ⟨if types.isInterface (.simple target.owner) && !types.isInterface receiver then
            .invokeVirtual
          else baseOpcode types target superReceiver, receiver.base, false⟩

theorem chosen_choose (types : TypeTable) (target : Method) (superReceiver : Bool)
    (receiver : ValueType) :
    Chosen types target superReceiver receiver (choose types target superReceiver receiver) := by
  simp only [choose]
  by_cases special : baseOpcode types target superReceiver = .invokeSpecial
  · rw [if_pos special]
    split
    · rw [special]
      exact .special special
    · exact .kept
  rw [if_neg special]
  split
  · exact .kept
  split
  · rename_i narrows
    rw [Bool.and_eq_true, decide_eq_true_eq] at narrows
    rw [narrows.1]
    exact .narrowed narrows.1 narrows.2
  split
  · rename_i hides
    have chosen := Chosen.hidden special hides
    split
    · rename_i crosses
      rwa [if_pos crosses] at chosen
    · rename_i stays
      rwa [if_neg stays] at chosen
  · exact .kept

/-- The owner is another type than the declaring one, and the receiver is not checked to be
an instance of it. -/
def RenamesUnchecked (invocation : Invocation) (target : Method) : Prop :=
  invocation.owner ≠ target.owner ∧ invocation.narrowsReceiver = false

theorem baseOpcode_cases (types : TypeTable) (superReceiver : Bool)
    (isInstance : target.isStatic = false) :
    baseOpcode types target superReceiver = .invokeSpecial ∨
      (baseOpcode types target superReceiver = .invokeInterface ∧
        types.isInterface (.simple target.owner) = true) ∨
      (baseOpcode types target superReceiver = .invokeVirtual ∧
        types.isInterface (.simple target.owner) = false) := by
  unfold baseOpcode
  cases superReceiver with
  | true => simp [isInstance]
  | false => cases types.isInterface (.simple target.owner) <;> simp [isInstance]

/-- A receiver that a virtual invocation is narrowed to has no dimensions. -/
theorem simple_of_narrowsVirtual (narrows : narrowsVirtual types target receiver = true) :
    receiver = .simple receiver.base := by
  simp only [narrowsVirtual, Bool.and_eq_true] at narrows
  have flat : receiver.dims = 0 := by simpa [ValueType.isArray] using narrows.1.1.1.1
  exact TypeTable.type_ext flat rfl

theorem simple_of_isInterface (isInterface : types.isInterface receiver = true) :
    receiver = .simple receiver.base :=
  TypeTable.type_ext (TypeTable.dims_of_isInterface isInterface) rfl

namespace Chosen

variable (chosen : Chosen types target superReceiver receiver invocation)
include chosen

/-- Only for a superclass and for a hidden declaring type is the owner renamed without a
check, and it is the static type of the receiver then. -/
theorem of_renamesUnchecked (renames : invocation.RenamesUnchecked target) :
    invocation.owner = receiver.base ∧
      (superReceiver = true ∨ hidesOwner types target receiver = true) := by
  cases chosen with
  | kept => exact absurd rfl renames.1
  | special base =>
      refine ⟨rfl, .inl ?_⟩
      by_contra other
      unfold baseOpcode at base
      rw [if_neg other] at base
      split at base
      · cases base
      · split at base <;> cases base
  | narrowed => cases renames.2
  | hidden _ hides => exact ⟨rfl, .inr hides⟩

/-- A receiver that is checked is an instance of the owner. -/
theorem of_narrowsReceiver (narrows : invocation.narrowsReceiver = true) :
    receiver = .simple invocation.owner := by
  cases chosen with
  | narrowed _ virtual => exact simple_of_narrowsVirtual virtual
  | kept | special | hidden => cases narrows

/-- A virtual or interface invocation of an instance method is of the kind of its owner,
unless an interface took the place of a hidden declaring type. -/
theorem invokeInterface_iff (isInstance : target.isStatic = false)
    (dispatched : invocation.opcode ≠ .invokeSpecial) :
    (invocation.opcode = .invokeInterface ↔
        types.isInterface (.simple invocation.owner) = true) ↔
      ¬(invocation.opcode = .invokeVirtual ∧ hidesOwner types target receiver = true ∧
        invocation.owner = receiver.base ∧
        types.isInterface (.simple receiver.base) = true) := by
  have base := baseOpcode_cases types superReceiver isInstance
  cases chosen with
  | kept =>
      rcases base with special | ⟨same, isInterface⟩ | ⟨same, isClass⟩
      · exact absurd special dispatched
      · simp [same, isInterface]
      · have noInterface : target.owner = receiver.base →
            types.isInterface (.simple receiver.base) = false := fun named => named ▸ isClass
        simpa [same, isClass] using fun _ => noInterface
  | special => exact absurd rfl dispatched
  | narrowed _ virtual =>
      have isClass : types.isInterface (.simple receiver.base) = false := by
        rw [← simple_of_narrowsVirtual virtual]
        simp only [narrowsVirtual, Bool.and_eq_true] at virtual
        simpa using virtual.1.1.1.2
      simp [isClass]
  | hidden special hides =>
      rcases base with base | ⟨same, isInterface⟩ | ⟨same, isClass⟩
      · exact absurd base special
      · cases crosses : types.isInterface receiver with
        | false => simp [isInterface, hides]
        | true =>
            -- an array is no interface, so the owner is the receiver type itself
            have named : types.isInterface (.simple receiver.base) = true := by
              rw [← simple_of_isInterface crosses]
              exact crosses
            simp [same, isInterface, named]
      · simp [same, isClass, hides]

end Chosen

end Invocation

/-! ## Receivers on the stack -/

/-- Push the receiver of an instance target, not yet converted to the declaring type. -/
def pushReceiver (target : Method) (implicitThis : Bool) (receiver : Operand) : Lower Unit := do
  let context ← read
  if reachesOuter context.types context.frame target implicitThis &&
      !context.frame.inGeneratedFunction && receiver.source.isThis then
    write (·.getOuterThis target.owner)
    push (.simple target.owner)
  else
    receiver.load

/-- Make the receiver that was pushed ready for its arguments. -/
def convertReceiver (target : Method) (receiver : Operand) : Lower Unit := do
  coerceTo (.simple target.owner)
  let context ← read
  if (invocationOf context target (some receiver)).narrowsReceiver then
    narrowReceiver (context.typeOf receiver.source)

/-- How the owner of an invocation goes with its receiver, which is pushed as one type and
stands below the arguments as another. -/
structure Received (types : TypeTable) (target : Method) (superReceiver : Bool)
    (static pushed type : ValueType) (invocation : Invocation) : Prop where
  tracked : type = if invocation.narrowsReceiver then static
    else coercedType types pushed (.simple target.owner)
  /-- Only for a superclass and for a hidden declaring type is the owner renamed without a
  check. -/
  renamed : invocation.RenamesUnchecked target → invocation.owner = static.base ∧
    (superReceiver = true ∨ Invocation.hidesOwner types target static = true)
  /-- The receiver fits the owner, unless this is its static type and what the conversion to
  the declaring type leaves does not fit that. -/
  fits : types.isAssignable type (.simple invocation.owner) = true ↔
    ¬(invocation.RenamesUnchecked target ∧
      types.isAssignable (coercedType types pushed (.simple target.owner))
        (.simple static.base) = false)
  /-- The invocation is of the kind of its owner, unless an interface took the place of a
  hidden declaring type. -/
  kind : invocation.opcode ≠ .invokeSpecial →
    ((invocation.opcode = .invokeInterface ↔
        types.isInterface (.simple invocation.owner) = true) ↔
      ¬(invocation.opcode = .invokeVirtual ∧
        Invocation.hidesOwner types target static = true ∧
        invocation.owner = static.base ∧ types.isInterface (.simple static.base) = true))

theorem Invocation.Chosen.received {types : TypeTable} {target : Method} {superReceiver : Bool}
    {static pushed type : ValueType} {invocation : Invocation}
    (chosen : Chosen types target superReceiver static invocation)
    (isInstance : target.isStatic = false)
    (tracked : type = if invocation.narrowsReceiver then static
      else coercedType types pushed (.simple target.owner)) :
    Received types target superReceiver static pushed type invocation where
  tracked := tracked
  renamed := chosen.of_renamesUnchecked
  kind := chosen.invokeInterface_iff isInstance
  fits := by
    cases narrows : invocation.narrowsReceiver with
    | true =>
        have fitting : types.isAssignable type (.simple invocation.owner) = true := by
          rw [tracked, narrows, if_pos rfl, ← chosen.of_narrowsReceiver narrows,
            TypeTable.isAssignable_refl]
        simp [fitting, RenamesUnchecked, narrows]
    | false =>
        rw [narrows, if_neg Bool.false_ne_true] at tracked
        subst tracked
        -- what is converted to the declaring type fits that, but need not fit another owner
        by_cases kept : invocation.owner = target.owner
        · rw [kept]
          simp [isAssignable_coercedType, RenamesUnchecked, kept]
        · have renames : invocation.RenamesUnchecked target := ⟨kept, narrows⟩
          rw [(chosen.of_renamesUnchecked renames).1]
          simp [renames]

theorem TypeTable.not_isInterface_of_isPrimitive {types : TypeTable} {type : ValueType}
    (primitive : types.isPrimitive type = true) : types.isInterface type = false := by
  by_contra interface
  rw [Bool.not_eq_false] at interface
  rw [isPrimitive, primitiveOf, if_pos (dims_of_isInterface interface)] at primitive
  rw [isInterface, Bool.and_eq_true] at interface
  cases found : types.find? type.base with
  | none => simp [found] at primitive
  | some decl =>
      have kind : decl.kind = .interfaceType := by
        simpa [found, TypeDecl.isInterface] using interface.2
      simp [found, TypeDecl.primitive?, kind] at primitive

/-- A receiver that is pushed as its static type, a plain reference that inherits from the
declaring type, fits the owner whichever that is. -/
theorem Received.fits_of_static {types : TypeTable} {target : Method} {superReceiver : Bool}
    {static type : ValueType} {invocation : Invocation}
    (received : Received types target superReceiver static static type invocation)
    (flat : static.dims = 0) (reference : types.isPrimitive static = false)
    (inherits : types.isAssignable static (.simple target.owner) = true) :
    types.isAssignable type (.simple invocation.owner) = true := by
  rw [received.fits]
  rintro ⟨renames, unfit⟩
  have named : invocation.owner = static.base := (received.renamed renames).1
  have different : static ≠ .simple target.owner :=
    fun same => renames.1 (named.trans (congrArg ValueType.base same))
  have declared : types.isPrimitive (.simple target.owner) = false := by
    by_contra primitive
    rw [Bool.not_eq_false] at primitive
    rcases TypeTable.isAssignable_iff.mp inherits with derives | ⟨-, interface, -⟩
    · rcases TypeTable.isDerivedFrom_iff.mp derives with same | ⟨-, declared, -⟩
      · exact different same
      · rw [primitive] at declared
        cases declared
    · rw [TypeTable.not_isInterface_of_isPrimitive primitive] at interface
      cases interface
  have kept : coercedType types static (.simple target.owner) = static := by
    rw [coercedType, if_neg (by simp [different, declared]),
      TypeTable.boxed_of_not_primitive reference, if_pos inherits]
  have same : static = .simple static.base := TypeTable.type_ext flat rfl
  rw [kept, ← same, TypeTable.isAssignable_refl] at unfit
  cases unfit

theorem loadReceiver_eq (target : Method) (implicitThis : Bool) (receiver : Operand) :
    loadReceiver target implicitThis (some receiver) = (do
      pushReceiver target implicitThis receiver
      coerceTo (.simple target.owner)) := by
  simp only [loadReceiver, pushReceiver, bind_assoc]
  congr 1
  funext context
  split <;> simp only [bind_assoc]

section Run

variable {context : Context} {before after : LoweringState} {target : Method}
  {implicitThis : Bool} {receiver : Expr}

/-- Pushing a receiver pushes one value. -/
theorem stack_of_pushReceiver
    (run : Runs (pushReceiver target implicitThis receiver.operand) context before () after) :
    ∃ pushed, after.stack = pushed :: before.stack := by
  simp only [pushReceiver, runs_bind, runs_read] at run
  obtain ⟨_, _, ⟨rfl, rfl⟩, run⟩ := run
  rw [runs_ite] at run
  split at run
  · simp only [runs_bind, runs_write, runs_push] at run
    obtain ⟨_, _, rfl, rfl⟩ := run
    exact ⟨_, rfl⟩
  · obtain ⟨_, pushed, -, loaded⟩ := (inductive_trivial context).steady receiver _ _ run
    exact ⟨pushed, loaded.stack⟩

/-- The receiver is converted to the declaring type, and checked where the owner is
narrowed. -/
theorem stack_of_convertReceiver {pushed : ValueType} {rest : TypeStack}
    (found : before.stack = pushed :: rest)
    (run : Runs (convertReceiver target receiver.operand) context before () after) :
    after.stack =
      (if (invocationOf context target (some receiver.operand)).narrowsReceiver then
          context.typeOf receiver
        else coercedType context.types pushed (.simple target.owner)) :: rest := by
  simp only [convertReceiver, runs_bind, runs_read] at run
  obtain ⟨_, converted, converts, _, _, ⟨rfl, rfl⟩, run⟩ := run
  obtain ⟨source, retyped⟩ := coerceTo_run converts
  obtain ⟨_, above, below⟩ := retyped.stack
  obtain ⟨rfl, rfl⟩ := List.cons.inj (found.symm.trans above)
  rw [runs_ite] at run
  split at run
  · rename_i narrows
    obtain ⟨_, top, narrowed⟩ := (narrowReceiver_run below run).stack
    obtain ⟨-, rfl⟩ := List.cons.inj (below.symm.trans top)
    rw [if_pos narrows]
    exact narrowed
  · rename_i keeps
    obtain ⟨-, rfl⟩ := (runs_pure _).mp run
    rw [if_neg keeps, below]

/-- Behind the arguments stands the invocation. -/
theorem assembler_of_finishInvocation {arguments : List Operand} {position : Position}
    {start : Nat} {result : Option ValueType}
    (run : Runs (finishInvocation context target (some receiver.operand) arguments position start)
      context before result after) : ∃ bound,
      Runs (bindArguments arguments target.params) context before () bound ∧
        after.assembler = bound.assembler.invoke
          (invocationOf context target (some receiver.operand)).opcode
          (invocationOf context target (some receiver.operand)).owner target.id
          target.params.length.toUInt8 := by
  simp only [finishInvocation, runs_bind, runs_accept, byteCount_ok, runs_write,
    runs_dropAbove] at run
  obtain ⟨_, bound, binds, _, _, ⟨⟨-, rfl⟩, rfl⟩, _, _, rfl, _, _, ⟨-, rfl⟩, run⟩ := run
  refine ⟨bound, binds, ?_⟩
  split at run
  · obtain ⟨-, rfl⟩ := (runs_pure _).mp run
    rfl
  · simp only [runs_bind, runs_push, runs_pure] at run
    obtain ⟨_, _, rfl, -, rfl⟩ := run
    rfl

/-- An invocation of an instance method pushes the receiver, makes it ready, and goes on with
the arguments. -/
theorem invokeTarget_steps {arguments : List Operand} {position : Position}
    {result : Option ValueType} (isInstance : target.isStatic = false)
    (run : Runs (invokeTarget target implicitThis (some receiver.operand) arguments position)
      context before result after) : ∃ loaded received,
      Runs (pushReceiver target implicitThis receiver.operand) context before () loaded ∧
      Runs (convertReceiver target receiver.operand) context loaded () received ∧
      Runs (finishInvocation context target (some receiver.operand) arguments position
        before.stack.length) context received result after := by
  rw [invokeTarget_eq, loadReceiver_eq] at run
  simp only [isInstance, Bool.not_false, if_true, runs_bind, runs_read, runs_depth] at run
  obtain ⟨_, _, ⟨rfl, rfl⟩, _, _, ⟨rfl, rfl⟩, _, converted, ⟨_, loaded, pushes, converts⟩,
    run⟩ := run
  refine ⟨loaded, ?_⟩
  simp only [convertReceiver, runs_bind, runs_read]
  split at run
  · rename_i narrows
    obtain ⟨_, received, narrowed, finishes⟩ := (runs_bind _ _).mp run
    refine ⟨received, pushes, ⟨_, converted, converts, _, _, ⟨rfl, rfl⟩, ?_⟩, finishes⟩
    rw [if_pos narrows]
    exact narrowed
  · rename_i keeps
    refine ⟨converted, pushes, ⟨_, converted, converts, _, _, ⟨rfl, rfl⟩, ?_⟩, run⟩
    rw [if_neg keeps]
    exact (runs_pure _).mpr ⟨rfl, rfl⟩

end Run

/-- Whatever stands as the receiver of an instance method, it is pushed and made ready, the
arguments are bound above it, and the method is invoked through an owner that goes with the
receiver. -/
theorem receiver_of_invokeTarget (context : Context) (target : Method) (implicitThis : Bool)
    (receiver : Expr) (arguments : List Expr) (position : Position)
    (before after : LoweringState) (result : Option ValueType)
    (isInstance : target.isStatic = false)
    (run : Runs (invokeTarget target implicitThis (some receiver.operand) (operandsOf arguments)
      position) context before result after) :
    let invocation := invocationOf context target (some receiver.operand)
    ∃ loaded received bound pushed type,
      Runs (pushReceiver target implicitThis receiver.operand) context before () loaded ∧
      loaded.stack = pushed :: before.stack ∧
      Runs (convertReceiver target receiver.operand) context loaded () received ∧
      received.stack = type :: before.stack ∧
      Runs (bindArguments (operandsOf arguments) target.params) context received () bound ∧
      after.assembler = bound.assembler.invoke invocation.opcode invocation.owner target.id
        target.params.length.toUInt8 ∧
      Received context.types target receiver.isSuper (context.typeOf receiver) pushed type
        invocation := by
  intro invocation
  obtain ⟨loaded, received, pushes, converts, finishes⟩ := invokeTarget_steps isInstance run
  obtain ⟨pushed, above⟩ := stack_of_pushReceiver pushes
  obtain ⟨bound, binds, invokes⟩ := assembler_of_finishInvocation finishes
  have chosen := Invocation.chosen_choose context.types target receiver.isSuper
    (context.typeOf receiver)
  exact ⟨loaded, received, bound, pushed, _, pushes, above, converts,
    stack_of_convertReceiver above converts, binds, invokes, chosen.received isInstance rfl⟩

/-- A hidden interface, a class that implements it, and a class that makes one of these. -/
def shapeTypes : TypeTable :=
  let area : Method := ⟨⟨402⟩, "area", ⟨401⟩, [], .int, { isPublic := true, isAbstract := true }⟩
  let shape : TypeDecl :=
    { name := "Shape", id := ⟨401⟩, kind := .interfaceType, modifiers := {}, methods := [area] }
  let circle : TypeDecl :=
    { name := "Circle", id := ⟨403⟩, kind := .classType, superclass := some .object,
      interfaces := [⟨401⟩] }
  let unitCircle : Method :=
    ⟨⟨405⟩, "unit", ⟨404⟩, [], .simple ⟨403⟩, { isPublic := true, isStatic := true }⟩
  let circles : TypeDecl :=
    { name := "Circles", id := ⟨404⟩, kind := .classType, superclass := some .object,
      methods := [unitCircle] }
  ((TypeTable.builtin.insert shape).insert circle).insert circles

/-- The answer of a static call is known to be a circle, but is found at run time and
converted to a shape only, while the method is invoked through the circle. -/
theorem receiver_of_invokeTarget_circle :
    let context : Context := { types := shapeTypes, frame := .method ⟨404⟩ }
    let target : Method :=
      ⟨⟨402⟩, "area", ⟨401⟩, [], .int, { isPublic := true, isAbstract := true }⟩
    let receiver : Expr := .call (.static ⟨⟨404⟩, "unit", [], some ⟨405⟩, .synthetic⟩)
    let before : LoweringState := { ledger := { classId := ⟨404⟩, keyOf := fun _ => 0 } }
    target.isStatic = false ∧ ∃ after,
      Runs (invokeTarget target false (some receiver.operand) (operandsOf []) .synthetic) context
        before (some .int) after ∧
      ∃ loaded received : LoweringState,
        Runs (pushReceiver target false receiver.operand) context before () loaded ∧
        loaded.stack = [.object] ∧
        Runs (convertReceiver target receiver.operand) context loaded () received ∧
        received.stack = [.simple ⟨401⟩] ∧
        invocationOf context target (some receiver.operand) = ⟨.invokeVirtual, ⟨403⟩, false⟩ ∧
        context.types.isAssignable (.simple ⟨401⟩) (.simple ⟨403⟩) = false := by
  intro context target receiver before
  obtain ⟨after, run⟩ := exists_runs_of_answer? (show answer?
    (invokeTarget target false (some receiver.operand) (operandsOf []) .synthetic) context
      before = some (some .int) by decide +kernel)
  obtain ⟨loaded, received, bound, pushed, type, pushes, above, converts, below, -, -, goes⟩ :=
    receiver_of_invokeTarget context target false receiver [] .synthetic before after (some .int)
      rfl run
  have named : invocationOf context target (some receiver.operand) =
      ⟨.invokeVirtual, ⟨403⟩, false⟩ := by decide +kernel
  obtain ⟨_, looked⟩ := exists_runs_of_answer? (show answer? (do
    pushReceiver target false receiver.operand
    track .top) context before = some .object by decide +kernel)
  obtain ⟨_, _, again, top⟩ := (runs_bind _ _).mp looked
  obtain ⟨-, rfl⟩ := runs_unique again pushes
  obtain ⟨-, rest, found⟩ := runs_top.mp top
  obtain ⟨rfl, -⟩ := List.cons.inj (above.symm.trans found)
  have converted : type = .simple ⟨401⟩ := by
    rw [goes.tracked, named]
    decide +kernel
  exact ⟨rfl, after, run, loaded, received, pushes, above, converts, by rw [below, converted],
    named, by decide +kernel⟩

end CallCode
