import CallCode.Proofs.DistinctMembers
import CallCode.Proofs.Lowering.SwitchLayout
import CallCode.Proofs.Machine.StackEffect

/-!
# The stack effect of lowered code

The code of every expression pushes one value, and it never takes what it has not
pushed, unless it invokes a static method like one of an instance.
-/

namespace CallCode

variable {types : TypeTable} {context : Context} {codes : OperandCodes}

/-! ## Members -/

/-- Under the identity of a method there is this method and no constructor. -/
structure TypeTable.Identifies (types : TypeTable) (method : Method) : Prop where
  found : types.method? method.id = some method
  alone : types.constructor? method.id = none

/-- Under the identity of a constructor there is a constructor and no method. -/
structure TypeTable.IdentifiesConstructor (types : TypeTable) (constructor : Constructor) :
    Prop where
  found : (types.constructor? constructor.id).isSome = true
  alone : types.method? constructor.id = none

namespace TypeTable.DistinctMembers

theorem identifies (distinct : types.DistinctMembers) {method : Method}
    (declared : types.Declares method) : types.Identifies method :=
  ⟨distinct.method?_eq declared, distinct.constructor?_eq_none declared⟩

theorem identifiesConstructor (distinct : types.DistinctMembers) {constructor : Constructor}
    (declared : types.DeclaresConstructor constructor) :
    types.IdentifiesConstructor constructor :=
  ⟨isSome_constructor? declared, distinct.method?_eq_none declared⟩

end TypeTable.DistinctMembers

theorem TypeTable.Identifies.of_method? (distinct : types.DistinctMembers) {id : Identity}
    {method : Method} (found : types.method? id = some method) : types.Identifies method :=
  distinct.identifies (types.method?_spec found).2

theorem TypeTable.declares_of_classLookup? {method : Method}
    (found : types.classLookup? = some method) : types.Declares method := by
  simp only [classLookup?, Option.bind_eq_bind, Option.bind_eq_some_iff] at found
  obtain ⟨decl, lookup, chosen⟩ := found
  refine ⟨decl, List.mem_of_find?_eq_some lookup, ?_⟩
  have named := List.mem_of_find?_eq_some chosen
  simp only [TypeDecl.methodsNamed, List.mem_filter] at named
  exact named.1

/-- A request is only bound to a method that its identity leads back to. -/
theorem Request.Binds.identifies {request : Request} {options : Options} {call : BoundCall}
    (distinct : types.DistinctMembers) (binds : request.Binds types options call) :
    types.Identifies call.target := by
  cases binds with
  | lookup _ found => exact distinct.identifies (TypeTable.declares_of_classLookup? found)
  | proved _ known => exact .of_method? distinct (Request.method?_of_knownMethod known)
  | resolved _ _ known => exact .of_method? distinct (Request.method?_of_knownMethod known)

/-! ## Coercions and argument lists -/

theorem effect_boxing (source : ValueType) : Effect types (boxingCode types source) 1 0 := by
  unfold boxingCode
  split
  · exact .single rfl rfl rfl rfl
  · exact Effect.nil.mono (Nat.zero_le _)

theorem effect_coercion (source target : ValueType) :
    Effect types (coercionCode types source target) 1 0 := by
  unfold coercionCode
  split
  · exact Effect.nil.mono (Nat.zero_le _)
  · split
    · have unbox : Effect types [.typed .unbox target.base] 1 0 := .single rfl rfl rfl rfl
      exact (effect_boxing source).append unbox (by omega)
    · split
      · exact (effect_boxing source).append Effect.nil (by omega)
      · have cast : Effect types [.typed .checkCast target.signature] 1 0 :=
          .single rfl rfl rfl rfl
        exact (effect_boxing source).append cast (by omega)

/-- The code of operands pushes one value. -/
def Balanced (types : TypeTable) : OperandCodes := fun _ code _ => Effect types code 0 1

theorem Operand.CodesBoxed.effect {operand : Operand} {code : List Operation}
    {type : ValueType} (boxed : operand.CodesBoxed context (Balanced context.types) code type) :
    Effect context.types code 0 1 := by
  obtain ⟨plain, source, known, rfl, rfl⟩ := boxed
  exact Effect.append known (effect_boxing source) (by omega)

theorem Operand.CodesAs.effect {operand : Operand} {target type : ValueType}
    {code : List Operation}
    (coerced : operand.CodesAs context (Balanced context.types) target code type) :
    Effect context.types code 0 1 := by
  obtain ⟨plain, source, known, rfl, rfl⟩ := coerced
  exact Effect.append known (effect_coercion source target) (by omega)

theorem CodesEach.effect {Thing : Type} {codes : Thing → List Operation → ValueType → Prop}
    {things : List Thing} {code : List Operation} {pushed : List ValueType}
    (each : CodesEach codes things code pushed)
    (single : ∀ thing code type, codes thing code type → Effect types code 0 1) :
    Effect types code 0 pushed.length := by
  induction each with
  | nil => exact .nil
  | cons known _ ih =>
      rw [List.length_cons]
      exact ((single _ _ _ known).append ih (by omega)).gains (by omega)

theorem SurplusCodes.effect {surplus : List Operand} {element : ValueType}
    {code : List Operation}
    (packed : SurplusCodes context (Balanced context.types) surplus element code) :
    Effect context.types code 0 1 := by
  cases packed with
  | pack few each =>
      have loads := each.effect fun _ _ _ => Operand.CodesAs.effect
      rw [each.length_eq] at loads
      have count : surplus.length.toUInt16.toNat = surplus.length :=
        UInt16.toNat_ofNat_of_lt' few
      have packs : Effect context.types [.arrayInit element.signature surplus.length.toUInt16]
          surplus.length (1 - surplus.length) := .single rfl rfl count rfl
      exact (loads.append packs (by omega)).gains (by omega)

theorem BindingCodes.effect {arguments : List Operand} {params : List Param}
    {code : List Operation} {pushed : List ValueType}
    (binding : BindingCodes context (Balanced context.types) arguments params code pushed) :
    Effect context.types code 0 params.length := by
  rw [← binding.length_eq]
  cases binding with
  | fixed _ each => exact each.effect fun _ _ _ => Operand.CodesAs.effect
  | variadic _ _ each surplus =>
      have fixed := each.effect fun _ _ _ => Operand.CodesAs.effect
      rw [List.length_append, List.length_singleton]
      exact (fixed.append surplus.effect (by omega)).gains (by omega)

theorem effect_packing {arguments : List Operand} (few : arguments.length < 65536)
    (small : containsSpread (sources arguments) →
      arguments.length ≤ maxSpreadArguments) :
    Effect types [packing arguments] arguments.length (1 - arguments.length) := by
  unfold packing
  split
  · rename_i spread
    have bound : arguments.length ≤ 32 := small spread
    have byte : arguments.length < 256 := by omega
    exact .single rfl rfl (UInt8.toNat_ofNat_of_lt' byte) rfl
  · exact .single rfl rfl (UInt16.toNat_ofNat_of_lt' few) rfl

theorem VectorCodes.effect {arguments : List Operand} {code : List Operation}
    (vector : VectorCodes context (Balanced context.types) arguments code) :
    Effect context.types code 0 1 := by
  cases vector with
  | pack few small each =>
      have loads := each.effect fun _ _ _ => Operand.CodesBoxed.effect
      rw [each.length_eq] at loads
      exact (loads.append (effect_packing few small) (by omega)).gains (by omega)

/-! ## Invocations -/

theorem ReceiverCodes.effect {target : Method} {implicitThis : Bool}
    {receiver : Option Operand} {code : List Operation} {type : ValueType}
    (received : ReceiverCodes context (Balanced context.types) target implicitThis receiver
      code type) : Effect context.types code 0 1 := by
  cases received with
  | unwritten => exact .single rfl rfl rfl rfl
  | outer => exact .single rfl rfl rfl rfl
  | written known => exact known.effect

theorem effect_narrowing (top receiverType : ValueType) :
    Effect types (narrowingCode top receiverType) 1 0 := by
  unfold narrowingCode
  split
  · exact Effect.nil.mono (Nat.zero_le _)
  · exact .single rfl rfl rfl rfl

/-- The number of values that an invocation of a method leaves. -/
def Method.leaves (method : Method) : Nat := if method.returnType.isVoid then 0 else 1

theorem TypeTable.Identifies.pushes {method : Method} (known : types.Identifies method)
    (opcode : Opcode) (owner : Identity) (count : UInt8) :
    (Operation.invoke opcode owner method.id count).pushes types = method.leaves := by
  simp only [Operation.pushes, returnsValue, known.found, known.alone, Method.leaves,
    Option.isNone_none, Option.any_some, Bool.true_and]
  cases method.returnType.isVoid with
  | true => rfl
  | false => rfl

theorem Invocation.choose_ne_invokeStatic {target : Method} (superReceiver : Bool)
    (receiver : ValueType) (instanced : target.isStatic = false) :
    (choose types target superReceiver receiver).opcode ≠ .invokeStatic := by
  have base : baseOpcode types target superReceiver ≠ .invokeStatic := by
    simp only [baseOpcode, instanced, Bool.false_eq_true, if_false]
    split
    · decide
    · split <;> decide
  simp only [choose]
  split
  · split <;> exact base
  · split
    · exact base
    · split
      · exact base
      · split
        · split
          · exact fun same => by cases same
          · exact base
        · exact base

theorem effect_invoking_static {target : Method} {opcode : Opcode} {owner : Identity}
    (known : types.Identifies target) (few : target.params.length < 256)
    (static : target.isStatic = true) :
    Effect types [.invoke opcode owner target.id target.params.length.toUInt8]
      target.params.length (target.leaves - target.params.length) := by
  have count : target.params.length.toUInt8.toNat = target.params.length :=
    UInt8.toNat_ofNat_of_lt' few
  have pushes := known.pushes opcode owner target.params.length.toUInt8
  by_cases proper : opcode = .invokeStatic
  · refine .single rfl ?_ ?_ ?_
    · simp [Operation.lacksReceiver, proper]
    · simp [Operation.pops, proper, count]
    · rw [pushes]
  · have lacks : (Operation.invoke opcode owner target.id
        target.params.length.toUInt8).lacksReceiver types = true := by
      simp [Operation.lacksReceiver, proper, known.found, static]
    refine ⟨by simp [Operation.falls], ?_, ?_⟩
    · simp only [netChange_cons, netChange_nil, Operation.change, pushes, missingReceivers,
        List.countP_cons, List.countP_nil, lacks, if_true, Operation.pops, proper, if_false,
        count]
      omega
    · intro none
      simp [missingReceivers, lacks] at none

theorem effect_invoking_instance {target : Method} {opcode : Opcode} {owner : Identity}
    (known : types.Identifies target) (few : target.params.length < 256)
    (instanced : target.isStatic = false) (proper : opcode ≠ .invokeStatic) :
    Effect types [.invoke opcode owner target.id target.params.length.toUInt8]
      (target.params.length + 1) (target.leaves - target.params.length - 1) := by
  have count : target.params.length.toUInt8.toNat = target.params.length :=
    UInt8.toNat_ofNat_of_lt' few
  refine .single rfl ?_ ?_ ?_
  · simp [Operation.lacksReceiver, known.found, instanced]
  · simp [Operation.pops, proper, count]
  · rw [known.pushes]
    omega

theorem InvocationCodes.effect {target : Method} {implicitThis : Bool}
    {receiver : Option Operand} {arguments : List Operand} {code : List Operation}
    (known : context.types.Identifies target)
    (invoked : InvocationCodes context (Balanced context.types) target implicitThis receiver
      arguments code) : Effect context.types code 0 target.leaves := by
  cases invoked with
  | static static few binding =>
      exact (binding.effect.append (effect_invoking_static known few static) (by omega)).gains
        (by omega)
  | @«instance» receiving type narrowing loads pushed instanced few received narrowed
      binding =>
      have narrows : Effect context.types narrowing 1 0 := by
        rw [narrowed]
        split
        · exact effect_narrowing _ _
        · exact Effect.nil.mono (Nat.zero_le _)
      have proper : (invocationOf context target receiver).opcode ≠ .invokeStatic :=
        Invocation.choose_ne_invokeStatic _ _ instanced
      have loaded := (received.effect.append narrows (by omega)).append binding.effect (by omega)
      exact (loaded.append (effect_invoking_instance known few instanced proper) (by omega)).gains
        (by omega)

theorem effect_materializing (target : Method) :
    Effect types (materializingCode target) 0 (1 - target.leaves) := by
  unfold materializingCode Method.leaves
  split
  · exact .single rfl rfl rfl rfl
  · exact .nil

/-! ## Dispatch -/

theorem SiteCodes.effect {receiver : Operand} {arguments : List Operand} {flags : CallFlags}
    {code : List Operation}
    (site : SiteCodes context (Balanced context.types) receiver arguments flags code) :
    Effect context.types code 0 1 := by
  cases site with
  | packed slot _ received vector =>
      have operands := received.effect.append vector.effect (by omega)
      have calls : Effect context.types
          [.callSite slot 1 { flags with spread := true }.bits] 2 (-1) := .single rfl rfl rfl rfl
      exact (operands.append calls (by omega)).gains (by omega)
  | plain slot _ few received each =>
      have loads := each.effect fun _ _ _ => Operand.CodesBoxed.effect
      rw [each.length_eq] at loads
      have operands := received.effect.append loads (by omega)
      have count : arguments.length.toUInt8.toNat = arguments.length :=
        UInt8.toNat_ofNat_of_lt' few
      have calls : Effect context.types
          [.callSite slot arguments.length.toUInt8 { flags with spread := false }.bits]
          (arguments.length + 1) (-arguments.length) := by
        refine .single rfl rfl ?_ ?_
        · simp [Operation.pops, count]
        · simp only [Operation.pushes]
          omega
      exact (operands.append calls (by omega)).gains (by omega)

theorem effect_sender (routine : Routine) (sender : Identity) :
    Effect types [senderCode routine sender] 0 1 := by
  unfold senderCode
  split <;> exact .single rfl rfl rfl rfl

theorem SelectorCodes.effect {selector : Selector Operand} {code : List Operation}
    (selected : SelectorCodes context (Balanced context.types) selector code) :
    Effect context.types code 0 1 := by
  cases selected with
  | named => exact .single rfl rfl rfl rfl
  | computed known => exact known.effect

theorem effect_wrapping (source : Expr) : Effect types (wrappingCode source) 1 0 := by
  unfold wrappingCode
  split
  · rename_i target _
    have loads : Effect types [.typed .loadClass target.signature] 0 1 := .single rfl rfl rfl rfl
    have wraps : Effect types [.callRoutine Routine.wrap.number 2 0] 2 (-1) :=
      .single rfl rfl rfl rfl
    exact (loads.mono (by omega)).append wraps (by omega)
  · exact Effect.nil.mono (Nat.zero_le _)

theorem Operand.CodesDispatched.effect {operand : Operand} {code : List Operation}
    {type : ValueType}
    (dispatched : operand.CodesDispatched context (Balanced context.types) code type) :
    Effect context.types code 0 1 := by
  obtain ⟨plain, boxed, known, rfl⟩ := dispatched
  exact known.effect.append (effect_wrapping operand.source) (by omega)

theorem fixedCount_of_not_packs {request : Request}
    (unpacked : request.packs context = false) :
    request.arguments.length < 128 ∧
      fixedCount request.arguments = some request.arguments.length.toUInt8 := by
  simp only [Request.packs, Bool.or_eq_false_iff, Option.isNone_eq_false_iff] at unpacked
  obtain ⟨counted, -⟩ := unpacked
  unfold fixedCount at counted ⊢
  split at counted
  · cases counted
  · split at counted
    · rename_i plain few
      rw [if_neg plain, if_pos few]
      exact ⟨few, rfl⟩
    · cases counted

/-- A dispatching routine takes the sender, the receiver and the name besides the
arguments. -/
theorem RoutineCodes.effect {request : Request} {sender : Identity} {code : List Operation}
    (dispatches : request.routine.number < 5)
    (called : RoutineCodes context (Balanced context.types) request sender code) :
    Effect context.types code 0 1 := by
  cases called with
  | @call receiving _ selecting loads received selected argued =>
      have target := (effect_sender request.routine sender).append received.effect (by omega)
      have ready := target.append selected.effect (by omega)
      have spread : (CallFlags.ofBits (request.routineFlags context).bits).spread =
          request.packs context := by
        rw [CallFlags.ofBits_bits]
        rfl
      cases argued with
      | packed packs vector =>
          have calls : Effect context.types [request.routineOperation context] 4 (-3) := by
            refine .single rfl rfl ?_ ?_
            · simp [Request.routineOperation, Operation.pops, dispatches, spread, packs]
            · simp [Request.routineOperation, Operation.pushes]
          exact ((ready.append vector.effect (by omega)).append calls (by omega)).gains (by omega)
      | fixed unpacked each =>
          have arguments := each.effect fun _ _ _ => Operand.CodesDispatched.effect
          rw [each.length_eq] at arguments
          obtain ⟨few, counted⟩ := fixedCount_of_not_packs unpacked
          have byte : request.arguments.length < 256 := by omega
          have count : request.arguments.length.toUInt8.toNat = request.arguments.length :=
            UInt8.toNat_ofNat_of_lt' byte
          have calls : Effect context.types [request.routineOperation context]
              (3 + request.arguments.length) (-2 - request.arguments.length) := by
            refine .single rfl rfl ?_ ?_
            · simp [Request.routineOperation, Operation.pops, dispatches, spread, unpacked,
                counted, count]
            · simp only [Request.routineOperation, Operation.pushes]
              omega
          exact ((ready.append arguments (by omega)).append calls (by omega)).gains (by omega)

/-! ## Method calls -/

theorem RequestCodes.effect {sender : Identity} {request : Request} {tier : Tier}
    {code : List Operation} {type : ValueType} (distinct : context.types.DistinctMembers)
    (dispatches : request.routine.number < 5)
    (made : RequestCodes context (Balanced context.types) sender request tier code type) :
    Effect context.types code 0 1 := by
  cases made with
  | @direct call _ bound invoked =>
      have known := (Request.binds_of_boundCall bound).identifies distinct
      exact ((invoked.effect known).append (effect_materializing call.target) (by omega)).gains
        (by omega)
  | cached _ _ site => exact site.effect
  | uncached _ _ routine => exact routine.effect dispatches

theorem effect_field (classId : Identity) (field : Field) :
    Effect types (fieldCode classId field) 0 1 := by
  unfold fieldCode
  split
  · exact .single rfl rfl rfl rfl
  · have instanced : Effect types [.plain .getThis] 0 1 := .single rfl rfl rfl rfl
    have reads : Effect types [.getField field.name.toUTF8] 1 0 := .single rfl rfl rfl rfl
    exact instanced.append reads (by omega)

theorem ClosureCodes.effect {field : Field} {arguments : List Operand}
    {code : List Operation}
    (called : ClosureCodes context (Balanced context.types) field arguments code) :
    Effect context.types code 0 1 := by
  cases called with
  | call vector =>
      have boxes : Effect context.types (boxingCode context.types field.type) 1 0 :=
        effect_boxing field.type
      have closure := (effect_field context.frame.classId field).append boxes (by omega)
      have calls : Effect context.types [.callRoutine Routine.invokeClosure.number 2 0] 2
          (-1) := .single rfl rfl rfl rfl
      exact ((closure.append vector.effect (by omega)).append calls (by omega)).gains (by omega)

theorem MethodCall.dispatches (call : MethodCall Operand) :
    (call.request context).normalize.routine.number < 5 := by
  have plain : (call.routine context.frame).number < 5 := by
    unfold MethodCall.routine
    split
    · decide
    · split
      · decide
      · split <;> decide
  rw [Request.normalize_routine]
  unfold MethodCall.request
  split <;> exact plain

theorem StaticCall.dispatches {call : StaticCall Operand} :
    call.request.normalize.routine.number < 5 := by
  rw [Request.normalize_routine]
  exact (by decide : Routine.invokeStatic.number < 5)

theorem MethodCodes.effect {call : MethodCall Operand} {tier : Tier} {code : List Operation}
    {type : ValueType} (distinct : context.types.DistinctMembers)
    (made : MethodCodes context (Balanced context.types) call tier code type) :
    Effect context.types code 0 1 := by
  cases made with
  | closure _ closure => exact closure.effect
  | request _ request => exact request.effect distinct call.dispatches

/-! ## Construction -/

theorem effect_running {classId : Identity} {constructor : Constructor}
    (known : types.IdentifiesConstructor constructor)
    (few : constructor.params.length < 256) :
    Effect types [runningOperation classId constructor] (constructor.params.length + 1)
      (-constructor.params.length - 1) := by
  have count : constructor.params.length.toUInt8.toNat = constructor.params.length :=
    UInt8.toNat_ofNat_of_lt' few
  refine .single rfl ?_ ?_ ?_
  · simp [runningOperation, Operation.lacksReceiver, known.alone]
  · simp [runningOperation, Operation.pops, count]
  · have silent : types.returnsValue constructor.id = false := by
      obtain ⟨found, lookup⟩ := Option.isSome_iff_exists.mp known.found
      simp [TypeTable.returnsValue, lookup]
    simp only [runningOperation, Operation.pushes, silent, Bool.false_eq_true, if_false]
    omega

theorem effect_construction {classId : Identity} {constructor : Constructor}
    {loads : List Operation} (known : types.IdentifiesConstructor constructor)
    (few : constructor.params.length < 256)
    (loading : Effect types loads 0 constructor.params.length) :
    Effect types (constructionCode classId constructor loads) 0 1 := by
  have allocates : Effect types [.typed .newInstance classId] 0 1 := .single rfl rfl rfl rfl
  have doubles : Effect types [.plain .dup] 1 1 := .single rfl rfl rfl rfl
  have loaded := (allocates.append doubles (by omega)).append loading (by omega)
  exact (loaded.append (effect_running known few) (by omega)).gains (by omega)

theorem declares_of_anonymousConstructor {call : NewCall Operand} {constructor : Constructor}
    (found : call.anonymousConstructor types = .ok constructor) :
    types.DeclaresConstructor constructor := by
  unfold NewCall.anonymousConstructor at found
  split at found
  · cases found
  · rename_i decl lookup
    split at found
    · cases found
    · rename_i first rest listed
      split at found
      · cases found
        refine ⟨decl, List.mem_of_find?_eq_some lookup, ?_⟩
        rw [listed]
        exact List.mem_cons_self
      · cases found

theorem declares_of_fastConstructor {call : NewCall Operand} {constructor : Constructor}
    (found : call.fastConstructor context = .ok (some constructor)) :
    context.types.DeclaresConstructor constructor := by
  unfold NewCall.fastConstructor at found
  split at found
  · split at found
    · cases found
    · split at found
      · rename_i lookup
        cases found
        exact (TypeTable.constructor?_spec lookup).2
      · cases found
  · cases found

theorem NewCodes.effect {call : NewCall Operand} {way : Construction} {code : List Operation}
    {type : ValueType} (distinct : context.types.DistinctMembers)
    (made : NewCodes context (Balanced context.types) call way code type) :
    Effect context.types code 0 1 := by
  cases made with
  | anonymous _ found few each =>
      have known := distinct.identifiesConstructor (declares_of_anonymousConstructor found)
      have loading := each.effect fun _ _ _ => Operand.CodesAs.effect
      rw [each.length_eq, List.length_zip, params_of_anonymousConstructor found,
        Nat.min_self, ← params_of_anonymousConstructor found] at loading
      exact effect_construction known few loading
  | direct _ found few binding =>
      have known := distinct.identifiesConstructor (declares_of_fastConstructor found)
      exact effect_construction known few binding.effect
  | site _ _ site => exact site.effect

/-! ## Expressions -/

theorem effect_ofInt (value : Int64) : Effect types [.ofInt value] 0 1 := by
  unfold Operation.ofInt
  split
  · exact .single rfl rfl rfl rfl
  · split <;> exact .single rfl rfl rfl rfl

/-- The code of every expression pushes one value. -/
theorem inductive_balanced (distinct : context.types.DistinctMembers) :
    (Balanced context.types).Inductive context where
  null := .single rfl rfl rfl rfl
  bool := by
    intro value
    cases value with
    | true => exact .single rfl rfl rfl rfl
    | false => exact .single rfl rfl rfl rfl
  int := effect_ofInt
  string := fun _ => .single rfl rfl rfl rfl
  read := fun _ => .single rfl rfl rfl rfl
  thisClass := fun _ => .single rfl rfl rfl rfl
  thisInstance := fun _ => .single rfl rfl rfl rfl
  super := .single rfl rfl rfl rfl
  classLiteral := fun _ => .single rfl rfl rfl rfl
  cell := fun _ _ => .single rfl rfl rfl rfl
  captured := fun known => known
  cast := by
    intro target operand code source known
    exact Effect.append known (effect_coercion source target) (by omega)
  spread := fun known => known
  method := fun made => made.effect distinct
  static := fun made => made.effect distinct StaticCall.dispatches
  create := fun made => made.effect distinct

/-! ## Constructor chaining -/

theorem Operand.CodesChained.effect {operand : Operand} {target type : ValueType}
    {code : List Operation}
    (chained : operand.CodesChained context (Balanced context.types) target code type) :
    Effect context.types code 0 1 := by
  obtain ⟨plain, source, known, rfl⟩ := chained
  split
  · exact Effect.append known Effect.nil (by omega)
  · exact Effect.append known (effect_coercion source target) (by omega)

theorem DirectChainCodes.effect {classId : Identity} {constructor : Constructor}
    {arguments : List Operand} {code : List Operation}
    (known : context.types.IdentifiesConstructor constructor)
    (same : constructor.params.length = arguments.length)
    (chained : DirectChainCodes context (Balanced context.types) classId constructor
      arguments code) : Effect context.types code 0 0 := by
  cases chained with
  | run few each =>
      have instanced : Effect context.types [.plain .getThis] 0 1 := .single rfl rfl rfl rfl
      have loading := each.effect fun _ _ _ => Operand.CodesChained.effect
      rw [each.length_eq, List.length_zip, ← same, Nat.min_self] at loading
      have entered := instanced.append loading (by omega)
      exact (entered.append (effect_running known few) (by omega)).gains (by omega)

theorem effect_selection (classId : Identity) (arguments : List Operand) (candidates : Nat) :
    Effect types (selectionCode classId arguments candidates) 1 1 := by
  have doubles : Effect types [.plain .dup] 1 1 := .single rfl rfl rfl rfl
  have loads : Effect types [.typed .loadClass classId] 0 1 := .single rfl rfl rfl rfl
  have selects : Effect types [.callRoutine Routine.selectConstructor.number 4 0] 4 (-3) :=
    .single rfl rfl rfl rfl
  have told := (doubles.append (effect_ofInt (toldCount arguments)) (by omega)).append loads
    (by omega)
  have ready := told.append (effect_ofInt (.ofNat candidates)) (by omega)
  exact (ready.append selects (by omega)).gains (by omega)

/-- In front of a switch stand the vector, the instance and the key. -/
theorem effect_entrance {classId : Identity} {table : CandidateTable}
    {arguments : List Operand} {packing : List Operation}
    (vector : VectorCodes context (Balanced context.types) arguments packing) :
    Effect context.types (entranceCode context classId table arguments packing) 0 3 := by
  have selected := vector.effect.append
    (effect_selection classId arguments table.candidates.length) (by omega)
  have instanced : Effect context.types
      [instanceOperation classId context.frame.isConstructor] 0 1 := by
    unfold instanceOperation
    split <;> exact .single rfl rfl rfl rfl
  have swaps : Effect context.types [.plain .swap] 2 0 := .single rfl rfl rfl rfl
  have loaded := selected.append instanced (by omega)
  have swapped := loaded.append swaps (by omega)
  rw [List.append_assoc] at swapped
  exact swapped.gains (by omega)

/-! ## Arms -/

theorem effect_arrangement (inConstructor : Bool) :
    Effect types (arrangementCode inConstructor) 2 (if inConstructor then 1 else 2) := by
  cases inConstructor with
  | true =>
      have swaps : Effect types [.plain .swap] 2 0 := .single rfl rfl rfl rfl
      have copies : Effect types [.plain .dupX1] 2 1 := .single rfl rfl rfl rfl
      exact swaps.append copies (by omega)
  | false =>
      have copies : Effect types [.plain .dupX1] 2 1 := .single rfl rfl rfl rfl
      have doubles : Effect types [.plain .dup2X1] 3 2 := .single rfl rfl rfl rfl
      have pops : Effect types [.plain .pop] 1 (-1) := .single rfl rfl rfl rfl
      rw [if_neg Bool.false_ne_true]
      exact ((copies.append doubles (by omega)).append pops (by omega)).gains (by omega)

theorem effect_element (position : Nat) (type : ValueType) :
    Effect types (elementCode types position type) 1 1 := by
  have copies : Effect types [.plain .dup] 1 1 := .single rfl rfl rfl rfl
  have loads : Effect types [.plain .arrayLoad] 2 (-1) := .single rfl rfl rfl rfl
  have swaps : Effect types [.plain .swap] 2 0 := .single rfl rfl rfl rfl
  have loaded := (copies.append (effect_ofInt (.ofNat position)) (by omega)).append loads (by omega)
  have coerced := loaded.append (effect_coercion .object type) (by omega)
  exact (coerced.append swaps (by omega)).gains (by omega)

theorem effect_remainder (position : Nat) (type : ValueType) :
    Effect types (remainderCode position type) 1 0 := by
  have loads : Effect types [.typed .loadClass type.signature] 0 1 := .single rfl rfl rfl rfl
  have slices : Effect types [.callRoutine Routine.sliceArguments.number 3 0] 3 (-2) :=
    .single rfl rfl rfl rfl
  have casts : Effect types [.typed .checkCast type.signature] 1 0 := .single rfl rfl rfl rfl
  have ready := (effect_ofInt (.ofNat position)).append loads (by omega)
  have sliced : Effect types _ 1 _ := (ready.mono (by omega)).append slices (by omega)
  exact (sliced.append casts (by omega)).gains (by omega)

/-- The vector makes way for one value for each parameter. -/
theorem effect_unpacking (position : Nat) (params : List Param) :
    Effect types (unpackingCode types position params) 1 (params.length - 1) := by
  have drops : Effect types [.plain .pop] 1 (-1) := .single rfl rfl rfl rfl
  fun_induction unpackingCode types position params with
  | case1 => exact drops
  | case2 position param => exact effect_remainder position param.type
  | case3 position param =>
      rw [List.length_singleton]
      exact ((effect_element position param.type).append drops (by omega)).gains (by omega)
  | case4 position param params _ ih =>
      rw [List.length_cons]
      exact ((effect_element position param.type).append ih (by omega)).gains (by omega)

/-- In a constructor an arm takes the instance, elsewhere what it takes is replaced. -/
theorem effect_arm {classId : Identity} {candidate : Candidate}
    (known : context.types.IdentifiesConstructor candidate.constructor)
    (few : candidate.constructor.params.length < 256) :
    Effect context.types (armCode context classId candidate) 2
      (if context.frame.isConstructor then -1 else 0) := by
  have arranges : Effect context.types (arrangementCode context.frame.isConstructor) 2
      (if context.frame.isConstructor then 1 else 2) := effect_arrangement _
  have unpacks : Effect context.types
      (unpackingCode context.types 0 candidate.constructor.params) 1 _ :=
    effect_unpacking 0 candidate.constructor.params
  unfold armCode
  split at arranges
  · rename_i inside
    rw [if_pos inside]
    exact ((arranges.append unpacks (by omega)).append (effect_running known few) (by omega)).gains
      (by omega)
  · rename_i outside
    rw [if_neg outside]
    exact ((arranges.append unpacks (by omega)).append (effect_running known few) (by omega)).gains
      (by omega)

theorem effect_dropping (inConstructor : Bool) :
    Effect types (droppingCode inConstructor) (if inConstructor then 1 else 2) (-1) := by
  have pops : Effect types [.plain .pop] 1 (-1) := .single rfl rfl rfl rfl
  cases inConstructor with
  | true => exact pops
  | false =>
      have swaps : Effect types [.plain .swap] 2 0 := .single rfl rfl rfl rfl
      exact swaps.append pops (by omega)

/-! ## Receivers of a switch -/

theorem missingReceivers_coercion (source target : ValueType) :
    missingReceivers types (coercionCode types source target) = 0 := by
  unfold coercionCode boxingCode
  split
  · rfl
  · split <;> split <;> first | rfl | (split <;> rfl)

theorem missingReceivers_ofInt (value : Int64) :
    missingReceivers types [.ofInt value] = 0 := by
  unfold Operation.ofInt
  split
  · rfl
  · split <;> rfl

theorem missingReceivers_element (position : Nat) (type : ValueType) :
    missingReceivers types (elementCode types position type) = 0 := by
  have loads : missingReceivers types
      ([.plain .dup] ++ [.ofInt (.ofNat position)] ++ [.plain .arrayLoad]) = 0 := by
    rw [missingReceivers_append, missingReceivers_append, missingReceivers_ofInt]
    rfl
  rw [elementCode, missingReceivers_append, missingReceivers_append,
    missingReceivers_coercion]
  exact loads

theorem missingReceivers_remainder (position : Nat) (type : ValueType) :
    missingReceivers types (remainderCode position type) = 0 := by
  have split : remainderCode position type =
      [.ofInt (.ofNat position)] ++ [.typed .loadClass type.signature,
        .callRoutine Routine.sliceArguments.number 3 0, .typed .checkCast type.signature] :=
    rfl
  rw [split, missingReceivers_append, missingReceivers_ofInt]
  rfl

theorem missingReceivers_unpacking (position : Nat) (params : List Param) :
    missingReceivers types (unpackingCode types position params) = 0 := by
  fun_induction unpackingCode types position params with
  | case1 => rfl
  | case2 position param => exact missingReceivers_remainder position param.type
  | case3 position param =>
      rw [missingReceivers_append, missingReceivers_element]
      rfl
  | case4 position param params _ ih =>
      rw [missingReceivers_append, missingReceivers_element, ih]

/-- An arm misses no receiver, as no method has the identity of its constructor. -/
theorem missingReceivers_arm {classId : Identity} {candidate : Candidate}
    (known : context.types.IdentifiesConstructor candidate.constructor) :
    missingReceivers context.types (armCode context classId candidate) = 0 := by
  have arranges : missingReceivers context.types
      (arrangementCode context.frame.isConstructor) = 0 := by
    cases context.frame.isConstructor with
    | true => rfl
    | false => rfl
  rw [armCode, missingReceivers_append, missingReceivers_append, arranges,
    missingReceivers_unpacking]
  simp [missingReceivers, runningOperation, Operation.lacksReceiver, known.alone]

theorem missingReceivers_dropping (inConstructor : Bool) :
    missingReceivers types (droppingCode inConstructor) = 0 := by
  cases inConstructor with
  | true => rfl
  | false => rfl

end CallCode
