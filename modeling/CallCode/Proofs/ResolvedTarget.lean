import CallCode.Proofs.DistinctMembers
import CallCode.Proofs.Lowering.Expression
import CallCode.Proofs.Machine.Walking

/-!
# Resolved targets

A call that carries a resolved target is bound to it, unless its name stands for a field
with a closure, its receiver for a functional interface, or the call for a class lookup.
These three are recognized before the target is consulted.
-/

namespace CallCode

open Lower

/-- The member that an instruction invokes. -/
def Instruction.invoked? (instruction : Instruction) (pool : ConstantPool) :
    Option Identity :=
  match instruction.operands with
  | .member index _ => (pool.member? index).map Prod.snd
  | _ => none

/-- The member that the code between two states invokes last. -/
def LoweringState.lastInvoked? (before after : LoweringState) : Option Identity := do
  let added := after.assembler.listing.assemble.instructionsFrom before.assembler.listing.size
  let last ← (added.filter (·.opcode.isInvoke)).getLast?
  last.invoked? after.assembler.pool

namespace MethodCall

/-- The method that a class lookup by name stands for. -/
def lookupMethod? (call : MethodCall Operand) (context : Context) : Option Method :=
  if (call.request context).isClassLookup then context.types.classLookup? else none

/-- The member that a call with a resolved target reaches if it calls no closure. -/
def reachedMember (call : MethodCall Operand) (context : Context) (target : Identity) :
    Identity :=
  match call.lookupMethod? context, call.functionalMethod? context with
  | some method, _ => method.id
  | none, some method => method.id
  | none, none => target

end MethodCall

variable {context : Context} {before after : LoweringState}

/-! ## The last invocation -/

theorem Instruction.of_invoke {instruction : Instruction} {pool : ConstantPool}
    {opcode : Opcode} {owner member : Identity} {count : UInt8}
    (known : instruction.operation? pool = some (.invoke opcode owner member count)) :
    instruction.opcode.isInvoke = true ∧ instruction.invoked? pool = some member := by
  obtain ⟨actual, operands⟩ := instruction
  cases operands with
  | member index arguments =>
      simp only [operation?, Option.ite_none_right_eq_some, Option.map_eq_some_iff] at known
      obtain ⟨invokes, ⟨_, found⟩, read, same⟩ := known
      cases same
      exact ⟨invokes, by simp [invoked?, read]⟩
  | _ =>
      simp only [operation?] at known
      split at known <;> simp [Option.bind_eq_some_iff] at known

/-- What stands for a missing result invokes nothing. -/
theorem filter_isInvoke_materializing {target : Method} {placed : List Placed}
    (spells : Spells placed (materializingCode target)) :
    (placed.map (·.instruction)).filter (·.opcode.isInvoke) = [] := by
  unfold materializingCode at spells
  split at spells
  · rcases spells with _ | ⟨pushes, _ | _⟩
    have same : _ = Instruction.mk .pushNull .none := pushes
    simp [same, Opcode.isInvoke]
  · cases spells
    rfl

theorem lastInvoked?_of_pushes {code : List Operation} {opcode : Opcode}
    {owner : Identity} {count : UInt8} {target : Method} {types : List ValueType}
    (pushed : before.Pushes after
      (code ++ [.invoke opcode owner target.id count] ++ materializingCode target) types)
    (small : after.assembler.pool.size ≤ maxConstants) :
    before.lastInvoked? after = some target.id := by
  obtain ⟨placed, items, performs⟩ := pushed.writes.appends
  have shaped := (performs.performs _ (.refl _) small).wellShaped
  have read := Listing.instructionsFrom_codeSize items shaped
  obtain ⟨called, results, rfl, calls, result⟩ := performs.split
  obtain ⟨loads, invoking, rfl, -, invokes⟩ := calls.split
  rcases invokes.performs _ (.refl _) small with _ | ⟨known, _ | _⟩
  obtain ⟨isInvoke, invoked⟩ := Instruction.of_invoke known
  rw [LoweringState.lastInvoked?, Listing.size_eq_codeSize, read]
  simp [filter_isInvoke_materializing result.spells, isInvoke, invoked]

theorem InvocationCodes.lastInvoked? {codes : OperandCodes} {target : Method}
    {implicitThis : Bool} {receiver : Option Operand} {arguments : List Operand}
    {code : List Operation} {types : List ValueType}
    (made : InvocationCodes context codes target implicitThis receiver arguments code)
    (pushed : before.Pushes after (code ++ materializingCode target) types)
    (small : after.assembler.pool.size ≤ maxConstants) :
    before.lastInvoked? after = some target.id := by
  cases made with
  | static => exact lastInvoked?_of_pushes pushed small
  | «instance» => exact lastInvoked?_of_pushes pushed small

/-! ## Calls with a resolved target -/

namespace Request

variable {request : Request} {types : TypeTable} {options : Options} {target : Identity}

@[simp]
theorem isClassLookup_normalize : request.normalize.isClassLookup = request.isClassLookup := by
  unfold normalize
  split <;> rfl

@[simp]
theorem target_normalize : request.normalize.target = request.target := by
  unfold normalize
  split <;> rfl

@[simp]
theorem hasSpread_normalize : request.normalize.hasSpread = request.hasSpread := by
  simp [hasSpread]

/-- Off the fast path, a request with a target and no spread argument is bound to the method
of a class lookup or to its target. -/
theorem boundCall_of_target (slow : options.fastPath = false)
    (resolved : request.target = some target) (plain : request.hasSpread = false) :
    request.boundCall types options =
      match if request.isClassLookup then types.classLookup? else none with
      | some method => .ok (some ⟨method, false, some request.receiver⟩)
      | none => do
          let method ← request.knownMethod types target
          return some ⟨method, request.implicitThis, some request.receiver⟩ := by
  have noProof : request.fastTarget? options = none := by simp [fastTarget?, slow]
  unfold boundCall resolvedCall
  rw [noProof, resolved, plain]
  rfl

theorem id_of_knownMethod {method : Method}
    (known : request.knownMethod types target = .ok method) : method.id = target :=
  (TypeTable.method?_spec (method?_of_knownMethod known)).1

end Request

namespace MethodCall

variable {call : MethodCall Operand} {target : Identity}

theorem target_request (resolved : call.target = some target) :
    (call.request context).target =
      some (((call.functionalMethod? context).map (·.id)).getD target) := by
  unfold request
  cases call.functionalMethod? context with
  | none => exact resolved
  | some method => rfl

theorem hasSpread_request :
    (call.request context).hasSpread = containsSpread (sources call.arguments) := by
  unfold request
  split <;> rfl

/-- A call with a resolved target is bound to the member that it reaches. -/
theorem bound_of_target (slow : context.frame.options.fastPath = false)
    (resolved : call.target = some target)
    (plain : containsSpread (sources call.arguments) = false) {bound : Option BoundCall}
    (binds : (call.request context).normalize.boundCall context.types context.frame.options =
      .ok bound) : ∃ invoked, bound = some invoked ∧
        invoked.target.id = call.reachedMember context target := by
  rw [Request.boundCall_of_target slow (by rw [Request.target_normalize, target_request resolved])
    (by rw [Request.hasSpread_normalize, hasSpread_request, plain]),
    Request.isClassLookup_normalize] at binds
  unfold reachedMember lookupMethod?
  split at binds
  · rename_i method found
    cases binds
    rw [found]
    exact ⟨_, rfl, rfl⟩
  · rename_i absent
    rw [absent]
    obtain ⟨method, known, made⟩ := Request.exists_knownMethod binds
    cases made
    refine ⟨_, rfl, ?_⟩
    have same := Request.id_of_knownMethod known
    cases functional : call.functionalMethod? context with
    | none => simpa [functional] using same
    | some method => simpa [functional] using same

end MethodCall

section Runs

variable {call : MethodCall Expr} {tier : Tier} {target : Identity}

theorem tier_of_closureField? {field : Field}
    (found : call.operands.closureField? context = some field)
    (run : Runs (lowerMethodCall call.operands) context before tier after) :
    tier = .closure := by
  obtain ⟨code, type, made, -⟩ := (inductive_trivial context).method_run run
  cases made with
  | closure => rfl
  | request absent =>
      rw [found] at absent
      cases absent

theorem direct_of_target (slow : context.frame.options.fastPath = false)
    (resolved : call.target = some target) (plain : containsSpread call.arguments = false)
    (absent : call.operands.closureField? context = none)
    (small : after.assembler.pool.size ≤ maxConstants)
    (run : Runs (lowerMethodCall call.operands) context before tier after) :
    tier = .direct ∧
      before.lastInvoked? after = some (call.operands.reachedMember context target) := by
  have sameTarget : call.operands.target = some target := by
    rw [← resolved, MethodCall.operands]
  have samePlain : containsSpread (sources call.operands.arguments) = false := by
    rw [MethodCall.arguments_operands, sources_operandsOf, plain]
  have bound {found : Option BoundCall} (binds : (call.operands.request context).normalize.boundCall
      context.types context.frame.options = .ok found) :=
    MethodCall.bound_of_target slow sameTarget samePlain binds
  obtain ⟨code, type, made, pushed⟩ := (inductive_trivial context).method_run run
  cases made with
  | closure found =>
      rw [absent] at found
      cases found
  | request _ made =>
      cases made with
      | direct binds invokes =>
          obtain ⟨_, same, reached⟩ := bound binds
          cases same
          exact ⟨rfl, by rw [invokes.lastInvoked? pushed small, reached]⟩
      | cached binds =>
          obtain ⟨_, same, -⟩ := bound binds
          cases same
      | uncached binds =>
          obtain ⟨_, same, -⟩ := bound binds
          cases same

end Runs

/-- A resolved target is honoured except where the call is recognized as another one.  Off
the fast path, a call with a resolved target and no spread argument runs the closure of a
field if its name stands for one, and is a direct call otherwise.  A direct call invokes
the member that it reaches: the built-in method for a class lookup by name, the abstract
method of a functional interface, and the target in every other case. -/
theorem resolved_target_reached (context : Context) (before after : LoweringState)
    (call : MethodCall Expr) (target : Identity) (tier : Tier)
    (slow : context.frame.options.fastPath = false) (resolved : call.target = some target)
    (plain : containsSpread call.arguments = false)
    (small : after.assembler.pool.size ≤ maxConstants)
    (run : Runs (lowerMethodCall call.operands) context before tier after) :
    match call.operands.closureField? context with
    | some _ => tier = .closure
    | none => tier = .direct ∧
        before.lastInvoked? after = some (call.operands.reachedMember context target) := by
  cases found : call.operands.closureField? context with
  | some field => exact tier_of_closureField? found run
  | none => exact direct_of_target slow resolved plain found small run

/-- Little code that starts from nothing needs few constants. -/
theorem small_of_size {call : MethodCall Expr} {ledger : Ledger} {tier : Tier} {size : Nat}
    (run : Runs (lowerMethodCall call.operands) context { ledger } tier after)
    (reached : after.assembler.listing.size = size) (short : 2 * size ≤ maxConstants) :
    after.assembler.pool.size ≤ maxConstants := by
  obtain ⟨code, type, -, pushed⟩ := (inductive_trivial context).method_run run
  have thrifty : after.assembler.pool.size + 2 * 0 ≤ 0 + 2 * after.assembler.listing.size :=
    pushed.writes.grows.thrifty
  omega

/-- An outer class with a method `run`, a class inside it with a field of that name, a
functional interface that also has a method `call`, and two class lookups. -/
def recognizingTypes : TypeTable :=
  ⟨[{ name := "Inner", id := ⟨2⟩, kind := .classType, outer := some ⟨1⟩,
      fields := [⟨"run", .object, .openAccess⟩] },
    { name := "Outer", id := ⟨1⟩, kind := .classType,
      methods := [⟨⟨3⟩, "run", ⟨1⟩, [], .object, .openAccess⟩] },
    { name := "Action", id := ⟨4⟩, kind := .interfaceType,
      methods := [⟨⟨5⟩, "run", ⟨4⟩, [], .object, { isPublic := true, isAbstract := true }⟩,
        ⟨⟨6⟩, "call", ⟨4⟩, [], .object, .openAccess⟩] },
    { name := "Class", id := .metaclass, kind := .classType,
      methods := [⟨⟨7⟩, "forName", .metaclass, [⟨"name", .object⟩], .object,
          { isPublic := true, isStatic := true }⟩,
        ⟨⟨8⟩, "forName", .metaclass, [⟨"number", .int⟩], .object,
          { isPublic := true, isStatic := true }⟩] },
    Builtin.primitive "int" .int .int]⟩

/-- A method of the inner class. -/
def innerContext : Context := { types := recognizingTypes, frame := .method ⟨2⟩ }

/-- `o.run()`, resolved to the method of the outer class. -/
def writtenRun : MethodCall Expr :=
  ⟨.read ⟨"o", 1, .simple ⟨1⟩, false⟩, .named "run", [], false, false, false, some ⟨3⟩, none,
    .synthetic⟩

/-- With its receiver written, the call inside the inner class reaches the method. -/
theorem target_of_written_run : ∃ before after : LoweringState,
    innerContext.frame.options.fastPath = false ∧ writtenRun.target = some ⟨3⟩ ∧
      containsSpread writtenRun.arguments = false ∧
      after.assembler.pool.size ≤ maxConstants ∧
      Runs (lowerMethodCall writtenRun.operands) innerContext before .direct after ∧
      before.lastInvoked? after = some ⟨3⟩ := by
  obtain ⟨tier, after, run, size⟩ := exists_runs (show sizeAfter
    (lowerMethodCall writtenRun.operands) innerContext { ledger := { classId := ⟨2⟩ } } = some 6
    by decide +kernel)
  have small := small_of_size run size (by decide)
  have reached := resolved_target_reached _ _ after writtenRun ⟨3⟩ tier rfl rfl rfl small run
  rw [show writtenRun.operands.closureField? innerContext = none by decide +kernel] at reached
  obtain ⟨rfl, invoked⟩ := reached
  refine ⟨_, after, rfl, rfl, rfl, small, run, ?_⟩
  rw [invoked]
  decide +kernel

/-- `run()`, resolved to the method of the outer class. -/
def unwrittenRun : MethodCall Expr :=
  ⟨.this, .named "run", [], false, false, true, some ⟨3⟩, none, .synthetic⟩

/-- `a.call()`, resolved to the method of that name. -/
def functionalCall : MethodCall Expr :=
  ⟨.read ⟨"a", 1, .simple ⟨4⟩, false⟩, .named "call", [], false, false, false, some ⟨6⟩,
    none, .synthetic⟩

/-- `Class.forName(1)`, resolved to the lookup by a number. -/
def lookupCall : MethodCall Expr :=
  ⟨.classLiteral .metaclass, .named "forName", [.int 1], false, false, false, some ⟨8⟩,
    none, .synthetic⟩

/-- In the inner class a call succeeds and does not invoke its target, which is known. -/
def MissesTarget (call : MethodCall Expr) (target : Identity) : Prop :=
  innerContext.frame.options.fastPath = false ∧ call.target = some target ∧
    containsSpread call.arguments = false ∧ (recognizingTypes.method? target).isSome ∧
    ∃ (before after : LoweringState) (tier : Tier), after.assembler.pool.size ≤ maxConstants ∧
      Runs (lowerMethodCall call.operands) innerContext before tier after ∧
      ¬(tier = .direct ∧ before.lastInvoked? after = some target)

theorem missesTarget_of_reached {call : MethodCall Expr} {target : Identity} {size : Nat}
    (resolved : call.target = some target) (plain : containsSpread call.arguments = false)
    (known : (recognizingTypes.method? target).isSome)
    (absent : call.operands.closureField? innerContext = none)
    (other : call.operands.reachedMember innerContext target ≠ target)
    (succeeds : sizeAfter (lowerMethodCall call.operands) innerContext
      { ledger := { classId := ⟨2⟩ } } = some size)
    (short : 2 * size ≤ maxConstants) : MissesTarget call target := by
  obtain ⟨tier, after, run, reached⟩ := exists_runs succeeds
  have small := small_of_size run reached short
  obtain ⟨-, invoked⟩ := direct_of_target rfl resolved plain absent small run
  refine ⟨rfl, resolved, plain, known, _, after, tier, small, run, ?_⟩
  rintro ⟨-, same⟩
  rw [invoked] at same
  exact other (Option.some.inj same)

/-- A field, a functional interface and a class lookup each keep a call from its target. -/
theorem recognized_before_target : MissesTarget unwrittenRun ⟨3⟩ ∧
    MissesTarget functionalCall ⟨6⟩ ∧ MissesTarget lookupCall ⟨8⟩ := by
  refine ⟨⟨rfl, rfl, rfl, rfl, ?_⟩, ?_, ?_⟩
  · obtain ⟨tier, after, run, size⟩ := exists_runs (show sizeAfter
      (lowerMethodCall unwrittenRun.operands) innerContext { ledger := { classId := ⟨2⟩ } } =
        some 13 by decide +kernel)
    have field : unwrittenRun.operands.closureField? innerContext =
        some ⟨"run", .object, .openAccess⟩ := by decide +kernel
    refine ⟨_, after, tier, small_of_size run size (by decide), run, ?_⟩
    rw [tier_of_closureField? field run]
    rintro ⟨other, -⟩
    cases other
  · exact missesTarget_of_reached rfl rfl rfl (by decide +kernel) (by decide +kernel)
      (show _ = some 6 by decide +kernel) (by decide)
  · exact missesTarget_of_reached rfl rfl rfl (by decide +kernel) (by decide +kernel)
      (show _ = some 8 by decide +kernel) (by decide)

end CallCode
