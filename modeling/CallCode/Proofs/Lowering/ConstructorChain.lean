import CallCode.Lowering.ConstructorChain
import CallCode.Proofs.Lowering.Expression

/-!
# The code of constructor chaining

A constructor that is bound at once gets its operands directly.  Otherwise every
arm of the switch unpacks the argument vector beneath itself, runs its constructor
and leaves the vector where it was, below the new instance if there is one.
-/

namespace CallCode

open Lower

variable {context : Context} {codes : OperandCodes} {before after : LoweringState}

/-! ## Direct binding -/

/-- The code of an operand for a constructor; null needs no conversion. -/
def Operand.CodesChained (context : Context) (codes : OperandCodes) (target : ValueType)
    (operand : Operand) (code : List Operation) (_ : ValueType) : Prop :=
  ∃ plain source, codes operand plain source ∧
    code = plain ++ if operand.source.isNull then []
      else coercionCode context.types source target

/-- The code of a constructor that is bound at once. -/
inductive DirectChainCodes (context : Context) (codes : OperandCodes) (classId : Identity)
    (constructor : Constructor) (arguments : List Operand) : List Operation → Prop
  | run {loads types} : constructor.params.length < 256 →
      CodesEach (fun pair : Operand × Param =>
        pair.1.CodesChained context codes pair.2.type)
        (arguments.zip constructor.params) loads types →
      DirectChainCodes context codes classId constructor arguments
        ([.plain .getThis] ++ loads ++ [runningOperation classId constructor])

theorem loadChained_run {argument : Operand} {target : ValueType}
    (steady : argument.Steady context codes)
    (run : Runs (do
      argument.load
      if !argument.source.isNull then
        coerceTo target) context before () after) : ∃ code type,
      argument.CodesChained context codes target code type ∧
        before.Pushes after code [type] := by
  rw [runs_bind] at run
  obtain ⟨_, middle, loads, run⟩ := run
  obtain ⟨plain, source, known, pushed⟩ := steady before middle loads
  by_cases isNull : argument.source.isNull
  · simp only [isNull, Bool.not_true, Bool.false_eq_true, if_false, runs_pure] at run
    obtain ⟨-, rfl⟩ := run
    refine ⟨plain, source, ⟨plain, source, known, ?_⟩, pushed⟩
    simp [isNull]
  · simp only [isNull, Bool.not_false, if_true] at run
    obtain ⟨_, coerced⟩ := coerceTo_run run
    obtain ⟨rfl, total⟩ := pushed.retype coerced
    refine ⟨_, _, ⟨plain, _, known, ?_⟩, total⟩
    simp [isNull]

theorem chainDirectly_run {classId : Identity} {constructor : Constructor}
    {arguments : List Operand} {position : Position}
    (steady : ∀ argument ∈ arguments, argument.Steady context codes)
    (run : Runs (chainDirectly classId constructor arguments position)
      context before () after) : ∃ code,
      DirectChainCodes context codes classId constructor arguments code ∧
        before.Pushes after code [] := by
  simp only [chainDirectly, runs_bind, runs_depth, runs_write, runs_read, runs_push,
    runs_accept, byteCount_ok, runs_dropAbove] at run
  obtain ⟨_, _, ⟨rfl, rfl⟩, _, _, rfl, _, _, ⟨rfl, rfl⟩, _, received, tracked, _, loaded,
    loads, _, _, ⟨⟨few, rfl⟩, rfl⟩, _, _, rfl, -, rfl⟩ := run
  have receiving : before.Pushes received [.plain .getThis]
      [.simple context.frame.classId] := by
    rw [tracked]
    exact ⟨Assembler.writes_getThis _, rfl⟩
  obtain ⟨code, types, each, pushed⟩ := pushes_forM
    (fun pair member start finish single =>
      loadChained_run (steady pair.1 (List.of_mem_zip member).1) single) loads
  have ready := receiving.trans pushed
  exact ⟨_, .run few each, ready.writes.trans (Assembler.writes_invoke _ rfl), ready.drop_above⟩

/-! ## The key of the arguments -/

/-- The number of arguments that the runtime is told. -/
def toldCount (arguments : List Operand) : Int64 :=
  if containsSpread (sources arguments) then -1 else .ofNat arguments.length

/-- The code that asks the runtime for a key. -/
def selectionCode (classId : Identity) (arguments : List Operand) (candidates : Nat) :
    List Operation :=
  [.plain .dup, .ofInt (toldCount arguments), .typed .loadClass classId,
    .ofInt (.ofNat candidates), .callRoutine Routine.selectConstructor.number 4 0]

theorem selectKey_run {classId : Identity} {arguments : List Operand} {candidates : Nat}
    (run : Runs (selectKey classId arguments candidates) context before () after) :
    before.Pushes after (selectionCode classId arguments candidates) [.int] := by
  simp only [selectKey, runs_bind, runs_write, runs_dup, runs_push, runs_replace] at run
  obtain ⟨_, _, rfl, _, _, ⟨first, rest, found, rfl⟩, _, _, rfl, _, _, rfl, _, _, rfl, _, _,
    rfl, _, _, rfl, _, _, rfl, _, _, rfl, -, rfl⟩ := run
  have stack : before.stack = first :: rest := found
  refine ⟨?_, ?_⟩
  · exact (Assembler.writes_plain _ rfl).trans ((Assembler.writes_loadInt _ _).trans
      ((Assembler.writes_loadClass _ _).trans ((Assembler.writes_loadInt _ _).trans
        (Assembler.writes_callRoutine _ _ _))))
  · simp [stack]

/-! ## Arms -/

/-- The operation that pushes the instance to initialize. -/
def instanceOperation (classId : Identity) (inConstructor : Bool) : Operation :=
  if inConstructor then .plain .getThis else .typed .newInstance classId

/-- The type of the instance to initialize. -/
def instanceType (context : Context) (classId : Identity) (inConstructor : Bool) :
    ValueType :=
  .simple (if inConstructor then context.frame.classId else classId)

theorem loadInstance_run {classId : Identity} {inConstructor : Bool}
    (run : Runs (loadInstance classId inConstructor) context before () after) :
    before.Pushes after [instanceOperation classId inConstructor]
      [instanceType context classId inConstructor] := by
  cases inConstructor with
  | true =>
      simp only [loadInstance, if_true, runs_bind, runs_write, runs_read, runs_push] at run
      obtain ⟨_, _, rfl, _, _, ⟨rfl, rfl⟩, rfl⟩ := run
      exact ⟨Assembler.writes_getThis _, rfl⟩
  | false =>
      simp only [loadInstance, Bool.false_eq_true, if_false, runs_bind, runs_write,
        runs_push] at run
      obtain ⟨_, _, rfl, rfl⟩ := run
      exact ⟨Assembler.writes_newInstance _ _, rfl⟩

/-- The code that brings the vector on top of the receiver. -/
def arrangementCode (inConstructor : Bool) : List Operation :=
  if inConstructor then [.plain .swap, .plain .dupX1]
  else [.plain .dupX1, .plain .dup2X1, .plain .pop]

/-- What outlasts the constructor that an arm runs. -/
def remainder (inConstructor : Bool) (newInstance vector : ValueType) : TypeStack :=
  if inConstructor then [vector] else [newInstance, vector]

theorem arrangeReceiver_run {inConstructor : Bool} {newInstance vector : ValueType}
    {rest : TypeStack} (found : before.stack = newInstance :: vector :: rest)
    (run : Runs (arrangeReceiver inConstructor) context before () after) :
    before.assembler.Writes after.assembler (arrangementCode inConstructor) ∧
      after.stack =
        vector :: newInstance :: (remainder inConstructor newInstance vector ++ rest) := by
  cases inConstructor with
  | true =>
      simp only [arrangeReceiver, if_true, runs_bind, runs_write, runs_swap,
        runs_dupX1] at run
      obtain ⟨_, _, rfl, _, _, ⟨_, _, _, swapped, rfl⟩, _, _, rfl, _, _, _, copied, rfl⟩ := run
      cases found.symm.trans swapped
      cases copied
      exact ⟨(Assembler.writes_plain _ rfl).trans (Assembler.writes_plain _ rfl), rfl⟩
  | false =>
      simp only [arrangeReceiver, Bool.false_eq_true, if_false, runs_bind, runs_write,
        runs_dupX1, runs_dup2X1, runs_pop, runs_pure] at run
      obtain ⟨_, _, rfl, _, _, ⟨_, _, _, copied, rfl⟩, _, _, rfl, _, _,
        ⟨_, _, _, _, doubled, rfl⟩, _, _, rfl, _, _, ⟨_, popped, rfl⟩, -, rfl⟩ := run
      cases found.symm.trans copied
      cases doubled
      cases popped
      exact ⟨(Assembler.writes_plain _ rfl).trans ((Assembler.writes_plain _ rfl).trans
        (Assembler.writes_plain _ rfl)), rfl⟩

/-- The code that loads one element of the vector on top beneath it. -/
def elementCode (types : TypeTable) (position : Nat) (type : ValueType) : List Operation :=
  [.plain .dup, .ofInt (.ofNat position), .plain .arrayLoad] ++
    coercionCode types .object type ++ [.plain .swap]

theorem unpackElement_run {position : Nat} {type vector : ValueType} {rest : TypeStack}
    (found : before.stack = vector :: rest)
    (run : Runs (unpackElement position type) context before () after) :
    before.assembler.Writes after.assembler (elementCode context.types position type) ∧
      after.stack = vector :: coercedType context.types .object type :: rest := by
  simp only [unpackElement, runs_bind, runs_write, runs_dup, runs_push, runs_replace,
    runs_swap] at run
  obtain ⟨_, _, rfl, _, _, ⟨_, _, copied, rfl⟩, _, _, rfl, _, _, rfl, _, _, rfl, _, loaded,
    ⟨-, tracked⟩, _, coerced, coerces, _, _, rfl, _, _, _, swapped, rfl⟩ := run
  cases found.symm.trans copied
  obtain ⟨source, retyped⟩ := coerceTo_run coerces
  obtain ⟨_, above, below⟩ := retyped.stack
  have loads : loaded.stack = .object :: vector :: rest := by rw [tracked]; rfl
  obtain ⟨rfl, rfl⟩ := List.cons.inj (loads.symm.trans above)
  cases below.symm.trans swapped
  refine ⟨?_, rfl⟩
  have prepares : before.assembler.Writes loaded.assembler
      [.plain .dup, .ofInt (.ofNat position), .plain .arrayLoad] := by
    rw [tracked]
    exact (Assembler.writes_plain _ rfl).trans ((Assembler.writes_loadInt _ _).trans
      (Assembler.writes_plain _ rfl))
  exact (prepares.trans retyped.writes).trans (Assembler.writes_plain _ rfl)

/-- The code that turns the vector on top into the array of its last elements. -/
def remainderCode (position : Nat) (type : ValueType) : List Operation :=
  [.ofInt (.ofNat position), .typed .loadClass type.signature,
    .callRoutine Routine.sliceArguments.number 3 0, .typed .checkCast type.signature]

theorem unpackRest_run {position : Nat} {type vector : ValueType} {rest : TypeStack}
    (found : before.stack = vector :: rest)
    (run : Runs (unpackRest position type) context before () after) :
    before.assembler.Writes after.assembler (remainderCode position type) ∧
      after.stack = type :: rest := by
  simp only [unpackRest, runs_bind, runs_write, runs_push, runs_replace] at run
  obtain ⟨_, _, rfl, _, _, rfl, _, _, rfl, _, _, rfl, _, _, rfl, _, _, rfl, -, rfl⟩ := run
  refine ⟨?_, by simp [found]⟩
  -- the states in between are reduced to their code, so that the steps match as they stand
  dsimp only
  have starts := before.assembler.writes_loadInt (.ofNat position)
  have ready := starts.trans (Assembler.writes_loadClass _ type.signature)
  have sliced := ready.trans (Assembler.writes_callRoutine _ .sliceArguments 3)
  exact sliced.trans (Assembler.writes_checkCast _ type.signature)

/-- The code that unpacks the vector on top into parameters from a position on. -/
def unpackingCode (types : TypeTable) (position : Nat) : List Param → List Operation
  | [] => [.plain .pop]
  | [param] =>
      if param.type.isArray then remainderCode position param.type
      else elementCode types position param.type ++ [.plain .pop]
  | param :: params =>
      elementCode types position param.type ++ unpackingCode types (position + 1) params

theorem unpackVector_run {position : Nat} {params : List Param} {vector : ValueType}
    {rest : TypeStack} (found : before.stack = vector :: rest)
    (run : Runs (unpackVector position params) context before () after) :
    before.assembler.Writes after.assembler
        (unpackingCode context.types position params) ∧
      ∃ loaded : TypeStack, loaded.length = params.length ∧
        after.stack = loaded ++ rest := by
  fun_induction unpackVector position params generalizing before rest with
  | case1 position =>
      simp only [runs_bind, runs_write, runs_pop, runs_pure] at run
      obtain ⟨_, _, rfl, _, _, ⟨_, popped, rfl⟩, -, rfl⟩ := run
      cases found.symm.trans popped
      exact ⟨Assembler.writes_plain _ rfl, [], rfl, rfl⟩
  | case2 position param isArray =>
      obtain ⟨writes, stack⟩ := unpackRest_run found run
      rw [unpackingCode, if_pos isArray]
      exact ⟨writes, [param.type], rfl, stack⟩
  | case3 position param isSingle ih =>
      rw [runs_bind] at run
      obtain ⟨_, middle, loads, drops⟩ := run
      obtain ⟨writes, stack⟩ := unpackElement_run found loads
      obtain ⟨moreWrites, loaded, count, moreStack⟩ := ih stack drops
      rw [unpackingCode, if_neg isSingle]
      refine ⟨writes.trans moreWrites,
        loaded ++ [coercedType context.types .object param.type], ?_, ?_⟩
      · simpa using count
      · rw [moreStack, List.append_assoc, List.singleton_append]
  | case4 position param params several ih =>
      rw [runs_bind] at run
      obtain ⟨_, middle, loads, unpacks⟩ := run
      obtain ⟨writes, stack⟩ := unpackElement_run found loads
      obtain ⟨moreWrites, loaded, count, moreStack⟩ := ih stack unpacks
      rw [unpackingCode]
      · refine ⟨writes.trans moreWrites,
          loaded ++ [coercedType context.types .object param.type], ?_, ?_⟩
        · simpa using count
        · rw [moreStack, List.append_assoc, List.singleton_append]
      · exact several

/-- The code of one arm. -/
def armCode (context : Context) (classId : Identity) (candidate : Candidate) :
    List Operation :=
  arrangementCode context.frame.isConstructor ++
    unpackingCode context.types 0 candidate.constructor.params ++
      [runningOperation classId candidate.constructor]

theorem lowerArm_run {classId : Identity} {candidate : Candidate} {position : Position}
    {newInstance vector : ValueType} {rest : TypeStack}
    (found : before.stack = newInstance :: vector :: rest)
    (run : Runs (lowerArm classId candidate context.frame.isConstructor position)
      context before () after) :
    candidate.constructor.params.length < 256 ∧
      before.assembler.Writes after.assembler (armCode context classId candidate) ∧
      after.stack = remainder context.frame.isConstructor newInstance vector ++ rest := by
  simp only [lowerArm, runs_bind] at run
  obtain ⟨_, _, arranges, _, _, unpacks, runs⟩ := run
  obtain ⟨arranged, arrangedStack⟩ := arrangeReceiver_run found arranges
  obtain ⟨unpacked, loaded, count, unpackedStack⟩ := unpackVector_run arrangedStack unpacks
  obtain ⟨few, running, stack⟩ := runConstructor_run runs
  refine ⟨few, (arranged.trans unpacked).trans running, ?_⟩
  rw [stack, unpackedStack, ← count, List.drop_append]
  simp

/-- The code that drops the vector. -/
def droppingCode (inConstructor : Bool) : List Operation :=
  if inConstructor then [.plain .pop] else [.plain .swap, .plain .pop]

theorem dropVector_run {inConstructor : Bool} {newInstance vector : ValueType}
    {rest : TypeStack}
    (found : before.stack = remainder inConstructor newInstance vector ++ rest)
    (run : Runs (dropVector inConstructor) context before () after) :
    before.assembler.Writes after.assembler (droppingCode inConstructor) ∧
      after.stack = (if inConstructor then [] else [newInstance]) ++ rest := by
  cases inConstructor with
  | true =>
      simp only [dropVector, Bool.not_true, Bool.false_eq_true, if_false, runs_bind,
        runs_write, runs_pop, runs_pure] at run
      obtain ⟨_, _, rfl, _, _, ⟨_, popped, rfl⟩, -, rfl⟩ := run
      cases found.symm.trans popped
      exact ⟨Assembler.writes_plain _ rfl, rfl⟩
  | false =>
      simp only [dropVector, Bool.not_false, if_true, runs_bind, runs_write, runs_swap,
        runs_pop, runs_pure] at run
      obtain ⟨_, _, rfl, _, _, ⟨_, _, _, swapped, rfl⟩, _, _, rfl, _, _, ⟨_, popped, rfl⟩, -,
        rfl⟩ := run
      cases found.symm.trans swapped
      cases popped
      exact ⟨(Assembler.writes_plain _ rfl).trans (Assembler.writes_plain _ rfl), rfl⟩

end CallCode
