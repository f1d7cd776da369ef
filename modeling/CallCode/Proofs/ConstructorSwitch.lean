import CallCode.Proofs.Lowering.StackEffects
import CallCode.Proofs.Lowering.SwitchPaths
import CallCode.Proofs.Machine.Symbolic
import CallCode.Proofs.ReachableLedger
import CallCode.Proofs.StackDepth

/-!
# The dispatch of a constructor switch

The arguments of a chained call are evaluated once, into one vector.  The switch runs
one constructor, the first candidate with the key that the runtime answers, on the
current instance or on one new instance, and every operand of it comes from the element
of the vector at its own position.
-/

namespace CallCode

open Lower

variable {context : Context} {types : TypeTable} {answer : Value → Int32}

/-! ## Operands -/

/-- The element of a vector at a position. -/
def Value.IsElement (vector : Value) (position : Nat) (value : Value) : Prop :=
  ∃ moment earlier, value =
    .made moment (.plain .arrayLoad) [vector, .made earlier (.ofInt (.ofNat position)) []]

/-- A value of the root class as a reference; it is boxed if the root class is a
primitive. -/
def Value.IsReference (types : TypeTable) (value reference : Value) : Prop :=
  if types.isPrimitive .object then
    ∃ moment, reference = .made moment (.typed .box ValueType.object.base) [value]
  else reference = value

/-- A value of the root class is converted to a type: it is left alone, unboxed or
cast. -/
inductive Value.Converts (types : TypeTable) (type : ValueType) (value : Value) :
    Value → Prop
  | same : Value.Converts types type value value
  | fitting {reference} : value.IsReference types reference →
      Value.Converts types type value reference
  | unboxed {reference moment} : value.IsReference types reference →
      Value.Converts types type value (.made moment (.typed .unbox type.base) [reference])
  | checked {reference moment} : value.IsReference types reference →
      Value.Converts types type value
        (.made moment (.typed .checkCast type.signature) [reference])

/-- The operation that cuts the last arguments out of a vector. -/
def slicingOperation : Operation := .callRoutine Routine.sliceArguments.number 3 0

/-- The operands that a vector gives to parameters from a position on.  Each is the
element at its own position, except that an array as the last one takes all that
remains. -/
inductive Unpacked (types : TypeTable) (vector : Value) :
    Nat → List Param → List Value → Prop
  | nothing {position} : Unpacked types vector position [] []
  | rest {position param cast sliced counted loaded} : param.type.isArray = true →
      Unpacked types vector position [param]
        [.made cast (.typed .checkCast param.type.signature)
          [.made sliced slicingOperation [vector, .made counted (.ofInt (.ofNat position)) [],
            .made loaded (.typed .loadClass param.type.signature) []]]]
  | element {position param params element value values} :
      (params = [] → param.type.isArray = false) → vector.IsElement position element →
      element.Converts types param.type value →
      Unpacked types vector (position + 1) params values →
      Unpacked types vector position (param :: params) (value :: values)

theorem Unpacked.length_eq {vector : Value} {position : Nat} {params : List Param}
    {values : List Value} (unpacked : Unpacked types vector position params values) :
    values.length = params.length := by
  induction unpacked with
  | nothing => rfl
  | rest => rfl
  | element _ _ _ _ ih => rw [List.length_cons, List.length_cons, ih]

section Unpacking

variable (types) (answer)

theorem plays_boxing (value : Value) (rest : List Value) (events : List Event) :
    ∃ reference later, value.IsReference types reference ∧
      Plays types answer (boxingCode types .object) ⟨value :: rest, events⟩ []
        ⟨reference :: rest, later⟩ := by
  unfold boxingCode Value.IsReference
  split
  · exact ⟨_, _, ⟨_, rfl⟩, .making [value] .nil⟩
  · exact ⟨value, events, rfl, .nil⟩

theorem plays_conversion (type : ValueType) (value : Value) (rest : List Value)
    (events : List Event) : ∃ converted later, value.Converts types type converted ∧
      Plays types answer (coercionCode types .object type) ⟨value :: rest, events⟩ []
        ⟨converted :: rest, later⟩ := by
  obtain ⟨reference, boxed, isReference, boxes⟩ := plays_boxing types answer value rest events
  unfold coercionCode
  split
  · exact ⟨value, events, .same, .nil⟩
  · split
    · exact ⟨_, _, .unboxed isReference, boxes.append (.making [reference] .nil)⟩
    · split
      · exact ⟨reference, boxed, .fitting isReference, boxes.append .nil⟩
      · exact ⟨_, _, .checked isReference, boxes.append (.making [reference] .nil)⟩

theorem plays_element (position : Nat) (type : ValueType) (vector : Value)
    (rest : List Value) (events : List Event) : ∃ element value later,
      vector.IsElement position element ∧ element.Converts types type value ∧
        Plays types answer (elementCode types position type) ⟨vector :: rest, events⟩ []
          ⟨vector :: value :: rest, later⟩ := by
  have loads : ∃ element later, vector.IsElement position element ∧
      Plays types answer [.plain .dup, .ofInt (.ofNat position), .plain .arrayLoad]
        ⟨vector :: rest, events⟩ [] ⟨element :: vector :: rest, later⟩ :=
    ⟨_, _, ⟨_, _, rfl⟩, .moving rfl .dup (.loadingInt _ (.making [vector, _] .nil))⟩
  obtain ⟨element, loaded, isElement, loads⟩ := loads
  obtain ⟨value, converted, converts, conversion⟩ :=
    plays_conversion types answer type element (vector :: rest) loaded
  exact ⟨element, value, converted, isElement, converts,
    (loads.append conversion).append (.moving rfl .swap .nil)⟩

/-- The vector on top is unpacked into operands, the last of which ends up on top. -/
theorem plays_unpacking (position : Nat) (params : List Param) (vector : Value)
    (rest : List Value) (events : List Event) : ∃ operands slicing later,
      Unpacked types vector position params operands ∧
        (∀ event ∈ slicing, event.operation = slicingOperation) ∧
        Plays types answer (unpackingCode types position params) ⟨vector :: rest, events⟩
          slicing ⟨operands.reverse ++ rest, later⟩ := by
  fun_induction unpackingCode types position params generalizing rest events with
  | case1 position => exact ⟨[], [], events, .nothing, by simp, .moving rfl .pop .nil⟩
  | case2 position param isArray =>
      refine ⟨_, _, _, .rest isArray, ?_, .loadingInt _ (.making [] (.working [vector, _, _]
        (.making [_] .nil)))⟩
      simp [slicingOperation]
  | case3 position param isSingle =>
      obtain ⟨element, value, later, isElement, converts, loads⟩ :=
        plays_element types answer position param.type vector rest events
      refine ⟨[value], [], later, ?_, by simp, loads.append (.moving rfl .pop .nil)⟩
      exact .element (fun _ => by simpa using isSingle) isElement converts .nothing
  | case4 position param params several ih =>
      obtain ⟨element, value, loaded, isElement, converts, loads⟩ :=
        plays_element types answer position param.type vector rest events
      obtain ⟨operands, slicing, later, unpacked, slices, unpacks⟩ := ih (value :: rest) loaded
      refine ⟨value :: operands, slicing, later, ?_, slices, ?_⟩
      · exact .element (fun none => absurd none several) isElement converts unpacked
      · rw [List.reverse_cons, List.append_assoc]
        exact loads.append unpacks

end Unpacking

/-! ## Arms -/

/-- What an arm leaves besides what was there before the switch. -/
def leftByArm (inConstructor : Bool) (target vector : Value) : List Value :=
  if inConstructor then [vector] else [target, vector]

/-- What a chained call leaves. -/
def leftByChain (inConstructor : Bool) (target : Value) : List Value :=
  if inConstructor then [] else [target]

theorem plays_arrangement (types : TypeTable) (answer : Value → Int32) (inConstructor : Bool)
    (target vector : Value) (rest : List Value) (events : List Event) :
    Plays types answer (arrangementCode inConstructor) ⟨target :: vector :: rest, events⟩ []
      ⟨vector :: target :: (leftByArm inConstructor target vector ++ rest), events⟩ := by
  cases inConstructor with
  | true => exact .moving rfl .swap (.moving rfl .dupX1 .nil)
  | false => exact .moving rfl .dupX1 (.moving rfl .dup2X1 (.moving rfl .pop .nil))

theorem plays_dropping (types : TypeTable) (answer : Value → Int32) (inConstructor : Bool)
    (target vector : Value) (rest : List Value) (events : List Event) :
    Plays types answer (droppingCode inConstructor)
      ⟨leftByArm inConstructor target vector ++ rest, events⟩ []
      ⟨leftByChain inConstructor target ++ rest, events⟩ := by
  cases inConstructor with
  | true => exact .moving rfl .pop .nil
  | false => exact .moving rfl .swap (.moving rfl .pop .nil)

/-- A constructor takes its operands and its instance, and leaves nothing. -/
theorem plays_running {classId : Identity} {constructor : Constructor}
    (declared : types.DeclaresConstructor constructor)
    (few : constructor.params.length < 256) {operands : List Value}
    (count : operands.length = constructor.params.length) (target : Value)
    (rest : List Value) (events : List Event) : ∃ later,
      Plays types answer [runningOperation classId constructor]
        ⟨operands.reverse ++ target :: rest, events⟩
        [⟨runningOperation classId constructor, target :: operands⟩] ⟨rest, later⟩ := by
  have taken : (target :: operands).length =
      (runningOperation classId constructor).pops := by
    have byte : constructor.params.length.toUInt8.toNat = constructor.params.length :=
      UInt8.toNat_ofNat_of_lt' few
    rw [runningOperation, Operation.pops, byte, List.length_cons, count]
    rfl
  have leaves : (runningOperation classId constructor).pushes types = 0 := by
    have known := TypeTable.isSome_constructor? declared
    rw [← Option.isNone_eq_false_iff] at known
    simp [runningOperation, Operation.pushes, TypeTable.returnsValue, known]
  have stands : operands.reverse ++ target :: rest =
      (target :: operands).reverse ++ rest := by simp
  have step : symbolicMachine types answer (runningOperation classId constructor) none
      ⟨operands.reverse ++ target :: rest, events⟩ _ := SymbolicStep.act rfl rfl taken stands
  rw [leaves] at step
  exact ⟨_, .cons rfl step .nil, .effect _ rfl⟩

/-- An arm unpacks the vector for its constructor and runs it once. -/
theorem plays_arm {classId : Identity} {candidate : Candidate}
    (declared : context.types.DeclaresConstructor candidate.constructor)
    (few : candidate.constructor.params.length < 256) (target vector : Value)
    (rest : List Value) (events : List Event) : ∃ operands slicing later,
      Unpacked context.types vector 0 candidate.constructor.params operands ∧
        (∀ event ∈ slicing, event.operation = slicingOperation) ∧
        Plays context.types answer (armCode context classId candidate)
          ⟨target :: vector :: rest, events⟩
          (slicing ++ [⟨runningOperation classId candidate.constructor, target :: operands⟩])
          ⟨leftByArm context.frame.isConstructor target vector ++ rest, later⟩ := by
  have arranges := plays_arrangement context.types answer context.frame.isConstructor target
    vector rest events
  obtain ⟨operands, slicing, unpackedEvents, unpacked, slices, unpacks⟩ :=
    plays_unpacking context.types answer 0 candidate.constructor.params vector
      (target :: (leftByArm context.frame.isConstructor target vector ++ rest)) events
  obtain ⟨later, runs⟩ := plays_running declared few unpacked.length_eq target
    (leftByArm context.frame.isConstructor target vector ++ rest) unpackedEvents
  exact ⟨operands, slicing, later, unpacked, slices, (arranges.append unpacks).append runs⟩

/-! ## The entrance -/

/-- The operation that asks the runtime for a key. -/
def selectingOperation : Operation := .callRoutine Routine.selectConstructor.number 4 0

/-- What the runtime is given to select a constructor. -/
def Selects (classId : Identity) (arguments : List Operand) (candidates : Nat)
    (vector : Value) (selection : Event) : Prop :=
  selection.operation = selectingOperation ∧ ∃ told loaded counted,
    selection.inputs = [vector, .made told (.ofInt (toldCount arguments)) [],
      .made loaded (.typed .loadClass classId) [],
      .made counted (.ofInt (.ofNat candidates)) []]

/-- The instance that a constructor is run on: the current one, which is not allocated,
or a new one. -/
inductive Provides (classId : Identity) : Bool → Value → List Event → Prop
  | current {moment} : Provides classId true (.made moment (.plain .getThis) []) []
  | new {moment} : Provides classId false (.made moment (.typed .newInstance classId) [])
      [⟨.typed .newInstance classId, []⟩]

theorem plays_selection (types : TypeTable) (answer : Value → Int32) (classId : Identity)
    (arguments : List Operand) (candidates : Nat) (vector : Value) (rest : List Value)
    (events : List Event) : ∃ selection moment later,
      Selects classId arguments candidates vector selection ∧
        Plays types answer (selectionCode classId arguments candidates)
          ⟨vector :: rest, events⟩ [selection]
          ⟨.made moment selection.operation selection.inputs :: vector :: rest, later⟩ :=
  ⟨⟨selectingOperation, _⟩, _, _, ⟨rfl, _, _, _, rfl⟩,
    .moving rfl .dup (.loadingInt _ (.making [] (.loadingInt _
      (.working [vector, _, _, _] .nil))))⟩

theorem plays_providing (types : TypeTable) (answer : Value → Int32) (classId : Identity)
    (inConstructor : Bool) (key : Value) (rest : List Value) (events : List Event) :
    ∃ target allocation later, Provides classId inConstructor target allocation ∧
      Plays types answer [instanceOperation classId inConstructor, .plain .swap]
        ⟨key :: rest, events⟩ allocation ⟨key :: target :: rest, later⟩ := by
  cases inConstructor with
  | true => exact ⟨_, [], _, .current, .making [] (.moving rfl .swap .nil)⟩
  | false => exact ⟨_, _, _, .new, .working [] (.moving rfl .swap .nil)⟩

/-! ## Dispatch -/

/-- From every stack, some code evaluates to one value. -/
def Evaluates (types : TypeTable) (code : List Operation) : Prop :=
  ∀ (answer : Value → Int32) (start : SymbolicState), ∃ value events,
    (symbolicMachine types answer).Executes code start ⟨value :: start.stack, events⟩

/-- Code that pushes one value evaluates to it unless it misses a receiver. -/
theorem Effect.evaluates_iff {code : List Operation} (effect : Effect types code 0 1) :
    Evaluates types code ↔ missingReceivers types code = 0 := by
  constructor
  · intro evaluates
    obtain ⟨value, events, executes⟩ := evaluates (fun _ => 0) ⟨[], []⟩
    have length := length_of_executes executes
    have net := effect.net
    simp only [List.length_singleton, List.length_nil] at length
    omega
  · intro none answer start
    obtain ⟨left, more, executes⟩ : ∃ left more, (symbolicMachine types answer).Executes code
        ⟨[] ++ start.stack, start.events⟩ ⟨left ++ start.stack, start.events ++ more⟩ :=
      exists_executes effect.straight (effect.covered none) start.stack start.events
    have length := length_of_executes executes
    have net := effect.net
    simp only [List.nil_append, List.length_append] at length
    have single : left.length = 1 := by omega
    obtain ⟨value, rfl⟩ := List.length_eq_one_iff.mp single
    exact ⟨value, _, executes⟩

/-- Some code evaluates the arguments of a switch once, and for every answer of the
runtime the switch runs the first candidate with this key, on the instance that was
provided and on the operands that the vector gives to its parameters.  Without such a
candidate control comes to the fatal error. -/
def Dispatches (context : Context) (classId : Identity) (table : CandidateTable)
    (arguments : List Operand) (packing : List Operation) (pool : ConstantPool)
    (code : ObjectCode) (begins ends : Nat) : Prop :=
  ∀ (answer : Value → Int32) (start : SymbolicState),
    ∃ vector evaluated selection moment target allocation,
      (symbolicMachine context.types answer).Executes packing start
        ⟨vector :: start.stack, evaluated⟩ ∧
      Selects classId arguments table.candidates.length vector selection ∧
      Provides classId context.frame.isConstructor target allocation ∧
      match table.candidates.find?
          (·.key == answer (.made moment selection.operation selection.inputs)) with
      | some candidate => ∃ operands slicing events,
          Unpacked context.types vector 0 candidate.constructor.params operands ∧
          (∀ event ∈ slicing, event.operation = slicingOperation) ∧
          Happened evaluated events (selection :: allocation ++ slicing ++
            [⟨runningOperation classId candidate.constructor, target :: operands⟩]) ∧
          (symbolicMachine context.types answer).Reaches pool code (begins, start)
            (ends, ⟨leftByChain context.frame.isConstructor target ++ start.stack, events⟩)
      | none => ∃ fatal instruction stack events,
          Happened evaluated events (selection :: allocation) ∧
          (symbolicMachine context.types answer).Reaches pool code (begins, start)
            (fatal, ⟨stack, events⟩) ∧
          code.instructionAt fatal = some instruction ∧
          instruction.operation? pool = some (.raiseFatal incompatibleClassMessage.toUTF8)

/-- A switch looks among its arms for the case that a key leads to. -/
theorem findIdx?_cases {cases : List SwitchCase} {arms : List Candidate}
    (keys : cases.map (·.key) = arms.map (·.key)) (key : Int32) :
    cases.findIdx? (·.key == key) = arms.findIdx? (·.key == key) := by
  have mapped := congrArg (List.findIdx? (· == key)) keys
  rw [List.findIdx?_map, List.findIdx?_map] at mapped
  exact mapped

theorem SwitchLaid.dispatches {classId : Identity} {table : CandidateTable}
    {arguments : List Operand} {packing : List Operation} {pool : ConstantPool}
    {code : ObjectCode} {begins : Nat} {entrance placed : List Placed}
    (built : Ledger.Built context.types table)
    (laid : SwitchLaid context classId table.arms pool (begins + codeSize entrance) placed)
    (performs : Performs pool entrance (entranceCode context classId table arguments packing))
    (small : pool.size ≤ maxConstants) (located : code.Located begins (entrance ++ placed))
    (evaluates : Evaluates context.types packing) :
    Dispatches context classId table arguments packing pool code begins
      (begins + codeSize (entrance ++ placed)) := by
  intro answer start
  rw [ObjectCode.located_append] at located
  obtain ⟨entranceLocated, switchLocated⟩ := located
  obtain ⟨vector, evaluated, packs⟩ := evaluates answer start
  obtain ⟨selection, moment, selected, selects, selecting⟩ :=
    plays_selection context.types answer classId arguments table.candidates.length vector
      start.stack evaluated
  obtain ⟨target, allocation, provided, provides, providing⟩ :=
    plays_providing context.types answer classId context.frame.isConstructor
      (.made moment selection.operation selection.inputs) (vector :: start.stack) selected
  refine ⟨vector, evaluated, selection, moment, target, allocation, packs, selects, provides, ?_⟩
  have entered := ((packs.append selecting.executes).append providing.executes).reaches
    entranceLocated performs
  have happened := selecting.happened.trans providing.happened
  -- a key has an arm exactly if it has a candidate, and the arm is that of the first one
  cases lookup : table.candidates.find?
      (·.key == answer (.made moment selection.operation selection.inputs)) with
  | some candidate =>
      obtain ⟨position, found, present⟩ := CandidateTable.findIdx?_arms_of_find? lookup
      have member := CandidateTable.mem_arms_of_find? lookup
      obtain ⟨_, _, built⟩ := built
      have declared := CandidateTable.declares_of_build built candidate
        (CandidateTable.mem_candidates_of_arms member)
      obtain ⟨operands, slicing, ran, unpacked, slices, runs⟩ :=
        plays_arm declared (laid.few candidate member) target vector start.stack provided
      have drops := plays_dropping context.types answer context.frame.isConstructor target
        vector start.stack ran
      have switched := laid.reaches_case small switchLocated present
        (fun fallback cases keys => .case ((findIdx?_cases keys _).trans found))
        runs.executes (fun _ => .jump) drops.executes
      refine ⟨operands, slicing, ran, unpacked, slices, ?_, ?_⟩
      · simpa using happened.trans runs.happened
      · rw [codeSize_append, ← Nat.add_assoc]
        exact entered.trans switched
  | none =>
      have absent := CandidateTable.findIdx?_arms_eq_none lookup
      obtain ⟨fatal, instruction, falls, placedThere, raises⟩ :=
        laid.reaches_fallback small switchLocated fun fallback cases keys =>
          SymbolicStep.fallback ((findIdx?_cases keys _).trans absent)
      exact ⟨fatal, instruction, _, _, by simpa using happened, entered.trans falls,
        placedThere, raises⟩

/-- The arguments of a call, by the code that loads them. -/
theorem steady_arguments_loaded (context : Context) (arguments : List Expr) :
    ∀ argument ∈ operandsOf arguments, argument.Steady context fun operand code type =>
      LoadedCode context operand code type ∧
        (context.types.DistinctMembers → Balanced context.types operand code type) := by
  intro argument member
  by_cases distinct : context.types.DistinctMembers
  · have steady := (inductive_balanced distinct).steady_arguments arguments argument member
    exact steady.and_loaded.mono fun code type known => ⟨known.1, fun _ => known.2⟩
  · have steady := (inductive_trivial context).steady_arguments arguments argument member
    exact steady.loaded.mono fun code type known =>
      ⟨known, fun assumed => absurd assumed distinct⟩

/-- A constructor switch dispatches correctly exactly if the code of its arguments
evaluates to one vector.  The members of a registry being distinct, it does so exactly if
no static method is invoked like one of an instance among the arguments. -/
theorem dispatches_iff_of_chainBySwitch (context : Context) (classId : Identity)
    (table : CandidateTable) (arguments : List Expr) (position : Position)
    (before after : LoweringState) (built : Ledger.Built context.types table)
    (small : after.assembler.pool.size ≤ maxConstants)
    (run : Runs (chainBySwitch classId table (operandsOf arguments) position) context before
      () after) :
    (table.candidates.Pairwise fun first second => first.descriptor ≤ second.descriptor) ∧
    ∃ packing placed back,
      after.assembler.listing.items.toList =
        before.assembler.listing.items.toList ++ placed ++ back ∧
      Performs after.assembler.pool placed packing ∧
      VectorCodes context (LoadedCode context) (operandsOf arguments) packing ∧
      (Dispatches context classId table (operandsOf arguments) packing after.assembler.pool
          after.assembler.listing.assemble before.assembler.listing.size
          after.assembler.listing.size ↔
        Evaluates context.types packing) ∧
      (context.types.DistinctMembers → (Evaluates context.types packing ↔
        ¬MissesReceiver context.types after.assembler.pool placed)) := by
  obtain ⟨packing, entrance, placed, vector, items, -, entered, laid, -⟩ :=
    chainBySwitch_run (steady_arguments_loaded context arguments) run
  have performs := entered.performs _ (.refl _) small
  have all : after.assembler.listing.items.toList =
      before.assembler.listing.items.toList ++ (entrance ++ placed) := by
    rw [items, List.append_assoc]
  have shaped : ∀ item ∈ entrance ++ placed, item.instruction.WellShaped := by
    intro item member
    rcases List.mem_append.mp member with ahead | behind
    · exact performs.wellShaped item ahead
    · exact laid.wellShaped small item behind
  have located := located_of_items all shaped
  have size := (size_of_items_append all).2
  rw [entranceCode, List.append_assoc] at entered
  obtain ⟨packed, others, rfl, packsFrom, -⟩ := entered.split
  have packs := packsFrom.performs _ (.refl _) small
  refine ⟨?_, packing, packed, others ++ placed, ?_, packs, ?_, ?_, ?_⟩
  · obtain ⟨_, _, built⟩ := built
    exact CandidateTable.sorted_of_build built
  · simp only [all, List.append_assoc]
  · exact vector.mono fun _ _ _ known => known.1
  · constructor
    · intro dispatches answer start
      obtain ⟨value, events, _, _, _, _, executes, _⟩ := dispatches answer start
      exact ⟨value, events, executes⟩
    · intro evaluates
      rw [size]
      exact laid.dispatches built performs small located evaluates
  · intro distinct
    have balanced := vector.mono fun _ _ _ known => known.2 distinct
    rw [balanced.effect.evaluates_iff]
    exact packs.missesReceiver_iff

/-- The constructors of the class of copied instances. -/
def copiedTable : CandidateTable :=
  ⟨⟨1⟩, [⟨⟨⟨2⟩, ⟨1⟩, [⟨"other", .simple ⟨1⟩⟩], .openAccess⟩, "(LCopied;)V", 7⟩]⟩

/-- Outside a constructor, a copy of null is made by a switch that dispatches
correctly. -/
theorem dispatches_for_copied : ∃ (after : LoweringState) (packing : List Operation),
    Ledger.Built copiedTypes copiedTable ∧ after.assembler.pool.size ≤ maxConstants ∧
      Runs (chainBySwitch ⟨1⟩ copiedTable (operandsOf [.null]) .synthetic)
        { types := copiedTypes, frame := .method ⟨1⟩ } { ledger := { classId := ⟨1⟩ } } ()
        after ∧
      Dispatches { types := copiedTypes, frame := .method ⟨1⟩ } ⟨1⟩ copiedTable
        (operandsOf [.null]) packing after.assembler.pool after.assembler.listing.assemble 0
        after.assembler.listing.size := by
  have built : Ledger.Built copiedTypes copiedTable := ⟨.synthetic, fun _ => 7, by decide +kernel⟩
  obtain ⟨⟨⟩, after, run, size⟩ := exists_runs (show sizeAfter
    (chainBySwitch ⟨1⟩ copiedTable (operandsOf [.null]) .synthetic)
    { types := copiedTypes, frame := .method ⟨1⟩ } { ledger := { classId := ⟨1⟩ } } = some 54 by
      decide +kernel)
  have small : after.assembler.pool.size ≤ maxConstants := by
    obtain ⟨_, _, _, -, -, grows, -⟩ := chainBySwitch_run (steady_arguments_loaded _ _) run
    have thrifty : after.assembler.pool.size + 2 * 0 ≤ 0 + 2 * after.assembler.listing.size :=
      grows.thrifty
    rw [size] at thrifty
    exact Nat.le_trans thrifty (by decide)
  obtain ⟨-, packing, placed, -, -, -, -, dispatches, evaluates⟩ :=
    dispatches_iff_of_chainBySwitch _ _ _ _ _ _ _ built small run
  have receives : ¬MissesReceiver copiedTypes after.assembler.pool placed := by
    rintro ⟨_, -, operation, -, lacks⟩
    cases operation <;> simp [Operation.lacksReceiver, TypeTable.method?, copiedTypes] at lacks
  exact ⟨after, packing, built, small, run,
    dispatches.mpr ((evaluates (by decide)).mpr receives)⟩

end CallCode
