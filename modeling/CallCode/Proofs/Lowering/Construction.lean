import CallCode.Lowering.Construction
import CallCode.Proofs.Lowering.MethodCall

/-!
# The code of construction

A new instance is allocated twice on the stack, below the operands of the
constructor, which takes the upper one as its receiver and leaves the lower one.
-/

namespace CallCode

open Lower

variable {context : Context} {codes : OperandCodes} {before after : LoweringState}

/-! ## Instances and constructors -/

/-- The code that allocates an instance. -/
def allocationCode (classId : Identity) : List Operation :=
  [.typed .newInstance classId, .plain .dup]

theorem allocateInstance_run {classId : Identity}
    (run : Runs (allocateInstance classId) context before () after) :
    before.Pushes after (allocationCode classId) [.simple classId, .simple classId] := by
  simp only [allocateInstance, runs_bind, runs_write, runs_push] at run
  obtain ⟨_, _, rfl, _, _, rfl, _, _, rfl, rfl⟩ := run
  exact ⟨(Assembler.writes_newInstance _ _).trans (Assembler.writes_plain _ rfl), rfl⟩

/-- The instruction that runs a constructor. -/
def runningOperation (classId : Identity) (constructor : Constructor) : Operation :=
  .invoke .invokeSpecial classId constructor.id constructor.params.length.toUInt8

theorem runConstructor_run {classId : Identity} {constructor : Constructor}
    {position : Position}
    (run : Runs (runConstructor classId constructor position) context before () after) :
    constructor.params.length < 256 ∧
      before.assembler.Writes after.assembler [runningOperation classId constructor] ∧
      after.stack = before.stack.drop (constructor.params.length + 1) := by
  simp only [runConstructor, runs_bind, runs_accept, byteCount_ok, runs_write,
    runs_remove] at run
  obtain ⟨_, _, ⟨⟨few, rfl⟩, rfl⟩, _, _, rfl, -, rfl⟩ := run
  exact ⟨few, Assembler.writes_invoke _ rfl, rfl⟩

/-- The code of a construction whose operands are loaded by given code. -/
def constructionCode (classId : Identity) (constructor : Constructor)
    (loads : List Operation) : List Operation :=
  allocationCode classId ++ loads ++ [runningOperation classId constructor]

/-- A constructor that gets one value for each parameter leaves the instance. -/
theorem construction_run {classId : Identity} {constructor : Constructor}
    {position : Position} {allocated loaded : LoweringState} {loads : List Operation}
    {types : List ValueType}
    (allocation : before.Pushes allocated (allocationCode classId)
      [.simple classId, .simple classId])
    (loading : allocated.Pushes loaded loads types)
    (count : types.length = constructor.params.length)
    (run : Runs (runConstructor classId constructor position) context loaded () after) :
    constructor.params.length < 256 ∧
      before.Pushes after (constructionCode classId constructor loads)
        [.simple classId] := by
  obtain ⟨few, writes, stack⟩ := runConstructor_run run
  refine ⟨few, (allocation.writes.trans loading.writes).trans writes, ?_⟩
  have enough : constructor.params.length + 1 =
      types.reverse.length + 1 := by rw [List.length_reverse, count]
  rw [stack, loading.stack, allocation.stack, enough, List.drop_append]
  simp

/-! ## Arguments of anonymous classes -/

/-- An argument as it is handed to an anonymous class. -/
def capturedOperand (argument : Operand) : Operand where
  source := argument.source
  load := loadCaptured argument

theorem capturedOperand_steady {argument : Operand}
    (cell : ∀ slot, codes (capturedOperand argument) [.readCell slot] (.simple .reference))
    (plain : ∀ code type, codes argument code type → codes (capturedOperand argument) code type)
    (steady : argument.Steady context codes) :
    (capturedOperand argument).Steady context codes := by
  intro start finish run
  have loads : Runs (loadCaptured argument) context start () finish := run
  have direct : Runs argument.load context start () finish →
      ∃ code type, codes (capturedOperand argument) code type ∧
        start.Pushes finish code [type] := by
    intro same
    obtain ⟨code, type, known, pushed⟩ := steady start finish same
    exact ⟨code, type, plain code type known, pushed⟩
  unfold loadCaptured at loads
  split at loads
  · rename_i source _
    rw [runs_ite] at loads
    split at loads
    · simp only [runs_bind, runs_write, runs_push] at loads
      obtain ⟨_, _, rfl, rfl⟩ := loads
      exact ⟨_, _, cell source.slot, Assembler.writes_getRef _ _, rfl⟩
    · exact direct loads
  · exact direct loads

/-! ## Ways of construction -/

/-- The code of a `new` call and the type of the instance. -/
inductive NewCodes (context : Context) (codes : OperandCodes) (call : NewCall Operand) :
    Construction → List Operation → ValueType → Prop
  | anonymous {constructor loads types} : call.anonymous = true →
      call.anonymousConstructor context.types = .ok constructor →
      constructor.params.length < 256 →
      CodesEach (fun pair : Operand × Param =>
        (capturedOperand pair.1).CodesAs context codes pair.2.type)
        (call.arguments.zip constructor.params) loads types →
      NewCodes context codes call .anonymousSubclass
        (constructionCode call.classId constructor loads) (.simple call.classId)
  | direct {constructor loads types} : call.anonymous = false →
      call.fastConstructor context = .ok (some constructor) →
      constructor.params.length < 256 →
      BindingCodes context codes call.arguments constructor.params loads types →
      NewCodes context codes call .direct
        (constructionCode call.classId constructor loads) (.simple call.classId)
  | site {code} : call.anonymous = false →
      call.fastConstructor context = .ok none →
      SiteCodes context codes (classOperand call.classId) call.arguments {} code →
      NewCodes context codes call .callSite code .object

theorem params_of_anonymousConstructor {call : NewCall Operand} {types : TypeTable}
    {constructor : Constructor} (found : call.anonymousConstructor types = .ok constructor) :
    constructor.params.length = call.arguments.length := by
  unfold NewCall.anonymousConstructor at found
  split at found
  · cases found
  · split at found
    · cases found
    · split at found
      · cases found
        assumption
      · cases found

theorem constructAnonymous_run {call : NewCall Operand}
    (captured : ∀ argument ∈ call.arguments,
      (capturedOperand argument).Steady context codes)
    (run : Runs (constructAnonymous call) context before () after) :
    ∃ constructor loads types, call.anonymousConstructor context.types = .ok constructor ∧
      constructor.params.length < 256 ∧
      CodesEach (fun pair : Operand × Param =>
        (capturedOperand pair.1).CodesAs context codes pair.2.type)
        (call.arguments.zip constructor.params) loads types ∧
      before.Pushes after (constructionCode call.classId constructor loads)
        [.simple call.classId] := by
  simp only [constructAnonymous, runs_bind, runs_read, runs_accept] at run
  obtain ⟨_, _, ⟨rfl, rfl⟩, constructor, _, ⟨found, rfl⟩, _, allocated, allocates, _, loaded,
    loads, runs⟩ := run
  have allocation := allocateInstance_run allocates
  obtain ⟨code, types, each, loading⟩ := pushes_forM
    (fun pair member start finish (single : Runs (loadAs (capturedOperand pair.1) pair.2.type)
      context start () finish) =>
        loadAs_run (captured pair.1 (List.of_mem_zip member).1) single) loads
  have count : types.length = constructor.params.length := by
    rw [each.length_eq, List.length_zip, params_of_anonymousConstructor found, Nat.min_self]
  obtain ⟨few, pushed⟩ := construction_run allocation loading count runs
  exact ⟨constructor, code, types, found, few, each, pushed⟩

theorem lowerNewCall_run {call : NewCall Operand} {way : Construction}
    (literal : codes (classOperand call.classId) [.typed .loadClass call.classId] .metaclass)
    (captured : ∀ argument ∈ call.arguments,
      (capturedOperand argument).Steady context codes)
    (steady : ∀ argument ∈ call.arguments, argument.Steady context codes)
    (run : Runs (lowerNewCall call) context before way after) : ∃ code type,
      NewCodes context codes call way code type ∧ before.Pushes after code [type] := by
  rw [lowerNewCall, runs_bind] at run
  obtain ⟨_, marked, marks, run⟩ := run
  have start := markLine_run marks
  by_cases anonymous : call.anonymous
  · simp only [anonymous, if_true, runs_bind, runs_pure] at run
    obtain ⟨_, _, constructs, rfl, rfl⟩ := run
    obtain ⟨constructor, loads, types, found, few, each, pushed⟩ :=
      constructAnonymous_run captured constructs
    exact ⟨_, _, .anonymous anonymous found few each, start.trans pushed⟩
  · rw [Bool.not_eq_true] at anonymous
    simp only [anonymous, Bool.false_eq_true, if_false, runs_bind, runs_read,
      runs_accept] at run
    obtain ⟨_, _, ⟨rfl, rfl⟩, fast, _, ⟨found, rfl⟩, run⟩ := run
    cases fast with
    | some constructor =>
        simp only [runs_bind, runs_pure] at run
        obtain ⟨_, allocated, allocates, _, loaded, binds, _, _, runs, rfl, rfl⟩ := run
        have allocation := allocateInstance_run allocates
        obtain ⟨loads, types, known, loading⟩ := bindArguments_run steady binds
        obtain ⟨few, pushed⟩ := construction_run allocation loading known.length_eq runs
        exact ⟨_, _, .direct anonymous found few known, start.trans pushed⟩
    | none =>
        simp only [runs_bind, runs_pure] at run
        obtain ⟨_, finished, calls, rfl, rfl⟩ := run
        have called : Runs (callThroughSite (classOperand call.classId) constructorSite
            call.arguments {} call.position) context marked () finished := calls
        obtain ⟨code, known, pushed⟩ :=
          callThroughSite_run (classOperand_steady literal) steady called
        exact ⟨code, .object, .site anonymous found known, start.trans pushed⟩

end CallCode
