import CallCode.Proofs.Lowering.SwitchLayout
import CallCode.Proofs.Machine.Symbols

/-!
# The symbols of a constructor switch

How long the branches of a switch are depends on the widths of the instructions between
them.  Which instructions they lead to depends on nothing but the arms.
-/

namespace CallCode

/-- The number of instructions of some arms, each with its branch. -/
def armsLength (code : Candidate → List Operation) : List Candidate → Nat
  | [] => 0
  | candidate :: arms => (code candidate).length + 1 + armsLength code arms

/-- Arms that all leave for the instruction of a number. -/
def armSymbols (code : Candidate → List Operation) (finish : Nat) :
    List Candidate → List Symbol
  | [] => []
  | candidate :: arms =>
      (code candidate).map .operation ++ .jump (some finish) :: armSymbols code finish arms

/-- Where the cases of a switch lead, whose first arm starts with the instruction of a
number. -/
def armTargets (code : Candidate → List Operation) :
    Nat → List Candidate → List (Int32 × Option Nat)
  | _, [] => []
  | first, candidate :: arms =>
      (candidate.key, some first) :: armTargets code (first + (code candidate).length + 1) arms

/-- A switch that is the instruction of a number, and what stands behind it. -/
def switchSymbols (context : Context) (classId : Identity) (number : Nat)
    (arms : List Candidate) : List Symbol :=
  let code := armCode context classId
  let fatal := number + 1 + armsLength code arms
  .lookupSwitch (some fatal) (armTargets code (number + 1) arms) ::
    armSymbols code (fatal + 1) arms ++
    .operation (.raiseFatal incompatibleClassMessage.toUTF8) ::
      (droppingCode context.frame.isConstructor).map .operation

theorem slot?_of_mem_armSymbols {code : Candidate → List Operation} {finish : Nat}
    {arms : List Candidate} {symbol : Symbol} (member : symbol ∈ armSymbols code finish arms) :
    symbol.slot? = none := by
  induction arms with
  | nil => cases member
  | cons candidate arms ih =>
      rcases List.mem_append.mp member with runs | leaves
      · obtain ⟨operation, -, rfl⟩ := List.mem_map.mp runs
        rfl
      · rcases List.mem_cons.mp leaves with rfl | rest
        · rfl
        · exact ih rest

theorem slot?_of_mem_switchSymbols {context : Context} {classId : Identity} {number : Nat}
    {arms : List Candidate} {symbol : Symbol}
    (member : symbol ∈ switchSymbols context classId number arms) : symbol.slot? = none := by
  rcases List.mem_append.mp member with front | behind
  · rcases List.mem_cons.mp front with rfl | runs
    · rfl
    · exact slot?_of_mem_armSymbols runs
  · rcases List.mem_cons.mp behind with rfl | drops
    · rfl
    · obtain ⟨operation, -, rfl⟩ := List.mem_map.mp drops
      rfl

/-! ## Arms have no locals -/

section Fixed

variable {types : TypeTable}

theorem isFixed_ofInt (value : Int64) : (Operation.ofInt value).isFixed = true := by
  unfold Operation.ofInt
  split
  · rfl
  · split <;> rfl

theorem isFixed_coercionCode (source target : ValueType) :
    ∀ operation ∈ coercionCode types source target, operation.isFixed = true := by
  unfold coercionCode boxingCode
  split
  · simp
  · split <;> split <;> simp [Operation.isFixed]

theorem isFixed_elementCode (position : Nat) (type : ValueType) :
    ∀ operation ∈ elementCode types position type, operation.isFixed = true := by
  intro operation member
  simp only [elementCode, List.mem_append, List.mem_cons, List.not_mem_nil, or_false] at member
  rcases member with ((rfl | rfl | rfl) | converts) | rfl
  · rfl
  · exact isFixed_ofInt _
  · rfl
  · exact isFixed_coercionCode _ _ operation converts
  · rfl

theorem isFixed_unpackingCode (position : Nat) (params : List Param) :
    ∀ operation ∈ unpackingCode types position params, operation.isFixed = true := by
  induction params generalizing position with
  | nil => simp [unpackingCode, Operation.isFixed]
  | cons param params ih =>
      have element : ∀ operation ∈ elementCode types position param.type,
          operation.isFixed = true := isFixed_elementCode position param.type
      cases params with
      | nil =>
          rw [unpackingCode]
          split
          · rw [remainderCode, List.forall_mem_cons]
            exact ⟨isFixed_ofInt _, by simp [Operation.isFixed]⟩
          · exact List.forall_mem_append.mpr ⟨element, by simp [Operation.isFixed]⟩
      | cons second params =>
          rw [unpackingCode]
          · exact List.forall_mem_append.mpr ⟨element, ih _⟩
          · simp

theorem isFixed_armCode (context : Context) (classId : Identity) (candidate : Candidate) :
    ∀ operation ∈ armCode context classId candidate, operation.isFixed = true := by
  have arranges : ∀ operation ∈ arrangementCode context.frame.isConstructor,
      operation.isFixed = true := by
    cases context.frame.isConstructor <;> simp [arrangementCode, Operation.isFixed]
  intro operation member
  simp only [armCode, List.mem_append, List.mem_singleton] at member
  rcases member with (arranged | unpacked) | rfl
  · exact arranges operation arranged
  · exact isFixed_unpackingCode _ _ operation unpacked
  · rfl

theorem isFixed_droppingCode (inConstructor : Bool) :
    ∀ operation ∈ droppingCode inConstructor, operation.isFixed = true := by
  cases inConstructor <;> simp [droppingCode, Operation.isFixed]

end Fixed

/-! ## Arms -/

namespace ArmsLaid

variable {context : Context} {classId : Identity} {pool : ConstantPool}
  {exits : Nat → UInt16 → Prop} {item start entry : Nat} {arms : List Candidate}
  {cases : List SwitchCase} {labels : List Label} {placed : List Placed} {starts : List Nat}

theorem length_placed (laid : ArmsLaid (LoweredArm context classId pool) exits item start entry
    arms cases labels placed) : placed.length = armsLength (armCode context classId) arms := by
  induction laid with
  | nil => rfl
  | cons running _ _ _ ih =>
      rw [List.length_append, List.length_cons, ih, running.2.spells.length_eq, armsLength]
      omega

/-- A case leads to the first instruction of its arm. -/
theorem caseTargets_eq {first : Nat} (laid : ArmsLaid (LoweredArm context classId pool) exits
    item start entry arms cases labels placed) (numbered : Numbered starts start first placed) :
    caseTargets starts entry cases = armTargets (armCode context classId) first arms := by
  induction laid generalizing first with
  | nil => rfl
  | @cons item start entry candidate body line exit distance rest cases labels placed running
      reaches _ _ ih =>
      have others : Numbered starts (start + codeSize body + 3) (first + body.length + 1)
          placed := numbered.right.tail
      rw [caseTargets, reaches, numbered.here, ih others, running.2.spells.length_eq, armTargets]

theorem spelled {code : ObjectCode} {finish ending : Nat}
    (laid : ArmsLaid (LoweredArm context classId pool) (LeadsTo finish) item start entry arms
      cases labels placed)
    (small : pool.size ≤ maxConstants) (ends : starts.idxOf? finish = some ending)
    (located : code.Located start placed) :
    code.Spelled pool starts start placed
      (armSymbols (armCode context classId) ending arms) := by
  induction laid with
  | nil => exact .nil
  | @cons item start entry candidate body line exit distance rest cases labels placed running _
      leads _ ih =>
      obtain ⟨inBody, here, following⟩ := (code.located_append start body _).mp located
      have performs := running.2.performs pool (.refl pool) small
      have arm : code.Spelled pool starts start body _ :=
        ObjectCode.spelled_fixed inBody performs (isFixed_armCode context classId candidate)
      have known : (exitInstruction exit).operation? pool = some (.jump exit) := rfl
      have leaves := ObjectCode.Spelled.cons here known (ih following)
      rw [Operation.symbol, leads, ends] at leaves
      exact arm.append leaves

end ArmsLaid

/-! ## The whole switch -/

/-- The symbols of a switch depend on the number of its first instruction and on its arms. -/
theorem SwitchLaid.spelled {context : Context} {classId : Identity} {pool : ConstantPool}
    {code : ObjectCode} {offset number : Nat} {arms : List Candidate} {placed : List Placed}
    {starts : List Nat} (laid : SwitchLaid context classId arms pool offset placed)
    (small : pool.size ≤ maxConstants) (located : code.Located offset placed)
    (numbered : Numbered starts offset number placed) :
    code.Spelled pool starts offset placed (switchSymbols context classId number arms) := by
  cases laid with
  | @lay line fallback cases labels item placed fatal drops _ few laid reaches raises dropping =>
      have width : offset + (switchInstruction fallback cases).size =
          offset + 5 + 6 * cases.length := by
        simp [switchInstruction, Instruction.size, Operands.size]
        omega
      have known : (switchInstruction fallback cases).operation? pool =
          some (.lookupSwitch fallback cases) := by
        simp [switchInstruction, Instruction.operation?, few]
      have count := laid.length_placed
      have single : fatal.length = 1 := raises.spells.length_eq
      -- the parts of the switch in the order of the code
      obtain ⟨inFront, inDrops⟩ := (code.located_append offset _ drops).mp located
      obtain ⟨inArms, inFatal⟩ := (code.located_append offset _ fatal).mp inFront
      obtain ⟨here, following⟩ := inArms
      have armed := numbered.left.left.tail
      have falls := armed.behind
      have leaves := numbered.left.right.behind
      rw [codeSize_cons, ← Nat.add_assoc] at leaves
      simp only [width] at following armed falls leaves
      rw [count] at falls
      rw [List.length_cons, count, single, ← Nat.add_assoc, Nat.add_right_comm number] at leaves
      have arms := laid.spelled small leaves following
      rw [← width] at arms
      have front := ObjectCode.Spelled.cons here known arms
      rw [Operation.symbol, reaches, falls, laid.caseTargets_eq armed] at front
      have raising : code.Spelled pool starts _ fatal _ := ObjectCode.spelled_fixed inFatal
        (raises.performs pool (.refl pool) small) (by simp [Operation.isFixed])
      have drop : code.Spelled pool starts _ drops _ := ObjectCode.spelled_fixed inDrops
        (dropping.performs pool (.refl pool) small) (isFixed_droppingCode _)
      have whole := (front.append raising).append drop
      rw [switchSymbols]
      simpa using whole

end CallCode
