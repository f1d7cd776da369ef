import CallCode.Proofs.Lowering.SwitchLayout
import CallCode.Proofs.Machine.Control

/-!
# Paths through a constructor switch

Whatever machine executes the code, from the switch it comes to an arm by the case of
the same position, then to the end of the arms and through the code that drops the
vector.  By the fallback it comes to the fatal error.
-/

namespace CallCode

/-- An arm of a switch: its case leads to its body, and the branch behind the body
satisfies `exits`. -/
structure ArmFound (runs : Candidate → List Placed → Prop) (exits : Nat → UInt16 → Prop)
    (code : ObjectCode) (entry position : Nat) (cases : List SwitchCase)
    (candidate : Candidate) (case : SwitchCase) (body : List Placed) (exit : UInt16) :
    Prop where
  found : cases[position]? = some case
  lowered : runs candidate body
  located : code.Located (entry + 6 + 6 * position + case.distance.toNat) body
  leaves : code.instructionAt
    (entry + 6 + 6 * position + case.distance.toNat + codeSize body) =
      some (exitInstruction exit)
  exits : exits (entry + 6 + 6 * position + case.distance.toNat + codeSize body + 3) exit

namespace ArmsLaid

variable {runs : Candidate → List Placed → Prop} {exits : Nat → UInt16 → Prop}
  {item start entry : Nat} {arms : List Candidate} {cases : List SwitchCase}
  {labels : List Label} {placed : List Placed}

theorem keys (laid : ArmsLaid runs exits item start entry arms cases labels placed) :
    cases.map (·.key) = arms.map (·.key) := by
  induction laid with
  | nil => rfl
  | cons _ _ _ _ ih => simp [ih]

theorem runs_of_mem (laid : ArmsLaid runs exits item start entry arms cases labels placed)
    {candidate : Candidate} (member : candidate ∈ arms) : ∃ body, runs candidate body := by
  induction laid with
  | nil => cases member
  | cons running _ _ _ ih =>
      cases member with
      | head => exact ⟨_, running⟩
      | tail _ member => exact ih member

theorem allows {allowed : Operation → Prop} {pool : ConstantPool}
    (laid : ArmsLaid runs exits item start entry arms cases labels placed)
    (bodies : ∀ candidate ∈ arms, ∀ body, runs candidate body → Allows allowed pool body)
    (jumps : ∀ distance, allowed (.jump distance)) : Allows allowed pool placed := by
  induction laid with
  | nil => simp [Allows]
  | cons running _ _ _ ih =>
      have rest := ih fun candidate member => bodies candidate (List.mem_cons_of_mem _ member)
      exact (bodies _ List.mem_cons_self _ running).append (.cons rfl (jumps _) rest)

theorem arm_at (laid : ArmsLaid runs exits item start entry arms cases labels placed)
    {code : ObjectCode} (located : code.Located start placed) {position : Nat}
    {candidate : Candidate} (present : arms[position]? = some candidate) :
    ∃ case body exit,
      ArmFound runs exits code entry position cases candidate case body exit := by
  induction laid generalizing position with
  | nil => simp at present
  | @cons item start entry first body line exit distance rest cases labels placed running
      reaches leaves _ ih =>
      rw [ObjectCode.located_append] at located
      obtain ⟨bodyLocated, exitLocated, restLocated⟩ := located
      cases position with
      | zero =>
          obtain rfl : first = candidate := by simpa using present
          refine ⟨⟨first.key, distance⟩, body, exit, rfl, running, ?_, ?_, ?_⟩
          · rw [Nat.mul_zero, Nat.add_zero, reaches]
            exact bodyLocated
          · rw [Nat.mul_zero, Nat.add_zero, reaches]
            exact exitLocated
          · rw [Nat.mul_zero, Nat.add_zero, reaches]
            exact leaves
      | succ position =>
          have following : code.Located (start + codeSize body + 3) placed := restLocated
          obtain ⟨case, body, exit, arm⟩ :=
            ih following (by simpa using present)
          have shift : entry + 6 + 6 + 6 * position = entry + 6 + 6 * (position + 1) := by
            omega
          refine ⟨case, body, exit, by simpa using arm.found, arm.lowered, ?_, ?_, ?_⟩
          · rw [← shift]
            exact arm.located
          · rw [← shift]
            exact arm.leaves
          · rw [← shift]
            exact arm.exits

end ArmsLaid

namespace SwitchLaid

variable {State : Type} {machine : Machine State} {context : Context} {classId : Identity}
  {arms : List Candidate} {pool : ConstantPool} {code : ObjectCode} {offset : Nat}
  {placed : List Placed}

theorem first (laid : SwitchLaid context classId arms pool offset placed) :
    ∃ candidate, arms[0]? = some candidate := by
  cases laid with
  | lay some _ _ _ _ _ =>
      cases arms with
      | nil => exact absurd rfl some
      | cons candidate rest => exact ⟨candidate, rfl⟩

theorem few (laid : SwitchLaid context classId arms pool offset placed) :
    ∀ candidate ∈ arms, candidate.constructor.params.length < 256 := by
  intro candidate member
  cases laid with
  | lay _ _ armsLaid _ _ _ =>
      obtain ⟨body, lowered⟩ := armsLaid.runs_of_mem member
      exact lowered.1

/-- What a switch does apart from its arms: it branches, raises the fatal error and drops
the vector. -/
inductive SwitchOperation (inConstructor : Bool) : Operation → Prop
  | branch {fallback cases} : SwitchOperation inConstructor (.lookupSwitch fallback cases)
  | exit {distance} : SwitchOperation inConstructor (.jump distance)
  | fail {message} : SwitchOperation inConstructor (.raiseFatal message)
  | drop {operation} : operation ∈ droppingCode inConstructor →
      SwitchOperation inConstructor operation

theorem allows {allowed : Operation → Prop}
    (laid : SwitchLaid context classId arms pool offset placed)
    (small : pool.size ≤ maxConstants)
    (bodies : ∀ candidate ∈ arms, ∀ operation ∈ armCode context classId candidate,
      allowed operation)
    (others : ∀ operation, SwitchOperation context.frame.isConstructor operation →
      allowed operation) : Allows allowed pool placed := by
  cases laid with
  | @lay line fallback cases labels item placed fatal drops some few armsLaid falls raises
      dropped =>
      have switches : (switchInstruction fallback cases).operation? pool =
          Option.some (.lookupSwitch fallback cases) := by
        simp [Instruction.operation?, switchInstruction, few]
      have arms : Allows allowed pool placed :=
        armsLaid.allows (fun candidate member body lowered =>
          .of_performs (lowered.2.performs pool (.refl pool) small) (bodies candidate member))
          fun _ => others _ .exit
      have raise : Allows allowed pool fatal := by
        refine .of_performs (raises.performs pool (.refl pool) small) ?_
        simpa using others _ .fail
      have drop : Allows allowed pool drops :=
        .of_performs (dropped.performs pool (.refl pool) small)
          fun operation member => others operation (.drop member)
      exact ((Allows.cons switches (others _ .branch) arms).append raise).append drop

theorem wellShaped (laid : SwitchLaid context classId arms pool offset placed)
    (small : pool.size ≤ maxConstants) : ∀ item ∈ placed, item.instruction.WellShaped :=
  (laid.allows small (fun _ _ _ _ => trivial) fun _ _ => trivial).wellShaped

/-- The switch sends control to an arm, which comes to the end of all the code. -/
theorem reaches_case (laid : SwitchLaid context classId arms pool offset placed)
    (small : pool.size ≤ maxConstants) (located : code.Located offset placed)
    {position : Nat} {candidate : Candidate} (present : arms[position]? = some candidate)
    {state entered ran left final : State}
    (chooses : ∀ fallback cases, cases.map (·.key) = arms.map (·.key) →
      machine (.lookupSwitch fallback cases) (some (.case position)) state entered)
    (runs : machine.Executes (armCode context classId candidate) entered ran)
    (leaves : ∀ distance, machine (.jump distance) (some .jump) ran left)
    (drops : machine.Executes (droppingCode context.frame.isConstructor) left final) :
    machine.Reaches pool code (offset, state) (offset + codeSize placed, final) := by
  cases laid with
  | @lay line fallback cases labels item placed fatal dropping some few armsLaid _ _ dropped =>
      simp only [List.cons_append, ObjectCode.Located, ObjectCode.located_append] at located
      obtain ⟨switched, ⟨armsLocated, fatalLocated⟩, dropsLocated⟩ := located
      have width : (switchInstruction fallback cases).size = 5 + 6 * cases.length := by
        simp [switchInstruction, Instruction.size, Operands.size]
        omega
      simp only [width, ← Nat.add_assoc] at armsLocated dropsLocated
      obtain ⟨case, body, exit, arm⟩ := armsLaid.arm_at armsLocated present
      have within : pool.Within pool := .refl pool
      have bodyPerforms := arm.lowered.2.performs pool within small
      have dropsPerform := dropped.performs pool within small
      have switches : (switchInstruction fallback cases).operation? pool =
          Option.some (.lookupSwitch fallback cases) := by
        simp [Instruction.operation?, switchInstruction, few]
      have enters : (Operation.lookupSwitch fallback cases).target? offset
          (switchInstruction fallback cases).size (Option.some (.case position)) =
          Option.some (offset + 5 + 6 + 6 * position + case.distance.toNat) := by
        simp only [Operation.target?, arm.found, Option.map_some]
      have jumps : (exitInstruction exit).operation? pool = Option.some (.jump exit) := rfl
      have start := Relation.ReflTransGen.single
        (Machine.Step.execute switched switches (chooses fallback cases armsLaid.keys) enters)
      have through := runs.reaches arm.located bodyPerforms
      have exitStep := Relation.ReflTransGen.single
        (Machine.Step.execute arm.leaves jumps (leaves exit) rfl)
      have lands := arm.exits
      rw [LeadsTo] at lands
      rw [lands] at exitStep
      have finish := drops.reaches dropsLocated dropsPerform
      have total : offset + codeSize (⟨switchInstruction fallback cases, line⟩ :: placed ++
          fatal ++ dropping) = offset + 5 + 6 * cases.length + codeSize placed +
            codeSize fatal + codeSize dropping := by
        simp only [codeSize_append, codeSize_cons, List.cons_append, width]
        omega
      rw [total]
      simp only [codeSize_append, ← Nat.add_assoc] at finish
      exact ((start.trans through).trans exitStep).trans finish

/-- The fallback of the switch sends control to the fatal error. -/
theorem reaches_fallback (laid : SwitchLaid context classId arms pool offset placed)
    (small : pool.size ≤ maxConstants) (located : code.Located offset placed)
    {state entered : State}
    (chooses : ∀ fallback cases, cases.map (·.key) = arms.map (·.key) →
      machine (.lookupSwitch fallback cases) (some .fallback) state entered) :
    ∃ fatal instruction,
      machine.Reaches pool code (offset, state) (fatal, entered) ∧
      code.instructionAt fatal = some instruction ∧
      instruction.operation? pool =
        some (.raiseFatal incompatibleClassMessage.toUTF8) := by
  cases laid with
  | @lay line fallback cases labels item placed fatal dropping some few armsLaid falls raises
      _ =>
      simp only [List.cons_append, ObjectCode.Located, ObjectCode.located_append] at located
      obtain ⟨switched, ⟨_, fatalLocated⟩, _⟩ := located
      have width : (switchInstruction fallback cases).size = 5 + 6 * cases.length := by
        simp [switchInstruction, Instruction.size, Operands.size]
        omega
      have raisePerforms := raises.performs pool (.refl pool) small
      cases raisePerforms with
      | @cons raising _ _ _ known rest =>
          have switches : (switchInstruction fallback cases).operation? pool =
              Option.some (.lookupSwitch fallback cases) := by
            simp [Instruction.operation?, switchInstruction, few]
          have step := Machine.Step.execute switched switches
            (chooses fallback cases armsLaid.keys) rfl
          rw [falls] at step
          refine ⟨_, raising.instruction, .single step, ?_, known⟩
          have here := fatalLocated.1
          simpa only [width, ← Nat.add_assoc] using here

end SwitchLaid

end CallCode
