import CallCode.Proofs.Lowering.StackEffects
import CallCode.Proofs.Lowering.SwitchPaths
import CallCode.Proofs.Machine.StackSafety

/-!
# Safety of a constructor switch

All arms are entered with the same depth and left with the same depth, which is the
one that the code behind the switch goes on with.
-/

namespace CallCode

variable {types : TypeTable} {pool : ConstantPool} {code : ObjectCode} {sound : Prop}
  {entering leaving : Int}

/-! ## Arms -/

/-- A body leads straight from one depth to another, and if `sound` is the case, it
finds what it takes. -/
def Crosses (types : TypeTable) (pool : ConstantPool) (sound : Prop) (entering leaving : Int)
    (body : List Placed) : Prop :=
  ∃ operations, operations ≠ [] ∧ Performs pool body operations ∧
    (∀ operation ∈ operations, operation.falls = true) ∧
    (sound → Covered types entering operations) ∧
    entering + netChange types operations = leaving

/-- The branch behind an arm is a segment of its own. -/
theorem segment_exit {start finish : Nat} {distance : UInt16} (line : UInt32)
    (leads : LeadsTo finish (start + 3) distance) (enough : sound → 0 ≤ leaving) :
    Segment types pool sound start [⟨exitInstruction distance, line⟩]
      [⟨⟨exitInstruction distance, line⟩, .jump distance, leaving⟩] finish leaving where
  notes := .cons rfl leaving ⟨rfl, by simp⟩
  fed := fun holds => .cons (enough holds) (by simp [Fed])
  flows := by
    rintro point - ending offset spot (⟨rfl, rfl⟩ | none) branch target goes
    · rw [LeadsTo] at leads
      have same : leaving + (Operation.jump distance).change types = leaving :=
        Int.add_zero leaving
      rw [Operation.target?_jump goes, leads, same]
      exact ending
    · exact none.elim

theorem Crosses.segment {start finish : Nat} {distance : UInt16} {body : List Placed}
    (crosses : Crosses types pool sound entering leaving body) (line : UInt32)
    (leads : LeadsTo finish (start + codeSize body + 3) distance)
    (enough : sound → 0 ≤ leaving) :
    ∃ spots, Segment types pool sound start (body ++ [⟨exitInstruction distance, line⟩])
        spots finish leaving ∧
      ∃ spot, Stands start spots start spot ∧ spot.depth = entering := by
  obtain ⟨operations, some, performs, falls, covered, total⟩ := crosses
  have straight : Segment types pool sound start body (spotsOf types entering body operations)
      (start + codeSize body) (entering + netChange types operations) :=
    .straight performs falls covered
  rw [total] at straight
  have exit : Segment types pool sound (start + codeSize body) _ _ finish leaving :=
    segment_exit line leads enough
  refine ⟨_, straight.append exit (.inr ⟨_, .inl ⟨rfl, rfl⟩, rfl⟩), ?_⟩
  cases performs with
  | nil => exact absurd rfl some
  | cons _ _ => exact ⟨_, .inl ⟨rfl, rfl⟩, rfl⟩

/-- Where control comes to from the cases of a switch, of which the first stands at
`entry`, there are spots that are entered with the same depth. -/
def CasesEnter (start entry : Nat) (cases : List SwitchCase) (entering : Int)
    (spots : List Spot) : Prop :=
  ∀ position case, cases[position]? = some case → ∃ spot,
    Stands start spots (entry + 6 + 6 * position + case.distance.toNat) spot ∧
      spot.depth = entering

/-- Arms that all cross between the same depths. -/
theorem ArmsLaid.segment {runs : Candidate → List Placed → Prop}
    {finish item start entry : Nat} {arms : List Candidate} {cases : List SwitchCase}
    {labels : List Label} {placed : List Placed}
    (laid : ArmsLaid runs (LeadsTo finish) item start entry arms cases labels placed)
    (enough : sound → 0 ≤ leaving)
    (bodies : ∀ candidate ∈ arms, ∀ body, runs candidate body →
      Crosses types pool sound entering leaving body) :
    ∃ spots, Segment types pool sound start placed spots finish leaving ∧
      CasesEnter start entry cases entering spots := by
  induction laid with
  | nil =>
      refine ⟨[], ⟨⟨rfl, by simp⟩, by simp [Fed], ?_⟩, by simp [CasesEnter]⟩
      exact fun _ _ _ _ _ stands => stands.elim
  | @cons item start entry candidate body line exit distance rest cases labels placed running
      reaches leads _ ih =>
      obtain ⟨others, othersSegment, othersEnter⟩ :=
        ih fun other member => bodies other (List.mem_cons_of_mem _ member)
      obtain ⟨spots, segment, first, stands, depth⟩ :=
        (bodies candidate List.mem_cons_self body running).segment line leads enough
      have size : codeSize (body ++ [⟨exitInstruction exit, line⟩]) = codeSize body + 3 := by
        rw [codeSize_append]
        rfl
      rw [Nat.add_assoc, ← size] at othersSegment othersEnter
      refine ⟨spots ++ others, ?_, ?_⟩
      · have joined := segment.join othersSegment
        rwa [List.append_assoc, List.singleton_append] at joined
      · rintro (_ | position) case found
        · obtain rfl : ⟨candidate.key, distance⟩ = case := by simpa using found
          rw [Nat.mul_zero, Nat.add_zero, reaches]
          exact ⟨first, stands_append.mpr (.inl stands), depth⟩
        · obtain ⟨spot, later, same⟩ := othersEnter position case (by simpa using found)
          refine ⟨spot, stands_append.mpr (.inr ?_), same⟩
          have shift : entry + 6 + 6 + 6 * position = entry + 6 + 6 * (position + 1) := by
            omega
          rw [segment.notes.size_eq, ← shift]
          exact later

/-! ## The switch -/

/-- A switch whose branches all lead to spots behind it. -/
theorem Segment.switch {start exit : Nat} {final : Int} {fallback : UInt16}
    {cases : List SwitchCase} {placed : List Placed} {spots : List Spot} {spot : Spot}
    (behind : Segment types pool sound (start + 5 + 6 * cases.length) placed spots exit final)
    (few : cases.length < 65536) (line : UInt32) (enough : sound → 0 ≤ entering)
    (enters : CasesEnter (start + 5 + 6 * cases.length) (start + 5) cases entering spots)
    (falls : Stands (start + 5 + 6 * cases.length) spots (start + 5 + fallback.toNat) spot)
    (depth : spot.depth = entering) :
    Segment types pool sound start (⟨switchInstruction fallback cases, line⟩ :: placed)
      (⟨⟨switchInstruction fallback cases, line⟩, .lookupSwitch fallback cases,
        entering + 1⟩ :: spots) exit final := by
  have switches : (switchInstruction fallback cases).operation? pool =
      some (.lookupSwitch fallback cases) := by
    simp [Instruction.operation?, switchInstruction, few]
  have width : start + (switchInstruction fallback cases).size =
      start + 5 + 6 * cases.length := by
    simp [switchInstruction, Instruction.size, Operands.size]
    omega
  have takes : entering + 1 + (Operation.lookupSwitch fallback cases).change types =
      entering := Int.add_neg_cancel_right entering 1
  refine ⟨.cons switches _ behind.notes, ?_, ?_⟩
  · intro holds
    have positive := enough holds
    have one : ((1 : Nat) : Int) ≤ entering + 1 := by omega
    exact .cons one (behind.fed holds)
  · intro point inside ending
    have insideBehind : ∀ offset spot,
        Stands (start + 5 + 6 * cases.length) spots offset spot → point offset spot.depth := by
      intro offset spot stands
      rw [← width] at stands
      exact inside offset spot (.inr stands)
    rintro offset other (⟨rfl, rfl⟩ | later) branch target goes
    · rw [takes]
      rcases Operation.target?_lookupSwitch goes with rfl | ⟨position, case, found, rfl⟩
      · rw [← depth]
        exact insideBehind _ _ falls
      · obtain ⟨spot, stands, same⟩ := enters position case found
        rw [← same]
        exact insideBehind _ _ stands
    · have stands : Stands (start + (switchInstruction fallback cases).size) spots offset
          other := later
      rw [width] at stands
      exact behind.flows point insideBehind ending offset other stands branch target goes

theorem segment_fatal {fatal : List Placed} {message : ByteArray} {start exit : Nat}
    {final : Int} (raises : Performs pool fatal [.raiseFatal message])
    (enough : sound → 0 ≤ entering) :
    ∃ spot, Segment types pool sound start fatal [spot] exit final ∧
      spot.depth = entering := by
  cases raises with
  | @cons item _ _ _ known rest =>
      obtain rfl := List.forall₂_nil_right_iff.mp rest
      refine ⟨⟨item, .raiseFatal message, entering⟩, ⟨.cons known _ ⟨rfl, by simp⟩, ?_, ?_⟩, rfl⟩
      · exact fun holds => .cons (enough holds) (by simp [Fed])
      · rintro point - - offset spot (⟨-, rfl⟩ | none) branch target goes
        · rw [Operation.target?_raiseFatal] at goes
          cases goes
        · exact none.elim

section Whole

variable {context : Context} {classId : Identity} {arms : List Candidate}
  {entrance placed : List Placed} {operations : List Operation} {start : Nat} {base : Int}

/-- The number of values that a switch leaves. -/
def switchGain (inConstructor : Bool) : Nat := if inConstructor then 0 else 1

theorem crosses_arm {candidate : Candidate} {body : List Placed}
    (known : context.types.IdentifiesConstructor candidate.constructor)
    (small : pool.size ≤ maxConstants)
    (lowered : LoweredArm context classId pool candidate body) (enough : sound → 0 ≤ base) :
    Crosses context.types pool sound (base + 2)
      (base + 1 + switchGain context.frame.isConstructor) body := by
  obtain ⟨few, performs⟩ := lowered
  have effect : Effect context.types (armCode context classId candidate) 2 _ :=
    effect_arm known few
  have none : missingReceivers context.types (armCode context classId candidate) = 0 :=
    missingReceivers_arm known
  refine ⟨armCode context classId candidate, by simp [armCode],
    performs.performs pool (.refl pool) small, effect.straight, ?_, ?_⟩
  · intro holds
    have positive := enough holds
    exact (effect.covered none).mono (by omega)
  · rw [effect.net, none, switchGain]
    split <;> omega

/-- The code that drops the vector ends with what the switch leaves. -/
theorem segment_dropping (types : TypeTable) {drops : List Placed} {inConstructor : Bool}
    (start : Nat) (performs : Performs pool drops (droppingCode inConstructor))
    (enough : sound → 0 ≤ base) :
    ∃ spots, Segment types pool sound start drops spots (start + codeSize drops)
        (base + switchGain inConstructor) ∧
      Lands start (start + codeSize drops) (base + switchGain inConstructor) spots start
        (base + 1 + switchGain inConstructor) := by
  have effect : Effect types (droppingCode inConstructor) _ (-1) :=
    effect_dropping inConstructor
  have none : missingReceivers types (droppingCode inConstructor) = 0 :=
    missingReceivers_dropping inConstructor
  have leaves : base + 1 + switchGain inConstructor +
      netChange types (droppingCode inConstructor) = base + switchGain inConstructor := by
    rw [effect.net, none]
    omega
  rw [← leaves]
  refine ⟨_, .straight performs effect.straight ?_, entry_spotsOf performs start _⟩
  intro holds
  have positive := enough holds
  refine (effect.covered none).mono ?_
  unfold switchGain
  split <;> omega

/-- A switch takes the key and goes on with the other values in front of it. -/
theorem SwitchLaid.segment
    (laid : SwitchLaid context classId arms pool start placed)
    (known : ∀ candidate ∈ arms, context.types.IdentifiesConstructor candidate.constructor)
    (small : pool.size ≤ maxConstants) (enough : sound → 0 ≤ base) :
    ∃ spots, Segment context.types pool sound start placed spots (start + codeSize placed)
        (base + switchGain context.frame.isConstructor) ∧
      ∃ spot, Stands start spots start spot ∧ spot.depth = base + 3 := by
  cases laid with
  | @lay line fallback cases labels item placed fatal drops some few armsLaid falls raises
      dropped =>
      have atEntry : sound → 0 ≤ base + 2 := by
        intro holds
        have positive := enough holds
        omega
      have atExit : sound → 0 ≤ base + 1 + switchGain context.frame.isConstructor := by
        intro holds
        have positive := enough holds
        omega
      obtain ⟨armSpots, armSegment, enters⟩ := armsLaid.segment atExit
        fun candidate member _ lowered =>
          crosses_arm (known candidate member) small lowered enough
      obtain ⟨raise, raiseSegment, raiseDepth⟩ :=
        segment_fatal (raises.performs pool (.refl pool) small) atEntry
      have dropping := dropped.performs pool (.refl pool) small
      obtain ⟨drop, dropSegment, dropEnters⟩ := segment_dropping context.types
        (start + 5 + 6 * cases.length + codeSize (placed ++ fatal)) dropping enough
      have size : start + 5 + 6 * cases.length + codeSize placed + codeSize fatal =
          start + 5 + 6 * cases.length + codeSize (placed ++ fatal) := by
        rw [codeSize_append, Nat.add_assoc]
      have ahead := armSegment.join raiseSegment
      rw [size] at ahead
      have behind := ahead.append dropSegment dropEnters
      have entersBehind : CasesEnter (start + 5 + 6 * cases.length) (start + 5) cases
          (base + 2) (armSpots ++ [raise] ++ drop) := by
        intro position case found
        obtain ⟨spot, stands, depth⟩ := enters position case found
        exact ⟨spot, stands_append.mpr (.inl (stands_append.mpr (.inl stands))), depth⟩
      have fallsBehind : Stands (start + 5 + 6 * cases.length) (armSpots ++ [raise] ++ drop)
          (start + 5 + fallback.toNat) raise := by
        refine stands_append.mpr (.inl (stands_append.mpr (.inr (.inl ⟨?_, rfl⟩))))
        rw [falls, armSegment.notes.size_eq]
      have whole := behind.switch few line atEntry entersBehind fallsBehind raiseDepth
      have finish : start + codeSize (⟨switchInstruction fallback cases, line⟩ :: placed ++
          fatal ++ drops) = start + 5 + 6 * cases.length + codeSize (placed ++ fatal) +
            codeSize drops := by
        simp [switchInstruction, Instruction.size, Operands.size]
        omega
      rw [finish]
      exact ⟨_, whole, _, Or.inl ⟨rfl, rfl⟩, Int.add_assoc base 2 1⟩

/-- The switch comes to the end of the code by its first arm. -/
theorem SwitchLaid.ends {first : Candidate}
    (laid : SwitchLaid context classId arms pool start placed)
    (known : ∀ candidate ∈ arms, context.types.IdentifiesConstructor candidate.constructor)
    (some : arms[0]? = some first) (small : pool.size ≤ maxConstants)
    (located : code.Located start placed) (base : Int) :
    (depthMachine context.types).Reaches pool code (start, base + 3)
      (start + codeSize placed, base + switchGain context.frame.isConstructor) := by
  have member := List.mem_of_getElem? some
  have arm : Effect context.types (armCode context classId first) 2 _ :=
    effect_arm (known first member) (laid.few first member)
  have none : missingReceivers context.types (armCode context classId first) = 0 :=
    missingReceivers_arm (known first member)
  have drop : Effect context.types (droppingCode context.frame.isConstructor) _ (-1) :=
    effect_dropping _
  have total : base + 2 + (if context.frame.isConstructor then -1 else 0) + -1 =
      base + switchGain context.frame.isConstructor := by
    unfold switchGain
    split <;> omega
  rw [← total]
  refine laid.reaches_case small located some ?_ (arm.executes none (base + 2)) ?_
    (drop.executes (missingReceivers_dropping _) _)
  · intro fallback cases _
    have takes : (Operation.lookupSwitch fallback cases).change context.types = -1 := rfl
    rw [depthMachine, takes]
    omega
  · exact fun distance => (Int.add_zero _).symm

/-- A switch behind straight code, which leaves `extra` values below the vector, the
instance and the key, is safe exactly if that code misses no receiver. -/
theorem SwitchLaid.stackSafe_iff {first : Candidate} {extra : Nat}
    (laid : SwitchLaid context classId arms pool (start + codeSize entrance) placed)
    (known : ∀ candidate ∈ arms, context.types.IdentifiesConstructor candidate.constructor)
    (some : arms[0]? = some first)
    (small : pool.size ≤ maxConstants) (performs : Performs pool entrance operations)
    (effect : Effect context.types operations 0 (extra + 3))
    (located : code.Located start (entrance ++ placed))
    (bounded : code.instructionAt (start + codeSize (entrance ++ placed)) = none) :
    StackSafe context.types pool code start (start + codeSize (entrance ++ placed))
        (extra + switchGain context.frame.isConstructor) ↔
      missingReceivers context.types operations = 0 := by
  generalize missing : missingReceivers context.types operations = missed
  have net : 0 + netChange context.types operations = (extra - missed : Int) + 3 := by
    rw [effect.net, missing]
    omega
  have gain : ((extra : Int) + switchGain context.frame.isConstructor) - missed =
      (extra - missed : Int) + switchGain context.frame.isConstructor := by
    omega
  have size : start + codeSize (entrance ++ placed) =
      start + codeSize entrance + codeSize placed := by
    rw [codeSize_append, Nat.add_assoc]
  have enough : missed = 0 → 0 ≤ (extra - missed : Int) := by omega
  obtain ⟨spots, behind, spot, stands, depth⟩ := laid.segment known small enough
  have front : Segment context.types pool (missed = 0) start entrance
      (spotsOf context.types 0 entrance operations) (start + codeSize entrance)
      (0 + netChange context.types operations) :=
    .straight performs effect.straight fun clean => effect.covered (missing.trans clean)
  have enters : Lands (start + codeSize entrance)
      (start + codeSize entrance + codeSize placed)
      ((extra - missed : Int) + switchGain context.frame.isConstructor) spots
      (start + codeSize entrance) (0 + netChange context.types operations) :=
    .inr ⟨spot, stands, depth.trans net.symm⟩
  have whole := front.append behind enters
  have entry := Segment.lands_append front.notes (entry_spotsOf performs start 0) enters
  have executes : (depthMachine context.types).Executes operations 0
      (0 + netChange context.types operations) := executes_straight effect.straight 0
  have both := (ObjectCode.located_append _ _ _ _).mp located
  have through := executes.reaches both.1 performs
  rw [net] at through
  have ends := through.trans (laid.ends known some small both.2 _)
  rw [← size, ← gain] at whole entry ends
  exact (whole.chart entry located bounded).stackSafe_iff ends whole.fed

end Whole

end CallCode
