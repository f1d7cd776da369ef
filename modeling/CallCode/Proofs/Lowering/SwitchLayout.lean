import CallCode.Proofs.Lowering.ConstructorChain

/-!
# The layout of a constructor switch

The arms of a switch stand behind it in the order of its cases, and each ends in a
branch to the end of the arms.  Branches are placed before their targets are known.
The distances that are filled in later lead from each case to the start of its arm,
from the fallback to the fatal error behind the arms, and from each arm to the code
behind that error.
-/

namespace CallCode

open Lower

/-- The switch instruction with some branches. -/
def switchInstruction (fallback : UInt16) (cases : List SwitchCase) : Instruction :=
  ⟨.lookupSwitch, .table fallback cases⟩

/-- The branch at the end of an arm. -/
def exitInstruction (distance : UInt16) : Instruction := ⟨.jump, .word distance⟩

/-- The arms behind a switch.  The first one is the instruction of number `item` and
starts at the offset `start`, and its case stands at the offset `entry`; the body of
each arm satisfies `runs` and its branch, from the offset where it ends, `exits`. -/
inductive ArmsLaid (runs : Candidate → List Placed → Prop) (exits : Nat → UInt16 → Prop) :
    Nat → Nat → Nat → List Candidate → List SwitchCase → List Label → List Placed → Prop
  | nil {item start entry} : ArmsLaid runs exits item start entry [] [] [] []
  | cons {item start entry candidate body line exit distance rest cases labels placed} :
      runs candidate body →
      entry + 6 + distance.toNat = start →
      exits (start + codeSize body + 3) exit →
      ArmsLaid runs exits (item + body.length + 1) (start + codeSize body + 3) (entry + 6)
        rest cases labels placed →
      ArmsLaid runs exits item start entry (candidate :: rest)
        (⟨candidate.key, distance⟩ :: cases)
        (⟨item + body.length, .jump, start + codeSize body + 1⟩ :: labels)
        (body ++ ⟨exitInstruction exit, line⟩ :: placed)

namespace ArmsLaid

variable {runs : Candidate → List Placed → Prop} {exits : Nat → UInt16 → Prop}

theorem mono {weaker : Candidate → List Placed → Prop}
    {item start entry : Nat} {arms : List Candidate} {cases : List SwitchCase}
    {labels : List Label} {placed : List Placed}
    (laid : ArmsLaid runs exits item start entry arms cases labels placed)
    (weaken : ∀ candidate body, runs candidate body → weaker candidate body) :
    ArmsLaid weaker exits item start entry arms cases labels placed := by
  induction laid with
  | nil => exact .nil
  | cons running reaches leaves _ ih => exact .cons (weaken _ _ running) reaches leaves ih

theorem length_cases {item start entry : Nat} {arms : List Candidate}
    {cases : List SwitchCase} {labels : List Label} {placed : List Placed}
    (laid : ArmsLaid runs exits item start entry arms cases labels placed) :
    cases.length = arms.length := by
  induction laid with
  | nil => rfl
  | cons _ _ _ _ ih => simp [ih]

theorem length_labels {item start entry : Nat} {arms : List Candidate}
    {cases : List SwitchCase} {labels : List Label} {placed : List Placed}
    (laid : ArmsLaid runs exits item start entry arms cases labels placed) :
    labels.length = arms.length := by
  induction laid with
  | nil => rfl
  | cons _ _ _ _ ih => simp [ih]

end ArmsLaid

/-! ## Filling in distances -/

theorem branchDistance_ok {length : Nat} {distance : UInt16}
    (fits : branchDistance length = .ok distance) : distance.toNat = length := by
  unfold branchDistance at fits
  split at fits
  · rename_i small
    cases fits
    exact UInt16.toNat_ofNat_of_lt' small
  · cases fits

theorem resolve_run {context : Context} {before after : LoweringState} {label : Label}
    {front back : List Placed} {item : Placed}
    (items : before.assembler.listing.items.toList = front ++ item :: back)
    (index : label.item = front.length)
    (run : Runs (resolve label) context before () after) : ∃ distance,
      distance.toNat = before.assembler.listing.size - label.offset - 2 ∧
      after.assembler.listing.items.toList =
        front ++ item.setDistance label.branch distance :: back ∧
      after.assembler.listing.items.size = before.assembler.listing.items.size ∧
      after.assembler.listing.size = before.assembler.listing.size ∧
      after.assembler.pool = before.assembler.pool ∧ after.stack = before.stack := by
  rw [runs_resolve] at run
  obtain ⟨distance, fits, rfl⟩ := run
  refine ⟨distance, branchDistance_ok fits, Listing.items_setDistance items index distance, ?_,
    rfl, rfl, rfl⟩
  simp [Assembler.setDistance, Listing.setDistance]

theorem setDistance_case (fallback : UInt16) (earlier later : List SwitchCase)
    (case : SwitchCase) (line : UInt32) (distance : UInt16) :
    Placed.setDistance (.case earlier.length) distance
        ⟨switchInstruction fallback (earlier ++ case :: later), line⟩ =
      ⟨switchInstruction fallback (earlier ++ ⟨case.key, distance⟩ :: later), line⟩ := by
  simp only [Placed.setDistance, switchInstruction, Operands.setDistance,
    modify_length_append]

theorem items_jump (assembler : Assembler) :
    (assembler.jump .jump).2.listing.items.toList =
      assembler.listing.items.toList ++
        [⟨exitInstruction pendingDistance, assembler.line⟩] := by
  simp [Assembler.jump, Listing.pushJump, exitInstruction]

/-- The code after some writing is longer by what was placed. -/
theorem size_of_items_append {listing later : Listing} {placed : List Placed}
    (items : later.items.toList = listing.items.toList ++ placed) :
    later.items.size = listing.items.size + placed.length ∧
      later.size = listing.size + codeSize placed := by
  constructor
  · rw [← Array.length_toList, items, List.length_append, Array.length_toList]
  · rw [Listing.size_eq_codeSize, Listing.size_eq_codeSize, items, codeSize_append]

/-! ## Arms -/

variable {context : Context} {before after : LoweringState}

/-- The label of a case of a switch whose instruction has a number and an offset. -/
def caseLabel (item offset position : Nat) : Label :=
  ⟨item, .case position, offset + 9 + 6 * position⟩

/-- One step of `lowerArms`. -/
def placeArm (classId : Identity) (inConstructor : Bool) (position : Position)
    (entry : TypeStack) (arm : Candidate × Label) : Lower (Label × TypeStack) := do
  restore entry
  resolve arm.2
  lowerArm classId arm.1 inConstructor position
  let exit ← writeLabelled (·.jump .jump)
  return (exit, (← get).stack)

theorem lowerArms_eq (classId : Identity) (inConstructor : Bool) (position : Position)
    (entry : TypeStack) (arms : List (Candidate × Label)) :
    lowerArms classId inConstructor position entry arms =
      arms.mapM (placeArm classId inConstructor position entry) :=
  rfl

/-- An arm that satisfies what is known of lowered arms. -/
def LoweredArm (context : Context) (classId : Identity) (pool : ConstantPool)
    (candidate : Candidate) (body : List Placed) : Prop :=
  candidate.constructor.params.length < 256 ∧
    PerformsFrom pool body (armCode context classId candidate)

theorem LoweredArm.later {classId : Identity} {pool larger : ConstantPool}
    {candidate : Candidate} {body : List Placed}
    (lowered : LoweredArm context classId pool candidate body)
    (within : pool.Within larger) : LoweredArm context classId larger candidate body :=
  ⟨lowered.1, lowered.2.later within⟩

theorem placeArm_run {classId : Identity} {position : Position}
    {newInstance vector : ValueType} {rest : TypeStack} {candidate : Candidate}
    {front laid : List Placed} {line : UInt32} {fallback : UInt16}
    {earlier later : List SwitchCase} {case : SwitchCase} {exit : Label} {left : TypeStack}
    (items : before.assembler.listing.items.toList =
      front ++ ⟨switchInstruction fallback (earlier ++ case :: later), line⟩ :: laid)
    (run : Runs (placeArm classId context.frame.isConstructor position
      (newInstance :: vector :: rest)
      (candidate, caseLabel front.length (codeSize front) earlier.length))
      context before (exit, left) after) :
    ∃ distance body jumpLine,
      distance.toNat =
        before.assembler.listing.size - (codeSize front + 9 + 6 * earlier.length) - 2 ∧
      after.assembler.listing.items.toList =
        front ++
          ⟨switchInstruction fallback (earlier ++ ⟨case.key, distance⟩ :: later), line⟩ ::
            (laid ++ body ++ [⟨exitInstruction pendingDistance, jumpLine⟩]) ∧
      after.assembler.listing.items.size =
        before.assembler.listing.items.size + body.length + 1 ∧
      after.assembler.listing.size = before.assembler.listing.size + codeSize body + 3 ∧
      before.assembler.Grows after.assembler ∧
      LoweredArm context classId after.assembler.pool candidate body ∧
      exit = ⟨before.assembler.listing.items.size + body.length, .jump,
        before.assembler.listing.size + codeSize body + 1⟩ ∧
      left = remainder context.frame.isConstructor newInstance vector ++ rest := by
  simp only [placeArm, runs_bind, restore, runs_modify, runs_writeLabelled, runs_get,
    runs_pure] at run
  obtain ⟨_, entered, enters, _, resolved, resolves, _, lowered, lowers, label, _,
    ⟨labelled, rfl⟩, _, _, ⟨rfl, rfl⟩, paired, rfl⟩ := run
  obtain ⟨rfl, rfl⟩ := Prod.mk.inj paired
  have sameAssembler : entered.assembler = before.assembler := by rw [enters]
  have enteredStack : entered.stack = newInstance :: vector :: rest := by rw [enters]
  obtain ⟨distance, reaches, resolvedItems, sameCount, sameSize, pool, stack⟩ :=
    resolve_run (sameAssembler ▸ items) rfl resolves
  obtain ⟨few, writes, leftStack⟩ := lowerArm_run (stack.trans enteredStack) lowers
  obtain ⟨body, loweredItems, performs⟩ := writes.appends
  obtain ⟨count, size⟩ := size_of_items_append loweredItems
  obtain ⟨jumpCount, jumpSize⟩ := size_of_items_append (items_jump lowered.assembler)
  rw [sameAssembler] at reaches pool sameCount sameSize
  rw [caseLabel, setDistance_case] at resolvedItems
  refine ⟨distance, body, lowered.assembler.line, reaches, ?_, ?_, ?_, ?_, ⟨few, performs⟩, ?_,
    leftStack⟩
  · rw [items_jump, loweredItems, resolvedItems]
    simp
  · rw [jumpCount, count, sameCount, List.length_singleton]
  · rw [jumpSize, size, sameSize]
    rfl
  · have resolving : before.assembler.Grows resolved.assembler :=
      .of_pool_eq pool (Nat.le_of_eq sameSize.symm)
    have jumping : lowered.assembler.Grows (lowered.assembler.jump .jump).2 :=
      .of_pool_eq rfl (Nat.le_add_right _ _)
    exact (resolving.trans writes.grows).trans jumping
  · rw [labelled, ← sameCount, ← count, ← sameSize, ← size]
    rfl

/-- The labels of the cases of a switch from a position on. -/
def caseLabels (item offset position count : Nat) : List Label :=
  (List.range' position count).map (caseLabel item offset)

/-- Each arm fills in its case and is laid behind those before it. -/
theorem lowerArms_run {classId : Identity} {position : Position}
    {newInstance vector : ValueType} {rest : TypeStack} {arms : List Candidate}
    {front laid : List Placed} {line : UInt32} {fallback : UInt16}
    {earlier waiting : List SwitchCase} {exits : List (Label × TypeStack)}
    (items : before.assembler.listing.items.toList =
      front ++ ⟨switchInstruction fallback (earlier ++ waiting), line⟩ :: laid)
    (keys : waiting.map (·.key) = arms.map (·.key))
    (run : Runs (lowerArms classId context.frame.isConstructor position
      (newInstance :: vector :: rest)
      (arms.zip (caseLabels front.length (codeSize front) earlier.length arms.length)))
      context before exits after) :
    ∃ cases placed,
      after.assembler.listing.items.toList =
        front ++ ⟨switchInstruction fallback (earlier ++ cases), line⟩ :: (laid ++ placed) ∧
      before.assembler.Grows after.assembler ∧
      ArmsLaid (LoweredArm context classId after.assembler.pool)
        (fun _ distance => distance = pendingDistance)
        before.assembler.listing.items.size before.assembler.listing.size
        (codeSize front + 5 + 6 * earlier.length) arms cases (exits.map (·.1)) placed ∧
      ∀ exit ∈ exits,
        exit.2 = remainder context.frame.isConstructor newInstance vector ++ rest := by
  rw [lowerArms_eq] at run
  -- `earlier` are the cases that have their distances, `waiting` those of the arms to come
  induction arms generalizing before laid earlier waiting exits with
  | nil =>
      obtain rfl : waiting = [] := by simpa using keys
      simp only [caseLabels, List.length_nil, List.range'_zero, List.map_nil, List.zip_nil_right,
        List.mapM_nil, runs_pure] at run
      obtain ⟨rfl, rfl⟩ := run
      refine ⟨[], [], by simpa using items, .refl _, .nil, by simp⟩
  | cons candidate arms ih =>
      cases waiting with
      | nil => simp at keys
      | cons case later =>
          simp only [List.map_cons, List.cons.injEq] at keys
          simp only [caseLabels, List.length_cons, List.range'_succ, List.map_cons,
            List.zip_cons_cons, List.mapM_cons, runs_bind, runs_pure] at run
          obtain ⟨⟨exit, left⟩, middle, places, others, _, lowers, rfl, rfl⟩ := run
          obtain ⟨distance, body, jumpLine, reaches, middleItems, count, size, grows, lowered,
            rfl, rfl⟩ := placeArm_run items places
          have extended : middle.assembler.listing.items.toList = front ++
              ⟨switchInstruction fallback ((earlier ++ [⟨case.key, distance⟩]) ++ later),
                line⟩ :: (laid ++ body ++ [⟨exitInstruction pendingDistance, jumpLine⟩]) := by
            rw [middleItems, List.append_assoc earlier, List.singleton_append]
          have starts : codeSize front + 5 + 6 * earlier.length + 6 + distance.toNat =
              before.assembler.listing.size := by
            rw [reaches, Listing.size_eq_codeSize, items]
            simp [switchInstruction, Instruction.size, Operands.size]
            omega
          have rested := ih extended keys.2 (by
            simpa [caseLabels] using lowers)
          obtain ⟨cases, placed, finalItems, further, laidArms, leftStacks⟩ := rested
          refine ⟨⟨case.key, distance⟩ :: cases,
            body ++ ⟨exitInstruction pendingDistance, jumpLine⟩ :: placed, ?_,
            grows.trans further, ?_, ?_⟩
          · rw [finalItems]
            simp
          · rw [count, size] at laidArms
            rw [keys.1]
            refine .cons (lowered.later further.within) starts rfl ?_
            simpa [Nat.mul_add, Nat.add_assoc] using laidArms
          · simpa using leftStacks

/-! ## Exits -/

/-- The branch of an arm leads to an offset. -/
def LeadsTo (finish ending : Nat) (distance : UInt16) : Prop :=
  ending + distance.toNat = finish

/-- Once the exits are resolved, every arm leads to the end of the code. -/
theorem resolveExits_run {runs : Candidate → List Placed → Prop}
    {exits : Nat → UInt16 → Prop} {front back placed : List Placed} {item start entry : Nat}
    {arms : List Candidate} {cases : List SwitchCase} {labels : List Label}
    (laid : ArmsLaid runs exits item start entry arms cases labels placed)
    (items : before.assembler.listing.items.toList = front ++ placed ++ back)
    (index : item = front.length) (offset : start = codeSize front)
    (run : Runs (labels.forM resolve) context before () after) : ∃ patched,
      after.assembler.listing.items.toList = front ++ patched ++ back ∧
      codeSize patched = codeSize placed ∧
      ArmsLaid runs (LeadsTo before.assembler.listing.size) item start entry arms cases
        labels patched ∧
      after.assembler.listing.size = before.assembler.listing.size ∧
      after.assembler.pool = before.assembler.pool ∧ after.stack = before.stack := by
  induction laid generalizing before front with
  | nil =>
      obtain ⟨-, rfl⟩ := (runs_pure _).mp run
      exact ⟨[], items, rfl, .nil, rfl, rfl, rfl⟩
  | @cons item start entry candidate body line exit distance rest cases labels placed
      running reaches _ _ ih =>
      obtain ⟨middle, resolves, others⟩ := runs_forM_cons.mp run
      have split : before.assembler.listing.items.toList =
          (front ++ body) ++ ⟨exitInstruction exit, line⟩ :: (placed ++ back) := by
        simp [items]
      have total : before.assembler.listing.size =
          codeSize front + codeSize body + 3 + codeSize placed + codeSize back := by
        rw [Listing.size_eq_codeSize, split]
        simp [exitInstruction, Instruction.size, Operands.size]
        omega
      obtain ⟨length, leaves, middleItems, -, size, pool, stack⟩ :=
        resolve_run split (by simp [index]) resolves
      have moved : middle.assembler.listing.items.toList =
          (front ++ body ++ [⟨exitInstruction length, line⟩]) ++ placed ++ back := by
        rw [middleItems]
        simp [Placed.setDistance, Operands.setDistance, exitInstruction]
      obtain ⟨patched, finalItems, sameSize, patchedLaid, finalSize, finalPool, finalStack⟩ :=
        ih moved (by simp [index, Nat.add_assoc])
          (by simp [offset, exitInstruction, Instruction.size, Operands.size,
            Nat.add_assoc]) others
      refine ⟨body ++ ⟨exitInstruction length, line⟩ :: patched, ?_, ?_, ?_,
        finalSize.trans size, finalPool.trans pool, finalStack.trans stack⟩
      · simp [finalItems]
      · simp [sameSize, exitInstruction, Instruction.size, Operands.size]
      · rw [size] at patchedLaid
        refine .cons running reaches ?_ patchedLaid
        simp only [LeadsTo, leaves, offset]
        omega

/-! ## The whole switch -/

/-- What the code of a switch is laid out like.  It is entered with the vector, the
instance and the key on the stack, and the code behind the fatal error drops the
vector. -/
inductive SwitchLaid (context : Context) (classId : Identity) (arms : List Candidate)
    (pool : ConstantPool) (offset : Nat) : List Placed → Prop
  | lay {line fallback cases labels item placed fatal drops} :
      arms ≠ [] →
      cases.length < 65536 →
      ArmsLaid (LoweredArm context classId pool)
        (LeadsTo (offset + 5 + 6 * cases.length + codeSize placed + codeSize fatal))
        item (offset + 5 + 6 * cases.length) (offset + 5) arms cases labels placed →
      offset + 5 + fallback.toNat = offset + 5 + 6 * cases.length + codeSize placed →
      PerformsFrom pool fatal [.raiseFatal incompatibleClassMessage.toUTF8] →
      PerformsFrom pool drops (droppingCode context.frame.isConstructor) →
      SwitchLaid context classId arms pool offset
        (⟨switchInstruction fallback cases, line⟩ :: placed ++ fatal ++ drops)

/-- The code in front of a switch, which leaves the vector, the instance and the key. -/
def entranceCode (context : Context) (classId : Identity) (table : CandidateTable)
    (arguments : List Operand) (packing : List Operation) : List Operation :=
  packing ++ selectionCode classId arguments table.candidates.length ++
    [instanceOperation classId context.frame.isConstructor, .plain .swap]

theorem cases_lookupSwitch (assembler : Assembler) (keys : List Int32) :
    (assembler.lookupSwitch keys).1.cases =
      caseLabels assembler.listing.items.size assembler.listing.size 0 keys.length := by
  simp only [Assembler.lookupSwitch, Listing.pushSwitch, caseLabels, List.range_eq_range']
  rfl

theorem items_lookupSwitch (assembler : Assembler) (keys : List Int32) :
    (assembler.lookupSwitch keys).2.listing.items.toList =
      assembler.listing.items.toList ++
        [⟨switchInstruction pendingDistance (keys.map (⟨·, pendingDistance⟩)),
          assembler.line⟩] := by
  simp [Assembler.lookupSwitch, Listing.pushSwitch, switchInstruction]

/-- What `chainBySwitch` does in front of the switch. -/
def enterSwitch (context : Context) (classId : Identity) (table : CandidateTable)
    (arguments : List Operand) (position : Position) : Lower Unit := do
  modify fun state =>
    let (ledger, diagnostics) := state.ledger.reportCollisions context.types table
      position state.diagnostics
    { state with ledger, diagnostics }
  packVector arguments position
  selectKey classId arguments table.candidates.length
  loadInstance classId context.frame.isConstructor
  write (·.emit .swap)
  track .swap

/-- What `chainBySwitch` does from the switch on. -/
def placeSwitch (context : Context) (classId : Identity) (table : CandidateTable)
    (position : Position) : Lower Unit := do
  let labels ← writeLabelled (·.lookupSwitch (table.arms.map (·.key)))
  let _ ← track .pop
  let entry := (← get).stack
  let exits ← lowerArms classId context.frame.isConstructor position entry
    (table.arms.zip labels.cases)
  restore entry
  resolve labels.fallback
  write (·.raiseFatal incompatibleClassMessage)
  exits.forM fun (exit, _) => resolve exit
  match exits.getLast? with
  | some (_, stack) => restore stack
  | none => fail (.internal .switchHasNoArms)
  dropVector context.frame.isConstructor

theorem chainBySwitch_split {classId : Identity} {table : CandidateTable}
    {arguments : List Operand} {position : Position}
    (run : Runs (chainBySwitch classId table arguments position) context before () after) :
    ∃ entered, Runs (enterSwitch context classId table arguments position) context before ()
        entered ∧ Runs (placeSwitch context classId table position) context entered () after := by
  simp only [chainBySwitch, runs_bind, runs_read] at run
  obtain ⟨_, _, ⟨rfl, rfl⟩, _, reported, reports, _, packed, packs, _, selected, selects, _,
    loaded, loads, _, written, writes, _, swapped, swaps, run⟩ := run
  refine ⟨swapped, ?_, ?_⟩
  · simp only [enterSwitch, runs_bind]
    exact ⟨_, reported, reports, _, packed, packs, _, selected, selects, _, loaded, loads, _,
      written, writes, swaps⟩
  · simp only [placeSwitch, runs_bind]
    exact run

theorem enterSwitch_run {codes : OperandCodes} {classId : Identity}
    {table : CandidateTable} {arguments : List Operand} {position : Position}
    (steady : ∀ argument ∈ arguments, argument.Steady context codes)
    (run : Runs (enterSwitch context classId table arguments position) context before ()
      after) :
    ∃ packing, VectorCodes context codes arguments packing ∧
      before.assembler.Writes after.assembler
        (entranceCode context classId table arguments packing) ∧
      after.stack = .int :: instanceType context classId context.frame.isConstructor ::
        .objectArray :: before.stack := by
  simp only [enterSwitch, runs_bind, runs_modify, runs_write, runs_swap] at run
  obtain ⟨_, reported, reports, _, packed, packs, _, selected, selects, _, loaded, loads, _, _,
    rfl, _, _, _, loadedStack, rfl⟩ := run
  obtain ⟨packing, known, packedPushes⟩ := packVector_run steady packs
  have ready := (packedPushes.trans (selectKey_run selects)).trans (loadInstance_run loads)
  have sameAssembler : reported.assembler = before.assembler := by rw [reports]
  have sameStack : reported.stack = before.stack := by rw [reports]
  refine ⟨packing, known, ?_, ?_⟩
  · have swaps : Opcode.swap.shape = .none := rfl
    have writes := ready.writes.trans (loaded.assembler.writes_plain swaps)
    rw [sameAssembler] at writes
    simpa [entranceCode] using writes
  · have stack := ready.stack
    rw [sameStack] at stack
    cases stack.symm.trans loadedStack
    rfl

theorem forM_fst {Other : Type} (exits : List (Label × Other)) :
    (exits.forM fun exit => resolve exit.1) = (exits.map (·.1)).forM resolve := by
  induction exits with
  | nil => rfl
  | cons exit exits ih => simp only [List.forM, List.map_cons, ih]

/-- The arms stand behind a switch that does not know its fallback yet. -/
theorem layCases_run {classId : Identity} {arms : List Candidate} {position : Position}
    {newInstance vector : ValueType} {rest : TypeStack} {labels : SwitchLabels}
    {switched lowered : LoweringState} {exits : List (Label × TypeStack)}
    (labelled : labels = (before.assembler.lookupSwitch (arms.map (·.key))).1)
    (switches : switched.assembler =
      (before.assembler.lookupSwitch (arms.map (·.key))).2)
    (lowers : Runs (lowerArms classId context.frame.isConstructor position
      (newInstance :: vector :: rest) (arms.zip labels.cases)) context switched exits lowered) :
    ∃ cases placed,
      lowered.assembler.listing.items.toList = before.assembler.listing.items.toList ++
        ⟨switchInstruction pendingDistance cases, before.assembler.line⟩ :: placed ∧
      before.assembler.Grows lowered.assembler ∧
      ArmsLaid (LoweredArm context classId lowered.assembler.pool)
        (fun _ distance => distance = pendingDistance)
        (before.assembler.listing.items.size + 1)
        (before.assembler.listing.size + 5 + 6 * cases.length)
        (before.assembler.listing.size + 5) arms cases (exits.map (·.1)) placed ∧
      ∀ exit ∈ exits,
        exit.2 = remainder context.frame.isConstructor newInstance vector ++ rest := by
  have front : before.assembler.listing.size =
      codeSize before.assembler.listing.items.toList := Listing.size_eq_codeSize _
  have count : before.assembler.listing.items.size =
      before.assembler.listing.items.toList.length := by simp
  have switchedItems : switched.assembler.listing.items.toList =
      before.assembler.listing.items.toList ++
        ⟨switchInstruction pendingDistance
          ([] ++ (arms.map (·.key)).map (⟨·, pendingDistance⟩)), before.assembler.line⟩ ::
          [] := by
    rw [switches, items_lookupSwitch]
    rfl
  rw [labelled, cases_lookupSwitch, front, count, List.length_map] at lowers
  obtain ⟨cases, placed, loweredItems, grows, laid, leftStacks⟩ :=
    lowerArms_run switchedItems (by simp) lowers
  simp only [List.nil_append, List.length_nil, Nat.mul_zero, Nat.add_zero] at loweredItems laid
  obtain ⟨switchedCount, switchedSize⟩ := size_of_items_append switchedItems
  have width : codeSize [⟨switchInstruction pendingDistance
      ([] ++ (arms.map (·.key)).map (⟨·, pendingDistance⟩)), before.assembler.line⟩] =
        5 + 6 * cases.length := by
    simp [switchInstruction, Instruction.size, Operands.size, laid.length_cases]
    omega
  rw [width, ← Nat.add_assoc] at switchedSize
  have switching : before.assembler.Grows switched.assembler :=
    .of_pool_eq (by rw [switches]; rfl) (by omega)
  rw [switchedCount, switchedSize, ← front] at laid
  exact ⟨cases, placed, loweredItems, switching.trans grows, laid, leftStacks⟩

/-- Behind the arms stands what raises the error, and the fallback of the switch leads
there. -/
theorem layFallback_run {front placed : List Placed} {line : UInt32}
    {cases : List SwitchCase} {label : Label} {fallen fatal : LoweringState}
    (items : before.assembler.listing.items.toList =
      front ++ ⟨switchInstruction pendingDistance cases, line⟩ :: placed)
    (labelled : label = ⟨front.length, .fallback, codeSize front + 3⟩)
    (falls : Runs (resolve label) context before () fallen)
    (fails : fatal.assembler = fallen.assembler.raiseFatal incompatibleClassMessage) :
    ∃ fallback raising,
      fatal.assembler.listing.items.toList =
        front ++ [⟨switchInstruction fallback cases, line⟩] ++ placed ++ raising ∧
      before.assembler.Grows fatal.assembler ∧
      PerformsFrom fatal.assembler.pool raising
        [.raiseFatal incompatibleClassMessage.toUTF8] ∧
      fallback.toNat = 6 * cases.length + codeSize placed := by
  subst labelled
  obtain ⟨fallback, reaches, fallenItems, -, fallenSize, fallenPool, -⟩ :=
    resolve_run items rfl falls
  have raises := fallen.assembler.writes_raiseFatal incompatibleClassMessage
  rw [← fails] at raises
  obtain ⟨raising, fatalItems, performs⟩ := raises.appends
  have falling : before.assembler.Grows fallen.assembler :=
    .of_pool_eq fallenPool (Nat.le_of_eq fallenSize.symm)
  refine ⟨fallback, raising, ?_, falling.trans raises.grows, performs, ?_⟩
  · have closed : Placed.setDistance .fallback fallback
        ⟨switchInstruction pendingDistance cases, line⟩ =
          ⟨switchInstruction fallback cases, line⟩ := rfl
    rw [fatalItems, fallenItems, closed]
    simp
  · rw [reaches, Listing.size_eq_codeSize, items]
    simp [switchInstruction, Instruction.size, Operands.size]
    omega

/-- The part of `placeSwitch` that lays the arms and closes every branch. -/
theorem layArms_run {classId : Identity} {arms : List Candidate} {position : Position}
    {newInstance vector : ValueType} {rest : TypeStack} {labels : SwitchLabels}
    {switched lowered restored fallen fatal resolved : LoweringState}
    {exits : List (Label × TypeStack)}
    (labelled : labels = (before.assembler.lookupSwitch (arms.map (·.key))).1)
    (switches : switched.assembler =
      (before.assembler.lookupSwitch (arms.map (·.key))).2)
    (lowers : Runs (lowerArms classId context.frame.isConstructor position
      (newInstance :: vector :: rest) (arms.zip labels.cases)) context switched exits lowered)
    (restores : restored.assembler = lowered.assembler)
    (falls : Runs (resolve labels.fallback) context restored () fallen)
    (fails : fatal.assembler = fallen.assembler.raiseFatal incompatibleClassMessage)
    (resolves : Runs (exits.forM fun exit => resolve exit.1) context fatal () resolved) :
    ∃ fallback cases placed raising item,
      resolved.assembler.listing.items.toList = before.assembler.listing.items.toList ++
        (⟨switchInstruction fallback cases, before.assembler.line⟩ :: placed ++ raising) ∧
      before.assembler.Grows resolved.assembler ∧
      PerformsFrom resolved.assembler.pool raising
        [.raiseFatal incompatibleClassMessage.toUTF8] ∧
      before.assembler.listing.size + 5 + fallback.toNat =
        before.assembler.listing.size + 5 + 6 * cases.length + codeSize placed ∧
      ArmsLaid (LoweredArm context classId resolved.assembler.pool)
        (LeadsTo (before.assembler.listing.size + 5 + 6 * cases.length + codeSize placed +
          codeSize raising)) item
        (before.assembler.listing.size + 5 + 6 * cases.length)
        (before.assembler.listing.size + 5) arms cases (exits.map (·.1)) placed ∧
      ∀ exit ∈ exits,
        exit.2 = remainder context.frame.isConstructor newInstance vector ++ rest := by
  obtain ⟨cases, placed, loweredItems, grows, laid, leftStacks⟩ :=
    layCases_run labelled switches lowers
  have front : before.assembler.listing.size =
      codeSize before.assembler.listing.items.toList := Listing.size_eq_codeSize _
  obtain ⟨fallback, raising, fatalItems, falling, performs, reaches⟩ :=
    layFallback_run (restores ▸ loweredItems) (by rw [labelled, ← front]; rfl) falls fails
  rw [restores] at falling
  have switchSize : codeSize (before.assembler.listing.items.toList ++
      [⟨switchInstruction fallback cases, before.assembler.line⟩]) =
        before.assembler.listing.size + 5 + 6 * cases.length := by
    rw [front]
    simp [switchInstruction, Instruction.size, Operands.size]
    omega
  -- closing the exits fills distances in and moves nothing, so that the arms stay laid out
  rw [forM_fst] at resolves
  obtain ⟨patched, resolvedItems, patchedSize, patchedLaid, resolvedSize, resolvedPool, -⟩ :=
    resolveExits_run laid fatalItems (by simp) switchSize.symm resolves
  have resolving : fatal.assembler.Grows resolved.assembler :=
    .of_pool_eq resolvedPool (Nat.le_of_eq resolvedSize.symm)
  have closing := falling.trans resolving
  refine ⟨fallback, cases, patched, raising, before.assembler.listing.items.size + 1, ?_,
    grows.trans closing, ?_, ?_, ?_, leftStacks⟩
  · rw [resolvedItems]
    simp
  · rw [resolvedPool]
    exact performs
  · rw [reaches, patchedSize]
    omega
  · have finish : fatal.assembler.listing.size = before.assembler.listing.size + 5 +
        6 * cases.length + codeSize patched + codeSize raising := by
      rw [Listing.size_eq_codeSize, fatalItems, codeSize_append, codeSize_append, switchSize,
        patchedSize]
    rw [← finish]
    exact patchedLaid.mono fun _ _ arm => arm.later closing.within

theorem placeSwitch_run {classId : Identity} {table : CandidateTable}
    {position : Position} {key newInstance vector : ValueType} {rest : TypeStack}
    (entered : before.stack = key :: newInstance :: vector :: rest)
    (run : Runs (placeSwitch context classId table position) context before () after) :
    ∃ placed,
      after.assembler.listing.items.toList =
        before.assembler.listing.items.toList ++ placed ∧
      before.assembler.Grows after.assembler ∧
      SwitchLaid context classId table.arms after.assembler.pool
        before.assembler.listing.size placed ∧
      after.stack =
        (if context.frame.isConstructor then [] else [newInstance]) ++ rest := by
  simp only [placeSwitch, runs_bind, runs_write, runs_writeLabelled, runs_pop, runs_get,
    restore, runs_modify] at run
  obtain ⟨labels, switched, ⟨labelled, switches⟩, _, popped, ⟨_, switchedStack, pops⟩, _, _,
    ⟨rfl, rfl⟩, exits, lowered, lowers, _, restored, restores, _, fallen, falls, _, fatal,
    fails, _, resolved, resolves, run⟩ := run
  have stack : switched.stack = before.stack := by rw [switches]
  cases entered.symm.trans (stack.symm.trans switchedStack)
  have poppedAssembler : popped.assembler =
      (before.assembler.lookupSwitch (table.arms.map (·.key))).2 := by rw [pops, switches]
  have poppedStack : popped.stack = newInstance :: vector :: rest := by rw [pops]
  rw [poppedStack] at lowers
  obtain ⟨fallback, cases, arms, raising, item, items, grows, raises, reaches, laid, leftStacks⟩ :=
    layArms_run labelled poppedAssembler lowers (by rw [restores]) falls (by rw [fails])
      resolves
  -- the stack behind the switch is the one with which the last arm was left
  cases last : exits.getLast? with
  | none =>
      rw [last] at run
      simp only [runs_bind, runs_fail, false_and, exists_const] at run
      obtain ⟨_, impossible⟩ := run
      exact impossible.elim
  | some exit =>
      obtain ⟨label, left⟩ := exit
      rw [last] at run
      simp only [runs_bind, runs_modify] at run
      obtain ⟨_, kept, keeps, drops⟩ := run
      have member := List.mem_of_getLast? last
      have keptStack : kept.stack =
          remainder context.frame.isConstructor newInstance vector ++ rest := by
        rw [keeps]
        exact leftStacks _ member
      have keptAssembler : kept.assembler = resolved.assembler := by rw [keeps]
      obtain ⟨dropping, finalStack⟩ := dropVector_run keptStack drops
      obtain ⟨dropped, finalItems, dropPerforms⟩ := dropping.appends
      rw [keptAssembler] at finalItems
      have later : resolved.assembler.Grows after.assembler := by
        rw [← keptAssembler]
        exact dropping.grows
      have some : table.arms ≠ [] := by
        intro absent
        have none := laid.length_labels
        rw [absent, List.length_map, List.length_nil, List.length_eq_zero_iff] at none
        rw [none] at member
        simp at member
      have bound := fallback.toNat_lt
      refine ⟨⟨switchInstruction fallback cases, before.assembler.line⟩ :: arms ++ raising ++
        dropped, ?_, grows.trans later, ?_, finalStack⟩
      · rw [finalItems, items]
        simp
      · exact .lay some (by omega) (laid.mono fun _ _ arm => arm.later later.within) reaches
          (raises.later later.within) dropPerforms

theorem chainBySwitch_run {codes : OperandCodes} {classId : Identity}
    {table : CandidateTable} {arguments : List Operand} {position : Position}
    (steady : ∀ argument ∈ arguments, argument.Steady context codes)
    (run : Runs (chainBySwitch classId table arguments position) context before () after) :
    ∃ packing entrance placed, VectorCodes context codes arguments packing ∧
      after.assembler.listing.items.toList =
        before.assembler.listing.items.toList ++ entrance ++ placed ∧
      before.assembler.Grows after.assembler ∧
      PerformsFrom after.assembler.pool entrance
        (entranceCode context classId table arguments packing) ∧
      SwitchLaid context classId table.arms after.assembler.pool
        (before.assembler.listing.size + codeSize entrance) placed ∧
      after.stack = (if context.frame.isConstructor then []
        else [.simple classId]) ++ before.stack := by
  obtain ⟨entered, enters, places⟩ := chainBySwitch_split run
  obtain ⟨packing, known, writes, stack⟩ := enterSwitch_run steady enters
  obtain ⟨placed, items, grows, laid, finalStack⟩ := placeSwitch_run stack places
  obtain ⟨entrance, enteredItems, performs⟩ := writes.appends
  refine ⟨packing, entrance, placed, known, ?_, writes.grows.trans grows,
    performs.later grows.within, ?_, ?_⟩
  · rw [items, enteredItems]
  · rw [← (size_of_items_append enteredItems).2]
    exact laid
  · rw [finalStack, instanceType]
    cases context.frame.isConstructor <;> rfl

end CallCode
