import CallCode.Proofs.Machine.StackEffect

/-!
# Safety of the stack

A chart notes with which depth control comes to every instruction.  If each branch
leads to an instruction with the depth that is noted there, or to the end, then
control comes nowhere else and never with another depth.
-/

namespace CallCode

/-- The machine that only counts the values on its stack. -/
def depthMachine (types : TypeTable) : Machine Int := fun operation _ depth next =>
  next = depth + operation.change types

/-- Code that is entered at `start` and left at `finish` never takes or reads a value
below the depth at its start, comes to every offset with one depth only, and comes to
its end with the depth `final`. -/
structure StackSafe (types : TypeTable) (pool : ConstantPool) (code : ObjectCode)
    (start finish : Nat) (final : Int) : Prop where
  finds : ∀ offset depth,
    (depthMachine types).Reaches pool code (start, 0) (offset, depth) → offset ≠ finish →
      ∃ instruction operation, code.instructionAt offset = some instruction ∧
        instruction.operation? pool = some operation ∧ (operation.pops : Int) ≤ depth
  unique : ∀ offset first second,
    (depthMachine types).Reaches pool code (start, 0) (offset, first) →
      (depthMachine types).Reaches pool code (start, 0) (offset, second) → first = second
  ends : (depthMachine types).Reaches pool code (start, 0) (finish, final)

/-- An instruction, what it does and the depth with which control comes to it. -/
structure Spot where
  item : Placed
  operation : Operation
  depth : Int

/-- The number of bytes that the instructions of some spots take. -/
def spotSize (spots : List Spot) : Nat := codeSize (spots.map (·.item))

@[simp]
theorem spotSize_nil : spotSize [] = 0 := rfl

@[simp]
theorem spotSize_cons (spot : Spot) (spots : List Spot) :
    spotSize (spot :: spots) = spot.item.instruction.size + spotSize spots := by
  simp [spotSize]

@[simp]
theorem spotSize_append (first second : List Spot) :
    spotSize (first ++ second) = spotSize first + spotSize second := by
  simp [spotSize]

/-- At an offset stands one of the spots, the first of which is at `start`. -/
def Stands : Nat → List Spot → Nat → Spot → Prop
  | _, [], _, _ => False
  | start, first :: rest, offset, spot =>
      (offset = start ∧ spot = first) ∨
        Stands (start + first.item.instruction.size) rest offset spot

section Stands

variable {start offset : Nat} {spots : List Spot} {spot other : Spot}

theorem stands_append {first second : List Spot} :
    Stands start (first ++ second) offset spot ↔
      Stands start first offset spot ∨ Stands (start + spotSize first) second offset spot := by
  induction first generalizing start with
  | nil => simp [Stands]
  | cons head first ih => simp [Stands, ih, or_assoc, Nat.add_assoc]

theorem Stands.mem (stands : Stands start spots offset spot) : spot ∈ spots := by
  induction spots generalizing start with
  | nil => exact stands.elim
  | cons head rest ih =>
      rcases stands with ⟨-, rfl⟩ | later
      · exact List.mem_cons_self
      · exact List.mem_cons_of_mem _ (ih later)

theorem Stands.le (stands : Stands start spots offset spot) : start ≤ offset := by
  induction spots generalizing start with
  | nil => exact stands.elim
  | cons head rest ih =>
      rcases stands with ⟨rfl, -⟩ | later
      · exact Nat.le_refl _
      · exact Nat.le_trans (Nat.le_add_right _ _) (ih later)

theorem Stands.lt (stands : Stands start spots offset spot) :
    offset < start + spotSize spots := by
  induction spots generalizing start with
  | nil => exact stands.elim
  | cons head rest ih =>
      have positive := head.item.instruction.size_pos
      rw [spotSize_cons]
      rcases stands with ⟨rfl, -⟩ | later
      · omega
      · have below := ih later
        omega

theorem Stands.unique (stands : Stands start spots offset spot)
    (same : Stands start spots offset other) : spot = other := by
  induction spots generalizing start with
  | nil => exact stands.elim
  | cons head rest ih =>
      have positive := head.item.instruction.size_pos
      rcases stands with ⟨rfl, rfl⟩ | later <;> rcases same with ⟨here, rfl⟩ | alsoLater
      · rfl
      · have above := alsoLater.le
        omega
      · have above := later.le
        omega
      · exact ih later alsoLater

theorem Stands.instructionAt {code : ObjectCode} (stands : Stands start spots offset spot)
    (located : code.Located start (spots.map (·.item))) :
    code.instructionAt offset = some spot.item.instruction := by
  induction spots generalizing start with
  | nil => exact stands.elim
  | cons head rest ih =>
      obtain ⟨here, following⟩ := located
      rcases stands with ⟨rfl, rfl⟩ | later
      · exact here
      · exact ih later following

end Stands

/-- From every spot control goes to a point, with the depth that goes with it. -/
def Flows (types : TypeTable) (point : Nat → Int → Prop) (start : Nat)
    (spots : List Spot) : Prop :=
  ∀ offset spot, Stands start spots offset spot → ∀ branch target,
    spot.operation.target? offset spot.item.instruction.size branch = some target →
      point target (spot.depth + spot.operation.change types)

theorem flows_append {types : TypeTable} {point : Nat → Int → Prop} {start : Nat}
    {first second : List Spot} :
    Flows types point start (first ++ second) ↔
      Flows types point start first ∧ Flows types point (start + spotSize first) second := by
  simp only [Flows, stands_append]
  constructor
  · intro flows
    exact ⟨fun offset spot stands => flows offset spot (.inl stands),
      fun offset spot stands => flows offset spot (.inr stands)⟩
  · rintro ⟨left, right⟩ offset spot (stands | stands)
    · exact left offset spot stands
    · exact right offset spot stands

/-- The points of code: its spots, and its end. -/
def Lands (start finish : Nat) (final : Int) (spots : List Spot) (offset : Nat)
    (depth : Int) : Prop :=
  (offset = finish ∧ depth = final) ∨
    ∃ spot, Stands start spots offset spot ∧ spot.depth = depth

/-- Some spots note the given instructions. -/
structure Notes (pool : ConstantPool) (placed : List Placed) (spots : List Spot) : Prop where
  items : spots.map (·.item) = placed
  performs : ∀ spot ∈ spots, spot.item.instruction.operation? pool = some spot.operation

/-- Every spot finds what it takes. -/
def Fed (spots : List Spot) : Prop :=
  ∀ spot ∈ spots, (spot.operation.pops : Int) ≤ spot.depth

section Notes

variable {pool : ConstantPool} {first second placed : List Placed}
  {firstSpots secondSpots spots : List Spot}

theorem Notes.size_eq (notes : Notes pool placed spots) : spotSize spots = codeSize placed := by
  rw [spotSize, notes.items]

theorem Notes.append (left : Notes pool first firstSpots)
    (right : Notes pool second secondSpots) :
    Notes pool (first ++ second) (firstSpots ++ secondSpots) where
  items := by rw [List.map_append, left.items, right.items]
  performs := by
    intro spot member
    rcases List.mem_append.mp member with inFirst | inSecond
    · exact left.performs spot inFirst
    · exact right.performs spot inSecond

theorem Notes.cons {item : Placed} {operation : Operation}
    (known : item.instruction.operation? pool = some operation) (depth : Int)
    (rest : Notes pool placed spots) :
    Notes pool (item :: placed) (⟨item, operation, depth⟩ :: spots) where
  items := by rw [List.map_cons, rest.items]
  performs := by
    simp only [List.mem_cons, forall_eq_or_imp]
    exact ⟨known, rest.performs⟩

theorem Fed.append (left : Fed firstSpots) (right : Fed secondSpots) :
    Fed (firstSpots ++ secondSpots) := by
  intro spot member
  rcases List.mem_append.mp member with inFirst | inSecond
  · exact left spot inFirst
  · exact right spot inSecond

theorem Fed.cons {spot : Spot} (here : (spot.operation.pops : Int) ≤ spot.depth)
    (rest : Fed spots) : Fed (spot :: spots) := by
  intro other member
  rcases List.mem_cons.mp member with rfl | inRest
  · exact here
  · exact rest other inRest

end Notes

/-- The spots of some code, from its start to its end. -/
structure Chart (types : TypeTable) (pool : ConstantPool) (code : ObjectCode)
    (start finish : Nat) (final : Int) (spots : List Spot) : Prop where
  located : code.Located start (spots.map (·.item))
  notes : Notes pool (spots.map (·.item)) spots
  ending : start + spotSize spots = finish
  bounded : code.instructionAt finish = none
  entry : Lands start finish final spots start 0
  flows : Flows types (Lands start finish final spots) start spots

namespace Chart

variable {types : TypeTable} {pool : ConstantPool} {code : ObjectCode} {start finish : Nat}
  {final : Int} {spots : List Spot}

/-- Control comes only to points of the chart. -/
theorem lands (chart : Chart types pool code start finish final spots) {offset : Nat}
    {depth : Int}
    (reaches : (depthMachine types).Reaches pool code (start, 0) (offset, depth)) :
    Lands start finish final spots offset depth := by
  suffices general : ∀ point, (depthMachine types).Reaches pool code (start, 0) point →
      Lands start finish final spots point.1 point.2 from general _ reaches
  intro point path
  induction path with
  | refl => exact chart.entry
  | tail _ step ih =>
      obtain ⟨decoded, known, rfl, leads⟩ := step
      rcases ih with ⟨rfl, -⟩ | ⟨spot, stands, rfl⟩
      · rw [chart.bounded] at decoded
        cases decoded
      · rw [stands.instructionAt chart.located] at decoded
        cases decoded
        rw [chart.notes.performs spot stands.mem] at known
        cases known
        exact chart.flows _ spot stands _ _ leads

theorem lands_unique (chart : Chart types pool code start finish final spots)
    {offset : Nat} {first second : Int}
    (left : Lands start finish final spots offset first)
    (right : Lands start finish final spots offset second) : first = second := by
  rcases left with ⟨here, rfl⟩ | ⟨spot, stands, rfl⟩ <;>
    rcases right with ⟨alsoHere, rfl⟩ | ⟨other, alsoStands, rfl⟩
  · rfl
  · have below := alsoStands.lt
    rw [chart.ending] at below
    omega
  · have below := stands.lt
    rw [chart.ending] at below
    omega
  · rw [stands.unique alsoStands]

/-- If every spot finds what it takes, the code is safe. -/
theorem stackSafe (chart : Chart types pool code start finish final spots)
    (ends : (depthMachine types).Reaches pool code (start, 0) (finish, final))
    (fed : Fed spots) : StackSafe types pool code start finish final where
  finds := by
    intro offset depth reaches inside
    rcases chart.lands reaches with ⟨rfl, -⟩ | ⟨spot, stands, rfl⟩
    · exact absurd rfl inside
    · exact ⟨spot.item.instruction, spot.operation, stands.instructionAt chart.located,
        chart.notes.performs spot stands.mem, fed spot stands.mem⟩
  unique := fun _ _ _ left right => chart.lands_unique (chart.lands left) (chart.lands right)
  ends := ends

/-- Code that would come to its end with the depth `gain`, were there no missing
receivers, is safe exactly if there are none. -/
theorem stackSafe_iff {gain : Int} {missing : Nat}
    (chart : Chart types pool code start finish (gain - missing) spots)
    (ends : (depthMachine types).Reaches pool code (start, 0) (finish, gain - missing))
    (fed : missing = 0 → Fed spots) :
    StackSafe types pool code start finish gain ↔ missing = 0 := by
  constructor
  · intro safe
    have same := safe.unique _ _ _ ends safe.ends
    omega
  · rintro rfl
    rw [Int.natCast_zero, Int.sub_zero] at chart ends
    exact chart.stackSafe ends (fed rfl)

end Chart

/-! ## Straight code -/

/-- The spots of straight code that is entered with a depth. -/
def spotsOf (types : TypeTable) : Int → List Placed → List Operation → List Spot
  | depth, item :: placed, operation :: code =>
      ⟨item, operation, depth⟩ :: spotsOf types (depth + operation.change types) placed code
  | _, _, _ => []

section Straight

variable {types : TypeTable} {pool : ConstantPool} {placed : List Placed}
  {code : List Operation}

theorem notes_spotsOf (performs : Performs pool placed code) (depth : Int) :
    Notes pool placed (spotsOf types depth placed code) := by
  induction performs generalizing depth with
  | nil => exact ⟨rfl, by simp [spotsOf]⟩
  | cons known _ ih => exact .cons known depth (ih _)

theorem fed_spotsOf (performs : Performs pool placed code) {depth : Int}
    (covered : Covered types depth code) : Fed (spotsOf types depth placed code) := by
  induction performs generalizing depth with
  | nil => simp [Fed, spotsOf]
  | cons _ _ ih => exact .cons covered.1 (ih covered.2)

/-- Straight code starts at its first spot, or there is none. -/
theorem entry_spotsOf (performs : Performs pool placed code) (start : Nat) (depth : Int) :
    Lands start (start + codeSize placed) (depth + netChange types code)
      (spotsOf types depth placed code) start depth := by
  cases performs with
  | nil => exact .inl ⟨by simp, by simp⟩
  | cons _ _ => exact .inr ⟨_, .inl ⟨rfl, rfl⟩, rfl⟩

/-- Straight code flows from spot to spot and then to its end. -/
theorem flows_spotsOf {point : Nat → Int → Prop} (performs : Performs pool placed code)
    (straight : ∀ operation ∈ code, operation.falls = true) {start : Nat} {depth : Int}
    (inside : ∀ offset spot, Stands start (spotsOf types depth placed code) offset spot →
      point offset spot.depth)
    (ending : point (start + codeSize placed) (depth + netChange types code)) :
    Flows types point start (spotsOf types depth placed code) := by
  induction performs generalizing start depth with
  | nil => exact fun _ _ stands => stands.elim
  | @cons item operation placed code known performs ih =>
      have falls := straight operation List.mem_cons_self
      rw [codeSize_cons, netChange_cons, ← Nat.add_assoc, ← Int.add_assoc] at ending
      rintro offset spot (⟨rfl, rfl⟩ | later)
      · intro branch target leads
        rw [Operation.target?_of_falls falls] at leads
        split at leads
        · cases leads
          have enters : Lands _ _ _ (spotsOf types _ placed code) _ _ :=
            entry_spotsOf performs (offset + item.instruction.size)
              (depth + operation.change types)
          rcases enters with ⟨here, there⟩ | ⟨spot, stands, same⟩
          · rw [← here, ← there] at ending
            exact ending
          · rw [← same]
            exact inside _ spot (.inr stands)
        · cases leads
      · exact ih (fun operation member => straight operation (List.mem_cons_of_mem _ member))
          (fun offset spot stands => inside offset spot (.inr stands)) ending offset spot later

theorem executes_straight (straight : ∀ operation ∈ code, operation.falls = true)
    (depth : Int) :
    (depthMachine types).Executes code depth (depth + netChange types code) := by
  induction code generalizing depth with
  | nil =>
      rw [netChange_nil, Int.add_zero]
      exact .nil
  | cons operation code ih =>
      rw [netChange_cons, ← Int.add_assoc]
      refine .cons (straight operation List.mem_cons_self) rfl (ih ?_ _)
      exact fun operation member => straight operation (List.mem_cons_of_mem _ member)

theorem Effect.executes {needs : Nat} {gain : Int} (effect : Effect types code needs gain)
    (none : missingReceivers types code = 0) (depth : Int) :
    (depthMachine types).Executes code depth (depth + gain) := by
  have net := effect.net
  rw [none, Int.natCast_zero, Int.sub_zero] at net
  rw [← net]
  exact executes_straight effect.straight depth

/-- A segment of some code: control that comes to its spots goes from spot to spot, and
then to the offset `exit` with the depth `final`.  If `sound` is the case, every spot
finds what it takes. -/
structure Segment (types : TypeTable) (pool : ConstantPool) (sound : Prop) (start : Nat)
    (placed : List Placed) (spots : List Spot) (exit : Nat) (final : Int) : Prop where
  notes : Notes pool placed spots
  fed : sound → Fed spots
  flows : ∀ point : Nat → Int → Prop,
    (∀ offset spot, Stands start spots offset spot → point offset spot.depth) →
      point exit final → Flows types point start spots

namespace Segment

variable {sound : Prop} {start exit : Nat} {first second : List Placed}
  {spots firstSpots secondSpots : List Spot} {middle final : Int}

theorem straight (performs : Performs pool placed code)
    (falls : ∀ operation ∈ code, operation.falls = true) {depth : Int}
    (covered : sound → Covered types depth code) :
    Segment types pool sound start placed (spotsOf types depth placed code)
      (start + codeSize placed) (depth + netChange types code) where
  notes := notes_spotsOf performs depth
  fed := fun holds => fed_spotsOf performs (covered holds)
  flows := fun _ inside ending => flows_spotsOf performs falls inside ending

/-- Two segments with the same exit, one behind the other. -/
theorem join (left : Segment types pool sound start first firstSpots exit final)
    (right : Segment types pool sound (start + codeSize first) second secondSpots exit
      final) :
    Segment types pool sound start (first ++ second) (firstSpots ++ secondSpots) exit
      final where
  notes := left.notes.append right.notes
  fed := fun holds => (left.fed holds).append (right.fed holds)
  flows := by
    intro point inside ending
    refine flows_append.mpr ⟨left.flows point ?_ ending, ?_⟩
    · exact fun offset spot stands => inside offset spot (stands_append.mpr (.inl stands))
    · rw [left.notes.size_eq]
      refine right.flows point (fun offset spot stands => inside offset spot ?_) ending
      rw [stands_append, left.notes.size_eq]
      exact .inr stands

/-- Two segments, of which the first leads to the entry of the second. -/
theorem append
    (left : Segment types pool sound start first firstSpots (start + codeSize first) middle)
    (right : Segment types pool sound (start + codeSize first) second secondSpots exit final)
    (enters : Lands (start + codeSize first) exit final secondSpots
      (start + codeSize first) middle) :
    Segment types pool sound start (first ++ second) (firstSpots ++ secondSpots) exit
      final where
  notes := left.notes.append right.notes
  fed := fun holds => (left.fed holds).append (right.fed holds)
  flows := by
    intro point inside ending
    have insideRight : ∀ offset spot,
        Stands (start + codeSize first) secondSpots offset spot →
          point offset spot.depth := by
      intro offset spot stands
      refine inside offset spot (stands_append.mpr (.inr ?_))
      rw [left.notes.size_eq]
      exact stands
    refine flows_append.mpr ⟨left.flows point ?_ ?_, ?_⟩
    · exact fun offset spot stands => inside offset spot (stands_append.mpr (.inl stands))
    · rcases enters with ⟨here, rfl⟩ | ⟨spot, stands, rfl⟩
      · rw [here]
        exact ending
      · exact insideRight _ spot stands
    · rw [left.notes.size_eq]
      exact right.flows point insideRight ending

/-- A point of the first segment is one of both. -/
theorem lands_append {offset : Nat} {depth : Int}
    (notes : Notes pool first firstSpots)
    (lands : Lands start (start + codeSize first) middle firstSpots offset depth)
    (enters : Lands (start + codeSize first) exit final secondSpots
      (start + codeSize first) middle) :
    Lands start exit final (firstSpots ++ secondSpots) offset depth := by
  rcases lands with ⟨rfl, rfl⟩ | ⟨spot, stands, rfl⟩
  · rcases enters with atEnd | ⟨spot, stands, same⟩
    · exact .inl atEnd
    · refine .inr ⟨spot, stands_append.mpr (.inr ?_), same⟩
      rw [notes.size_eq]
      exact stands
  · exact .inr ⟨spot, stands_append.mpr (.inl stands), rfl⟩

/-- A segment that is all the code is a chart of it. -/
theorem chart {bytes : ObjectCode}
    (segment : Segment types pool sound start placed spots (start + codeSize placed) final)
    (enters : Lands start (start + codeSize placed) final spots start 0)
    (located : bytes.Located start placed)
    (bounded : bytes.instructionAt (start + codeSize placed) = none) :
    Chart types pool bytes start (start + codeSize placed) final spots := by
  have items := segment.notes.items
  refine ⟨?_, ?_, ?_, bounded, enters, ?_⟩
  · rw [items]
    exact located
  · rw [items]
    exact segment.notes
  · rw [segment.notes.size_eq]
  · refine segment.flows _ ?_ (.inl ⟨rfl, rfl⟩)
    exact fun _ spot stands => .inr ⟨spot, stands, rfl⟩

end Segment

/-- Straight code from an offset to the end of the code is safe exactly if it misses no
receiver. -/
theorem Effect.stackSafe_iff {bytes : ObjectCode} {start : Nat} {gain : Int}
    (effect : Effect types code 0 gain) (performs : Performs pool placed code)
    (located : bytes.Located start placed)
    (bounded : bytes.instructionAt (start + codeSize placed) = none) :
    StackSafe types pool bytes start (start + codeSize placed) gain ↔
      missingReceivers types code = 0 := by
  have total : 0 + netChange types code = gain - missingReceivers types code := by
    rw [Int.zero_add, effect.net]
  have segment : Segment types pool (missingReceivers types code = 0) start placed
      (spotsOf types 0 placed code) (start + codeSize placed) (0 + netChange types code) :=
    .straight performs effect.straight effect.covered
  have chart := segment.chart (entry_spotsOf performs start 0) located bounded
  have executes : (depthMachine types).Executes code 0 (0 + netChange types code) :=
    executes_straight effect.straight 0
  have ends := executes.reaches located performs
  rw [total] at chart ends
  exact chart.stackSafe_iff ends segment.fed

end Straight

end CallCode
