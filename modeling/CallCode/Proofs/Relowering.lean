import CallCode.Proofs.Lowering.Replay

/-!
# Bodies that are lowered again

A body that is made of calls can be lowered again in the same unit, behind any other bodies,
and costs nothing.  All constants, tables, reports and names are there already, and the code
is the same byte for byte, but for the slots of its call sites.
-/

namespace CallCode

open Lower

/-! ## Code that differs in slots -/

/-- The offsets at which the slots of call sites stand, where the items start at an offset. -/
def slotOffsetsFrom : Nat → List Placed → List Nat
  | _, [] => []
  | offset, placed :: rest =>
      (if placed.instruction.site?.isSome then [offset + 1] else []) ++
        slotOffsetsFrom (offset + placed.instruction.size) rest

/-- The offsets at which the slots of the call sites of a body stand in its code. -/
def LoweredBody.slotOffsets (body : LoweredBody) : List Nat :=
  slotOffsetsFrom 0 body.listing.items.toList

/-- Two bodies have the same lines and the same bytes, but for the slots of their call sites,
which stand at the same offsets and are related. -/
structure LoweredBody.SameButSlots (related : UInt16 → UInt16 → Prop)
    (first second : LoweredBody) : Prop where
  lines : second.code.lines = first.code.lines
  offsets : second.slotOffsets = first.slotOffsets
  slots : ∀ start ∈ first.slotOffsets, ∃ slot other,
    first.code.readUInt16 start = some slot ∧ second.code.readUInt16 start = some other ∧
      related slot other
  bytes : ∀ offset, (∀ start ∈ first.slotOffsets, offset ≠ start ∧ offset ≠ start + 1) →
    second.code.readByte offset = first.code.readByte offset

section Code

variable {related : UInt16 → UInt16 → Prop} {items others : List Placed}

theorem slotOffsetsFrom_eq (echoes : List.Forall₂ (Placed.Echoes related) items others)
    (offset : Nat) : slotOffsetsFrom offset others = slotOffsetsFrom offset items := by
  induction echoes generalizing offset with
  | nil => rfl
  | cons first rest ih =>
      rw [slotOffsetsFrom, slotOffsetsFrom, first.size_eq, ih]
      cases first <;> rfl

theorem lines_eq (echoes : List.Forall₂ (Placed.Echoes related) items others) :
    (others.flatMap fun item => List.replicate item.instruction.size item.line) =
      items.flatMap fun item => List.replicate item.instruction.size item.line := by
  induction echoes with
  | nil => rfl
  | cons first rest ih =>
      rw [List.flatMap_cons, List.flatMap_cons, first.size_eq, first.line_eq, ih]

theorem slots_related (echoes : List.Forall₂ (Placed.Echoes related) items others)
    {code other : ObjectCode} {offset : Nat}
    (holds : code.Holds offset (items.flatMap (·.instruction.encode)))
    (otherHolds : other.Holds offset (others.flatMap (·.instruction.encode))) :
    ∀ start ∈ slotOffsetsFrom offset items, ∃ slot otherSlot,
      code.readUInt16 start = some slot ∧ other.readUInt16 start = some otherSlot ∧
        related slot otherSlot := by
  induction echoes generalizing offset with
  | nil => simp [slotOffsetsFrom]
  | @cons placed otherPlaced _ _ first rest ih =>
      rw [List.flatMap_cons, ObjectCode.holds_append, Instruction.length_encode] at holds otherHolds
      rw [first.size_eq] at otherHolds
      intro start member
      rw [slotOffsetsFrom] at member
      rcases List.mem_append.mp member with here | later
      · cases first with
        | same silent => simp [silent] at here
        | @site slot otherSlot count flags line slots =>
            cases List.mem_singleton.mp here
            obtain ⟨-, slotHolds⟩ := holds.1
            obtain ⟨-, otherSlotHolds⟩ := otherHolds.1
            rw [Operands.encode, ObjectCode.holds_append] at slotHolds otherSlotHolds
            exact ⟨slot, otherSlot, ObjectCode.readUInt16_of_holds slotHolds.1,
              ObjectCode.readUInt16_of_holds otherSlotHolds.1, slots⟩
      · exact ih holds.2 otherHolds.2 start later

/-- The bytes of two call sites differ at most in the two behind the opcode. -/
theorem Placed.Echoes.byte_eq {placed other : Placed} (echoes : placed.Echoes related other)
    {place : Nat}
    (outside : placed.instruction.site?.isSome = true → place ≠ 1 ∧ place ≠ 2) :
    other.instruction.encode[place]? = placed.instruction.encode[place]? := by
  cases echoes with
  | same => rfl
  | site =>
      obtain ⟨notHigh, notLow⟩ := outside rfl
      match place with
      | 0 => rfl
      | 1 => cases notHigh rfl
      | 2 => cases notLow rfl
      | place + 3 => rfl

theorem bytes_eq (echoes : List.Forall₂ (Placed.Echoes related) items others)
    {offset place : Nat}
    (outside : ∀ start ∈ slotOffsetsFrom offset items,
      offset + place ≠ start ∧ offset + place ≠ start + 1) :
    (others.flatMap (·.instruction.encode))[place]? =
      (items.flatMap (·.instruction.encode))[place]? := by
  induction echoes generalizing offset place with
  | nil => rfl
  | @cons placed other items others first rest ih =>
      rw [slotOffsetsFrom, List.forall_mem_append] at outside
      have length := placed.instruction.length_encode
      have otherLength := other.instruction.length_encode
      rw [first.size_eq] at otherLength
      rw [List.flatMap_cons, List.flatMap_cons]
      rcases Nat.lt_or_ge place placed.instruction.size with inside | behind
      · rw [List.getElem?_append_left (by omega), List.getElem?_append_left (by omega)]
        apply first.byte_eq
        intro isSite
        rw [if_pos isSite] at outside
        have apart := outside.1 (offset + 1) List.mem_cons_self
        omega
      · rw [List.getElem?_append_right (by omega), List.getElem?_append_right (by omega), length,
          otherLength]
        apply ih
        intro start member
        have apart := outside.2 start member
        omega

/-- Bodies whose items are in step differ in slots only. -/
theorem LoweredBody.sameButSlots_of_echoes {first second : LoweredBody}
    (echoes : List.Forall₂ (Placed.Echoes related) first.listing.items.toList
      second.listing.items.toList) : first.SameButSlots related second where
  lines := by
    apply Array.toList_inj.mp
    rw [code, code, Listing.toList_lines_assemble, Listing.toList_lines_assemble]
    exact lines_eq echoes
  offsets := slotOffsetsFrom_eq echoes 0
  slots := by
    have holds (body : LoweredBody) :
        body.code.Holds 0 (body.listing.items.toList.flatMap (·.instruction.encode)) := by
      have split : body.code.bytes.toList =
          [] ++ body.listing.items.toList.flatMap (·.instruction.encode) ++ [] := by
        rw [code, Listing.toList_bytes_assemble, List.nil_append, List.append_nil]
      exact ObjectCode.holds_of_bytes_eq split
    exact slots_related echoes (holds first) (holds second)
  bytes := by
    intro offset outside
    rw [← Nat.zero_add offset] at outside
    rw [code, code, ObjectCode.readByte, ObjectCode.readByte, ← Array.getElem?_toList,
      ← Array.getElem?_toList, Listing.toList_bytes_assemble, Listing.toList_bytes_assemble]
    exact bytes_eq echoes outside

end Code

/-! ## Slots that are asked for again -/

/-- Every call gets the next slot. -/
def SiteAllocator.CountsUp (allocator : SiteAllocator) : Prop :=
  ∀ {site : CallSite} {table later : SiteTable} {slot : UInt16},
    allocator site table = .ok slot later →
      slot.toNat = table.count ∧ later.count = table.count + 1

/-- A call that was given a slot is given it again, and no site is added. -/
def SiteAllocator.Remembers (allocator : SiteAllocator) : Prop :=
  ∀ {site : CallSite} {table later larger : SiteTable} {slot : UInt16},
    allocator site table = .ok slot later → later.sites.toList <+: larger.sites.toList →
      allocator site larger = .ok slot larger

namespace SiteTable

theorem countsUp_allocate : SiteAllocator.CountsUp allocate :=
  fun allocates => Pairing.allocate_ok allocates

theorem countsUp_allocateBounded (limit : Nat) :
    SiteAllocator.CountsUp (allocateBounded limit false) := by
  intro site table later slot allocates
  by_cases full : limit ≤ table.count
  · simp [allocateBounded, full] at allocates
  · simp only [allocateBounded, Bool.false_eq_true, if_false, full] at allocates
    exact countsUp_allocate allocates

variable {table later larger : SiteTable} {site : CallSite} {slot : UInt16}

theorem idxOf?_sites (table : SiteTable) (site : CallSite) :
    table.sites.idxOf? site = table.sites.toList.idxOf? site := by
  rw [← List.idxOf?_toArray, Array.toArray_toList]

theorem idxOf?_append (items others : List CallSite) (site : CallSite) :
    (items ++ others).idxOf? site =
      (items.idxOf? site).or ((others.idxOf? site).map (· + items.length)) :=
  List.findIdx?_append

/-- Where equal calls share slots, the slot of a call is the place of the first of them. -/
theorem place_of_allocateBounded {limit : Nat}
    (allocates : allocateBounded limit true site table = .ok slot later) :
    ∃ place, later.sites.toList.idxOf? site = some place ∧ slot = place.toUInt16 := by
  simp only [allocateBounded, if_true, idxOf?_sites] at allocates
  cases known : table.sites.toList.idxOf? site with
  | some place =>
      rw [known] at allocates
      cases allocates
      exact ⟨place, known, rfl⟩
  | none =>
      simp only [known, allocate] at allocates
      split at allocates
      · cases allocates
      · split at allocates
        · cases allocates
          exact ⟨table.count, by simp [idxOf?_append, known, count], rfl⟩
        · cases allocates

theorem remembers_allocateBounded (limit : Nat) :
    SiteAllocator.Remembers (allocateBounded limit true) := by
  intro site table later larger slot allocates within
  obtain ⟨place, found, rfl⟩ := place_of_allocateBounded allocates
  obtain ⟨rest, all⟩ := within
  have again : larger.sites.idxOf? site = some place := by
    rw [idxOf?_sites, ← all, idxOf?_append, found, Option.some_or]
  simp only [allocateBounded, if_true, again]

end SiteTable

/-- The slots of a second run are ahead of those of the first one by a fixed number. -/
def AheadBy (shift : Int) (slot other : UInt16) : Prop := (other.toNat : Int) = slot.toNat + shift

namespace Resending

variable {allocator : SiteAllocator}

/-- Nothing is known of an allocator but that it keeps its sites. -/
def unrelated (appends : allocator.Appends) : Resending where
  allocator := allocator
  appends := appends
  tables _ _ := True
  slots _ _ := True
  related _ _ _ _ := ⟨trivial, trivial⟩

/-- Where slots are counted up, the second table stays ahead of the first one. -/
def counted (appends : allocator.Appends) (counts : allocator.CountsUp) (shift : Int) :
    Resending where
  allocator := allocator
  appends := appends
  tables table other := (other.count : Int) = table.count + shift
  slots := AheadBy shift
  related := by
    intro site table other later otherLater slot otherSlot ahead allocates otherAllocates _
    obtain ⟨slot, later⟩ := counts allocates
    obtain ⟨otherSlot, otherLater⟩ := counts otherAllocates
    refine ⟨?_, by omega⟩
    rw [AheadBy, slot, otherSlot]
    exact ahead

/-- Where slots are remembered, the second run finds those of the first one. -/
def remembered (appends : allocator.Appends) (remembers : allocator.Remembers) : Resending where
  allocator := allocator
  appends := appends
  tables _ _ := True
  slots := AheadBy 0
  related := by
    intro site table other later otherLater slot otherSlot _ allocates otherAllocates known
    cases (remembers allocates known).symm.trans otherAllocates
    exact ⟨(Int.add_zero _).symm, trivial⟩

end Resending

/-! ## Bodies made of calls -/

/-- Bodies that lower expressions and calls, through the entry for each kind.  How a call was
lowered may decide what follows; a body ends with the first call that is refused. -/
inductive Lower.MadeOfCalls (hook : ChainHook) : {Result : Type} → Lower Result → Prop
  | pure {Result : Type} (value : Result) : MadeOfCalls hook (pure value)
  | fail {Result : Type} (error : LoweringError) : MadeOfCalls hook (fail error : Lower Result)
  | bind {Middle Result : Type} {first : Lower Middle} {next : Middle → Lower Result} :
      MadeOfCalls hook first → (∀ value, MadeOfCalls hook (next value)) →
      MadeOfCalls hook (first >>= next)
  | expr (operand : Expr) : MadeOfCalls hook operand.lower
  | method (call : MethodCall Expr) : MadeOfCalls hook (lowerMethodCall call.operands)
  | static (call : StaticCall Expr) : MadeOfCalls hook (lowerStaticCall call.operands)
  | create (call : NewCall Expr) : MadeOfCalls hook (lowerNewCall call.operands)
  | chain (call : ChainCall Expr) : MadeOfCalls hook (lowerChainCall hook call.operands)

/-- A hook that answers as planned. -/
def ChainHook.Planned (hook : ChainHook) (context : Context) : Prop :=
  ∀ call : ChainCall Expr, ∃ marks, Lower.Planned context True (hook call.operands) marks

theorem planned_noHook (context : Context) : noHook.Planned context := fun _ => ⟨[], .pure false⟩

/-- A chained call can be made again if its hook answers as planned, whatever it answers. -/
theorem ChainCall.replays {context : Context} {hook : ChainHook} (hooks : hook.Planned context)
    (call : ChainCall Expr) : Replays context (lowerChainCall hook call.operands) := by
  obtain ⟨marks, planned⟩ := hooks call
  rw [lowerChainCall_eq]
  refine .bind (planned_markLine _).replays fun _ => .bind planned.replays fun answer => ?_
  split
  · exact .pure _
  · exact call.planned_declined.replays

theorem Lower.MadeOfCalls.replays {context : Context} {hook : ChainHook} {Result : Type}
    {action : Lower Result} (calls : MadeOfCalls hook action) (hooks : hook.Planned context) :
    Replays context action := by
  induction calls with
  | pure value => exact .pure value
  | fail error => exact .fail error
  | bind _ _ left right => exact .bind left right
  | expr operand => exact Lower.Planned.replays operand.planned
  | method call => exact call.planned_lower.replays
  | static call => exact call.planned_lower.replays
  | create call => exact call.planned_lower.replays
  | chain call => exact call.replays hooks

/-! ## Units -/

namespace ClassUnit

variable {unit : ClassUnit} {body : MethodBody}

/-- However a body ends, what was known before it still is. -/
theorem knownIn_lower (appends : unit.ledger.allocator.Appends) (body : MethodBody) :
    unit.initialState.KnownIn (unit.lower body).2.initialState := by
  have known := (body.stepwise (unit.context body.frame)).knownIn unit.initialState appends
  rcases unit.initialState_lower body with same | ⟨state, rfl, next⟩
  · rw [same]
    exact .refl _
  · rw [next]
    exact ⟨known.pool, known.sites, known.superNames, known.reported⟩

/-- What stays the same behind some bodies, and what is known there. -/
structure Follows (unit later : ClassUnit) : Prop where
  reached : later.Reached
  types : later.types = unit.types
  resolver : later.resolver = unit.resolver
  allocator : later.ledger.allocator = unit.ledger.allocator
  keyOf : later.ledger.keyOf = unit.ledger.keyOf
  known : unit.initialState.KnownIn later.initialState

theorem Follows.refl (reached : unit.Reached) : unit.Follows unit :=
  ⟨reached, rfl, rfl, rfl, rfl, .refl _⟩

theorem Follows.lower {later : ClassUnit} (follows : unit.Follows later) (body : MethodBody) :
    unit.Follows (later.lower body).2 := by
  have appends := follows.reached.ledger.2
  obtain ⟨types, resolver⟩ := later.lower_keeps body
  have grows := grows_lower appends body
  exact ⟨.body body follows.reached, types.trans follows.types, resolver.trans follows.resolver,
    grows.allocator.trans follows.allocator, grows.keyOf.trans follows.keyOf,
    follows.known.trans (knownIn_lower appends body)⟩

theorem Follows.lowerAll {later : ClassUnit} (follows : unit.Follows later)
    (bodies : List MethodBody) : unit.Follows (later.lowerAll bodies) := by
  induction bodies generalizing later with
  | nil => exact follows
  | cons body bodies ih => exact ih (follows.lower body)

/-- A body that was lowered has run, and what it left was recorded. -/
theorem run_of_lower (lowered : (unit.lower body).1 = .ok ()) : ∃ after,
    Runs body.action (unit.context body.frame) unit.initialState () after ∧
      (unit.lower body).2 = { unit.absorb after with
        bodies := unit.bodies.push
          ⟨body.name, after.assembler.listing, after.stack.length⟩ } := by
  rcases unit.lower_cases body with ⟨error, refused⟩ | concluded
  · rw [refused] at lowered
    cases lowered
  · cases outcome : body.action (unit.context body.frame) unit.initialState with
    | ok result after =>
        refine ⟨after, outcome, ?_⟩
        rw [concluded, outcome]
        rfl
    | error fault after =>
        rw [concluded, outcome] at lowered
        cases lowered

theorem Follows.context_eq {later : ClassUnit} (follows : unit.Follows later) (frame : Frame) :
    later.context frame = unit.context frame := by
  rw [context, context, follows.types, follows.resolver]

/-- Bodies of one class start alike, as nothing is written yet. -/
theorem Follows.echoes {later : ClassUnit} (follows : unit.Follows later) (reached : unit.Reached)
    {resending : Resending} (allocator : unit.ledger.allocator = resending.allocator)
    (tables : resending.tables unit.ledger.sites later.ledger.sites) :
    unit.initialState.Echoes unit.types resending later.initialState where
  code := ⟨rfl, .nil⟩
  stack := rfl
  allocator := allocator
  otherAllocator := follows.allocator.trans allocator
  tables := tables
  keyOf := follows.keyOf
  valid := reached.ledger.1.valid
  otherValid := follows.types ▸ follows.reached.ledger.1.valid
  sorted := follows.reached.ledger.1.sorted

/-- Lowering a body again is free.  A body that is made of calls and was lowered in a unit is
lowered again behind any other bodies.  If it succeeds, no constant, no error and no name that
is sent to `super` is new, and its code is the same, line for line and byte for byte, but for
the slots of its call sites.  Where slots are counted up, these are all ahead by the number of
sites that were added since the first time; where they are remembered, they are the same. -/
theorem lower_again {hook : ChainHook} (reached : unit.Reached)
    (calls : body.action.MadeOfCalls hook) (hooks : hook.Planned (unit.context body.frame))
    (lowered : (unit.lower body).1 = .ok ()) (further : List MethodBody) (name : String)
    (again : (((unit.lower body).2.lowerAll further).lower { body with name }).1 = .ok ()) :
    let between := (unit.lower body).2.lowerAll further
    let last := (between.lower { body with name }).2
    last.pool = between.pool ∧ last.diagnostics = between.diagnostics ∧
      last.ledger.superNames = between.ledger.superNames ∧
      ∃ first second, (unit.lower body).2.bodies.back? = some first ∧
        last.bodies.back? = some second ∧
        first.SameButSlots (fun _ _ => True) second ∧
        (unit.ledger.allocator.CountsUp → first.SameButSlots
          (AheadBy (between.ledger.sites.count - unit.ledger.sites.count)) second) ∧
        (unit.ledger.allocator.Remembers → first.SameButSlots (AheadBy 0) second) := by
  intro between last
  have appends := reached.ledger.2
  have follows : unit.Follows between := ((Follows.refl reached).lower body).lowerAll further
  have behind : (unit.lower body).2.Follows between :=
    (Follows.refl (.body body reached)).lowerAll further
  obtain ⟨after, run, recorded⟩ := run_of_lower lowered
  obtain ⟨later, otherRun, otherRecorded⟩ := run_of_lower again
  have known : after.KnownIn between.initialState := by
    have shared := behind.known
    rw [recorded] at shared
    exact ⟨shared.pool, shared.sites, shared.superNames, shared.reported⟩
  change Runs body.action (between.context body.frame) between.initialState () later at otherRun
  rw [follows.context_eq] at otherRun
  -- each way of handing out slots again is an instance, and the rest is the same for all
  have echoed (resending : Resending) (allocator : unit.ledger.allocator = resending.allocator)
      (tables : resending.tables unit.ledger.sites between.ledger.sites) :=
    ((calls.replays hooks).again (follows.echoes reached allocator tables) known run otherRun).2
  have silent := (echoed (.unrelated appends) rfl trivial).2
  have same (resending : Resending) (allocator : unit.ledger.allocator = resending.allocator)
      (tables : resending.tables unit.ledger.sites between.ledger.sites) :
      LoweredBody.SameButSlots resending.slots
        ⟨body.name, after.assembler.listing, after.stack.length⟩
        ⟨name, later.assembler.listing, later.stack.length⟩ :=
    LoweredBody.sameButSlots_of_echoes (echoed resending allocator tables).1.code.items
  refine ⟨?_, ?_, ?_, _, _, ?_, ?_, same (.unrelated appends) rfl trivial, fun counts => ?_,
    fun remembers => same (.remembered appends remembers) rfl trivial⟩
  · rw [show last = _ from otherRecorded]
    exact silent.pool
  · rw [show last = _ from otherRecorded]
    exact silent.diagnostics
  · rw [show last = _ from otherRecorded]
    exact silent.superNames
  · rw [recorded, Array.back?_push]
  · rw [show last = _ from otherRecorded, Array.back?_push]
  · refine same (.counted appends counts _) rfl ?_
    change (between.ledger.sites.count : Int) = _
    omega

/-- A body with a switch over colliding keys and a call site, `this(D.class.g())`. -/
def switchingBody : MethodBody where
  name := "g"
  frame := .method ⟨1⟩
  action := (Entry.chain chainedCopy).lower noHook
  stepwise _ := Entry.stepwise (fun _ => .noHook _) _

theorem madeOfCalls_switchingBody : switchingBody.action.MadeOfCalls noHook :=
  .bind (.chain chainedCopy) fun _ => .pure ()

/-- Behind itself and a body with a site of its own, the site of a body is ahead by two. -/
theorem lower_again_behind_sendingBody :
    let between := (copyingUnit.lower switchingBody).2.lowerAll [sendingBody]
    let last := (between.lower { switchingBody with name := "h" }).2
    last.pool = between.pool ∧ last.diagnostics = between.diagnostics ∧
      last.ledger.superNames = between.ledger.superNames ∧
      last.ledger.sites.names = ["g", "f", "g"] ∧
      ∃ first second, (copyingUnit.lower switchingBody).2.bodies.back? = some first ∧
        last.bodies.back? = some second ∧ first.slotOffsets = [4] ∧
        first.SameButSlots (AheadBy 2) second := by
  intro between last
  have fresh : copyingUnit.Reached := .start _ (.fresh _ _ _) SiteTable.appends_allocate
  obtain ⟨pool, diagnostics, superNames, first, second, firstLast, secondLast, -, counted, -⟩ :=
    lower_again fresh madeOfCalls_switchingBody (planned_noHook _) (by decide +kernel)
      [sendingBody] "h" (by decide +kernel)
  refine ⟨pool, diagnostics, superNames, by decide +kernel, first, second, firstLast, secondLast,
    ?_, ?_⟩
  · have offsets : (copyingUnit.lower switchingBody).2.bodies.back?.map (·.slotOffsets) =
        some [4] := by decide +kernel
    rw [firstLast] at offsets
    exact Option.some.inj offsets
  · have ahead := counted SiteTable.countsUp_allocate
    rwa [show (between.ledger.sites.count : Int) - copyingUnit.ledger.sites.count = 2 by
      decide +kernel] at ahead

end ClassUnit

end CallCode
