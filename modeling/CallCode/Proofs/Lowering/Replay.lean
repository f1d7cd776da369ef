import CallCode.Proofs.Lowering.Planned
import CallCode.Proofs.StateIndependence

/-!
# Planned actions that are run again

A planned action that is run again, where all that it shares with other bodies is known,
answers the same and writes the same, up to the slots of its call sites.  It adds nothing to
what the bodies of a class share but sites.
-/

namespace CallCode

open Lower

/-! ## Names in order -/

section Names

variable {name : String} {names : List String}

theorem mem_insertName {other : String} :
    other ∈ insertName name names ↔ other = name ∨ other ∈ names := by
  induction names with
  | nil => simp [insertName]
  | cons first names ih =>
      rw [insertName]
      split
      · rename_i same
        simp [same]
      · split
        · simp
        · simp [ih, or_left_comm]

/-- A name that is in order already is not inserted again. -/
theorem insertName_of_mem (sorted : names.Pairwise (· < ·)) (member : name ∈ names) :
    insertName name names = names := by
  induction names with
  | nil => cases member
  | cons other names ih =>
      obtain ⟨before, rest⟩ := List.pairwise_cons.mp sorted
      rw [insertName]
      split
      · rfl
      · rename_i different
        have later : name ∈ names := (List.mem_cons.mp member).resolve_left different
        rw [if_neg (String.lt_asymm (before name later)), ih rest later]

theorem pairwise_insertName (sorted : names.Pairwise (· < ·)) :
    (insertName name names).Pairwise (· < ·) := by
  induction names with
  | nil => simp [insertName]
  | cons other names ih =>
      obtain ⟨before, rest⟩ := List.pairwise_cons.mp sorted
      rw [insertName]
      split
      · exact sorted
      · rename_i different
        split
        · rename_i first
          refine List.pairwise_cons.mpr ⟨fun later member => ?_, sorted⟩
          rcases List.mem_cons.mp member with rfl | behind
          · exact first
          · exact String.lt_trans first (before later behind)
        · rename_i notFirst
          have behind : other < name := by
            by_contra notBehind
            exact different (String.le_antisymm (String.not_lt.mp notBehind)
              (String.not_lt.mp notFirst))
          refine List.pairwise_cons.mpr ⟨fun later member => ?_, ih rest⟩
          rcases mem_insertName.mp member with rfl | among
          · exact behind
          · exact before later among

end Names

/-- The names of a reachable ledger are in order, each once. -/
theorem Ledger.Reachable.sorted {types : TypeTable} {ledger : Ledger}
    (reachable : ledger.Reachable types) : ledger.superNames.Pairwise (· < ·) := by
  induction reachable with
  | fresh => exact .nil
  | tabled _ found ih =>
      obtain ⟨tables, rfl⟩ := candidateTable_keeps found
      exact ih
  | reported table position diagnostics _ ih =>
      unfold reportCollisions
      split
      · exact ih
      · exact ih
  | recorded _ _ ih => exact pairwise_insertName ih
  | allocated _ _ ih => exact ih

/-! ## What is known -/

namespace LoweringState

/-- What the bodies of a class share in one state is known in another one. -/
structure KnownIn (state other : LoweringState) : Prop where
  pool : state.assembler.pool.Within other.assembler.pool
  sites : state.ledger.sites.sites.toList <+: other.ledger.sites.sites.toList
  superNames : state.ledger.superNames ⊆ other.ledger.superNames
  reported : state.ledger.reported ⊆ other.ledger.reported

namespace KnownIn

variable {first second third : LoweringState}

theorem refl (state : LoweringState) : state.KnownIn state :=
  ⟨.refl _, List.prefix_rfl, List.Subset.refl _, List.Subset.refl _⟩

theorem trans (left : first.KnownIn second) (right : second.KnownIn third) :
    first.KnownIn third :=
  ⟨left.pool.trans right.pool, left.sites.trans right.sites,
    List.Subset.trans left.superNames right.superNames,
    List.Subset.trans left.reported right.reported⟩

/-- What has grown is known, where the reports are. -/
theorem of_grows (grows : first.Grows second)
    (reported : first.ledger.reported ⊆ second.ledger.reported) : first.KnownIn second :=
  ⟨grows.pool, grows.sites, grows.superNames.subset, reported⟩

end KnownIn

theorem reported_subset_report (state : LoweringState) (types : TypeTable)
    (table : CandidateTable) (position : Position) :
    state.ledger.reported ⊆ (state.report types table position).ledger.reported := by
  unfold LoweringState.report Ledger.reportCollisions
  split
  · exact List.subset_cons_self _ _
  · exact List.Subset.refl _

/-- The collisions of a class that was reported are not reported again. -/
theorem report_eq_self {state : LoweringState} {table : CandidateTable}
    (known : table.hasCollisions = true → table.classId ∈ state.ledger.reported)
    (types : TypeTable) (position : Position) : state.report types table position = state := by
  unfold LoweringState.report Ledger.reportCollisions
  split
  · rename_i due
    simp only [Bool.and_eq_true, Bool.not_eq_true', List.contains_eq_mem,
      decide_eq_false_iff_not] at due
    exact (due.2 (known due.1)).elim
  · rfl

theorem mem_reported_report (state : LoweringState) (types : TypeTable)
    {table : CandidateTable} (colliding : table.hasCollisions = true) (position : Position) :
    table.classId ∈ (state.report types table position).ledger.reported := by
  unfold LoweringState.report Ledger.reportCollisions
  split
  · exact List.mem_cons_self
  · rename_i undue
    simpa [colliding] using undue

end LoweringState

/-- However an action in steps ends, the classes that were reported before it still are. -/
theorem Lower.Stepwise.reported_subset {context : Context} {Result : Type}
    {action : Lower Result} (stepwise : Stepwise context action) (before : LoweringState) :
    before.ledger.reported ⊆ (final (action context before)).ledger.reported := by
  induction stepwise generalizing before with
  | pure value => exact List.Subset.refl _
  | @bind _ _ first _ _ _ left right =>
      have early := left before
      simp only [Bind.bind, ReaderT.bind, EStateM.bind]
      cases outcome : first context before with
      | ok value middle =>
          rw [outcome] at early
          exact List.Subset.trans early (right value middle)
      | error fault middle =>
          rw [outcome] at early
          exact early
  | throw fault => exact List.Subset.refl _
  | @attempt _ _ action _ _ _ left right =>
      have early := left before
      unfold Lower.attempt
      cases outcome : action context before with
      | ok value middle =>
          rw [outcome] at early
          exact List.Subset.trans early (right _ middle)
      | error fault middle =>
          rw [outcome] at early
          cases fault with
          | rejected error => exact List.Subset.trans early (right _ middle)
          | jumpTooFar failure => exact early
  | read _ ih => exact ih before
  | look _ _ ih => exact ih before before
  | write within => exact List.Subset.refl _
  | writeLabelled within => exact List.Subset.refl _
  | track action =>
      unfold Lower.track
      cases action before.stack <;> exact List.Subset.refl _
  | restore stack => exact List.Subset.refl _
  | table target position =>
      simp only [consult]
      cases found : Ledger.candidateTable context.types target position before.ledger with
      | ok table ledger =>
          obtain ⟨tables, rfl⟩ := Ledger.candidateTable_keeps found
          exact List.Subset.refl _
      | error error ledger =>
          cases Ledger.eq_of_candidateTable_error found
          exact List.Subset.refl _
  | report table position => exact before.reported_subset_report _ table position
  | allocate site =>
      simp only [consult, Ledger.allocate]
      cases before.ledger.allocator site before.ledger.sites <;> exact List.Subset.refl _
  | recordSuper name => exact List.Subset.refl _

/-- However an action in steps ends, what was known before it still is. -/
theorem Lower.Stepwise.knownIn {context : Context} {Result : Type} {action : Lower Result}
    (stepwise : Stepwise context action) (before : LoweringState)
    (appends : before.ledger.allocator.Appends) :
    before.KnownIn (final (action context before)) :=
  .of_grows (stepwise.grows before appends) (stepwise.reported_subset before)

/-! ## Two runs -/

/-- An allocator, how its tables are related where a call asks for a slot again, and how that
makes the slots related.  By then its table has all the sites of the first time. -/
structure Resending where
  allocator : SiteAllocator
  appends : allocator.Appends
  tables : SiteTable → SiteTable → Prop
  slots : UInt16 → UInt16 → Prop
  related : ∀ {site : CallSite} {table other later otherLater : SiteTable}
    {slot otherSlot : UInt16}, tables table other → allocator site table = .ok slot later →
      allocator site other = .ok otherSlot otherLater →
        later.sites.toList <+: other.sites.toList →
          slots slot otherSlot ∧ tables later otherLater

namespace LoweringState

/-- Two states of a class from which the same is written, up to slots. -/
structure Echoes (types : TypeTable) (resending : Resending) (first second : LoweringState) :
    Prop where
  code : first.assembler.Echoes resending.slots second.assembler
  stack : second.stack = first.stack
  allocator : first.ledger.allocator = resending.allocator
  otherAllocator : second.ledger.allocator = resending.allocator
  tables : resending.tables first.ledger.sites second.ledger.sites
  keyOf : second.ledger.keyOf = first.ledger.keyOf
  valid : first.ledger.Valid types
  otherValid : second.ledger.Valid types
  sorted : second.ledger.superNames.Pairwise (· < ·)

/-- A run has added nothing to what the bodies of a class share but sites. -/
structure AddsNothing (before after : LoweringState) : Prop where
  pool : after.assembler.pool = before.assembler.pool
  sites : before.ledger.sites.sites.toList <+: after.ledger.sites.sites.toList
  superNames : after.ledger.superNames = before.ledger.superNames
  reported : after.ledger.reported = before.ledger.reported
  diagnostics : after.diagnostics = before.diagnostics

namespace AddsNothing

variable {before middle after : LoweringState}

theorem refl (state : LoweringState) : state.AddsNothing state :=
  ⟨rfl, List.prefix_rfl, rfl, rfl, rfl⟩

theorem trans (left : before.AddsNothing middle) (right : middle.AddsNothing after) :
    before.AddsNothing after :=
  ⟨right.pool.trans left.pool, left.sites.trans right.sites,
    right.superNames.trans left.superNames, right.reported.trans left.reported,
    right.diagnostics.trans left.diagnostics⟩

/-- What was known before is known behind it. -/
theorem knownIn (adds : before.AddsNothing after) : before.KnownIn after :=
  ⟨by rw [adds.pool]; exact .refl _, adds.sites, by rw [adds.superNames]; exact List.Subset.refl _,
    by rw [adds.reported]; exact List.Subset.refl _⟩

end AddsNothing

end LoweringState

/-- An action in steps that is run again, where it is known what its first run left behind,
answers the same, writes the same and adds nothing. -/
structure Lower.Replays (context : Context) {Result : Type} (action : Lower Result) : Prop where
  stepwise : Stepwise context action
  again : ∀ {resending : Resending} {first after second later : LoweringState}
    {result other : Result}, first.Echoes context.types resending second →
      after.KnownIn second → Runs action context first result after →
        Runs action context second other later →
          other = result ∧ after.Echoes context.types resending later ∧ second.AddsNothing later

namespace Lower.Replays

variable {Result Middle : Type} {context : Context}

theorem pure (value : Result) : Replays context (Pure.pure value : Lower Result) where
  stepwise := .pure value
  again := by
    intro resending first after second later result other echoes _ run otherRun
    obtain ⟨rfl, rfl⟩ := (runs_pure _).mp run
    obtain ⟨rfl, rfl⟩ := (runs_pure _).mp otherRun
    exact ⟨rfl, echoes, .refl _⟩

theorem fail (error : LoweringError) : Replays context (Lower.fail error : Lower Result) where
  stepwise := .fail error
  again _ _ run _ := ((runs_fail error).mp run).elim

/-- The second part of a first run only adds to what the first part left, so that this is
known as well where the first part is run again. -/
theorem bind {action : Lower Middle} {next : Middle → Lower Result}
    (left : Replays context action) (right : ∀ value, Replays context (next value)) :
    Replays context (action >>= next) where
  stepwise := .bind left.stepwise fun value => (right value).stepwise
  again := by
    intro resending first after second later result other echoes known run otherRun
    rw [runs_bind] at run otherRun
    obtain ⟨value, middle, starts, ends⟩ := run
    obtain ⟨otherValue, between, otherStarts, otherEnds⟩ := otherRun
    have appends : first.ledger.allocator.Appends := echoes.allocator ▸ resending.appends
    have early := left.stepwise.grows first appends
    rw [show action context first = _ from starts] at early
    have stillAppends : middle.ledger.allocator.Appends := early.allocator.symm ▸ appends
    have late := (right value).stepwise.knownIn middle stillAppends
    rw [show next value context middle = _ from ends] at late
    obtain ⟨rfl, echoed, silent⟩ := left.again echoes (late.trans known) starts otherStarts
    obtain ⟨same, echoedToo, silentToo⟩ :=
      (right _).again echoed (known.trans silent.knownIn) ends otherEnds
    exact ⟨same, echoedToo, silent.trans silentToo⟩

theorem read {next : Context → Lower Result} (right : Replays context (next context)) :
    Replays context (MonadReader.read >>= next) where
  stepwise := .read right.stepwise
  again echoes known run otherRun := right.again echoes known run otherRun

/-- Of the states, only the tracked stacks decide what follows, and they are the same. -/
theorem peek {next : LoweringState → Lower Result}
    (same : ∀ first second : LoweringState, first.stack = second.stack → next first = next second)
    (right : ∀ state, Replays context (next state)) : Replays context (get >>= next) where
  stepwise := .look (fun state tables => same _ _ rfl) fun state => (right state).stepwise
  again := by
    intro resending first after second later result other echoes known run otherRun
    simp only [runs_bind, runs_get] at run otherRun
    obtain ⟨_, _, ⟨rfl, rfl⟩, run⟩ := run
    obtain ⟨_, _, ⟨rfl, rfl⟩, otherRun⟩ := otherRun
    rw [same _ _ echoes.stack] at otherRun
    exact (right _).again echoes known run otherRun

theorem write {step : Assembler → Assembler} (repeats : Assembler.Repeats step) :
    Replays context (Lower.write step) where
  stepwise := .write repeats.within
  again := by
    intro resending first after second later result other echoes known run otherRun
    rw [runs_write] at run otherRun
    subst run otherRun
    obtain ⟨pool, code⟩ := repeats.again echoes.code known.pool
    exact ⟨rfl, { echoes with code }, ⟨pool, List.prefix_rfl, rfl, rfl, rfl⟩⟩

theorem track (action : StackAction Result) : Replays context (Lower.track action) where
  stepwise := .track action
  again := by
    intro resending first after second later result other echoes known run otherRun
    rw [runs_track] at run otherRun
    obtain ⟨stack, does, rfl⟩ := run
    obtain ⟨otherStack, otherDoes, rfl⟩ := otherRun
    rw [echoes.stack, does] at otherDoes
    cases otherDoes
    exact ⟨rfl, { echoes with stack := rfl }, ⟨rfl, List.prefix_rfl, rfl, rfl, rfl⟩⟩

theorem restore (stack : TypeStack) : Replays context (CallCode.restore stack) where
  stepwise := .restore stack
  again := by
    intro resending first after second later result other echoes known run otherRun
    have ran := (runs_modify _).mp run
    have otherRan := (runs_modify _).mp otherRun
    subst ran otherRan
    exact ⟨rfl, { echoes with stack := rfl }, ⟨rfl, List.prefix_rfl, rfl, rfl, rfl⟩⟩

/-- Branches are placed at the same place in both codes, so that their labels are the same. -/
theorem writeLabelled {step : Assembler → Result × Assembler}
    (keeps : ∀ assembler, (step assembler).2.pool = assembler.pool)
    (same : ∀ {related : UInt16 → UInt16 → Prop} {first second : Assembler},
      first.Echoes related second →
        (step second).1 = (step first).1 ∧ (step first).2.Echoes related (step second).2) :
    Replays context (Lower.writeLabelled step) where
  stepwise := .writeLabelled fun assembler => by rw [keeps]; exact .refl _
  again := by
    intro resending first after second later result other echoes known run otherRun
    rw [runs_writeLabelled] at run otherRun
    obtain ⟨rfl, rfl⟩ := run
    obtain ⟨rfl, rfl⟩ := otherRun
    obtain ⟨label, code⟩ := same echoes.code
    exact ⟨label, { echoes with code }, ⟨keeps _, List.prefix_rfl, rfl, rfl, rfl⟩⟩

theorem resolve (label : Label) : Replays context (Lower.resolve label) where
  stepwise := .resolve label
  again := by
    intro resending first after second later result other echoes known run otherRun
    rw [runs_resolve] at run otherRun
    obtain ⟨distance, reaches, rfl⟩ := run
    obtain ⟨otherDistance, otherReaches, rfl⟩ := otherRun
    rw [echoes.code.distance_eq, reaches] at otherReaches
    cases otherReaches
    have code := echoes.code.setDistance label distance
    exact ⟨rfl, { echoes with code }, ⟨rfl, List.prefix_rfl, rfl, rfl, rfl⟩⟩

/-- A call that asks for a slot again gets a related one, and its site is written alike. -/
theorem send (site : CallSite) (count : UInt8) {next : Lower Result}
    (right : Replays context next) : Replays context (do
      let slot ← consult (Ledger.allocate site)
      Lower.write (·.callSite slot count site.flags.bits)
      next) where
  stepwise := by
    refine .bind (.allocate site) fun slot => .bind (.write fun assembler => ?_) fun _ =>
      right.stepwise
    exact (assembler.writes_callSite _ _ _).within
  again := by
    intro resending first after second later result other echoes known run otherRun
    simp only [runs_bind, runs_allocate, runs_write] at run otherRun
    obtain ⟨slot, _, ⟨sites, allocates, rfl⟩, _, _, rfl, run⟩ := run
    obtain ⟨otherSlot, _, ⟨otherSites, otherAllocates, rfl⟩, _, _, rfl, otherRun⟩ := otherRun
    rw [echoes.allocator] at allocates
    rw [echoes.otherAllocator] at otherAllocates
    have late := right.stepwise.knownIn
      { first with
        assembler := first.assembler.callSite slot count site.flags.bits
        ledger := { first.ledger with sites } } (echoes.allocator ▸ resending.appends)
    rw [show next context _ = _ from run] at late
    obtain ⟨slots, tables⟩ := resending.related echoes.tables allocates otherAllocates
      (late.sites.trans known.sites)
    have appended : second.ledger.sites.sites.toList <+: otherSites.sites.toList := by
      have appends := resending.appends site second.ledger.sites
      rwa [otherAllocates] at appends
    have code := echoes.code.callSite slots count site.flags.bits
    have sent : LoweringState.Echoes context.types resending
        { first with
          assembler := first.assembler.callSite slot count site.flags.bits
          ledger := { first.ledger with sites } }
        { second with
          assembler := second.assembler.callSite otherSlot count site.flags.bits
          ledger := { second.ledger with sites := otherSites } } :=
      { echoes with code, tables }
    have silent : second.AddsNothing
        { second with
          assembler := second.assembler.callSite otherSlot count site.flags.bits
          ledger := { second.ledger with sites := otherSites } } :=
      ⟨rfl, appended, rfl, rfl, rfl⟩
    obtain ⟨same, echoed, silentToo⟩ :=
      right.again sent (known.trans silent.knownIn) run otherRun
    exact ⟨same, echoed, silent.trans silentToo⟩

theorem recordSuper (name : String) : Replays context
    (modify fun state => { state with ledger := state.ledger.recordSuper name }) where
  stepwise := .recordSuper name
  again := by
    intro resending first after second later result other echoes known run otherRun
    rw [runs_modify] at run otherRun
    subst run otherRun
    have member : name ∈ second.ledger.superNames :=
      known.superNames (mem_insertName.mpr (.inl rfl))
    have same : second.ledger.recordSuper name = second.ledger := by
      rw [Ledger.recordSuper, insertName_of_mem echoes.sorted member]
    rw [same]
    exact ⟨rfl, { echoes with }, .refl _⟩

/-- The table of a class is the same one, whether it is found or built. -/
theorem table (target : Identity) (position : Position) :
    Replays context (consult (Ledger.candidateTable context.types target position)) where
  stepwise := .table target position
  again := by
    intro resending first after second later result other echoes known run otherRun
    rw [runs_consult] at run otherRun
    obtain ⟨ledger, tabled, rfl⟩ := run
    obtain ⟨otherLedger, otherTabled, rfl⟩ := otherRun
    have same := table_unique echoes.valid echoes.otherValid echoes.keyOf tabled otherTabled
    have valid := (echoes.valid.candidateTable tabled).2
    have otherValid := (echoes.otherValid.candidateTable otherTabled).2
    obtain ⟨tables, rfl⟩ := Ledger.candidateTable_keeps tabled
    obtain ⟨otherTables, rfl⟩ := Ledger.candidateTable_keeps otherTabled
    exact ⟨same, { echoes with valid, otherValid }, ⟨rfl, List.prefix_rfl, rfl, rfl, rfl⟩⟩

/-- Collisions that there are were reported in the first run. -/
theorem report (table : CandidateTable) (position : Position) : Replays context
    (modify fun state => state.report context.types table position) where
  stepwise := .report table position
  again := by
    intro resending first after second later result other echoes known run otherRun
    rw [runs_modify] at run otherRun
    subst run otherRun
    rw [LoweringState.report_eq_self fun colliding =>
      known.reported (first.mem_reported_report _ colliding position)]
    obtain ⟨reported, diagnostics, reports⟩ := first.report_eq context.types table position
    rw [reports]
    exact ⟨rfl, { echoes with }, .refl _⟩

end Lower.Replays

/-- A planned action can be run again, also if there are branches in its code. -/
theorem Lower.Planned.replays {context : Context} {Result : Type} {action : Lower Result}
    {marks : List Mark} (planned : Planned context True action marks) :
    Replays context action := by
  induction planned with
  | pure value => exact .pure value
  | bind _ _ left right => exact .bind left right
  | fail error => exact .fail error
  | read _ ih => exact .read ih
  | peek same _ ih => exact .peek same ih
  | write emit plain => exact .write (Emit.repeats plain)
  | setLine line => exact .write (.setLine line)
  | jump _ => exact .writeLabelled (fun _ => rfl) fun echoes => echoes.jump
  | lookupSwitch keys _ =>
      exact .writeLabelled (fun _ => rfl) fun echoes => echoes.lookupSwitch keys
  | resolve label _ => exact .resolve label
  | track action => exact .track action
  | restore stack => exact .restore stack
  | send site count _ ih => exact .send site count ih
  | recordSuper name => exact .recordSuper name
  | table target position => exact .table target position
  | report table position => exact .report table position

end CallCode
