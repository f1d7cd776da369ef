import CallCode.Proofs.CollisionReports
import CallCode.Proofs.Lowering.Stepwise

/-!
# What bodies share

However a body in steps ends, what the bodies of a class share has only grown.  The tables
that were looked up before it decide neither what it answers nor what it leaves: a table is
the one of its class, whether it is found or built.
-/

namespace CallCode

open Lower

/-- Calls are only added, whether a slot is handed out or not. -/
def SiteAllocator.Appends (allocator : SiteAllocator) : Prop :=
  ∀ site table,
    match allocator site table with
    | .ok _ later | .error _ later => table.sites.toList <+: later.sites.toList

theorem SiteTable.appends_allocate : SiteAllocator.Appends SiteTable.allocate := by
  intro site table
  unfold SiteTable.allocate
  by_cases few : table.count < 65536
  · simp [few]
  · simp [few]

theorem SiteTable.appends_allocateBounded (limit : Nat) (shared : Bool) :
    SiteAllocator.Appends (SiteTable.allocateBounded limit shared) := by
  intro site table
  have unbounded := SiteTable.appends_allocate site table
  cases known : if shared then table.sites.idxOf? site else none with
  | some slot => simp [SiteTable.allocateBounded, known]
  | none =>
      simp only [SiteTable.allocateBounded, known]
      by_cases full : limit ≤ table.count
      · simp [full]
      · simpa only [full, if_false] using unbounded

theorem sublist_insertName (name : String) (names : List String) :
    names.Sublist (insertName name names) := by
  induction names with
  | nil => exact List.nil_sublist _
  | cons other names ih =>
      rw [insertName]
      split
      · exact .refl _
      · split
        · exact .cons _ (.refl _)
        · exact .cons_cons _ ih

/-- What the bodies share has grown, and a class is only noted as reported together with
its errors. -/
structure LoweringState.Grows (before after : LoweringState) : Prop where
  classId : after.ledger.classId = before.ledger.classId
  allocator : after.ledger.allocator = before.ledger.allocator
  keyOf : after.ledger.keyOf = before.ledger.keyOf
  pool : before.assembler.pool.Within after.assembler.pool
  sites : before.ledger.sites.sites.toList <+: after.ledger.sites.sites.toList
  superNames : before.ledger.superNames.Sublist after.ledger.superNames
  errors : before.diagnostics.errors.toList <+: after.diagnostics.errors.toList
  reported : after.diagnostics.errors.toList.length = before.diagnostics.errors.toList.length →
    after.ledger.reported = before.ledger.reported

namespace LoweringState.Grows

variable {before after : LoweringState}

theorem of_pool (same : after.ledger = before.ledger)
    (silent : after.diagnostics = before.diagnostics)
    (within : before.assembler.pool.Within after.assembler.pool) : before.Grows after where
  classId := by rw [same]
  allocator := by rw [same]
  keyOf := by rw [same]
  pool := within
  sites := by simp only [same, List.prefix_rfl]
  superNames := by simp only [same, List.Sublist.refl]
  errors := by simp only [silent, List.prefix_rfl]
  reported := fun _ => by rw [same]

theorem refl (state : LoweringState) : state.Grows state := .of_pool rfl rfl (.refl _)

theorem trans {first second third : LoweringState} (left : first.Grows second)
    (right : second.Grows third) : first.Grows third where
  classId := right.classId.trans left.classId
  allocator := right.allocator.trans left.allocator
  keyOf := right.keyOf.trans left.keyOf
  pool := left.pool.trans right.pool
  sites := left.sites.trans right.sites
  superNames := left.superNames.trans right.superNames
  errors := left.errors.trans right.errors
  reported := by
    intro silent
    have early := left.errors.length_le
    have late := right.errors.length_le
    rw [right.reported (by omega), left.reported (by omega)]

theorem of_sites {sites : SiteTable}
    (appended : before.ledger.sites.sites.toList <+: sites.sites.toList) :
    before.Grows { before with ledger := { before.ledger with sites } } :=
  ⟨rfl, rfl, rfl, .refl _, appended, .refl _, List.prefix_rfl, fun _ => rfl⟩

theorem of_tables (state : LoweringState) (tables : List CandidateTable) :
    state.Grows (state.withTables tables) :=
  ⟨rfl, rfl, rfl, .refl _, List.prefix_rfl, .refl _, List.prefix_rfl, fun _ => rfl⟩

theorem of_superName (state : LoweringState) (name : String) :
    state.Grows { state with ledger := state.ledger.recordSuper name } :=
  ⟨rfl, rfl, rfl, .refl _, List.prefix_rfl, sublist_insertName _ _, List.prefix_rfl,
    fun _ => rfl⟩

/-- A table with collisions has errors, so that its report is seen. -/
theorem of_report (state : LoweringState) (types : TypeTable) (table : CandidateTable)
    (position : Position) : state.Grows (state.report types table position) := by
  unfold LoweringState.report Ledger.reportCollisions
  split
  · rename_i due
    have colliding : table.collisions ≠ [] := by
      simp only [Bool.and_eq_true, CandidateTable.hasCollisions] at due
      simpa using due.1
    have several := (forall₂_collisionErrors types table position).length_eq
    have positive := List.length_pos_iff.mpr colliding
    refine ⟨rfl, rfl, rfl, .refl _, List.prefix_rfl, .refl _, ?_, fun silent => ?_⟩
    · rw [toList_foldl_report]
      exact List.prefix_append _ _
    · rw [toList_foldl_report, List.length_append] at silent
      omega
  · exact .refl state

end LoweringState.Grows

/-- The state in which a run ended. -/
def Lower.final {Result : Type} : EStateM.Result Fault LoweringState Result → LoweringState
  | .ok _ state | .error _ state => state

/-- However an action in steps ends, what the bodies share has grown. -/
theorem Lower.Stepwise.grows {context : Context} {Result : Type} {action : Lower Result}
    (stepwise : Stepwise context action) (before : LoweringState)
    (appends : before.ledger.allocator.Appends) :
    before.Grows (final (action context before)) := by
  induction stepwise generalizing before with
  | pure value => exact .refl before
  | @bind _ _ first _ _ _ left right =>
      have early := left before appends
      simp only [Bind.bind, ReaderT.bind, EStateM.bind]
      cases outcome : first context before with
      | ok value middle =>
          rw [outcome] at early
          have still : middle.ledger.allocator.Appends := by
            rw [show middle.ledger.allocator = _ from early.allocator]
            exact appends
          exact early.trans (right value middle still)
      | error fault middle =>
          rw [outcome] at early
          exact early
  | throw fault => exact .refl before
  | @attempt _ _ action _ _ _ left right =>
      have early := left before appends
      have late (outcome : Except LoweringError _) (middle : LoweringState)
          (early : before.Grows middle) := early.trans
        (right outcome middle (by rw [early.allocator]; exact appends))
      unfold Lower.attempt
      cases outcome : action context before with
      | ok value middle =>
          rw [outcome] at early
          exact late _ _ early
      | error fault middle =>
          rw [outcome] at early
          cases fault with
          | rejected error => exact late _ _ early
          | jumpTooFar failure => exact early
  | read _ ih => exact ih before appends
  | look _ _ ih => exact ih before before appends
  | write within => exact .of_pool rfl rfl (within before.assembler)
  | writeLabelled within => exact .of_pool rfl rfl (within before.assembler)
  | track action =>
      unfold Lower.track
      cases action before.stack with
      | ok result stack => exact .of_pool rfl rfl (.refl _)
      | error error stack => exact .of_pool rfl rfl (.refl _)
  | restore stack => exact .of_pool rfl rfl (.refl _)
  | table target position =>
      simp only [consult]
      cases found : Ledger.candidateTable context.types target position before.ledger with
      | ok table ledger =>
          obtain ⟨tables, rfl⟩ := Ledger.candidateTable_keeps found
          exact .of_tables before tables
      | error error ledger =>
          cases Ledger.eq_of_candidateTable_error found
          exact .refl before
  | report table position => exact .of_report before _ table position
  | allocate site =>
      have appended := appends site before.ledger.sites
      simp only [consult, Ledger.allocate]
      cases outcome : before.ledger.allocator site before.ledger.sites with
      | ok slot sites =>
          rw [outcome] at appended
          exact .of_sites appended
      | error error sites =>
          rw [outcome] at appended
          exact .of_sites appended
  | recordSuper name => exact .of_superName before name

/-! ## Tables that were looked up before -/

/-- Two states that differ at most in the tables that were looked up, each of which is the
one of its class. -/
structure LoweringState.Twins (types : TypeTable) (first second : LoweringState) : Prop where
  same : ∃ tables, second = first.withTables tables
  reachable : first.ledger.Reachable types
  otherReachable : second.ledger.Reachable types

/-- Two runs that end with the same value or the same fault, in such states. -/
inductive Lower.EndAlike (types : TypeTable) {Result : Type} :
    EStateM.Result Fault LoweringState Result →
    EStateM.Result Fault LoweringState Result → Prop
  | ok {value : Result} {first second : LoweringState} :
      first.Twins types second → EndAlike types (.ok value first) (.ok value second)
  | error {fault : Fault} {first second : LoweringState} :
      first.Twins types second → EndAlike types (.error fault first) (.error fault second)

namespace Lower.EndAlike

variable {context : Context} {Result Middle : Type} {first second : LoweringState}

/-- What goes on from each end in the same way ends in the same way. -/
theorem bind {action : Lower Middle} {next : Middle → Lower Result}
    (starts : EndAlike context.types (action context first) (action context second))
    (goes : ∀ value {first second : LoweringState}, first.Twins context.types second →
      EndAlike context.types (next value context first) (next value context second)) :
    EndAlike context.types ((action >>= next) context first)
      ((action >>= next) context second) := by
  simp only [Bind.bind, ReaderT.bind, EStateM.bind]
  generalize action context first = one, action context second = another at starts
  cases starts with
  | ok twins => exact goes _ twins
  | error twins => exact .error twins

theorem attempt {action : Lower Middle} {next : Except LoweringError Middle → Lower Result}
    (starts : EndAlike context.types (action context first) (action context second))
    (goes : ∀ outcome {first second : LoweringState}, first.Twins context.types second →
      EndAlike context.types (next outcome context first) (next outcome context second)) :
    EndAlike context.types (Lower.attempt action next context first)
      (Lower.attempt action next context second) := by
  unfold Lower.attempt
  generalize action context first = one, action context second = another at starts
  cases starts with
  | ok twins => exact goes _ twins
  | @error fault _ _ twins =>
      cases fault with
      | rejected error => exact goes _ twins
      | jumpTooFar failure => exact .error twins

/-- The table of a class is found, built or refused in both states. -/
theorem table (twins : first.Twins context.types second) (target : Identity)
    (position : Position) :
    EndAlike context.types
      (consult (Ledger.candidateTable context.types target position) context first)
      (consult (Ledger.candidateTable context.types target position) context second) := by
  obtain ⟨⟨tables, rfl⟩, reachable, otherReachable⟩ := twins
  simp only [consult]
  cases built : CandidateTable.build context.types target position first.ledger.keyOf with
  | ok table =>
      obtain ⟨_, found⟩ := reachable.valid.candidateTable_of_build built
      obtain ⟨_, otherFound⟩ := otherReachable.valid.candidateTable_of_build built
      rw [found, otherFound]
      exact .ok ⟨⟨_, rfl⟩, .tabled reachable found, .tabled otherReachable otherFound⟩
  | error error =>
      rw [reachable.valid.candidateTable_of_refused built,
        otherReachable.valid.candidateTable_of_refused built]
      exact .error ⟨⟨tables, rfl⟩, reachable, otherReachable⟩

end Lower.EndAlike

namespace LoweringState.Twins

variable {types : TypeTable} {first second : LoweringState}

theorem report (twins : first.Twins types second) (table : CandidateTable)
    (position : Position) :
    (first.report types table position).Twins types (second.report types table position) := by
  obtain ⟨⟨tables, rfl⟩, reachable, otherReachable⟩ := twins
  refine ⟨⟨tables, ?_⟩, .reported table position _ reachable,
    .reported table position _ otherReachable⟩
  simp only [LoweringState.report, Ledger.reportCollisions, LoweringState.withTables]
  by_cases due : (table.hasCollisions && !first.ledger.reported.contains table.classId) = true
  · simp only [due, if_true]
  · simp only [due, if_false, Bool.false_eq_true]

theorem modify (twins : first.Twins types second) (assembler : Assembler) (stack : TypeStack) :
    { first with assembler, stack }.Twins types { second with assembler, stack } := by
  obtain ⟨⟨tables, rfl⟩, reachable, otherReachable⟩ := twins
  exact ⟨⟨tables, rfl⟩, reachable, otherReachable⟩

theorem sites (twins : first.Twins types second) (sites : SiteTable) :
    { first with ledger := { first.ledger with sites } }.Twins types
      { second with ledger := { second.ledger with sites } } := by
  obtain ⟨⟨tables, rfl⟩, reachable, otherReachable⟩ := twins
  exact ⟨⟨tables, rfl⟩, .allocated sites reachable, .allocated sites otherReachable⟩

theorem recordSuper (twins : first.Twins types second) (name : String) :
    { first with ledger := first.ledger.recordSuper name }.Twins types
      { second with ledger := second.ledger.recordSuper name } := by
  obtain ⟨⟨tables, rfl⟩, reachable, otherReachable⟩ := twins
  exact ⟨⟨tables, rfl⟩, .recorded name reachable, .recorded name otherReachable⟩

end LoweringState.Twins

/-- The tables that are there already do not decide how an action in steps ends. -/
theorem Lower.Stepwise.endAlike {context : Context} {Result : Type} {action : Lower Result}
    (stepwise : Stepwise context action) {first second : LoweringState}
    (twins : first.Twins context.types second) :
    EndAlike context.types (action context first) (action context second) := by
  induction stepwise generalizing first second with
  | pure value => exact .ok twins
  | bind _ _ left right => exact (left twins).bind fun value _ _ => right value
  | throw fault => exact .error twins
  | attempt _ _ left right => exact (left twins).attempt fun outcome _ _ => right outcome
  | read _ ih => exact ih twins
  | @look _ next blind _ ih =>
      -- the states differ in the tables alone, which the step does not look at
      obtain ⟨tables, rfl⟩ := twins.same
      have goes := ih first twins
      change EndAlike _ (next first context first)
        (next (first.withTables tables) context (first.withTables tables))
      rw [blind]
      exact goes
  | @write step _ =>
      obtain ⟨tables, rfl⟩ := twins.same
      exact .ok (twins.modify (step first.assembler) first.stack)
  | @writeLabelled _ step _ =>
      obtain ⟨tables, rfl⟩ := twins.same
      exact .ok (twins.modify (step first.assembler).2 first.stack)
  | track action =>
      obtain ⟨tables, rfl⟩ := twins.same
      simp only [Lower.track, LoweringState.withTables]
      cases action first.stack with
      | ok result stack => exact .ok (twins.modify first.assembler stack)
      | error error stack => exact .error (twins.modify first.assembler stack)
  | restore stack =>
      obtain ⟨tables, rfl⟩ := twins.same
      exact .ok (twins.modify first.assembler stack)
  | table target position => exact .table twins target position
  | report table position => exact .ok (twins.report table position)
  | allocate site =>
      obtain ⟨tables, rfl⟩ := twins.same
      simp only [consult, Ledger.allocate, LoweringState.withTables]
      cases first.ledger.allocator site first.ledger.sites with
      | ok slot sites => exact .ok (twins.sites sites)
      | error error sites => exact .error (twins.sites sites)
  | recordSuper name => exact .ok (twins.recordSuper name)

end CallCode
