import CallCode.Proofs.Lowering.Run
import CallCode.Proofs.Machine.Outline

/-!
# Outcomes of lowering actions

An action that fails has written code and added constants before.  However it ends, what
it wrote is sound, and the tables of the class and the reported errors are those that it
found.  If it succeeds, the locals that its code reads are known in order.
-/

namespace CallCode

namespace LoweringState

/-- The dispatch tables of the class, what was reported of them, and the errors are the
same in a later state. -/
structure Keeps (before after : LoweringState) : Prop where
  tables : after.ledger.tables = before.ledger.tables
  reported : after.ledger.reported = before.ledger.reported
  keyOf : after.ledger.keyOf = before.ledger.keyOf
  diagnostics : after.diagnostics = before.diagnostics

/-- Sound code was added that reads the given locals in order. -/
structure Advances (before after : LoweringState) (slots : List UInt16) : Prop where
  code : before.assembler.Extends after.assembler slots
  keeps : before.Keeps after

theorem Keeps.refl (state : LoweringState) : state.Keeps state := ⟨rfl, rfl, rfl, rfl⟩

theorem Keeps.trans {first second third : LoweringState} (left : first.Keeps second)
    (right : second.Keeps third) : first.Keeps third where
  tables := right.tables.trans left.tables
  reported := right.reported.trans left.reported
  keyOf := right.keyOf.trans left.keyOf
  diagnostics := right.diagnostics.trans left.diagnostics

theorem Advances.refl (state : LoweringState) : state.Advances state [] :=
  ⟨.refl state.assembler, .refl state⟩

theorem Advances.trans {first second third : LoweringState} {slots further : List UInt16}
    (left : first.Advances second slots) (right : second.Advances third further) :
    first.Advances third (slots ++ further) :=
  ⟨left.code.trans right.code, left.keeps.trans right.keeps⟩

theorem Advances.of_stack (state : LoweringState) (stack : TypeStack) :
    state.Advances { state with stack } [] :=
  ⟨.refl state.assembler, rfl, rfl, rfl, rfl⟩

end LoweringState

namespace Lower

variable {Result Middle Thing : Type} {context : Context} {before : LoweringState}
  {slots further : List UInt16}

/-- From a state, an action that succeeds writes code that reads the given locals, and
one that is rejected writes sound code too.  After a branch that is too long only the
pool matters. -/
def Leads (action : Lower Result) (context : Context) (before : LoweringState)
    (slots : List UInt16) : Prop :=
  match action context before with
  | .ok _ after => before.Advances after slots
  | .error (.rejected _) after => ∃ read, before.Advances after read
  | .error (.jumpTooFar _) after =>
      before.assembler.pool.Within after.assembler.pool ∧ before.Keeps after

/-- An action reads the given locals from whatever state it starts in. -/
def Reads (action : Lower Result) (context : Context) (slots : List UInt16) : Prop :=
  ∀ before, action.Leads context before slots

/-- The action ends in a state, after a fault if there is one. -/
def Ends (action : Lower Result) (context : Context) (before : LoweringState) :
    Option Fault → LoweringState → Prop
  | none, after => ∃ result, Runs action context before result after
  | some fault, after => action context before = .error fault after

theorem exists_ends (action : Lower Result) (context : Context) (before : LoweringState) :
    ∃ fault after, Ends action context before fault after := by
  cases outcome : action context before with
  | ok result after => exact ⟨none, after, result, outcome⟩
  | error fault after => exact ⟨some fault, after, outcome⟩

theorem ends_bind {first : Lower Middle} {next : Middle → Lower Result}
    {fault : Option Fault} {after : LoweringState}
    (ends : Ends (first >>= next) context before fault after) :
    (fault.isSome ∧ Ends first context before fault after) ∨
      ∃ value middle, Runs first context before value middle ∧
        Ends (next value) context middle fault after := by
  cases fault with
  | none =>
      obtain ⟨result, run⟩ := ends
      obtain ⟨value, middle, starts, follows⟩ := (runs_bind first next).mp run
      exact .inr ⟨value, middle, starts, result, follows⟩
  | some fault =>
      simp only [Ends, Bind.bind, ReaderT.bind, EStateM.bind] at ends
      cases outcome : first context before with
      | ok value middle =>
          rw [outcome] at ends
          exact .inr ⟨value, middle, outcome, ends⟩
      | error earlier middle =>
          rw [outcome] at ends
          cases ends
          exact .inl ⟨rfl, outcome⟩

theorem ends_of_ends_map {action : Lower Middle} {value : Result} {fault : Option Fault}
    {after : LoweringState}
    (ends : Ends (action >>= fun _ => pure value) context before fault after) :
    Ends action context before fault after := by
  rcases ends_bind ends with ⟨-, early⟩ | ⟨result, middle, run, last⟩
  · exact early
  · cases fault with
    | none =>
        obtain ⟨_, finishes⟩ := last
        obtain ⟨-, rfl⟩ := (runs_pure _).mp finishes
        exact ⟨result, run⟩
    | some fault => cases last

theorem ends_read_bind {next : Context → Lower Result} {fault : Option Fault}
    {after : LoweringState} (ends : Ends (read >>= next) context before fault after) :
    Ends (next context) context before fault after := by
  cases fault with
  | none => exact ends
  | some fault => exact ends

theorem ends_accept_bind {outcome : Except LoweringError Middle}
    {next : Middle → Lower Result} {fault : Option Fault} {after : LoweringState}
    (ends : Ends (accept outcome >>= next) context before fault after) :
    (∃ error, outcome = .error error ∧ fault = some (.rejected error) ∧ after = before) ∨
      ∃ value, outcome = .ok value ∧ Ends (next value) context before fault after := by
  cases outcome with
  | ok value =>
      refine .inr ⟨value, rfl, ?_⟩
      cases fault with
      | none => exact ends
      | some fault => exact ends
  | error error =>
      refine .inl ⟨error, rfl, ?_⟩
      cases fault with
      | none =>
          obtain ⟨result, run⟩ := ends
          cases run
      | some fault =>
          cases ends
          exact ⟨rfl, rfl⟩

theorem ends_consult_bind {action : EStateM LoweringError Ledger Middle}
    {next : Middle → Lower Result} {fault : Option Fault} {after : LoweringState}
    (ends : Ends (consult action >>= next) context before fault after) :
    (∃ error ledger, action before.ledger = .error error ledger ∧
      fault = some (.rejected error) ∧ after = { before with ledger }) ∨
      ∃ value ledger, action before.ledger = .ok value ledger ∧
        Ends (next value) context { before with ledger } fault after := by
  rcases ends_bind ends with ⟨failed, early⟩ | ⟨value, middle, run, late⟩
  · obtain ⟨fault, rfl⟩ := Option.isSome_iff_exists.mp failed
    simp only [Ends, consult] at early
    split at early
    · cases early
    · rename_i error ledger found
      cases early
      exact .inl ⟨error, ledger, found, rfl, rfl⟩
  · obtain ⟨ledger, found, rfl⟩ := (runs_consult action).mp run
    exact .inr ⟨value, ledger, found, late⟩

theorem ends_markLine {position : Position} {fault : Option Fault} {after : LoweringState}
    (ends : Ends (markLine position) context before fault after) : fault = none := by
  unfold markLine at ends
  cases fault with
  | none => rfl
  | some fault => split at ends <;> cases ends

/-- Whatever the end of an action is, its state keeps the pool and what was reported. -/
theorem Leads.keeps {action : Lower Result} {fault : Option Fault} {after : LoweringState}
    (leads : action.Leads context before slots)
    (ends : Ends action context before fault after) :
    before.assembler.pool.Within after.assembler.pool ∧ before.Keeps after := by
  cases fault with
  | none =>
      obtain ⟨result, run⟩ := ends
      unfold Leads at leads
      rw [run] at leads
      exact ⟨leads.code.within, leads.keeps⟩
  | some fault =>
      unfold Leads at leads
      rw [ends] at leads
      cases fault with
      | rejected error =>
          obtain ⟨read, advances⟩ := leads
          exact ⟨advances.code.within, advances.keeps⟩
      | jumpTooFar failure => exact leads

/-- An action that no branch stopped has written sound code. -/
theorem Leads.extends_of_ends {action : Lower Result} {fault : Option Fault}
    {after : LoweringState} (leads : action.Leads context before slots)
    (ends : Ends action context before fault after)
    (unstopped : ∀ failure, fault ≠ some (.jumpTooFar failure)) :
    ∃ read, before.assembler.Extends after.assembler read := by
  unfold Leads at leads
  cases fault with
  | none =>
      obtain ⟨result, run⟩ := ends
      rw [run] at leads
      exact ⟨slots, leads.code⟩
  | some fault =>
      rw [ends] at leads
      cases fault with
      | rejected error =>
          obtain ⟨read, advances⟩ := leads
          exact ⟨read, advances.code⟩
      | jumpTooFar failure => exact absurd rfl (unstopped failure)

theorem Leads.advances {action : Lower Result} {result : Result} {after : LoweringState}
    (leads : action.Leads context before slots)
    (run : Runs action context before result after) : before.Advances after slots := by
  unfold Leads at leads
  rw [run] at leads
  exact leads

theorem Reads.advances {action : Lower Result} {result : Result} {after : LoweringState}
    (reads : Reads action context slots) (run : Runs action context before result after) :
    before.Advances after slots :=
  Leads.advances (reads before) run

theorem Leads.bind {first : Lower Middle} {next : Middle → Lower Result}
    (left : first.Leads context before slots)
    (right : ∀ value middle, Runs first context before value middle →
      (next value).Leads context middle further) :
    (first >>= next).Leads context before (slots ++ further) := by
  unfold Leads at left ⊢
  simp only [Bind.bind, ReaderT.bind, EStateM.bind]
  cases outcome : first context before with
  | ok value middle =>
      have following := right value middle outcome
      simp only [outcome] at left
      simp only
      unfold Leads at following
      split at following
      · exact left.trans following
      · obtain ⟨read, advances⟩ := following
        exact ⟨slots ++ read, left.trans advances⟩
      · exact ⟨left.code.within.trans following.1, left.keeps.trans following.2⟩
  | error fault middle =>
      simp only [outcome] at left
      cases fault with
      | rejected error => exact left
      | jumpTooFar failure => exact left

theorem Reads.bind {first : Lower Middle} {next : Middle → Lower Result}
    (left : Reads first context slots)
    (right : ∀ value, Reads (next value) context further) :
    Reads (first >>= next) context (slots ++ further) :=
  fun before => (left before).bind fun value middle _ => right value middle

/-- The first of two actions reads nothing. -/
theorem Leads.then {first : Lower Middle} {next : Middle → Lower Result}
    (left : first.Leads context before [])
    (right : ∀ value middle, Runs first context before value middle →
      (next value).Leads context middle slots) :
    (first >>= next).Leads context before slots := by
  have both := left.bind right
  rwa [List.nil_append] at both

theorem Reads.then {first : Lower Middle} {next : Middle → Lower Result}
    (left : Reads first context []) (right : ∀ value, Reads (next value) context slots) :
    Reads (first >>= next) context slots :=
  fun before => (left before).then fun value middle _ => right value middle

/-- From a state, an action stops at a branch that is too long. -/
def Stops (action : Lower Result) (context : Context) (before : LoweringState) : Prop :=
  ∃ failure after, action context before = .error (.jumpTooFar failure) after ∧
    before.assembler.pool.Within after.assembler.pool ∧ before.Keeps after

theorem Stops.leads {action : Lower Result} (stops : action.Stops context before) :
    action.Leads context before slots := by
  obtain ⟨failure, after, run, within, keeps⟩ := stops
  unfold Leads
  rw [run]
  exact ⟨within, keeps⟩

theorem Stops.ahead {first : Lower Middle} (stops : first.Stops context before)
    (next : Middle → Lower Result) : (first >>= next).Stops context before := by
  obtain ⟨failure, after, run, kept⟩ := stops
  refine ⟨failure, after, ?_, kept⟩
  simp only [Bind.bind, ReaderT.bind, EStateM.bind, run]

theorem Stops.behind {first : Lower Middle} {next : Middle → Lower Result} {value : Middle}
    {middle : LoweringState} (run : Runs first context before value middle)
    (within : before.assembler.pool.Within middle.assembler.pool)
    (keeps : before.Keeps middle) (stops : (next value).Stops context middle) :
    (first >>= next).Stops context before := by
  obtain ⟨failure, after, stopped, upper, kept⟩ := stops
  refine ⟨failure, after, ?_, within.trans upper, keeps.trans kept⟩
  have first_run : first context before = .ok value middle := run
  simp only [Bind.bind, ReaderT.bind, EStateM.bind, first_run, stopped]

theorem reads_pure (value : Result) : Reads (pure value) context [] :=
  fun before => .refl before

theorem Reads.after_read {next : Context → Lower Result}
    (right : Reads (next context) context slots) :
    Reads (read >>= next) context slots :=
  fun before => right before

theorem reads_fail (error : LoweringError) : Reads (fail error : Lower Result) context slots :=
  fun before => ⟨[], .refl before⟩

/-- What would follow a failure does not matter. -/
theorem reads_fail_bind (error : LoweringError) (next : Middle → Lower Result) :
    Reads (fail error >>= next) context slots :=
  fun before => ⟨[], .refl before⟩

theorem reads_get : Reads (get : Lower LoweringState) context [] :=
  fun before => .refl before

theorem reads_write {step : Assembler → Assembler}
    (placed : ∀ assembler : Assembler, assembler.Extends (step assembler) slots) :
    Reads (write step) context slots :=
  fun before => ⟨placed before.assembler, rfl, rfl, rfl, rfl⟩

theorem reads_track (action : StackAction Result) : Reads (track action) context [] := by
  intro before
  unfold Leads track
  cases action before.stack with
  | ok result stack => exact .of_stack before stack
  | error error stack => exact ⟨[], .of_stack before stack⟩

/-- Handing out a slot changes nothing but the sites. -/
theorem reads_allocate (site : CallSite) :
    Reads (consult (Ledger.allocate site)) context [] := by
  intro before
  unfold Leads consult Ledger.allocate
  cases before.ledger.allocator site before.ledger.sites with
  | ok slot sites => exact ⟨.refl _, rfl, rfl, rfl, rfl⟩
  | error error sites => exact ⟨[], .refl _, rfl, rfl, rfl, rfl⟩

theorem reads_recordSuper (name : String) :
    Reads (modify fun state => { state with ledger := state.ledger.recordSuper name }) context
      [] :=
  fun _ => ⟨.refl _, rfl, rfl, rfl, rfl⟩

theorem reads_restore (stack : TypeStack) :
    Reads (modify fun state => { state with stack }) context [] :=
  fun before => .of_stack before stack

theorem Leads.resolve {label : Label} (awaits : before.assembler.listing.Awaits label) :
    (resolve label).Leads context before [] := by
  refine .then (reads_get before) fun value middle run => ?_
  obtain ⟨rfl, rfl⟩ := runs_get.mp run
  split
  · exact ⟨Assembler.extends_setDistance awaits _, rfl, rfl, rfl, rfl⟩
  · exact ⟨.refl _, .refl _⟩

end Lower

end CallCode
