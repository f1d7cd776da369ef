import CallCode.Proofs.Lowering.Tasks
import CallCode.Proofs.Relowering
import CallCode.Proofs.ResolvedTarget

/-!
# Methods that are sent to `super`

A class reports the names that its bodies send to `super` through a routine.  A name is noted
before the operands of its call are lowered, once it is known that nothing else can make the
call: `super` is never bound by a proof or a class lookup and never takes a call site, so that
only a resolved target keeps a call from the routine.
-/

namespace CallCode

open Lower

variable {context : Context} {before after : LoweringState} {fault : Option Fault}

/-! ## The way in which a call is made -/

/-- The tier of a request, if it is made at all. -/
def Request.tier? (context : Context) (request : Request) : Option Tier :=
  match request.normalize.boundCall context.types context.frame.options with
  | .ok (some _) => some .direct
  | .ok none => some (if request.cachedName?.isSome then .cached else .uncached)
  | .error _ => none

namespace MethodCall

/-- The tier of a method call, if it is made at all. -/
def tier? (context : Context) (call : MethodCall Operand) : Option Tier :=
  if (call.closureField? context).isSome then some .closure
  else (call.request context).tier? context

/-- A call is made on `super` through a routine, under a name that is known. -/
def SendsToSuper (context : Context) (call : MethodCall Expr) (name : String) : Prop :=
  call.receiver = .super ∧ (call.operands.request context).selector.name? = some name ∧
    call.operands.tier? context = some .uncached

/-- The tier does not depend on the state that a call finds. -/
theorem tier?_of_runs {call : MethodCall Expr} {tier : Tier}
    (run : Runs (lowerMethodCall call.operands) context before tier after) :
    call.operands.tier? context = some tier := by
  obtain ⟨code, type, made, -⟩ := (inductive_trivial context).method_run run
  cases made with
  | closure found => simp [tier?, found]
  | request absent made =>
      cases made with
      | direct binds => simp [tier?, absent, Request.tier?, binds]
      | cached binds named =>
          rw [Request.normalize_cachedName?] at named
          simp [tier?, absent, Request.tier?, binds, named]
      | uncached binds unnamed =>
          rw [Request.normalize_cachedName?] at unnamed
          simp [tier?, absent, Request.tier?, binds, unnamed]

end MethodCall

/-! ## Calls on `super` -/

namespace Request

variable {request : Request}

theorem isClassLookup_of_isSuper (isSuper : request.receiver.source.isSuper = true) :
    request.isClassLookup = false := by
  unfold isClassLookup
  split
  · rename_i literal _
    rw [literal] at isSuper
    cases isSuper
  · rfl

/-- Nothing but a resolved target keeps a request on `super` from its routine. -/
theorem uncached_iff_of_isSuper {tier : Tier} (isSuper : request.receiver.source.isSuper = true)
    (dispatched : request.routine = .invokeOnSuper) (made : request.tier? context = some tier) :
    tier = .uncached ↔ request.hasSpread = true ∨ request.target = none := by
  have noLookup : request.normalize.isClassLookup = false := by
    rw [isClassLookup_normalize, isClassLookup_of_isSuper isSuper]
  have noProof : request.normalize.fastTarget? context.frame.options = none := by
    simp [fastTarget?, dispatched]
  have noSite : request.cachedName? = none := by
    simp [cachedName?, dispatched, Routine.isCacheable]
  have bound : request.normalize.boundCall context.types context.frame.options =
      request.normalize.resolvedCall context.types := by
    rw [boundCall, noLookup, noProof]
    rfl
  rw [tier?, bound, noSite, resolvedCall, target_normalize, hasSpread_normalize] at made
  cases resolved : request.target with
  | none =>
      rw [resolved] at made
      cases made
      simp
  | some target =>
      simp only [resolved] at made
      cases spread : request.hasSpread with
      | true =>
          rw [spread] at made
          cases made
          simp
      | false =>
          rw [spread] at made
          cases known : request.normalize.knownMethod context.types target with
          | error error =>
              rw [known] at made
              cases made
          | ok method =>
              rw [known] at made
              cases made
              simp

end Request

namespace MethodCall

variable {call : MethodCall Operand}

theorem routine_eq_invokeOnSuper_iff (frame : Frame) :
    call.routine frame = .invokeOnSuper ↔ call.receiver.source.isSuper = true := by
  unfold routine onClass
  cases call.receiver.source <;> simp [Expr.isThis, Expr.isSuper]
  split <;> simp

theorem closureField?_of_isSuper (isSuper : call.receiver.source.isSuper = true) :
    call.closureField? context = none := by
  rw [Option.eq_none_iff_forall_ne_some]
  intro field found
  obtain ⟨-, isThis, -⟩ := spec_of_closureField? found
  cases source : call.receiver.source with
  | super => rw [source] at isThis; cases isThis
  | _ => rw [source] at isSuper; cases isSuper

theorem target_request_eq_none_iff :
    (call.request context).target = none ↔
      call.target = none ∧ call.functionalMethod? context = none := by
  unfold request
  split
  · rename_i method found
    simp [found]
  · rename_i absent
    simp [absent, requestFor]

theorem uncached_iff_of_isSuper {tier : Tier} (isSuper : call.receiver.source.isSuper = true)
    (made : call.tier? context = some tier) :
    tier = .uncached ↔ containsSpread (sources call.arguments) = true ∨
      (call.target = none ∧ call.functionalMethod? context = none) := by
  rw [tier?, closureField?_of_isSuper isSuper] at made
  have requested : (call.request context).receiver.source.isSuper = true := by
    rwa [receiver_request]
  have dispatched : (call.request context).routine = .invokeOnSuper := by
    rw [routine_request]
    exact (routine_eq_invokeOnSuper_iff _).mpr isSuper
  rw [Request.uncached_iff_of_isSuper requested dispatched made, hasSpread_request,
    target_request_eq_none_iff]

end MethodCall

/-! ## Names that calls note -/

def Mark.super? : Mark → Option String
  | .super name => some name
  | .outer _ => none

theorem MethodCall.source_operands (call : MethodCall Expr) :
    call.operands.receiver.source = call.receiver := by
  rw [operands]

/-- The name that a call notes by itself. -/
def Call.superName? (context : Context) : Call Expr → Option String
  | .method call =>
      if call.receiver.isSuper ∧ call.operands.tier? context = some .uncached then
        (call.operands.request context).selector.name?
      else none
  | .static _ | .create _ | .chain _ => none

theorem Call.superName?_eq_some {call : Call Expr} {name : String} :
    call.superName? context = some name ↔
      ∃ method, call = .method method ∧ method.SendsToSuper context name := by
  cases call with
  | method call =>
      have isSuper : call.receiver.isSuper = true ↔ call.receiver = .super := by
        cases call.receiver <;> simp [Expr.isSuper]
      simp only [superName?, Option.ite_none_right_eq_some, isSuper, method.injEq,
        exists_eq_left', MethodCall.SendsToSuper, and_assoc]
      tauto
  | static | create | chain => simp [superName?]

theorem BoundCall.filterMap_marks (call : BoundCall) :
    (call.marks context).filterMap Mark.super? = [] := by
  unfold marks
  split <;> rfl

theorem Request.filterMap_ownMarks (request : Request) :
    (request.ownMarks context).filterMap Mark.super? =
      if request.routine = .invokeOnSuper ∧ request.tier? context = some .uncached then
        request.selector.name?.toList
      else [] := by
  cases bound : request.normalize.boundCall context.types context.frame.options with
  | error error => simp [ownMarks, tier?, bound]
  | ok binds =>
      cases binds with
      | some call => simp [ownMarks, tier?, bound, call.filterMap_marks]
      | none =>
          cases named : request.cachedName? with
          | some name => simp [ownMarks, tier?, bound, named]
          | none =>
              simp only [ownMarks, tier?, bound, named, Option.isSome_none, Bool.false_eq_true,
                if_false, noted, and_true]
              split
              · cases request.selector.name? <;> rfl
              · rfl

/-- The name that is noted in the ledger is that of a call on `super` through a routine. -/
theorem Call.filterMap_ownMarks (call : Call Expr) :
    (call.ownMarks context).filterMap Mark.super? = (call.superName? context).toList := by
  cases call with
  | method call =>
      rw [ownMarks, MethodCall.ownMarks]
      cases found : call.operands.closureField? context with
      | some field => simp [superName?, MethodCall.tier?, found]
      | none =>
          simp only [Option.isSome_none, Bool.false_eq_true, if_false,
            Request.filterMap_ownMarks, MethodCall.routine_request,
            MethodCall.routine_eq_invokeOnSuper_iff, superName?, MethodCall.tier?, found,
            MethodCall.source_operands]
          split <;> rfl
  | static call =>
      rw [ownMarks, Request.filterMap_ownMarks, if_neg]
      · rfl
      · rintro ⟨routine, -⟩
        cases routine
  | create | chain => rfl

theorem Call.filterMap_marks (calls : List (Call Expr)) :
    (calls.flatMap (Call.ownMarks context)).filterMap Mark.super? =
      calls.filterMap (Call.superName? context) := by
  induction calls with
  | nil => rfl
  | cons call calls ih =>
      rw [List.flatMap_cons, List.filterMap_append, call.filterMap_ownMarks, ih]
      cases named : call.superName? context <;> simp [named]

/-! ## What is noted -/

/-- The names that are noted in a later state are those of an earlier one and some others. -/
structure LoweringState.Notes (before after : LoweringState) (names : List String) : Prop where
  sorted : before.ledger.superNames.Pairwise (· < ·) → after.ledger.superNames.Pairwise (· < ·)
  mem_iff : ∀ name, name ∈ after.ledger.superNames ↔
    name ∈ before.ledger.superNames ∨ name ∈ names

namespace LoweringState.Notes

variable {first second third : LoweringState} {names further : List String}

theorem of_same (same : second.ledger.superNames = first.ledger.superNames) :
    first.Notes second [] where
  sorted := by simp [same]
  mem_iff := by simp [same]

theorem refl (state : LoweringState) : state.Notes state [] := of_same rfl

theorem trans (left : first.Notes second names) (right : second.Notes third further) :
    first.Notes third (names ++ further) where
  sorted := right.sorted ∘ left.sorted
  mem_iff name := by rw [right.mem_iff, left.mem_iff, List.mem_append, or_assoc]

theorem recordSuper (state : LoweringState) (name : String) :
    state.Notes { state with ledger := state.ledger.recordSuper name } [name] where
  sorted := pairwise_insertName
  mem_iff other := by
    rw [List.mem_singleton, or_comm]
    exact mem_insertName

end LoweringState.Notes

/-- However an action ends, it notes the first of some names, and all of them if it
succeeds. -/
def Lower.Notes {Result : Type} (action : Lower Result) (context : Context)
    (names : List String) : Prop :=
  ∀ before fault after, Ends action context before fault after →
    ∃ noted, noted <+: names ∧ (fault = none → noted = names) ∧ before.Notes after noted

namespace Lower

variable {Result Middle : Type} {names further : List String}

/-- An action that leaves the names alone. -/
theorem notes_of_same {action : Lower Result}
    (same : ∀ before fault after, Ends action context before fault after →
      after.ledger.superNames = before.ledger.superNames) : Lower.Notes action context [] :=
  fun before fault after ends =>
    ⟨[], List.prefix_rfl, fun _ => rfl, .of_same (same before fault after ends)⟩

theorem Notes.bind {first : Lower Middle} {next : Middle → Lower Result}
    (left : Lower.Notes first context names)
    (right : ∀ value, Lower.Notes (next value) context further) :
    Lower.Notes (first >>= next) context (names ++ further) := by
  intro before fault after ends
  rcases ends_bind ends with ⟨failed, early⟩ | ⟨value, middle, run, late⟩
  · obtain ⟨noted, part, -, notes⟩ := left before fault after early
    refine ⟨noted, part.trans (List.prefix_append _ _), fun succeeds => ?_, notes⟩
    rw [succeeds] at failed
    cases failed
  · obtain ⟨_, -, all, notes⟩ := left before none middle ⟨value, run⟩
    obtain rfl := all rfl
    obtain ⟨noted, part, whole, more⟩ := right value middle fault after late
    refine ⟨_ ++ noted, (List.prefix_append_right_inj _).mpr part, fun succeeds => ?_,
      notes.trans more⟩
    rw [whole succeeds]

theorem Notes.then {first : Lower Middle} {next : Middle → Lower Result}
    (left : Lower.Notes first context [])
    (right : ∀ value, Lower.Notes (next value) context names) :
    Lower.Notes (first >>= next) context names :=
  left.bind right

theorem notes_pure (value : Result) : Lower.Notes (pure value) context [] := by
  refine notes_of_same fun before fault after ends => ?_
  cases fault with
  | none =>
      obtain ⟨_, run⟩ := ends
      rw [((runs_pure value).mp run).2]
  | some fault => cases ends

theorem notes_throw (fault : Fault) (names : List String) :
    Lower.Notes (throw fault : Lower Result) context names := by
  intro before stopped after ends
  cases stopped with
  | none =>
      obtain ⟨_, run⟩ := ends
      cases run
  | some stopped =>
      cases ends
      exact ⟨[], List.nil_prefix, fun succeeds => (nomatch succeeds), .refl before⟩

theorem notes_get : Lower.Notes (get : Lower LoweringState) context [] := by
  refine notes_of_same fun before fault after ends => ?_
  cases fault with
  | none =>
      obtain ⟨_, run⟩ := ends
      rw [(runs_get.mp run).2]
  | some fault => cases ends

theorem notes_modify {change : LoweringState → LoweringState} {names : List String}
    (notes : ∀ state : LoweringState, state.Notes (change state) names) :
    Lower.Notes (modify change) context names := by
  intro before fault after ends
  cases fault with
  | none =>
      obtain ⟨_, run⟩ := ends
      rw [(runs_modify change).mp run]
      exact ⟨names, List.prefix_rfl, fun _ => rfl, notes before⟩
  | some fault => cases ends

theorem notes_write (step : Assembler → Assembler) : Lower.Notes (write step) context [] :=
  notes_modify fun _ => .of_same rfl

theorem notes_writeLabelled (step : Assembler → Result × Assembler) :
    Lower.Notes (writeLabelled step) context [] := by
  refine notes_of_same fun before fault after ends => ?_
  cases fault with
  | none =>
      obtain ⟨_, run⟩ := ends
      rw [((runs_writeLabelled step).mp run).2]
  | some fault => cases ends

theorem notes_track (action : StackAction Result) : Lower.Notes (track action) context [] := by
  refine notes_of_same fun before fault after ends => ?_
  cases fault with
  | none =>
      obtain ⟨_, run⟩ := ends
      obtain ⟨stack, -, rfl⟩ := (runs_track action).mp run
      rfl
  | some fault =>
      simp only [Ends, track] at ends
      split at ends
      · cases ends
      · cases ends
        rfl

theorem notes_resolve (label : Label) : Lower.Notes (resolve label) context [] := by
  refine .then notes_get fun state => ?_
  split
  · exact notes_write _
  · exact notes_throw _ _

/-- Looking something up in the ledger, or asking it for a slot. -/
theorem notes_consult {action : EStateM LoweringError Ledger Result}
    (kept : ∀ ledger, match action ledger with
      | .ok _ later | .error _ later => later.superNames = ledger.superNames) :
    Lower.Notes (consult action) context [] := by
  refine notes_of_same fun before fault after ends => ?_
  have same := kept before.ledger
  cases fault with
  | none =>
      obtain ⟨_, run⟩ := ends
      obtain ⟨ledger, found, rfl⟩ := (runs_consult action).mp run
      rwa [found] at same
  | some fault =>
      simp only [Ends, consult] at ends
      split at ends
      · cases ends
      · rename_i found
        cases ends
        rwa [found] at same

theorem notes_allocate (site : CallSite) :
    Lower.Notes (consult (Ledger.allocate site)) context [] := by
  refine notes_consult fun ledger => ?_
  unfold Ledger.allocate
  cases ledger.allocator site ledger.sites <;> rfl

theorem notes_candidateTable (target : Identity) (position : Position) :
    Lower.Notes (consult (Ledger.candidateTable context.types target position)) context [] := by
  refine notes_consult fun ledger => ?_
  cases found : Ledger.candidateTable context.types target position ledger with
  | ok table later =>
      obtain ⟨_, rfl⟩ := Ledger.candidateTable_keeps found
      rfl
  | error error later =>
      rw [Ledger.eq_of_candidateTable_error found]

theorem notes_report (table : CandidateTable) (position : Position) :
    Lower.Notes (modify fun state => state.report context.types table position) context [] := by
  refine notes_modify fun state => .of_same ?_
  unfold LoweringState.report Ledger.reportCollisions
  split <;> rfl

/-- A planned action notes the names in its marks, in their order. -/
theorem Planned.notes {jumps : Prop} {action : Lower Result} {marks : List Mark}
    (planned : Planned context jumps action marks) :
    Lower.Notes action context (marks.filterMap Mark.super?) := by
  induction planned with
  | pure value => exact notes_pure value
  | bind _ _ left right =>
      rw [List.filterMap_append]
      exact left.bind right
  | fail error marks => exact notes_throw _ _
  | read _ ih => exact fun before fault after ends => ih before fault after (ends_read_bind ends)
  | peek _ _ ih => exact .then notes_get ih
  | write emit plain =>
      have silent : emit.marks.filterMap Mark.super? = [] := by cases emit <;> rfl
      rw [silent]
      exact notes_write _
  | setLine line => exact notes_write _
  | jump => exact notes_writeLabelled _
  | lookupSwitch keys => exact notes_writeLabelled _
  | resolve label => exact notes_resolve label
  | track action => exact notes_track action
  | restore stack => exact notes_modify fun _ => .of_same rfl
  | send site count _ ih =>
      exact .then (notes_allocate site) fun _ => .then (notes_write _) fun _ => ih
  | recordSuper name => exact notes_modify fun state => .recordSuper state name
  | table target position => exact notes_candidateTable target position
  | report table position => exact notes_report table position

end Lower

/-! ## Tasks -/

/-- The calls of a task that were started: all of them if it was lowered, and else the first
ones. -/
def Task.Starts (task : Task) (calls : List (Call Expr)) : Prop :=
  calls <+: task.calls ∧ (task.lowered = true → calls = task.calls)

/-- The names that are noted for one task after another. -/
inductive NotedFor : List Task → List String → Prop
  | none : NotedFor [] []
  | more {task : Task} {tasks : List Task} {calls : List (Call Expr)} {names : List String} :
      task.Starts calls → NotedFor tasks names →
      NotedFor (task :: tasks) (calls.filterMap (Call.superName? task.context) ++ names)

theorem NotedFor.append {tasks others : List Task} {names further : List String}
    (left : NotedFor tasks names) (right : NotedFor others further) :
    NotedFor (tasks ++ others) (names ++ further) := by
  induction left with
  | none => exact right
  | more starts _ ih =>
      rw [List.append_assoc]
      exact .more starts ih

theorem NotedFor.single {task : Task} {calls : List (Call Expr)} (starts : task.Starts calls) :
    NotedFor [task] (calls.filterMap (Call.superName? task.context)) := by
  have noted := NotedFor.more starts .none
  rwa [List.append_nil] at noted

/-- Where everything was lowered, the names are those of all calls. -/
theorem NotedFor.mem_iff_of_lowered {tasks : List Task} {names : List String}
    (noted : NotedFor tasks names) (all : ∀ task ∈ tasks, task.lowered = true) (name : String) :
    name ∈ names ↔ ∃ task ∈ tasks, ∃ call ∈ task.calls,
      call.superName? task.context = some name := by
  induction noted with
  | none => simp
  | @more task tasks calls names starts _ ih =>
      obtain ⟨lowered, rest⟩ := List.forall_mem_cons.mp all
      rw [List.mem_append, ih rest, starts.2 lowered, List.mem_filterMap,
        List.exists_mem_cons_iff]

/-- What an action notes of the marks of some calls is noted for calls that were started. -/
theorem Lower.Notes.task {Result : Type} {action : Lower Result} {task : Task}
    (notes : Lower.Notes action task.context
      ((task.calls.flatMap (Call.ownMarks task.context)).filterMap Mark.super?))
    (lowered : task.lowered = fault.isNone) (ends : Ends action task.context before fault after) :
    ∃ names, NotedFor [task] names ∧ before.Notes after names := by
  rw [Call.filterMap_marks] at notes
  obtain ⟨noted, part, all, names⟩ := notes before fault after ends
  cases fault with
  | none => exact ⟨_, .single ⟨List.prefix_rfl, fun _ => rfl⟩, all rfl ▸ names⟩
  | some fault =>
      obtain ⟨calls, first, rfl⟩ := List.prefix_filterMap_iff.mp part
      exact ⟨_, .single ⟨first, fun whole => by rw [whole] at lowered; cases lowered⟩, names⟩

/-- A chained call that its hook declined ends as what is done then. -/
theorem Hooked.ends_declined {hook : ChainHook} {call : ChainCall Operand}
    {hooked : LoweringState} (offered : Hooked context hook call before false hooked)
    (ends : Ends (lowerChainCall hook call) context before fault after) :
    Ends (lowerDeclined call) context hooked fault after := by
  obtain ⟨marked, marks, hooks⟩ := offered
  rw [lowerChainCall_eq] at ends
  rcases ends_bind ends with ⟨failed, early⟩ | ⟨_, middle, marksAgain, ends⟩
  · rw [ends_markLine early] at failed
    cases failed
  obtain ⟨-, rfl⟩ := runs_unique marks marksAgain
  rcases ends_bind ends with ⟨failed, early⟩ | ⟨answer, last, hooksAgain, ends⟩
  · obtain ⟨fault, rfl⟩ := Option.isSome_iff_exists.mp failed
    cases hooks.symm.trans early
  obtain ⟨rfl, rfl⟩ := runs_unique hooks hooksAgain
  exact ends

theorem Works.notes {tasks : List Task} (works : Works context before tasks after) :
    ∃ names, NotedFor tasks names ∧ before.Notes after names := by
  induction works with
  | start => exact ⟨[], .none, .refl _⟩
  | @mark position before after marks =>
      have marking : Planned context True (markLine position) [] := planned_markLine position
      obtain ⟨_, -, all, notes⟩ := marking.notes before none after ⟨(), marks⟩
      obtain rfl := all rfl
      exact ⟨[], .none, notes⟩
  | @expr operand _ _ fault ends =>
      have planned : Planned context True operand.lower (operand.marks context) := operand.planned
      exact Lower.Notes.task planned.notes rfl ends
  | @call called _ _ fault ends =>
      have planned : Planned context True (lowerCall called.operands) (called.marks context) :=
        called.planned_lower
      exact Lower.Notes.task planned.notes rfl ends
  | @chain _ chained _ _ hooked after fault _ offered ends ih =>
      obtain ⟨names, noted, notes⟩ := ih
      have last : ∃ names, NotedFor [⟨context, .chain chained, fault.isNone⟩] names ∧
          hooked.Notes after names :=
        Lower.Notes.task chained.planned_declined.notes rfl (offered.ends_declined ends)
      obtain ⟨others, more, further⟩ := last
      exact ⟨_, noted.append more, notes.trans further⟩
  | append _ _ left right =>
      obtain ⟨names, noted, notes⟩ := left
      obtain ⟨others, more, further⟩ := right
      exact ⟨_, noted.append more, notes.trans further⟩

/-! ## Bodies -/

/-- A body that ends with the first call that is refused has lowered all others. -/
theorem Lower.MadeOfCalls.completes {hook : ChainHook} {Result : Type} {action : Lower Result}
    (calls : MadeOfCalls hook action)
    (hooks : ∀ call : ChainCall Expr, (hook call.operands).Completes) : action.Completes := by
  induction calls with
  | pure value =>
      intro context before result after run
      obtain ⟨-, rfl⟩ := (runs_pure _).mp run
      exact ⟨[], .start _, by simp⟩
  | fail error => exact fun _ _ _ _ run => nomatch run
  | bind _ _ left right =>
      intro context before result after run
      obtain ⟨value, middle, first, second⟩ := (runs_bind _ _).mp run
      obtain ⟨tasks, works, all⟩ := left _ _ _ _ first
      obtain ⟨others, more, rest⟩ := right value _ _ _ _ second
      exact ⟨_, .append works more, List.forall_mem_append.mpr ⟨all, rest⟩⟩
  | expr operand => exact fun _ _ _ _ run => ⟨_, .expr run.ends, by simp⟩
  | method call =>
      intro context before tier after run
      exact (Call.method call).completes _ _ () _
        ((runs_bind _ _).mpr ⟨tier, after, run, (runs_pure _).mpr ⟨rfl, rfl⟩⟩)
  | static call =>
      intro context before tier after run
      exact (Call.static call).completes _ _ () _
        ((runs_bind _ _).mpr ⟨tier, after, run, (runs_pure _).mpr ⟨rfl, rfl⟩⟩)
  | create call =>
      intro context before way after run
      exact (Call.create call).completes _ _ () _
        ((runs_bind _ _).mpr ⟨way, after, run, (runs_pure _).mpr ⟨rfl, rfl⟩⟩)
  | chain call => exact call.completes (hooks call)

/-- The units that lowering one body after another leads to, from one in which nothing is sent
to `super` yet, and the tasks of their bodies. -/
inductive ClassUnit.Worked : ClassUnit → List Task → Prop
  | fresh {types : TypeTable} {ledger : Ledger} (resolver : TypeResolver) :
      ledger.superNames = [] → Worked { types, ledger, resolver } []
  | body {unit : ClassUnit} {log tasks : List Task} {Result : Type} {action : Lower Result}
      {fault : Option Fault} {after : LoweringState} {name : String} {frame : Frame} :
      Worked unit log → unit.admit? name frame = .ok () →
      Ends action (unit.context frame) unit.initialState fault after →
      Works (unit.context frame) unit.initialState tasks after →
      Worked (unit.lowerBody name frame action).2 (log ++ tasks)
  | refused {unit : ClassUnit} {log : List Task} {Result : Type} {action : Lower Result}
      {name : String} {frame : Frame} {error : LoweringError} : Worked unit log →
      unit.admit? name frame = .error error → Worked (unit.lowerBody name frame action).2 log

namespace ClassUnit

variable {unit : ClassUnit} {log : List Task} {Result : Type} {action : Lower Result}

theorem Worked.noted (worked : unit.Worked log) :
    unit.ledger.superNames.Pairwise (· < ·) ∧
      ∃ names, NotedFor log names ∧ ∀ name, name ∈ unit.ledger.superNames ↔ name ∈ names := by
  induction worked with
  | fresh resolver empty =>
      rw [empty]
      exact ⟨.nil, [], .none, fun _ => Iff.rfl⟩
  | @body unit log tasks _ action fault after name frame _ admitted ends works ih =>
      obtain ⟨sorted, names, noted, same⟩ := ih
      obtain ⟨further, more, notes⟩ := works.notes
      have ledger : (unit.lowerBody name frame action).2.ledger = after.ledger := by
        cases fault with
        | none =>
            obtain ⟨result, run⟩ := ends
            rw [lowerBody_of_runs admitted run]
            rfl
        | some fault =>
            rw [lowerBody_of_error admitted ends]
            rfl
      rw [ledger]
      refine ⟨notes.sorted sorted, _, noted.append more, fun name => ?_⟩
      rw [notes.mem_iff, List.mem_append, ← same]
      rfl
  | refused _ refused ih =>
      rw [lowerBody_of_refused refused]
      exact ih

/-- Whatever a body asks for, its tasks are behind those of the others. -/
theorem Worked.exists_tasks {hook : ChainHook} (worked : unit.Worked log) (plain : hook.Plain)
    (lowers : action.OnlyLowers hook) (name : String) (frame : Frame) :
    ∃ tasks, (unit.lowerBody name frame action).2.Worked (log ++ tasks) := by
  cases admitted : unit.admit? name frame with
  | error error =>
      refine ⟨[], ?_⟩
      rw [List.append_nil]
      exact .refused worked admitted
  | ok =>
      obtain ⟨fault, after, ends⟩ := exists_ends action (unit.context frame) unit.initialState
      obtain ⟨tasks, works⟩ := lowers.works plain.works ends
      exact ⟨tasks, .body worked admitted ends works⟩

/-- A body that is made of calls and succeeds adds tasks that were all lowered. -/
theorem Worked.exists_lowered {result : Result} (worked : unit.Worked log)
    (completes : action.Completes) {name : String} {frame : Frame}
    (succeeds : (unit.lowerBody name frame action).1 = .ok result) :
    ∃ tasks, (∀ task ∈ tasks, task.lowered = true) ∧
      (unit.lowerBody name frame action).2.Worked (log ++ tasks) := by
  cases admitted : unit.admit? name frame with
  | error error =>
      rw [lowerBody_of_refused admitted] at succeeds
      cases succeeds
  | ok =>
      obtain ⟨fault, after, ends⟩ := exists_ends action (unit.context frame) unit.initialState
      cases fault with
      | none =>
          obtain ⟨value, run⟩ := ends
          obtain ⟨tasks, works, all⟩ := completes _ _ _ _ run
          exact ⟨tasks, all, .body worked admitted run.ends works⟩
      | some fault =>
          rw [lowerBody_of_error admitted ends] at succeeds
          cases succeeds

/-- The report of what is sent to `super` is exact.  Whatever the bodies of a class ask for, the
names are in order, each once, and are those of the calls on `super` through a routine that
were started, at any depth.  Where no task was rejected, as in bodies that are made of calls
and succeed, these are all such calls.  A call on `super` that is lowered goes through a
routine exactly if it has spread arguments, or neither a resolved target nor the method of a
functional interface. -/
theorem super_methods_exact (worked : unit.Worked log) :
    unit.finish.superMethods.Pairwise (· < ·) ∧
    (∃ names, NotedFor log names ∧
      ∀ name, name ∈ unit.finish.superMethods ↔ name ∈ names) ∧
    ((∀ task ∈ log, task.lowered = true) → ∀ name, name ∈ unit.finish.superMethods ↔
      ∃ task ∈ log, ∃ call, .method call ∈ task.calls ∧
        call.SendsToSuper task.context name) ∧
    (∀ (hook : ChainHook) (Result : Type) (action : Lower Result) (name : String)
        (frame : Frame), hook.Plain → action.OnlyLowers hook →
      ∃ tasks, (unit.lowerBody name frame action).2.Worked (log ++ tasks)) ∧
    (∀ (hook : ChainHook) (Result : Type) (action : Lower Result) (result : Result)
        (name : String) (frame : Frame),
      (∀ call : ChainCall Expr, (hook call.operands).Completes) → action.MadeOfCalls hook →
      (unit.lowerBody name frame action).1 = .ok result →
      ∃ tasks, (∀ task ∈ tasks, task.lowered = true) ∧
        (unit.lowerBody name frame action).2.Worked (log ++ tasks)) ∧
    ∀ (context : Context) (before after : LoweringState) (call : MethodCall Expr) (tier : Tier),
      Runs (lowerMethodCall call.operands) context before tier after →
        call.operands.tier? context = some tier ∧
          (call.receiver = .super → (tier = .uncached ↔ containsSpread call.arguments = true ∨
            (call.target = none ∧ call.operands.functionalMethod? context = none))) := by
  obtain ⟨sorted, names, noted, same⟩ := worked.noted
  refine ⟨sorted, ⟨names, noted, same⟩, fun all name => ?_,
    fun hook Result action name frame plain lowers => worked.exists_tasks plain lowers name frame,
    fun hook Result action result name frame hooks calls succeeds =>
      worked.exists_lowered (calls.completes hooks) succeeds,
    fun context before after call tier run => ?_⟩
  · rw [show unit.finish.superMethods = unit.ledger.superNames from rfl, same,
      noted.mem_iff_of_lowered all]
    simp only [Call.superName?_eq_some]
    constructor
    · rintro ⟨task, among, _, member, call, rfl, sends⟩
      exact ⟨task, among, call, member, sends⟩
    · rintro ⟨task, among, call, member, sends⟩
      exact ⟨task, among, _, member, call, rfl, sends⟩
  · have made := MethodCall.tier?_of_runs run
    refine ⟨made, fun onSuper => ?_⟩
    have isSuper : call.operands.receiver.source.isSuper = true := by
      rw [MethodCall.source_operands, onSuper]
      rfl
    have sameTarget : call.operands.target = call.target := by rw [MethodCall.operands]
    rw [MethodCall.uncached_iff_of_isSuper isSuper made, MethodCall.arguments_operands,
      sources_operandsOf, sameTarget]

/-- `super.paint(super.size())` -/
def paintingCall : MethodCall Expr :=
  ⟨.super, .named "paint",
    [.call (.method ⟨.super, .named "size", [], false, false, false, none, none, .synthetic⟩)],
    false, false, false, none, none, .synthetic⟩

/-- A body with a call on `super` in another one. -/
def paintedUnit : ClassUnit :=
  ((ClassUnit.start .empty ⟨1⟩).lowerBody "draw" (.method ⟨1⟩)
    (lowerMethodCall paintingCall.operands)).2

/-- Both names are reported, in order. -/
theorem super_methods_of_paintedUnit : ∃ log, paintedUnit.Worked log ∧
    (∀ task ∈ log, task.lowered = true) ∧ paintedUnit.finish.superMethods = ["paint", "size"] ∧
    ∀ name, name ∈ ["paint", "size"] ↔ ∃ task ∈ log, ∃ call, .method call ∈ task.calls ∧
      call.SendsToSuper task.context name := by
  have start : (ClassUnit.start .empty ⟨1⟩).Worked [] := .fresh _ rfl
  have made : (lowerMethodCall paintingCall.operands).MadeOfCalls noHook := .method paintingCall
  have succeeds : ((ClassUnit.start .empty ⟨1⟩).lowerBody "draw" (.method ⟨1⟩)
      (lowerMethodCall paintingCall.operands)).1 = .ok .uncached := by decide +kernel
  obtain ⟨tasks, all, worked⟩ := start.exists_lowered
    (made.completes fun call => completes_noHook call.operands) succeeds
  have names : paintedUnit.finish.superMethods = ["paint", "size"] := by decide +kernel
  refine ⟨_, worked, all, names, ?_⟩
  rw [← names]
  exact (super_methods_exact worked).2.2.1 all

end ClassUnit

end CallCode
