import CallCode.Proofs.Lowering.ChainOutcome
import CallCode.Proofs.ReachableLedger
import CallCode.Proofs.RegisteredTypes

/-!
# Collision reports

The collisions of a class are reported where the first switch on its constructors starts,
and never again, whatever else is lowered and whether it succeeds.
-/

namespace CallCode

open Lower

/-- The start of a switch: the class whose constructors it chooses from, and the position
of its call. -/
structure SwitchStart where
  classId : Identity
  position : Position
  deriving DecidableEq, Repr

/-- The switch that a chained call starts, if it finds a table and is not bound at once. -/
def ChainCall.switchStart? (call : ChainCall Operand) (context : Context) (ledger : Ledger) :
    Option SwitchStart :=
  match call.calledClass context with
  | .error _ => none
  | .ok classId =>
      match Ledger.candidateTable context.types classId call.position ledger with
      | .error _ _ => none
      | .ok table _ =>
          if (call.boundCandidate context.frame table).isNone then
            some ⟨classId, call.position⟩
          else none

/-- What lowering one thing after another with one ledger and one sink does, and the
switches that it starts.  Each lowering may fail. -/
inductive Session (types : TypeTable) :
    LoweringState → List SwitchStart → LoweringState → Prop
  /-- Go on elsewhere, with other code and another stack. -/
  | move {before after : LoweringState} : after.ledger = before.ledger →
      after.diagnostics = before.diagnostics → Session types before [] after
  | expr {context : Context} {operand : Expr} {before after : LoweringState}
      {fault : Option Fault} : context.types = types →
      Ends operand.lower context before fault after → Session types before [] after
  | call {context : Context} {called : Call Expr} {before after : LoweringState}
      {fault : Option Fault} : context.types = types →
      Ends (lowerCall called.operands) context before fault after →
      Session types before [] after
  /-- A chained call goes on behind what a hook does that declines it. -/
  | chain {context : Context} {hook : ChainHook} {chained : ChainCall Expr}
      {before hooked after : LoweringState} {fault : Option Fault}
      {log : List SwitchStart} : context.types = types →
      Session types before log hooked →
      Hooked context hook chained.operands before false hooked →
      Ends (lowerChainCall hook chained.operands) context before fault after →
      Session types before
        (log ++ (chained.operands.switchStart? context hooked.ledger).toList) after
  | append {first second third : LoweringState} {log further : List SwitchStart} :
      Session types first log second → Session types second further third →
      Session types first (log ++ further) third

/-- Whether an error reports a collision in a class of a name. -/
def LoweringError.collidesIn (name : String) : LoweringError → Bool
  | .keyCollision className _ _ _ => className == name
  | _ => false

/-- The collisions that are reported for a class, in order. -/
def LoweringState.collisionsOf (state : LoweringState) (types : TypeTable)
    (classId : Identity) : List LoweringError :=
  state.diagnostics.errors.toList.filter (·.collidesIn (types.typeName classId))

/-- The reports that the starts of some switches ask for: the collisions of a class at the
first of them. -/
def dueReports (types : TypeTable) (keyOf : KeyFunction) (log : List SwitchStart)
    (classId : Identity) : List LoweringError :=
  match log.find? (·.classId == classId) with
  | none => []
  | some start =>
      match CandidateTable.build types classId start.position keyOf with
      | .ok table => Ledger.collisionErrors types table start.position
      | .error _ => []

variable {types : TypeTable} {keyOf : KeyFunction} {classId : Identity}
  {table : CandidateTable} {position : Position} {log : List SwitchStart}

/-- A call that succeeds without a hook was lowered by a switch exactly if it starts
one. -/
theorem ChainCall.eq_keySwitch_iff {call : ChainCall Operand} {context : Context}
    {before after : LoweringState} {way : Construction}
    (run : Runs (lowerChainCall noHook call) context before way after) :
    way = .keySwitch ↔ (call.switchStart? context before.ledger).isSome = true := by
  have started {ready : LoweringState} {classId : Identity} {table : CandidateTable}
      (prepared : ChainPrepared context noHook call before ready classId table) :
      call.switchStart? context before.ledger =
        if (call.boundCandidate context.frame table).isNone then
          some ⟨classId, call.position⟩
        else none := by
    obtain ⟨marked, _, -, ledger, hooks, found, -⟩ := prepared.declined
    obtain ⟨-, rfl⟩ := (runs_pure _).mp hooks
    rw [ledger] at found
    simp only [switchStart?, prepared.called, found]
  cases lowerChainCall_run run with
  | closure _ _ hooks => cases ((runs_pure _).mp hooks).1
  | direct prepared bound => simp [started prepared, bound]
  | keySwitch prepared unbound => simp [started prepared, unbound]

/-- Without a hook, a chained call starts its switch from the ledger that it finds. -/
theorem Session.of_noHook {context : Context} {call : ChainCall Expr}
    {before after : LoweringState} {fault : Option Fault}
    (ends : Ends (lowerChainCall noHook call.operands) context before fault after) :
    Session context.types before
      (call.operands.switchStart? context before.ledger).toList after := by
  obtain ⟨marked, marks, ledger, diagnostics⟩ : ∃ marked,
      Runs (markLine call.operands.position) context before () marked ∧
        marked.ledger = before.ledger ∧ marked.diagnostics = before.diagnostics := by
    unfold markLine
    split
    · exact ⟨before, rfl, rfl, rfl⟩
    · exact ⟨_, rfl, rfl, rfl⟩
  have offered : Hooked context noHook call.operands before false marked := ⟨marked, marks, rfl⟩
  have session := Session.chain rfl (.move ledger diagnostics) offered ends
  rwa [ledger, List.nil_append] at session

/-! ## Errors of a table -/

/-- A collision is between two of the keys, and the later one is behind those in front. -/
theorem lt_of_mem_collisionsAfter {earlier keys : List Int32} {collision : Collision}
    (member : collision ∈ collisionsAfter earlier keys) :
    collision.first < earlier.length + keys.length ∧
      collision.second < earlier.length + keys.length := by
  induction keys generalizing earlier with
  | nil => cases member
  | cons key keys ih =>
      have later (among : collision ∈ collisionsAfter (earlier ++ [key]) keys) :
          collision.first < earlier.length + (key :: keys).length ∧
            collision.second < earlier.length + (key :: keys).length := by
        have bounds := ih among
        simp only [List.length_append, List.length_cons, List.length_nil] at bounds ⊢
        omega
      rw [collisionsAfter] at member
      split at member
      · rename_i first found
        rcases List.mem_cons.mp member with rfl | among
        · obtain ⟨bound, -⟩ := List.findIdx?_eq_some_iff_getElem.mp found
          simp only [List.length_cons]
          omega
        · exact later among
      · exact later member

theorem lt_of_mem_collisions {collision : Collision} (member : collision ∈ table.collisions) :
    collision.first < table.candidates.length ∧
      collision.second < table.candidates.length := by
  simpa using lt_of_mem_collisionsAfter member

/-- What is reported of one collision. -/
def Collision.Reports (types : TypeTable) (table : CandidateTable) (position : Position)
    (collision : Collision) (error : LoweringError) : Prop :=
  ∃ first second, table.candidates[collision.first]? = some first ∧
    table.candidates[collision.second]? = some second ∧
    error = .keyCollision (types.typeName table.classId) first.descriptor second.descriptor
      position

/-- Every collision of a table has its error, in order. -/
theorem forall₂_collisionErrors (types : TypeTable) (table : CandidateTable)
    (position : Position) :
    List.Forall₂ (Collision.Reports types table position) table.collisions
      (Ledger.collisionErrors types table position) := by
  have inRange : ∀ collision ∈ table.collisions, collision.first < table.candidates.length ∧
      collision.second < table.candidates.length := fun _ => lt_of_mem_collisions
  unfold Ledger.collisionErrors
  generalize table.collisions = collisions at inRange ⊢
  induction collisions with
  | nil => exact .nil
  | cons collision collisions ih =>
      have bounds := inRange collision List.mem_cons_self
      have first := List.getElem?_eq_getElem bounds.1
      have second := List.getElem?_eq_getElem bounds.2
      rw [List.filterMap_cons_some (by simp only [first, second]; rfl)]
      exact .cons ⟨_, _, first, second, rfl⟩
        (ih fun other member => inRange other (List.mem_cons_of_mem _ member))

/-! ## Reports -/

theorem collidesIn_of_collisionErrors {error : LoweringError}
    (member : error ∈ Ledger.collisionErrors types table position) (name : String) :
    error.collidesIn name = (types.typeName table.classId == name) := by
  rw [Ledger.collisionErrors, List.mem_filterMap] at member
  obtain ⟨collision, -, made⟩ := member
  simp only [Option.bind_eq_bind, Option.bind_eq_some_iff, Option.pure_def,
    Option.some.injEq] at made
  obtain ⟨_, -, _, -, rfl⟩ := made
  rfl

/-- The errors of a table name its class and no other. -/
theorem filter_collisionErrors (registered : types.Registered)
    (isTable : IsTableOf types keyOf classId table) {other : Identity}
    (known : types.contains other = true) :
    (Ledger.collisionErrors types table position).filter
        (·.collidesIn (types.typeName other)) =
      if other = classId then Ledger.collisionErrors types table position else [] := by
  have names : ∀ error ∈ Ledger.collisionErrors types table position,
      error.collidesIn (types.typeName other) =
        (types.typeName classId == types.typeName other) := by
    intro error member
    rw [collidesIn_of_collisionErrors member, isTable.classId_eq]
  split
  · rename_i same
    subst same
    refine List.filter_eq_self.mpr fun error member => ?_
    rw [names error member, beq_self_eq_true]
  · rename_i different
    refine List.filter_eq_nil_iff.mpr fun error member => ?_
    rw [names error member, beq_iff_eq]
    intro equal
    exact different (registered.eq_of_typeName known isTable.contains equal.symm)

theorem toList_foldl_report (reports : List LoweringError) (diagnostics : Diagnostics) :
    (reports.foldl Diagnostics.report diagnostics).errors.toList =
      diagnostics.errors.toList ++ reports := by
  induction reports generalizing diagnostics with
  | nil => simp
  | cons error reports ih => simp [ih]

theorem collisionErrors_eq_nil (none : table.hasCollisions = false) :
    Ledger.collisionErrors types table position = [] := by
  have empty : table.collisions = [] := by simpa [CandidateTable.hasCollisions] using none
  rw [Ledger.collisionErrors, empty]
  rfl

/-- Once a switch of a class is among the starts, further ones change nothing. -/
theorem dueReports_append {further : List SwitchStart}
    (known : (log.find? (·.classId == classId)).isSome ∨
      ∀ start ∈ further, start.classId ≠ classId) :
    dueReports types keyOf (log ++ further) classId = dueReports types keyOf log classId := by
  have same : (log ++ further).find? (·.classId == classId) =
      log.find? (·.classId == classId) := by
    rw [List.find?_append]
    rcases known with found | absent
    · obtain ⟨start, found⟩ := Option.isSome_iff_exists.mp found
      rw [found, Option.some_or]
    · have missing : further.find? (·.classId == classId) = none :=
        List.find?_eq_none.mpr (by simpa using absent)
      rw [missing, Option.or_none]
  rw [dueReports, same, dueReports]

theorem dueReports_of_other {other : Identity} (different : other ≠ classId) :
    dueReports types keyOf (log ++ [⟨classId, position⟩]) other =
      dueReports types keyOf log other :=
  dueReports_append (.inr (by simpa using Ne.symm different))

theorem dueReports_eq_nil (fresh : log.find? (·.classId == classId) = none) :
    dueReports types keyOf log classId = [] := by
  rw [dueReports, fresh]

theorem dueReports_first (isTable : IsTableOf types keyOf classId table)
    (fresh : log.find? (·.classId == classId) = none) :
    dueReports types keyOf (log ++ [⟨classId, position⟩]) classId =
      Ledger.collisionErrors types table position := by
  rw [dueReports, List.find?_append, fresh, Option.none_or]
  simp [isTable position]

/-! ## The accounts of a session -/

/-- The tables are those of their classes, and each class with collisions of which a
switch was started was reported at the first of them. -/
structure Accounts (types : TypeTable) (keyOf : KeyFunction) (log : List SwitchStart)
    (state : LoweringState) : Prop where
  keyOf_eq : state.ledger.keyOf = keyOf
  tables : ∀ table ∈ state.ledger.tables, IsTableOf types keyOf table.classId table
  started : ∀ start ∈ log, ∃ table, IsTableOf types keyOf start.classId table
  reported : ∀ classId table, IsTableOf types keyOf classId table →
    table.hasCollisions = true →
    (classId ∈ state.ledger.reported ↔ ∃ start ∈ log, start.classId = classId)
  collisions : ∀ classId, types.contains classId = true →
    state.collisionsOf types classId = dueReports types keyOf log classId

namespace Accounts

variable {before after state : LoweringState} {ledger : Ledger}

theorem of_fresh {allocator : SiteAllocator} {owner : Identity}
    (fresh : state.ledger = { classId := owner, allocator, keyOf })
    (silent : state.diagnostics = {}) : Accounts types keyOf [] state where
  keyOf_eq := by rw [fresh]
  tables := by simp [fresh]
  started := by simp
  reported := by simp [fresh]
  collisions := by simp [LoweringState.collisionsOf, silent, dueReports]

theorem of_keeps (accounts : Accounts types keyOf log before) (keeps : before.Keeps after) :
    Accounts types keyOf log after where
  keyOf_eq := by rw [keeps.keyOf, accounts.keyOf_eq]
  tables := by rw [keeps.tables]; exact accounts.tables
  started := accounts.started
  reported := by rw [keeps.reported]; exact accounts.reported
  collisions := by
    simp only [LoweringState.collisionsOf, keeps.diagnostics]
    exact accounts.collisions

/-- A table that is looked up is the one of its class. -/
theorem of_candidateTable (accounts : Accounts types keyOf log state)
    (found : Ledger.candidateTable types classId position state.ledger = .ok table ledger) :
    IsTableOf types keyOf classId table ∧ Accounts types keyOf log { state with ledger } := by
  have valid : state.ledger.Valid types := by
    rw [Ledger.Valid, accounts.keyOf_eq]
    exact accounts.tables
  obtain ⟨isTable, later⟩ := valid.candidateTable found
  obtain ⟨tables, rfl⟩ := Ledger.candidateTable_keeps found
  rw [accounts.keyOf_eq] at isTable
  rw [Ledger.Valid, accounts.keyOf_eq] at later
  exact ⟨isTable, accounts.keyOf_eq, later, accounts.started, accounts.reported,
    accounts.collisions⟩

theorem mem_reported_iff (accounts : Accounts types keyOf log state)
    (isTable : IsTableOf types keyOf classId table) (colliding : table.hasCollisions = true) :
    classId ∈ state.ledger.reported ↔ (log.find? (·.classId == classId)).isSome = true := by
  rw [accounts.reported classId table isTable colliding, List.find?_isSome]
  simp

theorem started_append (accounts : Accounts types keyOf log state)
    (isTable : IsTableOf types keyOf classId table) :
    ∀ start ∈ log ++ [⟨classId, position⟩], ∃ table,
      IsTableOf types keyOf start.classId table := by
  intro start member
  rcases List.mem_append.mp member with early | late
  · exact accounts.started start early
  · obtain rfl := List.mem_singleton.mp late
    exact ⟨table, isTable⟩

/-- A start with nothing to report is only noted. -/
theorem report_known (accounts : Accounts types keyOf log state)
    (isTable : IsTableOf types keyOf classId table)
    (known : table.hasCollisions = true → classId ∈ state.ledger.reported) :
    Accounts types keyOf (log ++ [⟨classId, position⟩]) state where
  keyOf_eq := accounts.keyOf_eq
  tables := accounts.tables
  started := accounts.started_append isTable
  reported := by
    intro other otherTable otherIs colliding
    rw [accounts.reported other otherTable otherIs colliding]
    constructor
    · rintro ⟨start, member, same⟩
      exact ⟨start, List.mem_append_left _ member, same⟩
    · rintro ⟨start, member, rfl⟩
      rcases List.mem_append.mp member with early | late
      · exact ⟨start, early, rfl⟩
      · obtain rfl := List.mem_singleton.mp late
        obtain rfl := otherIs.unique isTable
        exact (accounts.reported classId table isTable colliding).mp (known colliding)
  collisions := by
    intro other registered
    rw [accounts.collisions other registered]
    by_cases same : other = classId
    · subst same
      cases found : log.find? (·.classId == other) with
      | some start => exact (dueReports_append (.inl (by rw [found]; rfl))).symm
      | none =>
          have plain : table.hasCollisions = false := by
            by_contra colliding
            rw [Bool.not_eq_false] at colliding
            have reported := (accounts.mem_reported_iff isTable colliding).mp (known colliding)
            rw [found] at reported
            cases reported
          rw [dueReports_eq_nil found, dueReports_first isTable found,
            collisionErrors_eq_nil plain]
    · rw [dueReports_of_other same]

/-- The first start of a switch reports the collisions of its class. -/
theorem report_new (accounts : Accounts types keyOf log state) (registered : types.Registered)
    (isTable : IsTableOf types keyOf classId table) (colliding : table.hasCollisions = true)
    (unreported : classId ∉ state.ledger.reported) :
    Accounts types keyOf (log ++ [⟨classId, position⟩])
      { state with
        ledger := { state.ledger with reported := classId :: state.ledger.reported }
        diagnostics := (Ledger.collisionErrors types table position).foldl Diagnostics.report
          state.diagnostics } where
  keyOf_eq := accounts.keyOf_eq
  tables := accounts.tables
  started := accounts.started_append isTable
  reported := by
    intro other otherTable otherIs otherColliding
    simp only [List.mem_cons, List.mem_append, List.not_mem_nil, or_false,
      accounts.reported other otherTable otherIs otherColliding]
    constructor
    · rintro (rfl | ⟨start, member, same⟩)
      · exact ⟨_, .inr rfl, rfl⟩
      · exact ⟨start, .inl member, same⟩
    · rintro ⟨start, early | rfl, same⟩
      · exact .inr ⟨start, early, same⟩
      · exact .inl same.symm
  collisions := by
    intro other known
    have earlier := accounts.collisions other known
    simp only [LoweringState.collisionsOf] at earlier ⊢
    rw [toList_foldl_report, List.filter_append, earlier,
      filter_collisionErrors registered isTable known]
    split
    · rename_i same
      subst same
      have fresh : log.find? (·.classId == other) = none := by
        rw [accounts.mem_reported_iff isTable colliding] at unreported
        simpa using unreported
      rw [dueReports_eq_nil fresh, dueReports_first isTable fresh, List.nil_append]
    · rename_i different
      rw [List.append_nil, dueReports_of_other different]

theorem report (accounts : Accounts types keyOf log state) (registered : types.Registered)
    (isTable : IsTableOf types keyOf classId table) :
    Accounts types keyOf (log ++ [⟨classId, position⟩])
      (state.report types table position) := by
  obtain rfl := isTable.classId_eq
  unfold LoweringState.report Ledger.reportCollisions
  by_cases new : table.hasCollisions = true ∧ table.classId ∉ state.ledger.reported
  · have due : (table.hasCollisions && !state.ledger.reported.contains table.classId) = true := by
      simpa using new
    simp only [due, if_true]
    exact accounts.report_new registered isTable new.1 new.2
  · have done : (table.hasCollisions && !state.ledger.reported.contains table.classId) =
        false := by
      simpa using new
    simp only [done, Bool.false_eq_true, if_false]
    refine accounts.report_known isTable fun colliding => ?_
    by_contra unreported
    exact new ⟨colliding, unreported⟩

end Accounts

/-! ## Sessions -/

/-- A chained call behind its hook notes the switch that it starts, however it ends. -/
theorem Accounts.of_chain {context : Context} {hook : ChainHook} {call : ChainCall Expr}
    {before hooked after : LoweringState} {fault : Option Fault}
    (accounts : Accounts context.types keyOf log hooked)
    (registered : context.types.Registered)
    (offered : Hooked context hook call.operands before false hooked)
    (ends : Ends (lowerChainCall hook call.operands) context before fault after) :
    Accounts context.types keyOf
      (log ++ (call.operands.switchStart? context hooked.ledger).toList) after := by
  cases ends_of_declined offered ends with
  | uncalled uncalled => simpa [ChainCall.switchStart?, uncalled] using accounts
  | untabled called untabled =>
      simpa [ChainCall.switchStart?, called, untabled] using accounts
  | direct called tabled bound chains =>
      have kept := ((ChainCall.reads_direct bound _).keeps chains).2
      have noStart : call.operands.switchStart? context hooked.ledger = none := by
        simp [ChainCall.switchStart?, called, tabled, bound]
      rw [noStart, Option.toList_none, List.append_nil]
      exact (accounts.of_candidateTable tabled).2.of_keeps kept
  | @keySwitch target _ _ _ _ called tabled unbound switches =>
      have kept := ((call.reads_switch _ _).keeps switches).2
      obtain ⟨isTable, looked⟩ := accounts.of_candidateTable tabled
      have start : call.operands.switchStart? context hooked.ledger =
          some ⟨target, call.operands.position⟩ := by
        simp only [ChainCall.switchStart?, called, tabled, unbound]
        rfl
      rw [start]
      exact (looked.report registered isTable).of_keeps kept

/-- What a session does to the accounts: its starts are added to them. -/
theorem Session.accounts {before after : LoweringState} {further : List SwitchStart}
    (session : Session types before further after) (registered : types.Registered)
    {log : List SwitchStart} (accounts : Accounts types keyOf log before) :
    Accounts types keyOf (log ++ further) after := by
  induction session generalizing log with
  | move ledger diagnostics =>
      rw [List.append_nil]
      exact accounts.of_keeps ⟨by rw [ledger], by rw [ledger], by rw [ledger], diagnostics⟩
  | @expr context operand before _ _ _ ends =>
      have reads : Reads operand.lower context _ := operand.reads_lower
      rw [List.append_nil]
      exact accounts.of_keeps ((reads before).keeps ends).2
  | @call context called before _ _ _ ends =>
      have reads : Reads (lowerCall called.operands) context _ := called.reads_lower
      rw [List.append_nil]
      exact accounts.of_keeps ((reads before).keeps ends).2
  | chain same _ offered ends ih =>
      subst same
      rw [← List.append_assoc]
      exact (ih accounts).of_chain registered offered ends
  | append _ _ first second =>
      rw [← List.append_assoc]
      exact second (first accounts)

/-- Collisions are reported once, and only when a switch needs them.  With a fresh ledger
and an empty sink, whatever is lowered in whatever order and however it ends, the
collisions reported for a registered class are none if no switch on its constructors was
started.  Otherwise they are those of the table of the class, in the order of the table
and at the position of the call that started the first such switch. -/
theorem collisions_reported_once {types : TypeTable} (registered : types.Registered)
    {before after : LoweringState} {owner : Identity} {allocator : SiteAllocator}
    {keyOf : KeyFunction} (fresh : before.ledger = { classId := owner, allocator, keyOf })
    (silent : before.diagnostics = {}) {log : List SwitchStart}
    (session : Session types before log after) (classId : Identity)
    (known : types.contains classId = true) :
    match log.find? (·.classId == classId) with
    | none => after.collisionsOf types classId = []
    | some first => ∃ table, IsTableOf types keyOf classId table ∧
        List.Forall₂ (Collision.Reports types table first.position) table.collisions
          (after.collisionsOf types classId) := by
  have accounts := session.accounts registered (.of_fresh fresh silent)
  rw [List.nil_append] at accounts
  rw [accounts.collisions classId known, dueReports]
  cases found : log.find? (·.classId == classId) with
  | none => rfl
  | some first =>
      obtain ⟨table, isTable⟩ := accounts.started first (List.mem_of_find?_eq_some found)
      have same : first.classId = classId := by simpa using List.find?_some found
      rw [same] at isTable
      simp only [isTable first.position]
      exact ⟨table, isTable, forall₂_collisionErrors types table first.position⟩

/-- A class whose constructors have one key. -/
def collidingClass : TypeDecl where
  name := "Copied"
  id := ⟨1⟩
  kind := .classType
  constructors := [⟨⟨2⟩, ⟨1⟩, [], .openAccess⟩,
    ⟨⟨3⟩, ⟨1⟩, [⟨"other", .simple ⟨1⟩⟩], .openAccess⟩]

def collidingTypes : TypeTable := ⟨[collidingClass]⟩

/-- The table of its constructors. -/
def collidingTable : CandidateTable :=
  ⟨⟨1⟩, [⟨⟨⟨2⟩, ⟨1⟩, [], .openAccess⟩, "()V", 7⟩,
    ⟨⟨⟨3⟩, ⟨1⟩, [⟨"other", .simple ⟨1⟩⟩], .openAccess⟩, "(LCopied;)V", 7⟩]⟩

theorem isTableOf_collidingTable :
    IsTableOf collidingTypes (fun _ => 7) ⟨1⟩ collidingTable := by
  have found : collidingTypes.find? ⟨1⟩ = some collidingClass := rfl
  have listed : collidingClass.constructors.mapM
      (CandidateTable.candidate? collidingTypes fun _ => 7) = some collidingTable.candidates := by
    decide +kernel
  have sorted : collidingTable.candidates.mergeSort (fun first second =>
      decide (first.descriptor ≤ second.descriptor)) = collidingTable.candidates :=
    List.mergeSort_of_pairwise (by decide +kernel)
  intro position
  simp only [CandidateTable.build, found, listed, sorted]
  rfl

/-- `this(null)` in a line of a method. -/
def chainedCall (line : UInt32) : ChainCall Expr := ⟨.sameClass, [.null], ⟨line, 1⟩⟩

/-- Two calls that need a switch give one report, at the first of them. -/
theorem collision_of_two_calls : ∃ (before after : LoweringState) (log : List SwitchStart),
    collidingTypes.Registered ∧ before.ledger = { classId := ⟨1⟩, keyOf := fun _ => 7 } ∧
      before.diagnostics = {} ∧ Session collidingTypes before log after ∧
      collidingTypes.contains ⟨1⟩ = true ∧
      log.find? (·.classId == ⟨1⟩) = some ⟨⟨1⟩, ⟨3, 1⟩⟩ ∧
      (after.collisionsOf collidingTypes ⟨1⟩).length = 1 ∧
      List.Forall₂ (Collision.Reports collidingTypes collidingTable ⟨3, 1⟩)
        collidingTable.collisions (after.collisionsOf collidingTypes ⟨1⟩) := by
  have registers : TypeTable.empty.register collidingClass = .ok collidingTypes := rfl
  have registered : collidingTypes.Registered := .register .empty registers
  let context : Context := { types := collidingTypes, frame := .method ⟨1⟩ }
  let before : LoweringState := { ledger := { classId := ⟨1⟩, keyOf := fun _ => 7 } }
  obtain ⟨_, middle, first⟩ :=
    exists_ends (lowerChainCall noHook (chainedCall 3).operands) context before
  obtain ⟨_, after, second⟩ :=
    exists_ends (lowerChainCall noHook (chainedCall 5).operands) context middle
  have session := Session.append (.of_noHook first) (.of_noHook second)
  have starts : (chainedCall 3).operands.switchStart? context before.ledger =
      some ⟨⟨1⟩, ⟨3, 1⟩⟩ := by decide +kernel
  rw [starts] at session
  have reported := collisions_reported_once registered rfl rfl session ⟨1⟩ rfl
  obtain ⟨table, isTable, reports⟩ := reported
  obtain rfl := isTableOf_collidingTable.unique isTable
  have count : (after.collisionsOf collidingTypes ⟨1⟩).length = 1 := by
    rw [← reports.length_eq]
    decide +kernel
  exact ⟨before, after, _, registered, rfl, rfl, session, rfl, rfl, count, reports⟩

end CallCode
