import CallCode.Proofs.ConstantKinds
import CallCode.Proofs.Lowering.Sites
import CallCode.Proofs.Lowering.Tasks

/-!
# The table of call sites

The calls through sites in the recorded bodies of a class take slots that go up, and each of
them says in the code what the table has for its slot.  A body that fails leaves its sites in
the table, so that only a class in which every body is recorded uses all of them.
-/

namespace CallCode

open Lower

/-- The operands of a call site have the slot of a call in the table, and its flags. -/
def SiteOperands.Denotes (table : SiteTable) (operands : SiteOperands) (site : CallSite) :
    Prop :=
  table.site? operands.slot = some site ∧ operands.flags = site.flags.bits

theorem slots_operandsFrom {start : Nat} {sites : List CallSite}
    (few : start + sites.length ≤ 65536) :
    (operandsFrom start sites).map (·.slot.toNat) = List.range' start sites.length := by
  induction sites generalizing start with
  | nil => rfl
  | cons site sites ih =>
      rw [List.length_cons] at few
      have rest : (operandsFrom (start + 1) sites).map (·.slot.toNat) =
          List.range' (start + 1) sites.length := ih (by omega)
      have fits : start.toUInt16.toNat = start := UInt16.toNat_ofNat_of_lt' (show start < 65536 by omega)
      rw [operandsFrom, List.zipIdx_cons, List.map_cons, List.map_cons, ← operandsFrom, rest,
        fits, List.length_cons, List.range'_succ]

theorem denotes_operandsFrom {start : Nat} {table : SiteTable} {earlier sites : List CallSite}
    (all : table.sites.toList = earlier ++ sites) (begins : start = earlier.length)
    (few : start + sites.length ≤ 65536) :
    List.Forall₂ (SiteOperands.Denotes table) (operandsFrom start sites) sites := by
  induction sites generalizing earlier start with
  | nil => exact .nil
  | cons site sites ih =>
      rw [List.length_cons] at few
      have fits : start.toUInt16.toNat = start := UInt16.toNat_ofNat_of_lt' (show start < 65536 by omega)
      refine .cons ⟨?_, rfl⟩ ?_
      · rw [SiteTable.site?, fits, ← Array.getElem?_toList, all, begins]
        simp
      · have further : table.sites.toList = (earlier ++ [site]) ++ sites := by
          rw [all, List.append_assoc, List.singleton_append]
        apply ih further
        · rw [List.length_append, begins, List.length_singleton]
        · omega

/-- What the table has for a slot stays, whatever is added. -/
theorem SiteOperands.Denotes.later {table larger : SiteTable} {operands : SiteOperands}
    {site : CallSite} {more : List CallSite} (denotes : operands.Denotes table site)
    (grows : larger.sites.toList = table.sites.toList ++ more) :
    operands.Denotes larger site := by
  obtain ⟨found, flags⟩ := denotes
  refine ⟨?_, flags⟩
  rw [SiteTable.site?, ← Array.getElem?_toList] at found ⊢
  rw [grows, List.getElem?_append_left (List.getElem?_eq_some_iff.mp found).1, found]

theorem SiteOperands.exists_denotes {table : SiteTable} {all : List SiteOperands}
    {sites : List CallSite} (denotes : List.Forall₂ (SiteOperands.Denotes table) all sites)
    {operands : SiteOperands} (member : operands ∈ all) :
    ∃ site, operands.Denotes table site := by
  induction denotes with
  | nil => cases member
  | cons first _ ih =>
      rcases List.mem_cons.mp member with rfl | later
      · exact ⟨_, first⟩
      · exact ih later

/-! ## What a body asks for -/

/-- Something that a body asked for: the messages in it, and whether it was lowered to its
end. -/
structure Asking where
  messages : List String
  lowered : Bool
  deriving DecidableEq, Repr

/-- What is sent for it: all of its messages, or the first of them if it was rejected. -/
def Asking.Sends (asking : Asking) (sent : List String) : Prop :=
  sent <+: asking.messages ∧ (asking.lowered = true → sent = asking.messages)

/-- What is sent for one thing after another. -/
inductive Answered : List Asking → List String → Prop
  | none : Answered [] []
  | more {asking : Asking} {askings : List Asking} {sent names : List String} :
      asking.Sends sent → Answered askings names → Answered (asking :: askings) (sent ++ names)

theorem Answered.append {askings others : List Asking} {names further : List String}
    (left : Answered askings names) (right : Answered others further) :
    Answered (askings ++ others) (names ++ further) := by
  induction left with
  | none => exact right
  | more sends _ ih =>
      rw [List.append_assoc]
      exact .more sends ih

theorem Answered.single {asking : Asking} {sent : List String} (sends : asking.Sends sent) :
    Answered [asking] sent := by
  have answered := Answered.more sends .none
  rwa [List.append_nil] at answered

/-- What was asked for, one thing after another, on the way of a body from one state to
another.  Each of them may have been rejected. -/
inductive Asked (context : Context) : LoweringState → List Asking → LoweringState → Prop
  | start (state : LoweringState) : Asked context state [] state
  | mark {position : Position} {before after : LoweringState} :
      Runs (markLine position) context before () after → Asked context before [] after
  | expr {operand : Expr} {before after : LoweringState} {fault : Option Fault} :
      Ends operand.lower context before fault after →
      Asked context before [⟨operand.messages context, fault.isNone⟩] after
  | call {called : Call Expr} {before after : LoweringState} {fault : Option Fault} :
      Ends (lowerCall called.operands) context before fault after →
      Asked context before [⟨called.messages context, fault.isNone⟩] after
  /-- A chained call goes on behind what a hook asks for that declines it. -/
  | chain {hook : ChainHook} {chained : ChainCall Expr} {askings : List Asking}
      {before hooked after : LoweringState} {fault : Option Fault} :
      Asked context before askings hooked →
      Hooked context hook chained.operands before false hooked →
      Ends (lowerChainCall hook chained.operands) context before fault after →
      Asked context before
        (askings ++ [⟨(Call.chain chained).messages context, fault.isNone⟩]) after
  | append {first second third : LoweringState} {askings others : List Asking} :
      Asked context first askings second → Asked context second others third →
      Asked context first (askings ++ others) third

section Asked

variable {context : Context} {hook : ChainHook} {before after : LoweringState}
  {fault : Option Fault}

/-- What an action adds answers what it was asked for. -/
theorem Lower.Sends.answers {Result : Type} {action : Lower Result} {messages : List String}
    (sends : Lower.Sends action context messages)
    (counts : before.ledger.allocator = SiteTable.allocate)
    (ends : Ends action context before fault after) :
    ∃ sites, before.Adds after sites ∧
      Asking.Sends ⟨messages, fault.isNone⟩ (sites.map (·.name)) := by
  obtain ⟨sites, adds, first, all⟩ := sends.adds counts ends
  exact ⟨sites, adds, first, fun lowered => all (Option.isNone_iff_eq_none.mp lowered)⟩

theorem adds_report (types : TypeTable) (table : CandidateTable) (position : Position) :
    before.Adds (before.report types table position) [] := by
  unfold LoweringState.report Ledger.reportCollisions
  split <;> exact .of_same rfl rfl rfl

theorem adds_candidateTable {types : TypeTable} {target : Identity} {position : Position}
    {table : CandidateTable} {ledger : Ledger}
    (found : Ledger.candidateTable types target position before.ledger = .ok table ledger) :
    before.Adds { before with ledger } [] := by
  obtain ⟨tables, rfl⟩ := Ledger.candidateTable_keeps found
  exact .of_same rfl rfl rfl

/-- Behind its hook a chained call sends the messages of its arguments, however it ends. -/
theorem sends_of_chain {call : ChainCall Expr} {hooked : LoweringState}
    (counts : hooked.ledger.allocator = SiteTable.allocate)
    (offered : Hooked context hook call.operands before false hooked)
    (ends : Ends (lowerChainCall hook call.operands) context before fault after) :
    ∃ sites, hooked.Adds after sites ∧
      Asking.Sends ⟨(Call.chain call).messages context, fault.isNone⟩
        (sites.map (·.name)) := by
  have rejected {error : LoweringError} (state : LoweringState) (same : hooked.Adds state []) :
      ∃ sites, hooked.Adds state sites ∧ Asking.Sends
        ⟨(Call.chain call).messages context, (some (Fault.rejected error)).isNone⟩
        (sites.map (·.name)) :=
    ⟨[], same, List.nil_prefix, fun lowered => by cases lowered⟩
  cases ends_of_declined offered ends with
  | uncalled => exact rejected _ (.refl _)
  | untabled => exact rejected _ (.refl _)
  | direct _ tabled bound chains =>
      have looked := adds_candidateTable tabled
      obtain ⟨sites, adds, sends⟩ := (ChainCall.straight_direct _ bound).sends.answers
        (looked.allocator.trans counts) chains
      exact ⟨sites, looked.trans adds, sends⟩
  | @keySwitch _ table _ _ _ _ tabled _ switches =>
      have looked := (adds_candidateTable tabled).trans
        (adds_report context.types table call.operands.position)
      obtain ⟨sites, adds, sends⟩ := (call.sends_switch _).answers
        (looked.allocator.trans counts) switches
      exact ⟨sites, looked.trans adds, sends⟩

theorem Asked.adds {askings : List Asking} (asked : Asked context before askings after)
    (counts : before.ledger.allocator = SiteTable.allocate) :
    ∃ sites, before.Adds after sites ∧ Answered askings (sites.map (·.name)) := by
  induction asked with
  | start => exact ⟨[], .refl _, .none⟩
  | @mark position before after marks =>
      have ends : Ends (markLine position) context before none after := ⟨(), marks⟩
      obtain ⟨sites, adds, -, sent⟩ :=
        (straight_markLine _).sends.adds counts ends
      obtain rfl := List.map_eq_nil_iff.mp (sent rfl)
      exact ⟨[], adds, .none⟩
  | @expr operand _ _ _ ends =>
      have straight : Straight context operand.lower _ := operand.straight
      obtain ⟨sites, adds, sends⟩ := straight.sends.answers counts ends
      exact ⟨sites, adds, .single sends⟩
  | @call called _ _ _ ends =>
      obtain ⟨sites, adds, sends⟩ := called.straight_lower.sends.answers counts ends
      exact ⟨sites, adds, .single sends⟩
  | chain _ offered ends ih =>
      obtain ⟨sites, adds, answered⟩ := ih counts
      obtain ⟨others, more, sends⟩ := sends_of_chain (adds.allocator.trans counts) offered ends
      refine ⟨sites ++ others, adds.trans more, ?_⟩
      rw [List.map_append]
      exact answered.append (.single sends)
  | append _ _ first second =>
      obtain ⟨sites, adds, answered⟩ := first counts
      obtain ⟨others, more, answers⟩ := second (adds.allocator.trans counts)
      refine ⟨sites ++ others, adds.trans more, ?_⟩
      rw [List.map_append]
      exact answered.append answers

/-- The messages in what a body asked for. -/
def Entry.messages (context : Context) : Entry → List String
  | .expr operand => operand.messages context
  | .call called => called.messages context
  | .chain chained => (Call.chain chained).messages context

def Task.asking (task : Task) : Asking := ⟨task.entry.messages task.context, task.lowered⟩

/-- The tasks of a body ask for their messages. -/
theorem Works.asked {tasks : List Task} (works : Works context before tasks after) :
    Asked context before (tasks.map Task.asking) after := by
  induction works with
  | start state => exact .start state
  | mark marks => exact .mark marks
  | expr ends => exact .expr ends
  | call ends => exact .call ends
  | chain _ offered ends ih =>
      rw [List.map_append]
      exact .chain ih offered ends
  | append _ _ left right =>
      rw [List.map_append]
      exact .append left right

end Asked

/-! ## The bodies of a class -/

/-- What a body asked for, and whether it was recorded. -/
structure BodyLog where
  askings : List Asking
  recorded : Bool

/-- The units that lowering one body after another leads to, with slots that are counted up
from zero, and what their bodies asked for. -/
inductive ClassUnit.Logged (hook : ChainHook) : ClassUnit → List BodyLog → Prop
  | fresh (types : TypeTable) (classId : Identity) (keyOf : KeyFunction)
      (resolver : TypeResolver) :
      Logged hook { types, ledger := { classId, keyOf }, resolver } []
  | body {unit : ClassUnit} {log : List BodyLog} {Result : Type} {action : Lower Result}
      {fault : Option Fault} {after : LoweringState} {askings : List Asking} (name : String)
      (frame : Frame) : Logged hook unit log → action.OnlyLowers hook →
      unit.admit? name frame = .ok () →
      Ends action (unit.context frame) unit.initialState fault after →
      Asked (unit.context frame) unit.initialState askings after →
      Logged hook (unit.lowerBody name frame action).2 (log ++ [⟨askings, fault.isNone⟩])
  | refused {unit : ClassUnit} {log : List BodyLog} {Result : Type} {action : Lower Result}
      {name : String} {frame : Frame} {error : LoweringError} : Logged hook unit log →
      action.OnlyLowers hook → unit.admit? name frame = .error error →
      Logged hook (unit.lowerBody name frame action).2 (log ++ [⟨[], false⟩])

/-- What the recorded bodies asked for. -/
def recordedAskings (log : List BodyLog) : List Asking :=
  (log.filter (·.recorded)).flatMap (·.askings)

/-- What the code of a class says about call sites, body after body. -/
def CompiledClass.siteOperands (compiled : CompiledClass) : List SiteOperands :=
  compiled.bodies.toList.flatMap fun body =>
    (body.code.instructionsFrom 0).filterMap Instruction.site?

variable {hook : ChainHook} {unit : ClassUnit} {log : List BodyLog}

theorem ClassUnit.Logged.lowered (logged : unit.Logged hook log) : unit.Lowered hook := by
  induction logged with
  | fresh => exact .fresh _ _ _
  | body name frame _ lowers _ _ _ ih => exact .body name frame ih lowers
  | refused _ lowers _ ih => exact .body _ _ ih lowers

theorem ClassUnit.Logged.exists_body {Result : Type} {action : Lower Result}
    (logged : unit.Logged hook log) (plain : hook.Plain) (lowers : action.OnlyLowers hook)
    (name : String) (frame : Frame) :
    ∃ body, (unit.lowerBody name frame action).2.Logged hook (log ++ [body]) := by
  cases admitted : unit.admit? name frame with
  | error error => exact ⟨_, .refused logged lowers admitted⟩
  | ok =>
      obtain ⟨fault, after, ends⟩ := exists_ends action (unit.context frame) unit.initialState
      obtain ⟨tasks, works⟩ := lowers.works plain.works ends
      exact ⟨_, .body name frame logged lowers admitted ends works.asked⟩

/-- The call sites that the recorded bodies placed. -/
def ClassUnit.placedSites (unit : ClassUnit) : List SiteOperands :=
  unit.bodies.toList.flatMap (·.listing.siteOperands)

/-- The table of a class agrees with the call sites that its recorded bodies placed. -/
structure ClassUnit.SitesAgree (unit : ClassUnit) (log : List BodyLog) : Prop where
  counts : unit.ledger.allocator = SiteTable.allocate
  few : unit.ledger.sites.count ≤ 65536
  increasing : (unit.placedSites.map (·.slot.toNat)).Pairwise (· < ·)
  denotes : ∃ sites, List.Forall₂ (SiteOperands.Denotes unit.ledger.sites) unit.placedSites
    sites ∧ Answered (recordedAskings log) (sites.map (·.name)) ∧
      ((∀ body ∈ log, body.recorded = true) → sites = unit.ledger.sites.sites.toList)
  complete : (∀ body ∈ log, body.recorded = true) →
    unit.placedSites.map (·.slot.toNat) = List.range unit.ledger.sites.count

namespace ClassUnit.SitesAgree

variable {after : LoweringState} {sites : List CallSite} {askings : List Asking}

theorem lt_count (agree : unit.SitesAgree log) {slot : Nat}
    (member : slot ∈ unit.placedSites.map (·.slot.toNat)) :
    slot < unit.ledger.sites.count := by
  obtain ⟨operands, among, rfl⟩ := List.mem_map.mp member
  obtain ⟨_, denotes, -⟩ := agree.denotes
  obtain ⟨site, found, -⟩ := SiteOperands.exists_denotes denotes among
  exact (Array.getElem?_eq_some_iff.mp found).1

/-- A body that fails leaves its sites in the table. -/
theorem failed (agree : unit.SitesAgree log) (adds : unit.initialState.Adds after sites) :
    (unit.absorb after).SitesAgree (log ++ [⟨askings, false⟩]) where
  counts := adds.allocator.trans agree.counts
  few := adds.few agree.few
  increasing := agree.increasing
  denotes := by
    obtain ⟨earlier, denotes, answered, -⟩ := agree.denotes
    refine ⟨earlier, denotes.imp fun _ _ found => found.later adds.table, ?_, fun all => ?_⟩
    · simpa [recordedAskings] using answered
    · cases all ⟨askings, false⟩ List.mem_concat_self
  complete all := by cases all ⟨askings, false⟩ List.mem_concat_self

theorem placedSites_record (adds : unit.initialState.Adds after sites) (name : String) :
    ClassUnit.placedSites { unit.absorb after with
      bodies := unit.bodies.push ⟨name, after.assembler.listing, after.stack.length⟩ } =
        unit.placedSites ++ operandsFrom unit.ledger.sites.count sites := by
  have placed : after.assembler.listing.siteOperands =
      operandsFrom unit.ledger.sites.count sites := adds.code
  simp [ClassUnit.placedSites, placed]

/-- A body that is recorded takes the next slots. -/
theorem recorded (agree : unit.SitesAgree log) (adds : unit.initialState.Adds after sites)
    (answered : Answered askings (sites.map (·.name))) (name : String) :
    SitesAgree { unit.absorb after with
      bodies := unit.bodies.push ⟨name, after.assembler.listing, after.stack.length⟩ }
        (log ++ [⟨askings, true⟩]) := by
  have few : unit.ledger.sites.count + sites.length ≤ 65536 := by
    have total : after.ledger.sites.count = unit.ledger.sites.count + sites.length :=
      adds.count
    rw [← total]
    exact adds.few agree.few
  have slots := slots_operandsFrom few
  refine ⟨adds.allocator.trans agree.counts, adds.few agree.few, ?_, ?_, ?_⟩
  · rw [placedSites_record adds, List.map_append, slots, List.pairwise_append]
    refine ⟨agree.increasing, List.pairwise_lt_range', ?_⟩
    intro earlier among later follows
    have bound := agree.lt_count among
    have start := (List.mem_range'_1.mp follows).1
    omega
  · obtain ⟨others, denotes, answers, all⟩ := agree.denotes
    refine ⟨others ++ sites, ?_, ?_, fun every => ?_⟩
    · rw [placedSites_record adds]
      apply List.rel_append
      · exact denotes.imp fun _ _ found => found.later adds.table
      · exact denotes_operandsFrom adds.table rfl few
    · rw [List.map_append]
      simpa [recordedAskings] using answers.append answered
    · rw [all fun body member => every body (List.mem_append_left _ member)]
      exact adds.table.symm
  · intro every
    have earlier := agree.complete fun body member => every body (List.mem_append_left _ member)
    have total : after.ledger.sites.count = unit.ledger.sites.count + sites.length :=
      adds.count
    rw [placedSites_record adds, List.map_append, slots, earlier]
    change _ = List.range after.ledger.sites.count
    rw [total, List.range_add, List.range'_eq_map_range]

end ClassUnit.SitesAgree

theorem ClassUnit.Logged.sitesAgree (logged : unit.Logged hook log) : unit.SitesAgree log := by
  induction logged with
  | fresh => exact ⟨rfl, Nat.zero_le _, .nil, ⟨[], .nil, .none, fun _ => rfl⟩, fun _ => rfl⟩
  | @body unit log _ action fault after askings name frame _ _ admitted ends asked agree =>
      obtain ⟨sites, adds, answered⟩ := asked.adds agree.counts
      cases fault with
      | none =>
          obtain ⟨result, run⟩ := ends
          rw [lowerBody_of_runs admitted run]
          exact agree.recorded adds answered name
      | some fault =>
          rw [lowerBody_of_error admitted ends]
          exact agree.failed adds
  | @refused unit _ _ _ _ _ _ _ _ refused agree =>
      rw [lowerBody_of_refused refused]
      change (unit.absorb unit.initialState).SitesAgree _
      exact agree.failed (.refl _)

/-! ## Reading the code -/

/-- Reading the code of the bodies finds the call sites that were placed. -/
theorem ClassUnit.siteOperands_finish (sound : unit.Sound) :
    unit.finish.siteOperands = unit.placedSites := by
  apply List.flatMap_congr
  intro body member
  have shaped : ∀ item ∈ body.listing.items.toList, item.instruction.WellShaped := by
    intro item among
    rw [← Instruction.wellShaped_pending]
    have member : body ∈ unit.bodies := Array.mem_toList_iff.mp member
    exact (sound body member _ (List.mem_map_of_mem among)).shaped
  have found := Listing.instructionsFrom_codeSize (List.nil_append _).symm shaped
  rw [codeSize_nil] at found
  rw [LoweredBody.code, found, List.filterMap_map]
  rfl

/-- The table of call sites agrees with the code.  With slots that are counted up, and
whatever the bodies of a class ask for, the call sites in the code of the recorded bodies
have slots that go up and are below the number of reported names.  Each has the flags of
its slot, and the names of the slots are the messages of what was asked for, in order, of
which only the first were sent where something was rejected.  If no body failed, the slots
are all those of the table, and every message is reported. -/
theorem call_sites_agree (plain : hook.Plain) (logged : unit.Logged hook log) :
    (unit.finish.siteOperands.map (·.slot.toNat)).Pairwise (· < ·) ∧
      (∀ operands ∈ unit.finish.siteOperands,
        operands.slot.toNat < unit.finish.callSites.length) ∧
      (∃ sites, List.Forall₂ (SiteOperands.Denotes unit.ledger.sites)
          unit.finish.siteOperands sites ∧
        Answered (recordedAskings log) (sites.map (·.name)) ∧
        ((∀ body ∈ log, body.recorded = true) →
          unit.finish.siteOperands.map (·.slot.toNat) =
              List.range unit.finish.callSites.length ∧
            unit.finish.callSites = sites.map (·.name))) ∧
      ∀ (Result : Type) (action : Lower Result) (name : String) (frame : Frame),
        action.OnlyLowers hook →
          ∃ body, (unit.lowerBody name frame action).2.Logged hook (log ++ [body]) := by
  have agree := logged.sitesAgree
  have count : unit.finish.callSites.length = unit.ledger.sites.count := by
    simp [ClassUnit.finish, SiteTable.names, SiteTable.count]
  rw [ClassUnit.siteOperands_finish (logged.lowered.sound plain.sound), count]
  refine ⟨agree.increasing, fun operands member => ?_, ?_, ?_⟩
  · exact agree.lt_count (List.mem_map_of_mem member)
  · obtain ⟨sites, denotes, answered, all⟩ := agree.denotes
    refine ⟨sites, denotes, answered, fun every => ⟨agree.complete every, ?_⟩⟩
    rw [all every]
    rfl
  · exact fun _ _ name frame lowers => logged.exists_body plain lowers name frame

/-- `C.class.f(D.class.g(), this())`, which is rejected once `g` is sent. -/
def rejectedSend : Call Expr :=
  .method ⟨.classLiteral ⟨5⟩, .named "f",
    [.call (.method ⟨.classLiteral ⟨6⟩, .named "g", [], false, false, false, none, none,
      .synthetic⟩), .call (.chain ⟨.sameClass, [], .synthetic⟩)], false, false, false, none,
    none, .synthetic⟩

/-- `new D(C.class.h())` -/
def nestedSend : Call Expr :=
  .create ⟨⟨6⟩, [.call (.method ⟨.classLiteral ⟨5⟩, .named "h", [], false, false, false, none,
    none, .synthetic⟩)], none, false, .synthetic⟩

/-- The unit before its second body. -/
def sendingUnit : ClassUnit :=
  ((ClassUnit.start .empty ⟨1⟩).lowerBody "f" (.method ⟨1⟩)
    (lowerCall rejectedSend.operands)).2

/-- A class of two bodies, the first of which fails behind a call site. -/
def sentUnit : ClassUnit :=
  (sendingUnit.lowerBody "g" (.method ⟨1⟩) (lowerCall nestedSend.operands)).2

/-- The body that is recorded has the slots behind that of the one that failed. -/
theorem sites_of_two_bodies : ∃ log, noHook.Plain ∧ sentUnit.Logged noHook log ∧
    log.map (·.recorded) = [false, true] ∧ recordedAskings log = [⟨["h", "<init>"], true⟩] ∧
    sentUnit.finish.callSites = ["g", "h", "<init>"] ∧
    sentUnit.finish.siteOperands.map (·.slot.toNat) = [1, 2] ∧
    (∀ operands ∈ sentUnit.finish.siteOperands,
      operands.slot.toNat < sentUnit.finish.callSites.length) ∧
    ∃ sites, List.Forall₂ (SiteOperands.Denotes sentUnit.ledger.sites)
        sentUnit.finish.siteOperands sites ∧
      Answered (recordedAskings log) (sites.map (·.name)) := by
  have start : (ClassUnit.start .empty ⟨1⟩).Logged noHook [] := .fresh _ _ _ _
  obtain ⟨fault, failed, first⟩ := exists_ends (lowerCall rejectedSend.operands)
    ((ClassUnit.start .empty ⟨1⟩).context (.method ⟨1⟩))
    (ClassUnit.start .empty ⟨1⟩).initialState
  have rejected : fault.isNone = false := by
    cases fault with
    | some fault => rfl
    | none =>
        obtain ⟨⟨⟩, run⟩ := first
        have absent : answer? (lowerCall rejectedSend.operands)
            ((ClassUnit.start .empty ⟨1⟩).context (.method ⟨1⟩))
            (ClassUnit.start .empty ⟨1⟩).initialState = none := by decide +kernel
        rw [answer?, run] at absent
        cases absent
  have middle : sendingUnit.Logged noHook _ :=
    .body "f" _ start ((Entry.call rejectedSend).onlyLowers noHook) rfl first (.call first)
  obtain ⟨after, second⟩ := exists_runs_of_answer? (show answer?
    (lowerCall nestedSend.operands) (sendingUnit.context (.method ⟨1⟩))
    sendingUnit.initialState = some () by decide +kernel)
  have ends : Ends (lowerCall nestedSend.operands) (sendingUnit.context (.method ⟨1⟩))
    sendingUnit.initialState none after := ⟨(), second⟩
  have admitted : sendingUnit.admit? "g" (.method ⟨1⟩) = .ok () := by decide +kernel
  have logged : sentUnit.Logged noHook _ :=
    .body "g" _ middle ((Entry.call nestedSend).onlyLowers noHook) admitted ends (.call ends)
  rw [rejected] at logged
  have asked : nestedSend.messages (sendingUnit.context (.method ⟨1⟩)) = ["h", "<init>"] := by
    decide +kernel
  obtain ⟨-, below, ⟨sites, denotes, answered, -⟩, -⟩ := call_sites_agree .none logged
  refine ⟨_, .none, logged, rfl, ?_, by decide +kernel, by decide +kernel, below, sites, denotes,
    answered⟩
  simp [recordedAskings, asked]

end CallCode
