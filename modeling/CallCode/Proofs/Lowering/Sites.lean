import CallCode.Proofs.Lowering.ChainOutcome

/-!
# Call sites of lowered code

The table of a class that counts its slots up and the code of a body grow together: a call
through a site takes the next slot once its operands are lowered, and says the slot and its
flags in the code.  An action that is rejected has sent the first of its messages.
-/

namespace CallCode

open Lower

/-- What the code says about call sites that have the slots from a number on. -/
def operandsFrom (start : Nat) (sites : List CallSite) : List SiteOperands :=
  (sites.zipIdx start).map fun (site, slot) => ⟨slot.toUInt16, site.flags.bits⟩

theorem operandsFrom_append (start : Nat) (sites further : List CallSite) :
    operandsFrom start (sites ++ further) =
      operandsFrom start sites ++ operandsFrom (start + sites.length) further := by
  rw [operandsFrom, List.zipIdx_append, List.map_append, operandsFrom, operandsFrom,
    Nat.add_comm]

namespace LoweringState

/-- The same call sites were added to the table of the class and to the code. -/
structure Adds (before after : LoweringState) (sites : List CallSite) : Prop where
  allocator : after.ledger.allocator = before.ledger.allocator
  table : after.ledger.sites.sites.toList = before.ledger.sites.sites.toList ++ sites
  code : after.assembler.listing.siteOperands =
    before.assembler.listing.siteOperands ++ operandsFrom before.ledger.sites.count sites
  few : before.ledger.sites.count ≤ 65536 → after.ledger.sites.count ≤ 65536

variable {before middle after : LoweringState} {sites further : List CallSite}

/-- Nothing is added where the sites and those of the code stay what they were. -/
theorem Adds.of_same (allocator : after.ledger.allocator = before.ledger.allocator)
    (table : after.ledger.sites = before.ledger.sites)
    (code : after.assembler.listing.siteOperands = before.assembler.listing.siteOperands) :
    before.Adds after [] where
  allocator := allocator
  table := by rw [table, List.append_nil]
  code := code.trans (List.append_nil _).symm
  few := by
    rw [table]
    exact id

theorem Adds.refl (state : LoweringState) : state.Adds state [] := .of_same rfl rfl rfl

theorem Adds.count (adds : before.Adds after sites) :
    after.ledger.sites.count = before.ledger.sites.count + sites.length := by
  have lengths := congrArg List.length adds.table
  rwa [List.length_append, Array.length_toList, Array.length_toList] at lengths

theorem Adds.trans (left : before.Adds middle sites) (right : middle.Adds after further) :
    before.Adds after (sites ++ further) where
  allocator := right.allocator.trans left.allocator
  table := by rw [right.table, left.table, List.append_assoc]
  code := by
    rw [right.code, left.code, left.count, operandsFrom_append, List.append_assoc]
  few := right.few ∘ left.few

end LoweringState

namespace Lower

variable {Result Middle : Type} {context : Context} {messages further : List String}

/-- With slots that are counted up, an action sends some messages through call sites, or the
first of them if it does not succeed. -/
def Sends (action : Lower Result) (context : Context) (messages : List String) : Prop :=
  ∀ before, before.ledger.allocator = SiteTable.allocate →
    match action context before with
    | .ok _ after => ∃ sites, before.Adds after sites ∧ sites.map (·.name) = messages
    | .error _ after => ∃ sites, before.Adds after sites ∧ sites.map (·.name) <+: messages

theorem Sends.bind {first : Lower Middle} {next : Middle → Lower Result}
    (left : Sends first context messages)
    (right : ∀ value, Sends (next value) context further) :
    Sends (first >>= next) context (messages ++ further) := by
  intro before counts
  have early := left before counts
  simp only [Bind.bind, ReaderT.bind, EStateM.bind]
  cases outcome : first context before with
  | error fault middle =>
      rw [outcome] at early
      obtain ⟨sites, adds, sent⟩ := early
      exact ⟨sites, adds, sent.trans (List.prefix_append _ _)⟩
  | ok value middle =>
      rw [outcome] at early
      obtain ⟨sites, adds, rfl⟩ := early
      have late := right value middle (adds.allocator.trans counts)
      simp only
      split at late
      · obtain ⟨others, more, rfl⟩ := late
        exact ⟨sites ++ others, adds.trans more, List.map_append⟩
      · obtain ⟨others, more, sent⟩ := late
        refine ⟨sites ++ others, adds.trans more, ?_⟩
        rw [List.map_append]
        exact (List.prefix_append_right_inj _).mpr sent

theorem Sends.then {first : Lower Middle} {next : Middle → Lower Result}
    (left : Sends first context [])
    (right : ∀ value, Sends (next value) context messages) :
    Sends (first >>= next) context messages :=
  .bind left right

theorem Sends.finish {first : Lower Middle} {next : Middle → Lower Result}
    (left : Sends first context messages)
    (right : ∀ value, Sends (next value) context []) :
    Sends (first >>= next) context messages := by
  have both := left.bind right
  rwa [List.append_nil] at both

theorem sends_pure (value : Result) : Sends (pure value) context [] :=
  fun before _ => ⟨[], .refl before, rfl⟩

theorem sends_fail (error : LoweringError) :
    Sends (fail error : Lower Result) context messages :=
  fun before _ => ⟨[], .refl before, List.nil_prefix⟩

theorem sends_throw (fault : Fault) : Sends (throw fault : Lower Result) context messages :=
  fun before _ => ⟨[], .refl before, List.nil_prefix⟩

theorem sends_get : Sends (get : Lower LoweringState) context [] :=
  fun before _ => ⟨[], .refl before, rfl⟩

/-- A change of the state that leaves the sites alone sends nothing. -/
theorem sends_modify {change : LoweringState → LoweringState}
    (silent : ∀ state : LoweringState, state.Adds (change state) []) :
    Sends (modify change) context [] :=
  fun before _ => ⟨[], silent before, rfl⟩

theorem sends_write {step : Assembler → Assembler}
    (quiet : ∀ assembler : Assembler,
      (step assembler).listing.siteOperands = assembler.listing.siteOperands) :
    Sends (write step) context [] :=
  sends_modify fun state => .of_same rfl rfl (quiet state.assembler)

theorem sends_writeLabelled {step : Assembler → Result × Assembler}
    (quiet : ∀ assembler : Assembler,
      (step assembler).2.listing.siteOperands = assembler.listing.siteOperands) :
    Sends (writeLabelled step) context [] :=
  fun before _ => ⟨[], .of_same rfl rfl (quiet before.assembler), rfl⟩

theorem sends_track (action : StackAction Result) : Sends (track action) context [] := by
  intro before _
  unfold track
  cases action before.stack with
  | ok result stack => exact ⟨[], .of_same rfl rfl rfl, rfl⟩
  | error error stack => exact ⟨[], .of_same rfl rfl rfl, List.nil_prefix⟩

/-- The distance of a branch is no operand of a call site. -/
theorem sends_resolve (label : Label) : Sends (resolve label) context [] := by
  refine .then sends_get fun state => ?_
  split
  · exact sends_write fun assembler => assembler.listing.siteOperands_setDistance _ _
  · exact sends_throw _

theorem sends_recordSuper (name : String) :
    Sends (modify fun state => { state with ledger := state.ledger.recordSuper name }) context
      [] :=
  sends_modify fun _ => .of_same rfl rfl rfl

theorem sends_restore (stack : TypeStack) : Sends (restore stack) context [] :=
  sends_modify fun _ => .of_same rfl rfl rfl

/-- The slot that a call takes is the number of the calls before it. -/
theorem sends_site (site : CallSite) (count : UInt8) : Sends (do
    let slot ← consult (Ledger.allocate site)
    write (·.callSite slot count site.flags.bits)) context [site.name] := by
  intro before counts
  simp only [Bind.bind, ReaderT.bind, EStateM.bind, consult, Ledger.allocate, counts,
    SiteTable.allocate]
  by_cases few : before.ledger.sites.count < 65536
  · simp only [few, if_true]
    refine ⟨[site], ⟨counts.symm, Array.toList_push, ?_, fun _ => ?_⟩, rfl⟩
    · rw [← List.singleton_append]
      exact Listing.siteOperands_push _ _ _
    · rw [SiteTable.count, Array.size_push]
      exact few
  · simp only [few, if_false]
    exact ⟨[], .of_same counts.symm rfl rfl, List.nil_prefix⟩

/-- A straight action sends the messages of its walk. -/
theorem Straight.sends {action : Lower Result} {walk : Walk}
    (straight : Straight context action walk) : Sends action context walk.messages := by
  induction straight with
  | pure value => exact sends_pure value
  | bind _ _ left right => exact left.bind right
  | fail error walk => exact sends_fail error
  | read _ ih => exact fun before counts => ih before counts
  | peek _ _ ih => exact .then sends_get ih
  | write step => exact sends_write step.quiet
  | track action => exact sends_track action
  | send site count _ ih =>
      have sends := Sends.bind (sends_site site count) fun _ => ih
      simp only [bind_assoc] at sends
      exact sends
  | recordSuper name => exact sends_recordSuper name

/-- What an action that ends has added to the table and to the code. -/
theorem Sends.adds {action : Lower Result} {before after : LoweringState}
    {fault : Option Fault} (sends : Sends action context messages)
    (counts : before.ledger.allocator = SiteTable.allocate)
    (ends : Ends action context before fault after) :
    ∃ sites, before.Adds after sites ∧ sites.map (·.name) <+: messages ∧
      (fault = none → sites.map (·.name) = messages) := by
  have sent := sends before counts
  cases fault with
  | none =>
      obtain ⟨result, run⟩ := ends
      rw [run] at sent
      obtain ⟨sites, adds, rfl⟩ := sent
      exact ⟨sites, adds, List.prefix_rfl, fun _ => rfl⟩
  | some fault =>
      rw [ends] at sent
      obtain ⟨sites, adds, first⟩ := sent
      exact ⟨sites, adds, first, fun succeeds => by cases succeeds⟩

end Lower

/-! ## Switches -/

section Switches

variable {context : Context} {classId : Identity} {position : Position}

theorem sends_placeArm {inConstructor : Bool} {entry : TypeStack} (arm : Candidate × Label) :
    Sends (placeArm classId inConstructor position entry arm) context [] := by
  refine .then (sends_restore entry) fun _ => .then (sends_resolve arm.2) fun _ => ?_
  refine .then (straight_lowerArm _ _ _ _).sends fun _ => ?_
  refine .then (sends_writeLabelled fun assembler => ?_) fun _ => ?_
  · exact (Listing.siteOperands_push _ _ _).trans (List.append_nil _)
  · exact .then sends_get fun _ => sends_pure _

theorem sends_lowerArms {inConstructor : Bool} {entry : TypeStack}
    (arms : List (Candidate × Label)) :
    Sends (lowerArms classId inConstructor position entry arms) context [] := by
  rw [lowerArms_eq]
  induction arms with
  | nil => exact sends_pure _
  | cons arm arms ih =>
      rw [List.mapM_cons]
      exact .then (sends_placeArm arm) fun _ => .then ih fun _ => sends_pure _

theorem sends_resolveAll (exits : List Label) : Sends (exits.forM resolve) context [] := by
  induction exits with
  | nil => exact sends_pure ()
  | cons exit exits ih => exact .then (sends_resolve exit) fun _ => ih

theorem sends_placeSwitch (table : CandidateTable) :
    Sends (placeSwitch context classId table position) context [] := by
  refine .then (sends_writeLabelled fun assembler => ?_) fun labels => ?_
  · exact (Listing.siteOperands_push _ _ _).trans (List.append_nil _)
  refine .then (sends_track _) fun _ => .then sends_get fun state => ?_
  refine .then (sends_lowerArms _) fun exits => .then (sends_restore _) fun _ => ?_
  refine .then (sends_resolve _) fun _ => .then (sends_write fun assembler => ?_) fun _ => ?_
  · exact (Listing.siteOperands_push _ _ _).trans (List.append_nil _)
  rw [forM_fst]
  refine .then (sends_resolveAll _) fun _ => ?_
  split
  · exact .then (sends_restore _) fun _ => (straight_dropVector _).sends
  · exact sends_fail _

theorem ChainCall.sends_switch (call : ChainCall Expr) (table : CandidateTable) :
    Sends (lowerSwitch context classId table call.operands.arguments call.operands.position)
      context ((Call.chain call).messages context) := by
  have enters : Straight context (enterDispatch context classId table
      call.operands.arguments call.operands.position) ((Call.chain call).walk context) := by
    rw [ChainCall.walk_operands]
    exact straight_enterDispatch call.straight_arguments _ _ _
  rw [lowerSwitch_eq]
  exact enters.sends.finish fun _ => sends_placeSwitch table

end Switches

end CallCode
