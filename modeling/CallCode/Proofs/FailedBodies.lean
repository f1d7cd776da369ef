import CallCode.Proofs.MethodBodies

/-!
# Bodies that fail

A body that fails is not recorded, but the constants, call sites, names and errors that it
added are handed over all the same.  It leaves no trace exactly if it added none of them:
what else it has touched, the tables that it looked up, no later body can tell.
-/

namespace CallCode

open Lower

/-- What was handed over before is handed over later, but for the bodies. -/
structure CompiledClass.Grows (compiled later : CompiledClass) : Prop where
  classId : later.classId = compiled.classId
  pool : compiled.pool.Within later.pool
  callSites : compiled.callSites <+: later.callSites
  superMethods : compiled.superMethods.Sublist later.superMethods
  errors : compiled.errors.toList <+: later.errors.toList

theorem Ledger.eq_of_tables {ledger later : Ledger} (classId : later.classId = ledger.classId)
    (reported : later.reported = ledger.reported)
    (superNames : later.superNames = ledger.superNames) (sites : later.sites = ledger.sites)
    (allocator : later.allocator = ledger.allocator) (keyOf : later.keyOf = ledger.keyOf) :
    later = { ledger with tables := later.tables } := by
  rw [← classId, ← reported, ← superNames, ← sites, ← allocator, ← keyOf]

namespace ClassUnit

/-- Two units that no later bodies can tell apart: the same is handed over behind them, and
a further body has the same outcome. -/
def Alike (unit other : ClassUnit) : Prop :=
  ∀ bodies, (other.lowerAll bodies).finish = (unit.lowerAll bodies).finish ∧
    ∀ body, ((other.lowerAll bodies).lower body).1 = ((unit.lowerAll bodies).lower body).1

variable {unit other : ClassUnit}

theorem Twins.alike (twins : unit.Twins other) : unit.Alike other := by
  intro bodies
  have later := twins.lowerAll bodies
  exact ⟨later.finish, fun body => (later.lower body).1⟩

theorem bodies_of_failed {body : MethodBody} {fault : Fault}
    (failed : (unit.lower body).1 = .error fault) : (unit.lower body).2.bodies = unit.bodies := by
  rcases unit.lower_cases body with ⟨error, lowered⟩ | lowered
  · rw [lowered]
  · rw [lowered] at failed ⊢
    cases outcome : body.action (unit.context body.frame) unit.initialState with
    | ok result state =>
        rw [outcome] at failed
        cases failed
    | error stop state => rfl

/-- Where nothing was added to what is handed over, at most tables were looked up. -/
theorem twins_of_finish_eq {body : MethodBody} (reached : unit.Reached)
    (same : (unit.lower body).2.finish = unit.finish) : unit.Twins (unit.lower body).2 := by
  obtain ⟨reachable, appends⟩ := reached.ledger
  obtain ⟨types, resolver⟩ := unit.lower_keeps body
  have grows := grows_lower appends body
  have otherReachable := (reached.body body).ledger.1
  rw [types] at otherReachable
  generalize (unit.lower body).2 = later at *
  have errors : later.diagnostics.errors = unit.diagnostics.errors :=
    congrArg CompiledClass.errors same
  have ledger : later.ledger = { unit.ledger with tables := later.ledger.tables } := by
    apply Ledger.eq_of_tables grows.classId
    · -- a class is noted with an error at least, and there are no new ones
      apply grows.reported
      rw [initialState, initialState, errors]
    · exact congrArg CompiledClass.superMethods same
    · -- calls are only added at the end, so that as many are the same ones
      have count := congrArg (·.callSites.length) same
      simp only [finish, SiteTable.names, List.length_map] at count
      have all := grows.sites.eq_of_length count.symm
      exact congrArg SiteTable.mk (Array.toList_inj.mp all.symm)
    · exact grows.allocator
    · exact grows.keyOf
  refine ⟨⟨later.ledger.tables, ?_⟩, reachable, otherReachable⟩
  calc later
    _ = { unit with ledger := later.ledger } := by
        have pool : later.pool = unit.pool := congrArg CompiledClass.pool same
        have bodies : later.bodies = unit.bodies := congrArg CompiledClass.bodies same
        have diagnostics : later.diagnostics = unit.diagnostics := congrArg Diagnostics.mk errors
        rw [← types, ← resolver, ← pool, ← bodies, ← diagnostics]
    _ = { unit with ledger := { unit.ledger with tables := later.ledger.tables } } :=
        congrArg (fun ledger => { unit with ledger }) ledger

end ClassUnit

/-- What a body that fails leaves behind.  It is not recorded, and what was handed over
before still is, but the constants, call sites, names and errors that it added are handed
over too.  No later bodies can tell that it was there exactly if it added none of them. -/
theorem trace_of_failed_body {unit : ClassUnit} (reached : unit.Reached) (body : MethodBody)
    {fault : Fault} (failed : (unit.lower body).1 = .error fault) :
    (unit.lower body).2.finish.bodies = unit.finish.bodies ∧
      unit.finish.Grows (unit.lower body).2.finish ∧
      (unit.Alike (unit.lower body).2 ↔ (unit.lower body).2.finish = unit.finish) := by
  have grows := ClassUnit.grows_lower reached.ledger.2 body
  refine ⟨ClassUnit.bodies_of_failed failed, ?_, ?_⟩
  · exact ⟨grows.classId, grows.pool, grows.sites.map _, grows.superNames, grows.errors⟩
  · constructor
    · exact fun alike => (alike []).1
    · exact fun same => (ClassUnit.twins_of_finish_eq reached same).alike

/-- `super.paint(1)` and `C.f()`, and then an error. -/
def failingBody : MethodBody where
  name := "b"
  frame := .method ⟨1⟩
  action := do
    let _ ← lowerMethodCall (MethodCall.operands ⟨.super, .named "paint", [.int 1], false,
      false, false, none, none, .synthetic⟩)
    let _ ← lowerStaticCall (StaticCall.operands ⟨⟨1⟩, "f", [], none, .synthetic⟩)
    fail (.internal (.other "boom"))
  stepwise context := by
    refine .bind (.of_straight (MethodCall.straight_lower (MethodCall.straight _))) fun _ => ?_
    refine .bind (.of_straight (StaticCall.straight_lower (straight_operandsOf []))) fun _ => ?_
    exact .fail _

/-- The names of both calls are handed over although the body failed. -/
theorem names_of_failing_body :
    ((ClassUnit.start .empty ⟨1⟩).lower failingBody).2.finish.bodies = #[] ∧
      ((ClassUnit.start .empty ⟨1⟩).lower failingBody).2.finish.callSites = ["f"] ∧
      ((ClassUnit.start .empty ⟨1⟩).lower failingBody).2.finish.superMethods = ["paint"] ∧
      ¬ (ClassUnit.start .empty ⟨1⟩).Alike
        ((ClassUnit.start .empty ⟨1⟩).lower failingBody).2 := by
  have reached : (ClassUnit.start .empty ⟨1⟩).Reached :=
    .start _ (.fresh _ _ _) SiteTable.appends_allocate
  have failed : ((ClassUnit.start .empty ⟨1⟩).lower failingBody).1 =
      .error (.rejected (.internal (.other "boom"))) := by decide +kernel
  have sent : ((ClassUnit.start .empty ⟨1⟩).lower failingBody).2.finish.superMethods =
      ["paint"] := by decide +kernel
  obtain ⟨bodies, -, traceless⟩ := trace_of_failed_body reached failingBody failed
  refine ⟨bodies, by decide +kernel, sent, fun alike => ?_⟩
  rw [traceless.mp alike] at sent
  cases sent

end CallCode
