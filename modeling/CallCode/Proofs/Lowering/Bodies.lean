import CallCode.ClassUnit
import CallCode.Proofs.Lowering.ChainOutcome

/-!
# Bodies that only lower

The body of a method asks for one expression or call after another, and may go on after
one that is rejected.  Whatever it asks for, the code that it leaves is sound.
-/

namespace CallCode

open Lower

/-- What a body can ask to be lowered. -/
inductive Entry
  | expr (expr : Expr)
  | call (call : Call Expr)
  | chain (call : ChainCall Expr)

/-- Lower what a body asked for. -/
def Entry.lower (hook : ChainHook) : Entry → Lower Unit
  | .expr operand => operand.lower
  | .call called => lowerCall called.operands
  | .chain chained => do
      let _ ← lowerChainCall hook chained.operands

/-- A fault, if there is one, after which a body can go on. -/
def Recoverable (fault : Option Fault) : Prop := ∀ failure, fault ≠ some (.jumpTooFar failure)

/-- The states that a body gets to by asking, also after calls that were rejected. -/
inductive Lowerings (hook : ChainHook) (context : Context) :
    LoweringState → LoweringState → Prop
  | none (state : LoweringState) : Lowerings hook context state state
  | more {first middle last : LoweringState} {entry : Entry} {fault : Option Fault} :
      Lowerings hook context first middle →
      Ends (entry.lower hook) context middle fault last → Recoverable fault →
      Lowerings hook context first last

/-- All that an action does is to ask.  It ends as it likes, or where a branch became too
long. -/
def Lower.OnlyLowers {Result : Type} (action : Lower Result) (hook : ChainHook) : Prop :=
  ∀ context before fault after, Ends action context before fault after →
    ∃ middle, Lowerings hook context before middle ∧
      ((middle = after ∧ Recoverable fault) ∨
        ∃ entry : Entry, Ends (entry.lower hook) context middle fault after)

theorem Entry.onlyLowers (entry : Entry) (hook : ChainHook) :
    (entry.lower hook).OnlyLowers hook :=
  fun _ before _ _ ends => ⟨before, .none before, .inr ⟨entry, ends⟩⟩

/-- A hook that takes calls over by asking for others, for which again there may be a
hook of this kind. -/
inductive ChainHook.Plain : ChainHook → Prop
  | none : Plain noHook
  | asks {inner hook : ChainHook} : Plain inner →
      (∀ call : ChainCall Expr, (hook call.operands).OnlyLowers inner) → Plain hook

/-- What was written is sound, and after a branch that became too long the pool at least
has kept what it had. -/
structure LoweringState.Follows (before after : LoweringState) (fault : Option Fault) :
    Prop where
  within : before.assembler.pool.Within after.assembler.pool
  code : Recoverable fault → ∃ slots, before.assembler.Extends after.assembler slots

/-- The code of a hook is sound. -/
def ChainHook.Sound (hook : ChainHook) : Prop :=
  ∀ (call : ChainCall Expr) context before fault after,
    Ends (hook call.operands) context before fault after → before.Follows after fault

variable {hook : ChainHook} {context : Context} {before middle after : LoweringState}
  {fault : Option Fault}

namespace LoweringState.Follows

theorem of_leads {Result : Type} {action : Lower Result} {slots : List UInt16}
    (leads : action.Leads context before slots)
    (ends : Ends action context before fault after) : before.Follows after fault :=
  ⟨(leads.keeps ends).1, leads.extends_of_ends ends⟩

theorem of_extends {slots : List UInt16}
    (extended : before.assembler.Extends after.assembler slots) :
    before.Follows after fault :=
  ⟨extended.within, fun _ => ⟨slots, extended⟩⟩

theorem behind {slots : List UInt16} (follows : middle.Follows after fault)
    (extended : before.assembler.Extends middle.assembler slots) :
    before.Follows after fault := by
  refine ⟨extended.within.trans follows.within, fun recovers => ?_⟩
  obtain ⟨further, more⟩ := follows.code recovers
  exact ⟨slots ++ further, extended.trans more⟩

end LoweringState.Follows

theorem recoverable_none : Recoverable none := fun _ absent => by cases absent

theorem Hooked.extends {call : ChainCall Expr} {answer : Bool} (sound : hook.Sound)
    (offered : Hooked context hook call.operands before answer after) :
    ∃ slots, before.assembler.Extends after.assembler slots := by
  obtain ⟨marked, marks, hooks⟩ := offered
  have ends : Ends (hook call.operands) context marked none after := ⟨answer, hooks⟩
  have line := ((straight_markLine _).reads.advances marks).code
  exact ((sound call _ _ _ _ ends).behind line).code recoverable_none

theorem follows_chain {call : ChainCall Expr} (sound : hook.Sound)
    (ends : Ends (lowerChainCall hook call.operands) context before fault after) :
    before.Follows after fault := by
  cases lowerChainCall_ends ends with
  | hooked marks hooks =>
      exact (sound call _ _ _ _ hooks).behind ((straight_markLine _).reads.advances marks).code
  | taken offered =>
      obtain ⟨slots, extended⟩ := offered.extends sound
      exact .of_extends extended
  | uncalled offered _ =>
      obtain ⟨slots, extended⟩ := offered.extends sound
      exact .of_extends extended
  | untabled offered _ _ =>
      obtain ⟨slots, extended⟩ := offered.extends sound
      exact .of_extends extended
  | direct ready bound chains =>
      obtain ⟨hooked, ledger, offered, -, rfl⟩ := ready.declined
      obtain ⟨slots, extended⟩ := offered.extends sound
      have follows : LoweringState.Follows { hooked with ledger } after fault :=
        .of_leads (ChainCall.reads_direct bound _) chains
      exact follows.behind extended
  | keySwitch ready _ switches =>
      obtain ⟨hooked, ledger, offered, -, rfl⟩ := ready.declined
      obtain ⟨slots, extended⟩ := offered.extends sound
      have follows : LoweringState.Follows (LoweringState.report { hooked with ledger }
          context.types _ _) after fault := .of_leads (call.reads_switch _ _) switches
      exact follows.behind extended

/-- Whatever a body asks for, the code is sound if that of the hook is. -/
theorem Entry.follows (sound : hook.Sound) {entry : Entry}
    (ends : Ends (entry.lower hook) context before fault after) :
    before.Follows after fault := by
  cases entry with
  | expr operand =>
      have reads : Reads operand.lower context _ := operand.reads_lower
      exact .of_leads (reads before) ends
  | call called =>
      have reads : Reads (lowerCall called.operands) context _ := called.reads_lower
      exact .of_leads (reads before) ends
  | chain chained =>
      have chains : Ends (lowerChainCall hook chained.operands >>= fun _ => pure ()) context
        before fault after := ends
      exact follows_chain sound (ends_of_ends_map chains)

theorem Lowerings.extends (sound : hook.Sound)
    (lowerings : Lowerings hook context before after) :
    ∃ slots, before.assembler.Extends after.assembler slots := by
  induction lowerings with
  | none => exact ⟨[], .refl _⟩
  | more _ ends recovers ih =>
      obtain ⟨slots, extended⟩ := ih
      obtain ⟨further, more⟩ := (Entry.follows sound ends).code recovers
      exact ⟨slots ++ further, extended.trans more⟩

theorem Lower.OnlyLowers.follows {Result : Type} {action : Lower Result}
    (sound : hook.Sound) (lowers : action.OnlyLowers hook)
    (ends : Ends action context before fault after) : before.Follows after fault := by
  obtain ⟨middle, lowerings, ⟨rfl, recovers⟩ | ⟨entry, last⟩⟩ := lowers _ _ _ _ ends
  · obtain ⟨slots, extended⟩ := lowerings.extends sound
    exact .of_extends extended
  · obtain ⟨slots, extended⟩ := lowerings.extends sound
    exact (Entry.follows sound last).behind extended

theorem sound_noHook : noHook.Sound :=
  fun _ _ before _ _ ends => .of_leads (reads_pure false before) ends

/-- A hook that only asks writes sound code. -/
theorem ChainHook.Plain.sound (plain : hook.Plain) : hook.Sound := by
  induction plain with
  | none => exact sound_noHook
  | asks _ lowers ih => exact fun call _ _ _ _ ends => (lowers call).follows ih ends

/-! ## Bodies of a class -/

namespace ClassUnit

variable {unit : ClassUnit} {name : String} {frame : Frame} {Result : Type}
  {action : Lower Result} {after : LoweringState}

theorem lowerBody_of_refused {error : LoweringError}
    (refused : unit.admit? name frame = .error error) :
    unit.lowerBody name frame action = (.error (.rejected error), unit) := by
  rw [lowerBody, refused]

theorem lowerBody_of_runs {result : Result} (admitted : unit.admit? name frame = .ok ())
    (run : Runs action (unit.context frame) unit.initialState result after) :
    unit.lowerBody name frame action =
      (.ok result, { unit.absorb after with
        bodies := unit.bodies.push ⟨name, after.assembler.listing, after.stack.length⟩ }) := by
  rw [lowerBody, admitted]
  simp only
  rw [run]
  rfl

theorem lowerBody_of_error {fault : Fault} (admitted : unit.admit? name frame = .ok ())
    (failed : action (unit.context frame) unit.initialState = .error fault after) :
    unit.lowerBody name frame action = (.error fault, unit.absorb after) := by
  rw [lowerBody, admitted]
  simp only
  rw [failed]
  rfl

end ClassUnit

end CallCode
