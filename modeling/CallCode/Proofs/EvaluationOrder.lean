import CallCode.Proofs.Lowering.ChainOutcome

/-!
# Evaluation order

The code of a call, read from its first byte on, reads exactly the locals that a walk
over the call meets from the left to the right, each of them once.
-/

namespace CallCode

open Lower

variable {context : Context} {before after : LoweringState}

/-- The locals that the code between two states reads, in the order of the code. -/
def LoweringState.localsRead (before after : LoweringState) : List UInt16 :=
  (after.assembler.listing.assemble.instructionsFrom
    before.assembler.listing.size).filterMap Instruction.slot?

/-! ## Reading added code -/

theorem codeSize_eq_of_outline {front items : List Placed}
    (same : front.map (·.instruction.pending) = items.map (·.instruction.pending)) :
    codeSize front = codeSize items := by
  have sizes := congrArg (fun pending => (pending.map Instruction.size).sum) same
  simpa [codeSize, Function.comp_def] using sizes

/-- Code that was added in a later listing stands where the code of the earlier one
ended. -/
theorem Listing.instructionsFrom_of_outline {listing later : Listing}
    {placed : List Instruction} (outline : later.outline = listing.outline ++ placed)
    (shaped : ∀ instruction ∈ placed, instruction.WellShaped) :
    (later.assemble.instructionsFrom listing.size).map Instruction.pending = placed := by
  obtain ⟨front, back, items, ahead, behind⟩ := List.map_eq_append_iff.mp outline
  have start : codeSize front = listing.size := by
    rw [Listing.size_eq_codeSize]
    exact codeSize_eq_of_outline ahead
  have backShaped : ∀ item ∈ back, item.instruction.WellShaped := by
    intro item member
    rw [← Instruction.wellShaped_pending]
    apply shaped
    rw [← behind]
    exact List.mem_map_of_mem member
  rw [← start, instructionsFrom_codeSize items backShaped, List.map_map, ← behind]
  rfl

theorem Assembler.Extends.localsRead {slots : List UInt16}
    (extended : before.assembler.Extends after.assembler slots) :
    before.localsRead after = slots := by
  obtain ⟨-, placed, outline, sound, reads⟩ := extended
  have same := Listing.instructionsFrom_of_outline outline fun instruction member =>
    (sound instruction member).shaped
  rw [LoweringState.localsRead, ← reads, ← same, List.filterMap_map]
  apply List.filterMap_congr
  simp

/-! ## Calls -/

/-- Behind the code of the hook, a chained call reads the locals of its arguments. -/
theorem localsRead_of_chain {hook : ChainHook} {call : ChainCall Expr} {way : Construction}
    (run : Runs (lowerChainCall hook call.operands) context before way after) :
    ∃ answer hooked, Hooked context hook call.operands before answer hooked ∧
      if answer then after = hooked
      else hooked.localsRead after = (Call.chain call).slots context := by
  have ends : Ends (lowerChainCall hook call.operands) context before none after := ⟨way, run⟩
  cases lowerChainCall_ends ends with
  | taken offered => exact ⟨true, after, offered, rfl⟩
  | direct ready bound chains =>
      obtain ⟨hooked, ledger, offered, -, rfl⟩ := ready.declined
      obtain ⟨_, chains⟩ := chains
      have advances := (ChainCall.reads_direct bound).advances chains
      exact ⟨false, hooked, offered, advances.code.localsRead⟩
  | keySwitch ready _ switches =>
      obtain ⟨hooked, ledger, offered, -, rfl⟩ := ready.declined
      obtain ⟨_, switches⟩ := switches
      have advances := (call.reads_switch _).advances switches
      exact ⟨false, hooked, offered, advances.code.localsRead⟩

/-- Without a hook there is nothing in front of a chained call. -/
theorem Hooked.of_noHook {call : ChainCall Operand} {answer : Bool}
    {hooked : LoweringState} (offered : Hooked context noHook call before answer hooked) :
    answer = false ∧ hooked.assembler.listing = before.assembler.listing := by
  obtain ⟨marked, marks, hooks⟩ := offered
  obtain ⟨rfl, rfl⟩ := (runs_pure _).mp hooks
  rw [runs_markLine] at marks
  refine ⟨rfl, ?_⟩
  split at marks
  · rw [marks]
  · rw [marks, Assembler.setLine]

theorem isSome_boundTarget? {call : MethodCall Expr} {tier : Tier}
    (run : Runs (lowerMethodCall call.operands) context before tier after) :
    tier = .direct ↔ (call.operands.boundTarget? context).isSome := by
  obtain ⟨code, type, made, -⟩ := (inductive_trivial context).method_run run
  cases made with
  | closure found => simp [MethodCall.boundTarget?, found]
  | request absent made =>
      simp only [MethodCall.boundTarget?, absent, Request.boundTarget?]
      cases made with
      | direct bound => simp [bound]
      | cached unbound => simp [unbound]
      | uncached unbound => simp [unbound]

/-- Locals are read in the order of their evaluation.  In every frame and from every
state, the code of a call reads the locals of a walk over the call, from the left to the
right and each of them once.  The walk leaves out the receiver of a call that is bound to
a static target, and the selector of a call that is bound at all, which are the calls of
the direct tier.  A hook that takes a chained call over has the last word on its code. -/
theorem locals_read_in_order (context : Context) (before after : LoweringState) :
    (∀ call : Call Expr, Runs (lowerCall call.operands) context before () after →
      before.localsRead after = call.slots context) ∧
    (∀ (call : MethodCall Expr) (tier : Tier),
      Runs (lowerMethodCall call.operands) context before tier after →
        (tier = .direct ↔ (call.operands.boundTarget? context).isSome)) ∧
    (∀ (call : ChainCall Expr) (way : Construction),
      Runs (lowerChainCall noHook call.operands) context before way after →
        before.localsRead after = (Call.chain call).slots context) ∧
    (∀ (hook : ChainHook) (call : ChainCall Expr) (way : Construction),
      Runs (lowerChainCall hook call.operands) context before way after →
        ∃ answer hooked, Hooked context hook call.operands before answer hooked ∧
          if answer then after = hooked
          else hooked.localsRead after = (Call.chain call).slots context) := by
  refine ⟨fun call run => ?_, fun _ _ => isSome_boundTarget?, fun call way run => ?_,
    fun _ _ _ => localsRead_of_chain⟩
  · exact ((Call.reads_lower call).advances run).code.localsRead
  · obtain ⟨answer, hooked, offered, reads⟩ := localsRead_of_chain run
    obtain ⟨rfl, listing⟩ := offered.of_noHook
    rw [LoweringState.localsRead, ← listing]
    exact reads

/-- `(b as Object)."$c"(new C(*a), d)` with the locals at the slots 3, 300, 1 and 2. -/
def nestedCall : Call Expr :=
  .method ⟨.cast .object (.read ⟨"b", 3, .string, false⟩),
    .computed (.read ⟨"c", 300, .string, false⟩),
    [.call (.create ⟨⟨7⟩, [.spread (.read ⟨"a", 1, .objectArray, false⟩)], none, false,
      .synthetic⟩), .read ⟨"d", 2, .object, false⟩],
    false, false, false, none, none, .synthetic⟩

/-- A dispatched call with a `new` call inside reads its locals in order. -/
theorem locals_of_nested_call : ∃ before after : LoweringState,
    Runs (lowerCall nestedCall.operands) { types := .empty, frame := .method ⟨1⟩ } before ()
      after ∧ before.localsRead after = [3, 300, 1, 2] := by
  obtain ⟨⟨⟩, after, run, -⟩ := exists_runs (show sizeAfter (lowerCall nestedCall.operands)
    { types := .empty, frame := .method ⟨1⟩ } { ledger := { classId := ⟨1⟩ } } = some 30
    by decide +kernel)
  exact ⟨_, after, run, (locals_read_in_order _ _ after).1 nestedCall run⟩

end CallCode
