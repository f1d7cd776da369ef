import CallCode.Proofs.Lowering.ScheduledCalls
import CallCode.Proofs.Machine.Emissions
import CallCode.Proofs.Machine.Symbols
import CallCode.Proofs.SafeNavigation

/-!
# Lines of calls

A call marks its line before its operands are loaded, and what calls something is placed
behind them.  The calls in the operands mark their own lines in between, and none of them
goes back.  So a call stands on the line that was marked last when it is placed: that of the
last call evaluated in it which has a line, and its own line only if it is the same.
-/

namespace CallCode

open Lower

/-! ## Lines in the code -/

/-- All bytes of the instruction at an offset are on a line. -/
def ObjectCode.OnLine (code : ObjectCode) (offset : Nat) (line : UInt32) : Prop :=
  ∀ place < code.stride offset, code.lineAt (offset + place) = some line

theorem ObjectCode.OnLine.eq {code : ObjectCode} {offset : Nat} {line other : UInt32}
    (first : code.OnLine offset line) (second : code.OnLine offset other) : other = line :=
  have lines := (first 0 (code.stride_pos offset)).symm.trans (second 0 (code.stride_pos offset))
  (Option.some.inj lines).symm

/-- The offset of the instruction that the code between two states calls something with
last. -/
def LoweringState.lastCall? (before after : LoweringState) : Option Nat :=
  let code := after.assembler.listing.assemble
  let offsets := (code.walkFrom before.assembler.listing.size #[]).toList
  (offsets.filter fun offset => (code.opcodeAt offset).any (·.dispatches)).getLast?

/-- The line of the last of some positions that have one. -/
def markedLine? (positions : List Position) : Option UInt32 :=
  ((positions.filter (!·.isSynthetic)).getLast?).map (·.line)

theorem markedLine?_append (first second : List Position) (line : UInt32) :
    (markedLine? (first ++ second)).getD line =
      (markedLine? second).getD ((markedLine? first).getD line) := by
  rw [markedLine?, List.filter_append, List.getLast?_append]
  cases found : (second.filter (!·.isSynthetic)).getLast? <;> simp [markedLine?, found]

/-- The positions that are marked where a stage happens. -/
def Stage.positions (context : Context) : Stage → List Position
  | .line position => [position]
  | .load operand => (operand.source.evaluated context).map (·.position)
  | .mark _ | .dispatch | .adapt => []

/-! ## What a schedule adds to the code -/

/-- Nothing is called by any of some instructions. -/
def SilentCode (placed : List Placed) : Prop :=
  ∀ item ∈ placed, item.instruction.opcode.dispatches = false

/-- The last of some instructions that calls something stands on a line. -/
def CallsOn (line : UInt32) (placed : List Placed) : Prop :=
  ∃ front last back, placed = front ++ last :: back ∧
    last.instruction.opcode.dispatches = true ∧ last.line = line ∧ SilentCode back

theorem SilentCode.append {first second : List Placed} (left : SilentCode first)
    (right : SilentCode second) : SilentCode (first ++ second) :=
  List.forall_mem_append.mpr ⟨left, right⟩

theorem CallsOn.before {line : UInt32} {first second : List Placed} (calls : CallsOn line first)
    (silent : SilentCode second) : CallsOn line (first ++ second) := by
  obtain ⟨front, last, back, rfl, dispatches, same, quiet⟩ := calls
  exact ⟨front, last, back ++ second, by simp, dispatches, same, quiet.append silent⟩

theorem CallsOn.behind {line : UInt32} {second : List Placed} (calls : CallsOn line second)
    (first : List Placed) : CallsOn line (first ++ second) := by
  obtain ⟨front, last, back, rfl, rest⟩ := calls
  exact ⟨first ++ front, last, back, by simp, rest⟩

/-- Some instructions were added as a schedule says: the line is the one that was marked last,
nothing was called where nothing was scheduled, and what was scheduled to be called last
stands on the line. -/
structure LoweringState.Enacts (context : Context) (before after : LoweringState)
    (stages : List Stage) (added : List Placed) : Prop where
  items : after.assembler.listing.items.toList = before.assembler.listing.items.toList ++ added
  shaped : ∀ item ∈ added, item.instruction.WellShaped
  line : after.assembler.line =
    (markedLine? (stages.flatMap (Stage.positions context))).getD before.assembler.line
  silent : stages = [] → SilentCode added
  last : stages.getLast? = some .dispatch → CallsOn after.assembler.line added

namespace LoweringState.Enacts

variable {context : Context} {before middle after : LoweringState} {stages further : List Stage}
  {added more : List Placed}

/-- An action that leaves the code alone. -/
theorem still (same : after.assembler = before.assembler) :
    before.Enacts context after [] [] where
  items := by rw [same, List.append_nil]
  shaped := by simp
  line := by rw [same]; rfl
  silent _ := by simp [SilentCode]
  last none := by cases none

theorem append (left : before.Enacts context middle stages added)
    (right : middle.Enacts context after further more) :
    before.Enacts context after (stages ++ further) (added ++ more) where
  items := by rw [right.items, left.items, List.append_assoc]
  shaped := List.forall_mem_append.mpr ⟨left.shaped, right.shaped⟩
  line := by rw [right.line, left.line, List.flatMap_append, markedLine?_append]
  silent none := by
    obtain ⟨rfl, rfl⟩ := List.append_eq_nil_iff.mp none
    exact (left.silent rfl).append (right.silent rfl)
  last ends := by
    rcases List.eq_nil_or_concat further with rfl | ⟨front, stage, rfl⟩
    · -- what follows is silent and marks no line, so that the call stays the last one
      rw [List.append_nil] at ends
      have line : after.assembler.line = middle.assembler.line := right.line
      rw [line]
      exact (left.last ends).before (right.silent rfl)
    · refine (right.last ?_).behind added
      simpa using ends

/-- Other stages may be scheduled that mark the same lines and do not end in a call. -/
theorem relabel (enacts : before.Enacts context after stages added) (front : List Stage)
    {stage : Stage} (other : stage ≠ .dispatch)
    (same : (front ++ [stage]).flatMap (Stage.positions context) =
      stages.flatMap (Stage.positions context)) :
    before.Enacts context after (front ++ [stage]) added where
  items := enacts.items
  shaped := enacts.shaped
  line := by rw [enacts.line, same]
  silent none := by simp at none
  last calls := by
    rw [List.getLast?_concat] at calls
    exact absurd (Option.some.inj calls) other

end LoweringState.Enacts

/-! ## Runs -/

theorem Emit.dispatches_content (emit : Emit) (plain : emit.isPlain = true)
    (pool : ConstantPool) : (emit.content pool).1.dispatches = emit.dispatches := by
  have constant : ∀ value, (constantContent pool value).1.dispatches = false := by
    intro value
    unfold constantContent
    dsimp only
    split <;> rfl
  cases emit with
  | plain opcode bare => cases opcode <;> first | rfl | cases bare
  | loadConstant value => exact constant value
  | loadString value => exact constant _
  | loadInt value =>
      simp only [content]
      split
      · rfl
      · split
        · rfl
        · exact constant _
  | loadBool value => cases value <;> rfl
  | getLocal slot =>
      simp only [content]
      split <;> rfl
  | invoke opcode owner member count invokes =>
      simp [content, Emit.dispatches, Opcode.dispatches, invokes]
  | byte _ _ _ | half _ _ _ | callSite _ _ _ | jump _ _ | lookupSwitch _ _ => cases plain
  | loadNull | getRef _ | getThis | getOuterThis _ | getField _ | getStaticField _ _
  | newInstance _ | arrayInit _ _ | despread _ _ | callAdapter _ _ _ | checkCast _ | box _
  | unbox _ | loadClass _ | raiseFatal _ => rfl

/-- One instruction was added on the current line, which calls something or not. -/
structure Assembler.AddsOne (before after : Assembler) (item : Placed) (calls : Bool) : Prop where
  items : after.listing.items.toList = before.listing.items.toList ++ [item]
  shaped : item.instruction.WellShaped
  line : after.line = before.line
  same : item.line = before.line
  dispatches : item.instruction.opcode.dispatches = calls

theorem Emit.exists_adds {emit : Emit} (plain : emit.isPlain = true) (assembler : Assembler) :
    ∃ item, assembler.AddsOne (emit.run assembler).2 item emit.dispatches := by
  obtain ⟨operands, listing, -, shaped, line⟩ := Emit.emits_run assembler emit
  refine ⟨⟨⟨(emit.content assembler.pool).1, operands⟩, assembler.line⟩, ?_, shaped, line, rfl,
    emit.dispatches_content plain assembler.pool⟩
  rw [listing, Listing.items_push, Array.toList_push]

section Positions

variable {context : Context}

theorem Stage.positions_of_isCall {further : List Stage}
    (calls : ∀ stage ∈ further, stage.isCall = true) :
    further.flatMap (Stage.positions context) = [] := by
  refine List.flatMap_eq_nil_iff.mpr fun stage member => ?_
  cases stage with
  | dispatch | adapt => rfl
  | line _ | mark _ | load _ => cases calls _ member

theorem Stage.positions_mark (marks : List Mark) :
    (marks.map Stage.mark).flatMap (Stage.positions context) = [] := by
  rw [List.flatMap_map]
  exact List.flatMap_eq_nil_iff.mpr fun _ _ => rfl

end Positions

namespace LoweringState.Enacts

variable {context : Context} {before after : LoweringState} {item : Placed}

theorem of_silent (adds : before.assembler.AddsOne after.assembler item false) :
    before.Enacts context after [] [item] where
  items := adds.items
  shaped := by simpa using adds.shaped
  line := adds.line
  silent _ := by simpa [SilentCode] using adds.dispatches
  last none := by cases none

theorem of_call (adds : before.assembler.AddsOne after.assembler item true) :
    before.Enacts context after [.dispatch] [item] where
  items := adds.items
  shaped := by simpa using adds.shaped
  line := adds.line
  silent none := by cases none
  last _ :=
    ⟨[], item, [], rfl, adds.dispatches, adds.same.trans adds.line.symm, by simp [SilentCode]⟩

/-- Marks are left beside the code. -/
theorem of_marks {added : List Placed} (marks : List Mark)
    (enacts : before.Enacts context after [] added) :
    before.Enacts context after (marks.map .mark) added := by
  rcases List.eq_nil_or_concat marks with rfl | ⟨front, mark, rfl⟩
  · exact enacts
  · rw [List.concat_eq_append, List.map_append]
    refine enacts.relabel (front.map .mark) (by simp) ?_
    rw [← List.map_singleton, ← List.map_append, Stage.positions_mark]
    rfl

theorem of_markLine {position : Position} (run : Runs (markLine position) context before () after) :
    before.Enacts context after [.line position] [] where
  items := by
    rw [(runs_markLine position).mp run]
    split <;> simp [Assembler.setLine]
  shaped := by simp
  line := by
    rw [(runs_markLine position).mp run]
    split <;> simp_all [markedLine?, Stage.positions, Assembler.setLine]
  silent none := by cases none
  last calls := by cases calls

end LoweringState.Enacts

/-- Whenever an operand is loaded, the code that is added marks the lines of its calls. -/
def Operand.Enacts (context : Context) (operand : Operand) : Prop :=
  ∀ before after, Runs operand.load context before () after →
    ∃ added, before.Enacts context after [.load operand] added

section Scheduled

variable {context : Context} {Result : Type} {action : Lower Result} {stages : List Stage}

/-- What is scheduled is what is added, if all that is loaded does what it should. -/
theorem Lower.Scheduled.enacts (scheduled : Scheduled context False action stages)
    (loads : ∀ operand, .load operand ∈ stages → operand.Enacts context)
    {before after : LoweringState} {result : Result}
    (run : Runs action context before result after) :
    ∃ added, before.Enacts context after stages added := by
  induction scheduled generalizing before after with
  | pure value =>
      obtain ⟨-, rfl⟩ := (runs_pure value).mp run
      exact ⟨[], .still rfl⟩
  | bind _ _ left right =>
      obtain ⟨value, middle, starts, ends⟩ := (runs_bind _ _).mp run
      obtain ⟨added, first⟩ := left (fun operand member => loads operand
        (List.mem_append_left _ member)) starts
      obtain ⟨more, second⟩ := right value (fun operand member => loads operand
        (List.mem_append_right _ member)) ends
      exact ⟨added ++ more, first.append second⟩
  | fail error => exact ((runs_fail error).mp run).elim
  | read _ ih => exact ih loads run
  | peek _ _ ih => exact ih before loads run
  | load operand => exact loads operand (List.mem_singleton.mpr rfl) before after run
  | @free _ _ operand free _ ih =>
      obtain ⟨added, enacts⟩ := ih (fun _ member => by cases member) run
      exact ⟨added, enacts.relabel [] (by simp) (by simp [Stage.positions, free])⟩
  | write emit plain silent =>
      have writes : after.assembler = (emit.run before.assembler).2 := by
        rw [(runs_write _).mp run]
      obtain ⟨item, adds⟩ := Emit.exists_adds plain before.assembler
      rw [silent, ← writes] at adds
      exact ⟨[item], .of_marks emit.marks (.of_silent adds)⟩
  | dispatch emit plain calls =>
      have writes : after.assembler = (emit.run before.assembler).2 := by
        rw [(runs_write _).mp run]
      obtain ⟨item, adds⟩ := Emit.exists_adds plain before.assembler
      rw [calls, ← writes] at adds
      exact ⟨[item], .of_call adds⟩
  | @send _ site count next stages _ ih =>
      obtain ⟨slot, allocated, allocates, run⟩ := (runs_bind _ _).mp run
      obtain ⟨⟨⟩, written, writes, run⟩ := (runs_bind _ _).mp run
      have adds : before.assembler.AddsOne written.assembler
          ⟨⟨.callSite, .site slot count site.flags.bits⟩, before.assembler.line⟩ true := by
        obtain ⟨ledger, -, rfl⟩ := (runs_consult _).mp allocates
        rw [(runs_write _).mp writes]
        exact ⟨Array.toList_push, ⟨rfl, trivial⟩, rfl, rfl, rfl⟩
      obtain ⟨added, enacts⟩ := ih (fun operand member => loads operand
        (List.mem_cons_of_mem _ member)) run
      exact ⟨_, (LoweringState.Enacts.of_call adds).append enacts⟩
  | @adapt _ _ stages further _ calls ih =>
      obtain ⟨added, enacts⟩ := ih (fun operand member => by
        rcases List.mem_append.mp member with early | late
        · exact loads operand (List.mem_append_left _ early)
        · cases calls _ late) run
      refine ⟨added, enacts.relabel stages (by simp) ?_⟩
      simp [Stage.positions_of_isCall calls, Stage.positions]
  | @absorb _ _ operand stages _ calls ih =>
      obtain ⟨added, enacts⟩ := ih (fun other member => by
        rcases List.mem_cons.mp member with same | late
        · exact loads other (same ▸ List.mem_cons_self)
        · cases calls _ late) run
      refine ⟨added, enacts.relabel [] (by simp) ?_⟩
      simp [Stage.positions_of_isCall calls]
  | markLine position =>
      exact ⟨[], .of_markLine run⟩
  -- filling in a distance changes an instruction in front, while here code is only appended
  | jump jumps => exact jumps.elim
  | lookupSwitch keys jumps => exact jumps.elim
  | resolve label jumps => exact jumps.elim
  | track action =>
      obtain ⟨stack, -, rfl⟩ := (runs_track action).mp run
      exact ⟨[], .still rfl⟩
  | restore stack =>
      obtain rfl := (runs_modify _).mp run
      exact ⟨[], .still rfl⟩
  | recordSuper name =>
      obtain rfl := (runs_modify _).mp run
      exact ⟨[], .of_marks [.super name] (.still rfl)⟩
  | table target position =>
      obtain ⟨ledger, -, rfl⟩ := (runs_consult _).mp run
      exact ⟨[], .still rfl⟩
  | report table position =>
      obtain rfl := (runs_modify _).mp run
      exact ⟨[], .still rfl⟩

end Scheduled

variable {context : Context}

theorem Stage.positions_load (operands : List Operand) :
    (operands.map Stage.load).flatMap (Stage.positions context) =
      (loadedCalls context operands).map (·.position) := by
  rw [List.flatMap_map, loadedCalls, List.map_flatMap]
  rfl

/-- What is scheduled as a call marks the lines of the calls that are evaluated in it, its own
first. -/
theorem Stage.positions_callStages (call : Call Expr) :
    (callStages call.position (call.ownMarks context) (call.loaded context)).flatMap
        (Stage.positions context) = (call.evaluated context).map (·.position) := by
  rw [callStages, List.flatMap_cons, List.flatMap_append, List.flatMap_append,
    Stage.positions_mark, Stage.positions_load, Call.evaluated_eq, List.map_cons]
  simp [Stage.positions]

/-- All expressions mark the lines of their calls where they are loaded. -/
theorem enactsProperty : LoadedProperty context False (Operand.Enacts context) where
  plain operand free scheduled := by
    intro before after run
    obtain ⟨added, enacts⟩ := scheduled.enacts (fun _ member => by cases member) run
    exact ⟨added, enacts.relabel [] (by simp) (by simp [Stage.positions, free])⟩
  around outer inner same scheduled loads := by
    intro before after run
    obtain ⟨added, enacts⟩ := scheduled.enacts (fun operand member => by
      rw [Stage.load.inj (List.mem_singleton.mp member)]
      exact loads) run
    refine ⟨added, enacts.relabel [] (by simp) ?_⟩
    simp [Stage.positions, Expr.operand, same]
  call call loads := by
    intro before after run
    obtain ⟨added, enacts⟩ := call.scheduled_lower.enacts (fun operand member =>
      loads operand (load_mem_callStages.mp member)) run
    refine ⟨added, enacts.relabel [] (by simp) ?_⟩
    rw [Stage.positions_callStages]
    simp [Stage.positions, Expr.operand, Expr.evaluated]

/-! ## Reading the lines -/

theorem ObjectCode.opcodeAt_of_instructionAt {code : ObjectCode} {offset : Nat}
    {instruction : Instruction} (found : code.instructionAt offset = some instruction) :
    code.opcodeAt offset = some instruction.opcode := by
  have length := instructionLength_of_instructionAt found
  simp only [instructionAt, Option.bind_eq_bind, Option.bind_eq_some_iff, Option.pure_def,
    Option.some.injEq] at found
  obtain ⟨opcode, read, operands, -, rfl⟩ := found
  simp [opcodeAt, length, read]

theorem ObjectCode.filter_startsFrom_of_silent {code : ObjectCode} {offset : Nat}
    {placed : List Placed} (located : code.Located offset placed) (silent : SilentCode placed) :
    ((startsFrom offset placed).filter fun start =>
      (code.opcodeAt start).any (·.dispatches)) = [] := by
  refine List.filter_eq_nil_iff.mpr fun start member => ?_
  obtain ⟨item, among, found⟩ := exists_of_mem_startsFrom located member
  simp [opcodeAt_of_instructionAt found, silent item among]

theorem Listing.onLine_assemble {listing : Listing} {front back : List Placed} {item : Placed}
    (items : listing.items.toList = front ++ item :: back) (shaped : item.instruction.WellShaped) :
    listing.assemble.OnLine (codeSize front) item.line := by
  intro place inside
  have split : listing.items.toList = front ++ [item] ++ back := by simp [items]
  have located := located_assemble split (by simpa using shaped)
  rw [ObjectCode.stride_of_instructionAt located.1] at inside
  have beside : (front.flatMap fun item =>
      List.replicate item.instruction.size item.line).length = codeSize front := by
    simp [codeSize, List.length_flatMap]
  have within : place < (List.replicate item.instruction.size item.line).length := by
    simpa using inside
  rw [ObjectCode.lineAt, ← Array.getElem?_toList, toList_lines_assemble, items,
    List.flatMap_append, List.flatMap_cons, ← beside, List.getElem?_append_right
    (Nat.le_add_right _ _), Nat.add_sub_cancel_left, List.getElem?_append_left within,
    List.getElem?_replicate, if_pos inside]

/-- What was scheduled to be called last is found on the current line. -/
theorem LoweringState.Enacts.exists_lastCall {before after : LoweringState} {stages : List Stage}
    {added : List Placed} (enacts : before.Enacts context after stages added)
    (ends : stages.getLast? = some .dispatch) :
    ∃ offset, before.lastCall? after = some offset ∧
      after.assembler.listing.assemble.OnLine offset after.assembler.line := by
  obtain ⟨front, last, back, rfl, dispatches, line, silent⟩ := enacts.last ends
  have items : after.assembler.listing.items.toList =
      before.assembler.listing.items.toList ++ front ++ last :: back := by
    rw [enacts.items, List.append_assoc]
  refine ⟨codeSize (before.assembler.listing.items.toList ++ front), ?_, ?_⟩
  · have split : after.assembler.listing.items.toList =
        before.assembler.listing.items.toList ++ (front ++ last :: back) ++ [] := by simp [items]
    have located := Listing.located_assemble split enacts.shaped
    have whole : before.assembler.listing.size + codeSize (front ++ last :: back) =
        after.assembler.listing.assemble.size := by
      rw [Listing.size_assemble, Listing.size_eq_codeSize, Listing.size_eq_codeSize, split]
      simp [codeSize_append]
    rw [← Listing.size_eq_codeSize] at located
    have parts := located
    rw [ObjectCode.located_append] at parts
    obtain ⟨-, here, later⟩ := parts
    rw [LoweringState.lastCall?, ObjectCode.toList_walkFrom located whole, List.nil_append,
      startsFrom_append,
      startsFrom, List.filter_append, List.filter_cons,
      ObjectCode.filter_startsFrom_of_silent later silent,
      ObjectCode.opcodeAt_of_instructionAt here, codeSize_append, ← Listing.size_eq_codeSize]
    simp [dispatches]
  · rw [← line]
    exact Listing.onLine_assemble items (enacts.shaped last (by simp))

/-! ## Calls -/

theorem Call.enacts_loaded (call : Call Expr) :
    ∀ operand ∈ call.loaded context, operand.Enacts context :=
  enactsProperty.loaded call

theorem enacts_operandsOf (exprs : List Expr) :
    ∀ operand ∈ operandsOf exprs, operand.Enacts context :=
  enactsProperty.operands exprs

/-- The code between two states calls something last by an instruction on a line. -/
def LoweringState.CallsOnLine (before after : LoweringState) (line : UInt32) : Prop :=
  ∃ offset, before.lastCall? after = some offset ∧
    after.assembler.listing.assemble.OnLine offset line

/-- That instruction is on the line of the last of some calls that has one, or on the line from
before if none has. -/
def LoweringState.CallsOnLineOf (before after : LoweringState) (calls : List (Call Expr)) :
    Prop :=
  ∀ line, before.CallsOnLine after line ↔
    line = (markedLine? (calls.map (·.position))).getD before.assembler.line

/-- A call that has a line is on it exactly if no call behind it leaves another one. -/
theorem LoweringState.CallsOnLineOf.own_iff {before after : LoweringState} {call : Call Expr}
    {calls : List (Call Expr)} (stands : before.CallsOnLineOf after (call :: calls))
    (written : call.position.isSynthetic = false) :
    before.CallsOnLine after call.position.line ↔
      ∀ line ∈ markedLine? (calls.map (·.position)), line = call.position.line := by
  have own : markedLine? [call.position] = some call.position.line := by
    simp [markedLine?, written]
  rw [stands, List.map_cons, ← List.singleton_append, markedLine?_append, own, Option.getD_some]
  cases found : markedLine? (calls.map (·.position)) with
  | none => simp
  | some line => simp [eq_comm]

theorem LoweringState.Enacts.callsOnLineOf {before after : LoweringState} {stages : List Stage}
    {added : List Placed} {calls : List (Call Expr)}
    (enacts : before.Enacts context after stages added)
    (ends : stages.getLast? = some .dispatch)
    (positions : stages.flatMap (Stage.positions context) = calls.map (·.position)) :
    before.CallsOnLineOf after calls := by
  obtain ⟨offset, found, stands⟩ := enacts.exists_lastCall ends
  rw [enacts.line, positions] at stands
  intro line
  constructor
  · rintro ⟨_, same, other⟩
    obtain rfl := Option.some.inj (found.symm.trans same)
    exact stands.eq other
  · rintro rfl
    exact ⟨offset, found, stands⟩

section Calls

variable {before after : LoweringState}

theorem callsOnLineOf_call {call : Call Expr}
    (run : Runs (lowerCall call.operands) context before () after) :
    before.CallsOnLineOf after (call.evaluated context) := by
  obtain ⟨added, enacts⟩ := call.scheduled_lower.enacts (fun operand member =>
    call.enacts_loaded operand (load_mem_callStages.mp member)) run
  refine enacts.callsOnLineOf ?_ (Stage.positions_callStages call)
  rw [callStages, ← List.append_assoc, ← List.cons_append, List.getLast?_concat]

/-- What is added for a chained call that is bound at once, behind what its hook did. -/
theorem enacts_of_direct {hook : ChainHook} {call : ChainCall Expr}
    (run : Runs (lowerChainCall hook call.operands) context before .direct after) :
    ∃ hooked added, Hooked context hook call.operands before false hooked ∧
      hooked.Enacts context after ((operandsOf call.arguments).map .load ++ [.dispatch]) added := by
  obtain ⟨answer, hooked, offered, steps⟩ := lowerChainCall_steps run
  cases answer with
  | true => cases steps.1
  | false =>
      cases steps with
      | direct called tabled bound chains =>
          have enough := (arity_of_boundCandidate bound).symm
          rw [ChainCall.arguments_operands] at enough chains
          obtain ⟨added, enacts⟩ := (scheduled_chainDirectly (Nat.le_of_eq enough)).enacts
            (fun operand member => enacts_operandsOf call.arguments operand (by simpa using member))
            chains
          exact ⟨hooked, added, offered, enacts.items, enacts.shaped, enacts.line, enacts.silent,
            enacts.last⟩

theorem callsOnLineOf_chain {hook : ChainHook} {call : ChainCall Expr}
    (run : Runs (lowerChainCall hook call.operands) context before .direct after) :
    ∃ hooked, Hooked context hook call.operands before false hooked ∧
      hooked.CallsOnLineOf after (evaluatedIn context call.arguments) := by
  obtain ⟨hooked, added, offered, enacts⟩ := enacts_of_direct run
  refine ⟨hooked, offered, enacts.callsOnLineOf (by simp) ?_⟩
  rw [List.flatMap_append, Stage.positions_load, loadedCalls_operandsOf]
  simp [Stage.positions]

theorem callsOnLineOf_noHook {call : ChainCall Expr}
    (run : Runs (lowerChainCall noHook call.operands) context before .direct after) :
    before.CallsOnLineOf after ((Call.chain call).evaluated context) := by
  obtain ⟨hooked, added, ⟨marked, marks, hooks⟩, enacts⟩ := enacts_of_direct run
  obtain ⟨-, rfl⟩ := (runs_pure _).mp hooks
  have both := (LoweringState.Enacts.of_markLine marks).append enacts
  refine both.callsOnLineOf (by rw [← List.append_assoc, List.getLast?_concat]) ?_
  obtain ⟨target, arguments, position⟩ := call
  rw [List.flatMap_append, List.flatMap_append, Stage.positions_load, loadedCalls_operandsOf,
    Call.evaluated]
  simp [Stage.positions, ChainCall.operands, Call.position]

end Calls

/-- Calls stand on the line that was marked last.  In every frame and from every state, the
instruction that performs a method, static or `new` call, or a chained call that is bound at
once, is on the line of the last of the calls that are evaluated in it, itself the first of
them, which has a line.  So a call that has one is on it exactly if the calls in its operands
do not end on another.  A hook that declines a chained call may have marked a line of its own
before the operands are loaded. -/
theorem lines_of_calls (context : Context) (before after : LoweringState) :
    (∀ call : Call Expr, Runs (lowerCall call.operands) context before () after →
      before.CallsOnLineOf after (call.evaluated context)) ∧
    (∀ call : ChainCall Expr, Runs (lowerChainCall noHook call.operands) context before .direct
        after → before.CallsOnLineOf after ((Call.chain call).evaluated context)) ∧
    (∀ (hook : ChainHook) (call : ChainCall Expr),
      Runs (lowerChainCall hook call.operands) context before .direct after →
        ∃ hooked, Hooked context hook call.operands before false hooked ∧
          hooked.CallsOnLineOf after (evaluatedIn context call.arguments)) ∧
    ∀ call : Call Expr, Runs (lowerCall call.operands) context before () after →
      call.position.isSynthetic = false →
        (before.CallsOnLine after call.position.line ↔
          ∀ line ∈ markedLine? ((call.evaluated context).tail.map (·.position)),
            line = call.position.line) := by
  refine ⟨fun _ => callsOnLineOf_call, fun _ => callsOnLineOf_noHook, fun _ _ =>
    callsOnLineOf_chain, fun call run written => ?_⟩
  have stands := callsOnLineOf_call run
  rw [Call.evaluated_eq] at stands ⊢
  exact stands.own_iff written

/-- A class with a constructor of one parameter. -/
def gaugeTypes : TypeTable :=
  ⟨[{ name := "Gauge", id := ⟨1⟩, kind := .classType,
      constructors := [⟨⟨2⟩, ⟨1⟩, [⟨"model", .simple ⟨1⟩⟩], .openAccess⟩] }]⟩

/-- `Gauge.read()` on the second line. -/
def readingCall : Expr := .call (.static ⟨⟨1⟩, "read", [], none, ⟨2, 5⟩⟩)

/-- `Gauge.show(Gauge.read())` and `this(Gauge.read())`, begun on the first line and ended on
the second, both stand on the second. -/
theorem lines_of_broken_calls : ∃ before after later : LoweringState,
    let showing : Call Expr := .static ⟨⟨1⟩, "show", [readingCall], none, ⟨1, 1⟩⟩
    let chaining : ChainCall Expr := ⟨.sameClass, [readingCall], ⟨1, 1⟩⟩
    Runs (lowerCall showing.operands) { types := gaugeTypes, frame := .method ⟨1⟩ } before ()
        after ∧ before.CallsOnLine after 2 ∧ ¬before.CallsOnLine after 1 ∧
      Runs (lowerChainCall noHook chaining.operands)
          { types := gaugeTypes, frame := .constructor ⟨1⟩ } before .direct later ∧
        before.CallsOnLine later 2 := by
  let showing : Call Expr := .static ⟨⟨1⟩, "show", [readingCall], none, ⟨1, 1⟩⟩
  let chaining : ChainCall Expr := ⟨.sameClass, [readingCall], ⟨1, 1⟩⟩
  obtain ⟨after, shows⟩ := exists_runs_of_answer? (show answer? (lowerCall showing.operands)
    { types := gaugeTypes, frame := .method ⟨1⟩ } { ledger := { classId := ⟨1⟩ } } = some ()
    by decide +kernel)
  obtain ⟨later, chains⟩ := exists_runs_of_answer? (show answer?
    (lowerChainCall noHook chaining.operands) { types := gaugeTypes, frame := .constructor ⟨1⟩ }
    { ledger := { classId := ⟨1⟩ } } = some .direct by decide +kernel)
  obtain ⟨stands, -, -, own⟩ := lines_of_calls _ _ after
  obtain ⟨-, bound, -⟩ := lines_of_calls _ _ later
  refine ⟨_, after, later, shows, (stands showing shows 2).mpr rfl, fun alone => ?_, chains,
    (bound chaining chains 2).mpr rfl⟩
  have same := (own showing shows rfl).mp alone 2 rfl
  cases same

end CallCode
