import CallCode.Proofs.Machine.Distances
import CallCode.Proofs.Machine.Emissions
import Mathlib.Data.List.Nodup

/-!
# Branch targets

Labels are patched in any order, between whatever else is emitted, and as often as one
likes.  In the finished code every branch leads to where the code ended when its label was
patched last, and the branches of a switch are read back with their keys.
-/

namespace CallCode

/-- Instructions were placed behind those that were there. -/
def Assembler.Adds (before after : Assembler) : Prop :=
  ∃ placed, after.listing.items.toList = before.listing.items.toList ++ placed

theorem Assembler.adds_setLine (line : UInt32) (assembler : Assembler) :
    assembler.Adds (assembler.setLine line) :=
  ⟨[], by simp [setLine]⟩

theorem Emit.adds_run (emit : Emit) (assembler : Assembler) :
    assembler.Adds (emit.run assembler).2 := by
  obtain ⟨operands, placed, -⟩ := emit.emits_run assembler
  exact ⟨[_], by rw [placed, Listing.items_push, Array.toList_push]⟩

/-! ## Drafts -/

/-- A step of writing code. -/
inductive DraftStep
  /-- Anything that adds instructions. -/
  | emit (step : Assembler → Assembler)
      (adds : ∀ assembler : Assembler, assembler.Adds (step assembler))
  | jump (opcode : Opcode)
  | lookupSwitch (keys : List Int32)
  | patch (position : Nat)

/-- The label that a step patches, by its number. -/
def DraftStep.patched? : DraftStep → Option Nat
  | patch position => some position
  | _ => none

/-- Code that is being written, with the labels that were given out.  They are numbered in
this order, those of a switch starting with its default branch. -/
structure Draft where
  assembler : Assembler
  labels : List Label := []

namespace Draft

/-- The code so far; its size is the offset of whatever comes next. -/
def code (draft : Draft) : ObjectCode := draft.assembler.listing.assemble

/-- Take a step, unless its label was not given out or its branch is too long. -/
def step (draft : Draft) : DraftStep → Option Draft
  | .emit step _ => some { draft with assembler := step draft.assembler }
  | .jump opcode =>
      let (label, assembler) := draft.assembler.jump opcode
      some { assembler, labels := draft.labels ++ [label] }
  | .lookupSwitch keys =>
      let (labels, assembler) := draft.assembler.lookupSwitch keys
      some { assembler, labels := draft.labels ++ labels.fallback :: labels.cases }
  | .patch position => do
      let label ← draft.labels[position]?
      let assembler ← (draft.assembler.resolve label).toOption
      return { draft with assembler }

def run (draft : Draft) : List DraftStep → Option Draft
  | [] => some draft
  | step :: rest => do (← draft.step step).run rest

/-- Where the code ended when a label was patched last. -/
def landing (draft : Draft) (position : Nat) : List DraftStep → Option Nat
  | [] => none
  | step :: rest => do
      let after ← draft.step step
      (after.landing position rest).or <|
        if step.patched? = some position then some draft.code.size else none

/-- What stands in the code so far beside the distances of branches. -/
def unresolved (draft : Draft) : List Placed := draft.assembler.listing.unresolved

end Draft

/-- The branch of an instruction that a label stands for. -/
def Label.place (label : Label) : Nat × Branch := (label.item, label.branch)

namespace Draft

variable {before after draft : Draft} {action : DraftStep} {steps : List DraftStep}
  {position : Nat} {label : Label}

/-- Every label leads to a distance, and no two to the same one. -/
structure Sound (draft : Draft) : Prop where
  leads : ∀ label ∈ draft.labels, label.LeadsInto draft.unresolved
  distinct : (draft.labels.map Label.place).Nodup

/-- Instructions were added, and labels for some of them were given out. -/
def Extends (before after : Draft) : Prop :=
  ∃ placed labels,
    after.assembler.listing.items.toList =
        before.assembler.listing.items.toList ++ placed ∧
      after.labels = before.labels ++ labels ∧
        (∀ label ∈ labels, label.LeadsInto after.unresolved ∧
          before.unresolved.length ≤ label.item) ∧
          (labels.map Label.place).Nodup

/-- The distance of a label was filled in. -/
def Fills (before after : Draft) (position : Nat) : Prop :=
  ∃ label distance, before.labels[position]? = some label ∧
    before.assembler.listing.distance label = .ok distance ∧
      after = { before with assembler := before.assembler.setDistance label distance }

theorem length_unresolved (draft : Draft) :
    draft.unresolved.length = draft.assembler.listing.items.size := by
  simp [unresolved, Listing.unresolved]

theorem size_code (draft : Draft) : draft.code.size = draft.assembler.listing.size :=
  Listing.size_assemble _

/-! ## Labels that are given out -/

section Labels

variable (assembler : Assembler)

theorem leadsInto_push {listing : Listing} {instruction : Instruction} (line : UInt32)
    {branch : Branch} {offset : Nat}
    (there : (instruction.operands.distanceAt? branch).isSome = true)
    (behind : offset = listing.size + 1 + branch.skip) :
    Label.LeadsInto ⟨listing.items.size, branch, offset⟩
      (listing.push line instruction).unresolved := by
  refine ⟨listing.unresolved, Placed.unresolved ⟨instruction, line⟩, [], ?_, ?_, ?_, ?_⟩
  · simp [Listing.unresolved]
  · simp [Listing.unresolved]
  · simpa [Placed.unresolved] using there
  · rw [Listing.codeSize_unresolved, behind]

theorem extends_jump (draft : Draft) (opcode : Opcode) :
    draft.Extends ⟨(draft.assembler.jump opcode).2,
      draft.labels ++ [(draft.assembler.jump opcode).1]⟩ := by
  refine ⟨[_], [_], Array.toList_push .., rfl, ?_, List.nodup_singleton _⟩
  intro label given
  obtain rfl := List.mem_singleton.mp given
  exact ⟨leadsInto_push _ rfl rfl, Nat.le_of_eq draft.length_unresolved⟩

theorem extends_lookupSwitch (draft : Draft) (keys : List Int32) :
    let labels := (draft.assembler.lookupSwitch keys).1
    draft.Extends ⟨(draft.assembler.lookupSwitch keys).2,
      draft.labels ++ labels.fallback :: labels.cases⟩ := by
  refine ⟨[_], _, Array.toList_push .., rfl, ?_, ?_⟩
  · intro label given
    rcases List.mem_cons.mp given with rfl | later
    · exact ⟨leadsInto_push _ rfl rfl, Nat.le_of_eq draft.length_unresolved⟩
    · obtain ⟨position, inside, rfl⟩ := List.mem_map.mp later
      refine ⟨leadsInto_push _ ?_ ?_, Nat.le_of_eq draft.length_unresolved⟩
      · simpa [Operands.distanceAt?] using inside
      · simp only [Branch.skip]
        omega
  · rw [List.map_cons, List.nodup_cons]
    constructor
    · simp [Assembler.lookupSwitch, Listing.pushSwitch, Label.place]
    · rw [Assembler.lookupSwitch, Listing.pushSwitch, List.map_map]
      refine List.nodup_range.map ?_
      intro first second same
      simpa [Label.place] using same

end Labels

/-! ## Steps -/

/-- What a step can do. -/
theorem step_cases (stepped : before.step action = some after) :
    (action.patched? = none ∧ before.Extends after) ∨
      ∃ position, action.patched? = some position ∧ before.Fills after position := by
  cases action with
  | emit extend adds =>
      cases stepped
      obtain ⟨placed, items⟩ := adds before.assembler
      exact .inl ⟨rfl, placed, [], items, by simp, by simp, List.nodup_nil⟩
  | jump opcode =>
      cases stepped
      exact .inl ⟨rfl, before.extends_jump opcode⟩
  | lookupSwitch keys =>
      cases stepped
      exact .inl ⟨rfl, before.extends_lookupSwitch keys⟩
  | patch position =>
      simp only [Draft.step, Option.bind_eq_bind, Option.bind_eq_some_iff, Option.pure_def,
        Option.some.injEq] at stepped
      obtain ⟨label, given, assembler, resolved, rfl⟩ := stepped
      cases measured : before.assembler.listing.distance label with
      | error failure =>
          rw [Assembler.resolve, measured] at resolved
          cases resolved
      | ok distance =>
          rw [Assembler.resolve, measured] at resolved
          cases resolved
          exact .inr ⟨position, rfl, label, distance, given, measured, rfl⟩

theorem Extends.unresolved (grows : before.Extends after) :
    before.unresolved <+: after.unresolved := by
  obtain ⟨placed, -, items, -⟩ := grows
  exact ⟨placed.map Placed.unresolved, by
    simp [Draft.unresolved, Listing.unresolved, items]⟩

theorem Fills.unresolved (fills : before.Fills after position) :
    after.unresolved = before.unresolved := by
  obtain ⟨label, distance, -, -, rfl⟩ := fills
  exact Listing.unresolved_setDistance _ label distance

/-- A step takes nothing away, be it an instruction or a label. -/
theorem prefix_of_step (stepped : before.step action = some after) :
    before.unresolved <+: after.unresolved ∧ before.labels <+: after.labels := by
  rcases step_cases stepped with ⟨-, grows⟩ | ⟨position, -, fills⟩
  · refine ⟨grows.unresolved, ?_⟩
    obtain ⟨-, labels, -, given, -⟩ := grows
    exact ⟨labels, given.symm⟩
  · rw [fills.unresolved]
    obtain ⟨label, distance, -, -, rfl⟩ := fills
    exact ⟨List.prefix_rfl, List.prefix_rfl⟩

theorem Sound.step (sound : before.Sound) (stepped : before.step action = some after) :
    after.Sound := by
  rcases step_cases stepped with ⟨-, grows⟩ | ⟨position, -, fills⟩
  · obtain ⟨more, unresolved⟩ := grows.unresolved
    obtain ⟨-, labels, -, given, new, distinct⟩ := grows
    have earlier (label : Label) (there : label ∈ before.labels) :
        label.LeadsInto after.unresolved := by
      rw [← unresolved]
      exact (sound.leads label there).append more
    constructor
    · intro label there
      rw [given, List.mem_append] at there
      rcases there with there | there
      · exact earlier label there
      · exact (new label there).1
    · rw [given, List.map_append, List.nodup_append]
      refine ⟨sound.distinct, distinct, ?_⟩
      -- the new labels lead to instructions that were not there before
      rintro _ first _ second rfl
      obtain ⟨old, there, rfl⟩ := List.mem_map.mp first
      obtain ⟨fresh, given, same⟩ := List.mem_map.mp second
      have inside := (sound.leads old there).item_lt
      have outside := (new fresh given).2
      have items : fresh.item = old.item := congrArg Prod.fst same
      omega
  · have unresolved := fills.unresolved
    obtain ⟨label, distance, -, -, rfl⟩ := fills
    exact ⟨by rw [unresolved]; exact sound.leads, sound.distinct⟩

/-- Labels with different numbers stand for different branches. -/
theorem Sound.place_ne (sound : draft.Sound) {other : Nat} {second : Label}
    (first : draft.labels[position]? = some label)
    (next : draft.labels[other]? = some second) (apart : position ≠ other) :
    ¬(label.item = second.item ∧ label.branch = second.branch) := by
  rintro ⟨item, branch⟩
  apply apart
  have inside : position < (draft.labels.map Label.place).length := by
    simpa using (List.getElem?_eq_some_iff.mp first).1
  apply (List.getElem?_inj inside sound.distinct).mp
  simp [first, next, Label.place, item, branch]

/-! ## Distances -/

/-- Only the patch of its own label changes a distance. -/
theorem Sound.distanceAt?_step (sound : before.Sound) (stepped : before.step action = some after)
    (given : before.labels[position]? = some label) (other : action.patched? ≠ some position) :
    after.assembler.listing.distanceAt? label =
      before.assembler.listing.distanceAt? label := by
  rcases step_cases stepped with ⟨-, placed, labels, items, -⟩ | ⟨place, patched, fills⟩
  · have inside := (sound.leads label (List.mem_of_getElem? given)).item_lt
    rw [length_unresolved] at inside
    rw [Listing.distanceAt?, Listing.distanceAt?, ← Array.getElem?_toList, items,
      List.getElem?_append_left (by simpa using inside), Array.getElem?_toList]
  · obtain ⟨filled, distance, there, -, rfl⟩ := fills
    rw [Assembler.setDistance, Listing.distanceAt?_setDistance, if_neg]
    refine sound.place_ne there given ?_
    rintro rfl
    exact other patched

/-- A patch lets the branch end where the code does. -/
theorem Sound.distanceAt?_patch (sound : before.Sound)
    (stepped : before.step action = some after) (patched : action.patched? = some position)
    (given : before.labels[position]? = some label) :
    ∃ distance, after.assembler.listing.distanceAt? label = some distance ∧
      label.offset + 2 + distance.toNat = before.code.size := by
  have leads := sound.leads label (List.mem_of_getElem? given)
  rcases step_cases stepped with ⟨none, -⟩ | ⟨place, some, fills⟩
  · rw [patched] at none
    cases none
  · obtain rfl : position = place := Option.some.inj (patched.symm.trans some)
    obtain ⟨filled, distance, there, measured, rfl⟩ := fills
    obtain rfl : label = filled := Option.some.inj (given.symm.trans there)
    refine ⟨distance, ?_, ?_⟩
    · obtain ⟨_, _, _, old, _, _, -, -, found, -⟩ := leads.exists_fields
      rw [Assembler.setDistance, Listing.distanceAt?_setDistance, if_pos ⟨rfl, rfl⟩, found,
        Option.map_some]
    · have inside := leads.offset_add_two_le
      rw [Listing.distance, branchDistance] at measured
      split at measured
      · rename_i near
        cases measured
        rw [Nat.toUInt16, UInt16.toNat_ofNat_of_lt' near, size_code]
        omega
      · cases measured

/-! ## Runs -/

theorem run_cons_eq_some_iff : before.run (action :: steps) = some after ↔
    ∃ middle, before.step action = some middle ∧ middle.run steps = some after :=
  Option.bind_eq_some_iff

theorem run_append (draft : Draft) (first second : List DraftStep) :
    draft.run (first ++ second) = (draft.run first).bind (·.run second) := by
  induction first generalizing draft with
  | nil => rfl
  | cons action first ih => simp [run, ih, Option.bind_assoc]

theorem prefix_of_run (done : before.run steps = some after) :
    before.unresolved <+: after.unresolved ∧ before.labels <+: after.labels := by
  induction steps generalizing before with
  | nil =>
      cases done
      exact ⟨List.prefix_rfl, List.prefix_rfl⟩
  | cons action steps ih =>
      obtain ⟨middle, stepped, done⟩ := run_cons_eq_some_iff.mp done
      obtain ⟨unresolved, labels⟩ := ih done
      have first := prefix_of_step stepped
      exact ⟨first.1.trans unresolved, first.2.trans labels⟩

theorem Sound.run (sound : before.Sound) (done : before.run steps = some after) :
    after.Sound := by
  induction steps generalizing before with
  | nil =>
      cases done
      exact sound
  | cons action steps ih =>
      obtain ⟨middle, stepped, done⟩ := run_cons_eq_some_iff.mp done
      exact ih (sound.step stepped) done

theorem sound_start (assembler : Assembler) : Sound { assembler } :=
  ⟨by simp, List.nodup_nil⟩

theorem getElem?_labels_of_prefix (grows : before.labels <+: after.labels)
    (given : before.labels[position]? = some label) :
    after.labels[position]? = some label := by
  obtain ⟨inside, rfl⟩ := List.getElem?_eq_some_iff.mp given
  exact List.prefix_iff_getElem?.mp grows position inside

theorem landing_cons (stepped : before.step action = some after) :
    before.landing position (action :: steps) =
      (after.landing position steps).or (
        if action.patched? = some position then some before.code.size else none) := by
  simp [landing, stepped]

/-- A distance that is not patched any more stays as it is. -/
theorem Sound.distanceAt?_run (sound : before.Sound) (done : before.run steps = some after)
    (given : before.labels[position]? = some label)
    (never : before.landing position steps = none) :
    after.assembler.listing.distanceAt? label =
      before.assembler.listing.distanceAt? label := by
  induction steps generalizing before with
  | nil =>
      cases done
      rfl
  | cons action steps ih =>
      obtain ⟨middle, stepped, done⟩ := run_cons_eq_some_iff.mp done
      rw [landing_cons stepped, Option.or_eq_none_iff] at never
      obtain ⟨later, now⟩ := never
      have other : action.patched? ≠ some position := by
        intro same
        simp [same] at now
      have still := getElem?_labels_of_prefix (prefix_of_step stepped).2 given
      rw [ih (sound.step stepped) done still later]
      exact sound.distanceAt?_step stepped given other

/-- The branch of a label that was patched leads to where the code ended then. -/
theorem Sound.distanceAt?_landing (sound : before.Sound)
    (done : before.run steps = some after) (given : after.labels[position]? = some label)
    {target : Nat} (landed : before.landing position steps = some target) :
    ∃ distance, after.assembler.listing.distanceAt? label = some distance ∧
      label.offset + 2 + distance.toNat = target := by
  induction steps generalizing before with
  | nil => cases landed
  | cons action steps ih =>
      obtain ⟨middle, stepped, done⟩ := run_cons_eq_some_iff.mp done
      rw [landing_cons stepped, Option.or_eq_some_iff] at landed
      rcases landed with later | ⟨never, now⟩
      · exact ih (sound.step stepped) done later
      · have patched : action.patched? = some position := by
          by_contra other
          simp [other] at now
        obtain rfl : before.code.size = target := by simpa [patched] using now
        -- a label can only be patched once it was given out
        obtain ⟨early, there⟩ : ∃ early, before.labels[position]? = some early := by
          rcases step_cases stepped with ⟨none, -⟩ | ⟨place, same, early, -, there, -⟩
          · rw [patched] at none
            cases none
          · exact ⟨early, by rwa [Option.some.inj (patched.symm.trans same)]⟩
        have still := getElem?_labels_of_prefix (prefix_of_step stepped).2 there
        have last := getElem?_labels_of_prefix (prefix_of_run done).2 still
        obtain rfl : early = label := Option.some.inj (last.symm.trans given)
        rw [(sound.step stepped).distanceAt?_run done still never]
        exact sound.distanceAt?_patch stepped patched there

end Draft

/-! ## Reading a switch -/

namespace ObjectCode

variable {code : ObjectCode} {offset : Nat}

/-- The cases of a switch with their targets, the first of which stands at an offset. -/
def caseTargets : Nat → List SwitchCase → List (Int32 × Nat)
  | _, [] => []
  | offset, arm :: cases =>
      (arm.key, offset + 6 + arm.distance.toNat) :: caseTargets (offset + 6) cases

theorem mapM_switchCase {count : Nat} {cases : List SwitchCase}
    (read : code.readCases offset count = some cases) :
    ((List.range count).mapM fun position => code.switchCase (offset + 6 * position)) =
      some (caseTargets offset cases) := by
  induction count generalizing offset cases with
  | zero =>
      cases read
      rfl
  | succ count ih =>
      simp only [readCases, Option.bind_eq_bind, Option.bind_eq_some_iff, Option.pure_def,
        Option.some.injEq] at read
      obtain ⟨key, keyRead, distance, distanceRead, rest, restRead, rfl⟩ := read
      have first : code.switchCase offset = some (key.toInt32, offset + 6 + distance.toNat) := by
        simp [switchCase, keyRead, distanceRead]
      have others : ((List.range count).mapM fun position =>
          code.switchCase (offset + 6 * (position + 1))) =
            some (caseTargets (offset + 6) rest) := by
        rw [← ih restRead]
        congr 1
        funext position
        congr 1
        omega
      rw [List.range_succ_eq_map, List.mapM_cons, List.mapM_map]
      simp [first, caseTargets, Function.comp_def, others]

/-- The branches of a switch that stands in the code. -/
theorem switchTargets_of_instructionAt {fallback : UInt16} {cases : List SwitchCase}
    (found : code.instructionAt offset = some ⟨.lookupSwitch, .table fallback cases⟩) :
    code.switchTargets offset =
      some ⟨offset + 5 + fallback.toNat, caseTargets (offset + 5) cases⟩ := by
  simp only [instructionAt, Option.bind_eq_bind, Option.bind_eq_some_iff, Option.pure_def,
    Option.some.injEq, Instruction.mk.injEq] at found
  obtain ⟨_, opcode, operands, read, rfl, rfl⟩ := found
  simp only [Opcode.shape, readOperands, Option.bind_eq_bind, Option.bind_eq_some_iff,
    Option.pure_def, Option.some.injEq, Operands.table.injEq] at read
  obtain ⟨count, counted, _, first, _, rest, rfl, rfl⟩ := read
  simp [switchTargets, guard, opcode, counted, first, mapM_switchCase rest]

theorem caseTargets_eq_zip {keys : List Int32} {cases : List SwitchCase} {targets : List Nat}
    (named : cases.map (·.key) = keys) (count : targets.length = keys.length)
    (lands : ∀ (position : Nat) (arm : SwitchCase), cases[position]? = some arm →
      targets[position]? = some (offset + 6 + 6 * position + arm.distance.toNat)) :
    caseTargets offset cases = keys.zip targets := by
  induction cases generalizing keys targets offset with
  | nil =>
      subst named
      rfl
  | cons arm cases ih =>
      subst named
      cases targets with
      | nil => cases count
      | cons target targets =>
          have first := lands 0 arm rfl
          simp only [List.getElem?_cons_zero, Option.some.injEq] at first
          rw [List.map_cons, List.zip_cons_cons, caseTargets, first, ih rfl]
          · simpa using count
          · intro position other found
            have next := lands (position + 1) other found
            rw [List.getElem?_cons_succ] at next
            rw [next]
            congr 1
            omega

end ObjectCode

/-- Operands that are those of a switch up to distances. -/
theorem Operands.exists_of_unresolved_eq_table {operands : Operands} {keys : List Int32}
    {pending : UInt16}
    (same : operands.unresolved =
      (table pending (keys.map (⟨·, pending⟩))).unresolved) :
    ∃ fallback cases, operands = .table fallback cases ∧ cases.map (·.key) = keys := by
  cases operands with
  | table fallback cases =>
      simp only [unresolved, table.injEq, true_and, List.map_map] at same
      have named := congrArg (List.map SwitchCase.key) same
      exact ⟨fallback, cases, rfl, by simpa [Function.comp_def] using named⟩
  | _ => cases same

namespace Draft

/-- A switch stands where it was placed, whatever distances are filled in. -/
theorem exists_switch_of_run {middle draft : Draft} {keys : List Int32}
    {later : List DraftStep} (few : keys.length ≤ 65535)
    (done : middle.run (.lookupSwitch keys :: later) = some draft) :
    ∃ fallback cases, cases.map (·.key) = keys ∧
      draft.code.instructionAt middle.code.size =
        some ⟨.lookupSwitch, .table fallback cases⟩ ∧
      ∀ branch offset, draft.assembler.listing.distanceAt?
          ⟨middle.assembler.listing.items.size, branch, offset⟩ =
        (Operands.table fallback cases).distanceAt? branch := by
  obtain ⟨first, stepped, done⟩ := run_cons_eq_some_iff.mp done
  obtain ⟨more, behind⟩ := (prefix_of_run done).1
  cases stepped
  have placed : draft.unresolved = middle.unresolved ++ Placed.unresolved
      ⟨⟨.lookupSwitch, .table pendingDistance (keys.map (⟨·, pendingDistance⟩))⟩,
        middle.assembler.line⟩ :: more := by
    rw [← behind]
    simp [unresolved, Listing.unresolved]
  obtain ⟨front, others, items, ahead, rest⟩ := List.map_eq_append_iff.mp placed
  obtain ⟨⟨⟨opcode, operands⟩, line⟩, back, rfl, same, -⟩ := List.map_eq_cons_iff.mp rest
  simp only [Placed.unresolved, Placed.mk.injEq, Instruction.mk.injEq] at same
  obtain ⟨⟨rfl, table⟩, -⟩ := same
  obtain ⟨fallback, cases, rfl, named⟩ := Operands.exists_of_unresolved_eq_table table
  have count : front.length = middle.assembler.listing.items.size := by
    rw [← middle.length_unresolved, ← ahead, List.length_map]
  have start : codeSize front = middle.code.size := by
    rw [← codeSize_map_unresolved, ahead, size_code]
    exact middle.assembler.listing.codeSize_unresolved
  refine ⟨fallback, cases, named, ?_, ?_⟩
  · rw [← start]
    have length : cases.length = keys.length := by rw [← named, List.length_map]
    have shaped : Instruction.WellShaped ⟨.lookupSwitch, .table fallback cases⟩ :=
      ⟨rfl, by
        rw [Operands.Countable]
        omega⟩
    have split : draft.assembler.listing.items.toList =
        front ++ [⟨⟨.lookupSwitch, .table fallback cases⟩, line⟩] ++ back := by
      simpa using items
    exact (Listing.located_assemble split (by simpa using shaped)).1
  · intro branch offset
    rw [Listing.distanceAt?, ← Array.getElem?_toList, items, ← count]
    simp

/-- The labels of a switch keep their numbers. -/
theorem labels_of_run {middle draft : Draft} {keys : List Int32} {later : List DraftStep}
    (done : middle.run (.lookupSwitch keys :: later) = some draft) :
    draft.labels[middle.labels.length]? =
        some ⟨middle.assembler.listing.items.size, .fallback, middle.code.size + 3⟩ ∧
      ∀ place < keys.length, draft.labels[middle.labels.length + 1 + place]? =
        some ⟨middle.assembler.listing.items.size, .case place,
          middle.code.size + 9 + 6 * place⟩ := by
  obtain ⟨first, stepped, done⟩ := run_cons_eq_some_iff.mp done
  have kept {position : Nat} {label : Label} (given : first.labels[position]? = some label) :
      draft.labels[position]? = some label :=
    getElem?_labels_of_prefix (prefix_of_run done).2 given
  cases stepped
  rw [size_code]
  constructor
  · apply kept
    simp
  · intro place inside
    apply kept
    rw [Nat.add_assoc, List.getElem?_append_right (Nat.le_add_right _ _),
      Nat.add_sub_cancel_left, Nat.add_comm 1 place, List.getElem?_cons_succ]
    simp [inside]

/-- Filling in a distance is patching the bytes of the code. -/
theorem Sound.patchJump {before after : Draft} {position : Nat} (sound : before.Sound)
    (stepped : before.step (.patch position) = some after) :
    ∃ label, before.labels[position]? = some label ∧
      before.code.patchJump label.offset = .ok after.code := by
  rcases step_cases stepped with ⟨none, -⟩ | ⟨place, some, label, distance, given, measured, rfl⟩
  · cases none
  · cases some
    refine ⟨label, given, ?_⟩
    rw [code, (sound.leads label (List.mem_of_getElem? given)).patchJump, measured]
    rfl

end Draft

/-- A patch writes two bytes. -/
theorem ObjectCode.readByte_of_patchJump {before after : ObjectCode} {offset : Nat}
    (patched : before.patchJump offset = .ok after) :
    after.size = before.size ∧ after.lines = before.lines ∧
      ∀ place, place ≠ offset → place ≠ offset + 1 →
        after.readByte place = before.readByte place := by
  simp only [patchJump] at patched
  cases measured : branchDistance (before.size - offset - 2) with
  | error failure =>
      rw [measured] at patched
      cases patched
  | ok distance =>
      rw [measured] at patched
      cases patched
      refine ⟨by simp [size], rfl, fun place first second => ?_⟩
      simp [readByte, Array.getElem?_setIfInBounds_ne, Ne.symm first, Ne.symm second]

theorem exists_of_map_range_eq {count : Nat} {lookup : Nat → Option Nat} {results : List Nat}
    (all : (List.range count).map lookup = results.map some) {place : Nat}
    (inside : place < count) :
    ∃ result, results[place]? = some result ∧ lookup place = some result := by
  have listed : (results[place]?).map some = some (lookup place) := by
    rw [← List.getElem?_map, ← all]
    simp [inside]
  obtain ⟨result, there, same⟩ := Option.map_eq_some_iff.mp listed
  exact ⟨result, there, same.symm⟩

/-- However labels are patched between whatever else is emitted, in the end the distance of
each label leads from its own end to where the code ended when the label was patched last,
and the switches are read back with their keys in order, each with the target of its label.
A patch changes no other byte than the two of its distance. -/
theorem branches_land {assembler : Assembler} {steps : List DraftStep} {draft : Draft}
    (done : Draft.run { assembler } steps = some draft) :
    (∀ position label target, draft.labels[position]? = some label →
      Draft.landing { assembler } position steps = some target →
      ∃ distance, draft.code.readUInt16 label.offset = some distance ∧
        label.offset + 2 + distance.toNat = target) ∧
    (∀ earlier keys later middle, steps = earlier ++ .lookupSwitch keys :: later →
      keys.length ≤ 65535 → Draft.run { assembler } earlier = some middle →
      ∀ fallback targets,
        Draft.landing { assembler } middle.labels.length steps = some fallback →
        (List.range keys.length).map (fun case =>
            Draft.landing { assembler } (middle.labels.length + 1 + case) steps) =
          targets.map some →
        draft.code.switchTargets middle.code.size = some ⟨fallback, keys.zip targets⟩) ∧
    (∀ position after, draft.step (.patch position) = some after →
      ∃ label, draft.labels[position]? = some label ∧
        draft.code.patchJump label.offset = .ok after.code ∧
        after.code.size = draft.code.size ∧ after.code.lines = draft.code.lines ∧
        ∀ place, place ≠ label.offset → place ≠ label.offset + 1 →
          after.code.readByte place = draft.code.readByte place) := by
  have start := Draft.sound_start assembler
  have sound := start.run done
  refine ⟨?_, ?_, ?_⟩
  · intro position label target given landed
    obtain ⟨distance, found, lands⟩ := start.distanceAt?_landing done given landed
    have leads := sound.leads label (List.mem_of_getElem? given)
    exact ⟨distance, leads.readUInt16.trans found, lands⟩
  · rintro earlier keys later middle rfl few reached default targets first others
    have rest : middle.run (.lookupSwitch keys :: later) = some draft := by
      rw [← done, Draft.run_append, reached, Option.bind_some]
    obtain ⟨fallback, cases, named, here, distances⟩ := Draft.exists_switch_of_run few rest
    obtain ⟨last, arms⟩ := Draft.labels_of_run rest
    have length : cases.length = keys.length := by rw [← named, List.length_map]
    obtain ⟨distance, found, lands⟩ := start.distanceAt?_landing done last first
    rw [distances] at found
    obtain rfl : fallback = distance := Option.some.inj found
    have count : targets.length = keys.length := by simpa using congrArg List.length others.symm
    rw [ObjectCode.switchTargets_of_instructionAt here, lands,
      ObjectCode.caseTargets_eq_zip named count]
    intro place arm there
    have inside : place < keys.length := by
      rw [← length]
      exact (List.getElem?_eq_some_iff.mp there).1
    obtain ⟨target, listed, landed⟩ := exists_of_map_range_eq others inside
    obtain ⟨distance, found, lands⟩ := start.distanceAt?_landing done (arms place inside) landed
    rw [distances] at found
    obtain rfl : arm.distance = distance := by simpa [Operands.distanceAt?, there] using found
    rw [listed, ← lands]
    congr 1
    simp only
    omega
  · intro position after stepped
    obtain ⟨label, given, patched⟩ := sound.patchJump stepped
    exact ⟨label, given, patched, ObjectCode.readByte_of_patchJump patched⟩

/-- A switch, a jump and another switch in its first case, patched out of order and the
default branch twice. -/
def nestedSwitches : List DraftStep :=
  [.emit (·.setLine 7) (Assembler.adds_setLine 7), .lookupSwitch [3, -1], .jump .jump,
    .lookupSwitch [8], .patch 1, .emit (·.getLocal 300) (Emit.getLocal 300).adds_run, .patch 0,
    .patch 3, .patch 5, .patch 4,
    .emit (·.callSite 256 2 1) (Emit.callSite 256 2 1).adds_run, .patch 2, .patch 0]

theorem branches_land_nestedSwitches :
    ∃ draft, Draft.run { assembler := {} } nestedSwitches = some draft ∧
      draft.code.switchTargets 0 = some ⟨39, [(3, 31), (-1, 39)]⟩ ∧
      draft.code.switchTargets 20 = some ⟨34, [(8, 34)]⟩ ∧
      ∃ distance, draft.code.readUInt16 18 = some distance ∧ 18 + 2 + distance.toNat = 34 := by
  have runs : (Draft.run { assembler := {} } nestedSwitches).isSome = true := rfl
  obtain ⟨draft, done⟩ := Option.isSome_iff_exists.mp runs
  obtain ⟨jumps, switches, -⟩ := branches_land done
  have label : (Draft.run { assembler := {} } nestedSwitches).bind (·.labels[3]?) =
      some ⟨1, .jump, 18⟩ := rfl
  rw [done, Option.bind_some] at label
  refine ⟨draft, done, ?_, ?_, jumps 3 _ 34 label (by decide +kernel)⟩
  · exact switches (nestedSwitches.take 1) [3, -1] _ _ rfl (by decide) rfl 39 [31, 39]
      (by decide +kernel) (by decide +kernel)
  · exact switches (nestedSwitches.take 3) [8] _ _ rfl (by decide) rfl 34 [34]
      (by decide +kernel) (by decide +kernel)

end CallCode
