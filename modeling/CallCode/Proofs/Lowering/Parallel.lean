import CallCode.Proofs.Lowering.Straight
import CallCode.Proofs.Machine.Symbols

/-!
# Straight actions in parallel

A straight action that succeeds from two states with the same tracked stack answers the
same, leaves the same stack, and writes the same operations.  Only the slots of its call
sites are not the same, as they are up to the allocators.
-/

namespace CallCode

open Lower

/-- Two allocators, how their tables are related, and how that makes the slots related that
they hand out for one call. -/
structure Pairing where
  left : SiteAllocator
  right : SiteAllocator
  tables : SiteTable → SiteTable → Prop
  slots : Int → Int → Prop
  related : ∀ {site : CallSite} {table other later otherLater : SiteTable}
    {slot otherSlot : UInt16}, tables table other → left site table = .ok slot later →
      right site other = .ok otherSlot otherLater →
        slots slot.toNat otherSlot.toNat ∧ tables later otherLater

namespace Pairing

/-- Nothing is known of two allocators. -/
def unrelated (left right : SiteAllocator) : Pairing where
  left := left
  right := right
  tables _ _ := True
  slots _ _ := True
  related _ _ _ := ⟨trivial, trivial⟩

theorem allocate_ok {site : CallSite} {table later : SiteTable} {slot : UInt16}
    (allocates : SiteTable.allocate site table = .ok slot later) :
    slot.toNat = table.count ∧ later.count = table.count + 1 := by
  unfold SiteTable.allocate at allocates
  split at allocates
  · rename_i few
    cases allocates
    exact ⟨UInt16.toNat_ofNat_of_lt' few, Array.size_push _⟩
  · cases allocates

/-- Slots that are counted up, where one table is ahead of the other. -/
def counted (shift : Int) : Pairing where
  left := SiteTable.allocate
  right := SiteTable.allocate
  tables table other := (table.count : Int) - other.count = shift
  slots slot other := slot - other = shift
  related := by
    intro site table other later otherLater slot otherSlot ahead first second
    obtain ⟨slot, later⟩ := allocate_ok first
    obtain ⟨otherSlot, otherLater⟩ := allocate_ok second
    constructor
    · rw [slot, otherSlot]
      exact ahead
    · omega

end Pairing

/-- Operations that are the same but for the slots of call sites. -/
inductive Operation.Alike (related : Int → Int → Prop) : Operation → Operation → Prop
  | same {operation : Operation} : operation.isPlain = true → Alike related operation operation
  | site {slot other : UInt16} {count flags : UInt8} : related slot.toNat other.toNat →
      Alike related (.callSite slot count flags) (.callSite other count flags)

theorem Operation.falls_of_isPlain {operation : Operation} (plain : operation.isPlain = true) :
    operation.falls = true := by
  cases operation <;> first | rfl | cases plain

namespace Operation.Alike

variable {related : Int → Int → Prop} {operation other : Operation}

theorem isBranch_left (alike : Alike related operation other) : operation.isBranch = false := by
  cases alike with
  | same plain => exact isBranch_of_falls (falls_of_isPlain plain)
  | site => rfl

theorem isBranch_right (alike : Alike related operation other) : other.isBranch = false := by
  cases alike with
  | same plain => exact isBranch_of_falls (falls_of_isPlain plain)
  | site => rfl

theorem straightSymbol (alike : Alike related operation other) :
    Symbol.Alike related operation.straightSymbol other.straightSymbol := by
  cases alike with
  | same plain =>
      apply Symbol.Alike.same
      cases operation <;> first | rfl | cases plain
  | site slots => exact .site slots

end Operation.Alike

namespace LoweringState

/-- Two states with the same tracked stack, whose sites are those of a pairing. -/
structure Beside (pairing : Pairing) (first second : LoweringState) : Prop where
  stack : first.stack = second.stack
  left : first.ledger.allocator = pairing.left
  right : second.ledger.allocator = pairing.right
  tables : pairing.tables first.ledger.sites second.ledger.sites

/-- Two runs side by side: what they wrote is the same but for slots, and none of it could
be shorter. -/
structure Parallel (pairing : Pairing) (first after second later : LoweringState) : Prop where
  beside : after.Beside pairing later
  writes : ∃ code other, first.assembler.Writes after.assembler code ∧
    second.assembler.Writes later.assembler other ∧
    List.Forall₂ (Operation.Alike pairing.slots) code other
  tight : after.assembler.listing.loose = first.assembler.listing.loose
  otherTight : later.assembler.listing.loose = second.assembler.listing.loose

variable {pairing : Pairing} {first middle after second between later : LoweringState}

theorem Parallel.of_same (beside : after.Beside pairing later)
    (left : after.assembler = first.assembler) (right : later.assembler = second.assembler) :
    Parallel pairing first after second later := by
  refine ⟨beside, ⟨[], [], ?_, ?_, .nil⟩, by rw [left], by rw [right]⟩
  · rw [left]
    exact .refl _
  · rw [right]
    exact .refl _

theorem Parallel.trans (early : Parallel pairing first middle second between)
    (late : Parallel pairing middle after between later) :
    Parallel pairing first after second later := by
  obtain ⟨-, ⟨code, other, writes, otherWrites, alike⟩, tight, otherTight⟩ := early
  obtain ⟨beside, ⟨further, otherFurther, more, otherMore, rest⟩, tighter, otherTighter⟩ := late
  refine ⟨beside, ?_, tighter.trans tight, otherTighter.trans otherTight⟩
  exact ⟨_, _, writes.trans more, otherWrites.trans otherMore, List.rel_append alike rest⟩

end LoweringState

open LoweringState

variable {Result : Type} {context : Context} {pairing : Pairing} {walk : Walk}
  {first after second later : LoweringState} {result other : Result}

/-- A step writes the same code wherever it is taken. -/
theorem Lower.parallel_write {step : Assembler → Assembler} {code : List Operation}
    {slots : List UInt16} (steps : Assembler.Step step code slots)
    (beside : first.Beside pairing second) :
    Parallel pairing first { first with assembler := step first.assembler } second
      { second with assembler := step second.assembler } where
  beside := ⟨beside.stack, beside.left, beside.right, beside.tables⟩
  writes := by
    refine ⟨code, code, steps.writes _, steps.writes _, ?_⟩
    exact List.forall₂_same.mpr fun operation member => .same (steps.plain operation member)
  tight := steps.tight _
  otherTight := steps.tight _

/-- The call sites of two runs have slots that are related. -/
theorem Lower.parallel_callSite {site : CallSite} {slot otherSlot : UInt16}
    {sites otherSites : SiteTable} (count : UInt8) (beside : first.Beside pairing second)
    (allocates : first.ledger.allocator site first.ledger.sites = .ok slot sites)
    (otherAllocates :
      second.ledger.allocator site second.ledger.sites = .ok otherSlot otherSites) :
    Parallel pairing first
      { first with
        assembler := first.assembler.callSite slot count site.flags.bits
        ledger := { first.ledger with sites } } second
      { second with
        assembler := second.assembler.callSite otherSlot count site.flags.bits
        ledger := { second.ledger with sites := otherSites } } := by
  rw [beside.left] at allocates
  rw [beside.right] at otherAllocates
  obtain ⟨slots, tables⟩ := pairing.related beside.tables allocates otherAllocates
  refine ⟨⟨beside.stack, beside.left, beside.right, tables⟩, ?_, ?_, ?_⟩
  · exact ⟨_, _, Assembler.writes_callSite _ _ _ _, Assembler.writes_callSite _ _ _ _,
      .cons (.site slots) .nil⟩
  · simp [Assembler.callSite, Assembler.emit, Listing.loose, Instruction.isTight]
  · simp [Assembler.callSite, Assembler.emit, Listing.loose, Instruction.isTight]

theorem runs_allocate {site : CallSite} {slot : UInt16} {before after : LoweringState} :
    Runs (consult (Ledger.allocate site)) context before slot after ↔ ∃ sites,
      before.ledger.allocator site before.ledger.sites = .ok slot sites ∧
        after = { before with ledger := { before.ledger with sites } } := by
  rw [runs_consult]
  unfold Ledger.allocate
  cases before.ledger.allocator site before.ledger.sites with
  | ok answer sites =>
      constructor
      · rintro ⟨_, allocates, rfl⟩
        cases allocates
        exact ⟨sites, rfl, rfl⟩
      · rintro ⟨_, allocates, rfl⟩
        cases allocates
        exact ⟨_, rfl, rfl⟩
  | error error sites =>
      constructor
      · rintro ⟨_, refuses, -⟩
        cases refuses
      · rintro ⟨_, refuses, -⟩
        cases refuses

/-- A straight action that succeeds from two states with one stack does the same from
both. -/
theorem Lower.Straight.parallel {action : Lower Result} (straight : Straight context action walk)
    (beside : first.Beside pairing second) (run : Runs action context first result after)
    (otherRun : Runs action context second other later) :
    other = result ∧ Parallel pairing first after second later := by
  induction straight generalizing first after second later with
  | pure value =>
      obtain ⟨rfl, rfl⟩ := (runs_pure _).mp run
      obtain ⟨rfl, rfl⟩ := (runs_pure _).mp otherRun
      exact ⟨rfl, .of_same beside rfl rfl⟩
  | bind _ _ left right =>
      rw [runs_bind] at run otherRun
      obtain ⟨value, middle, starts, rest⟩ := run
      obtain ⟨otherValue, between, otherStarts, otherRest⟩ := otherRun
      obtain ⟨rfl, early⟩ := left beside starts otherStarts
      obtain ⟨same, late⟩ := right _ early.beside rest otherRest
      exact ⟨same, early.trans late⟩
  | fail error walk => exact ((runs_fail error).mp run).elim
  | read _ ih =>
      simp only [runs_bind, runs_read] at run otherRun
      obtain ⟨_, _, ⟨rfl, rfl⟩, run⟩ := run
      obtain ⟨_, _, ⟨rfl, rfl⟩, otherRun⟩ := otherRun
      exact ih beside run otherRun
  | peek same _ ih =>
      simp only [runs_bind, runs_get] at run otherRun
      obtain ⟨_, _, ⟨rfl, rfl⟩, run⟩ := run
      obtain ⟨_, _, ⟨rfl, rfl⟩, otherRun⟩ := otherRun
      rw [← same _ _ beside.stack] at otherRun
      exact ih _ beside run otherRun
  | write steps =>
      rw [runs_write] at run otherRun
      rw [run, otherRun]
      exact ⟨rfl, parallel_write steps beside⟩
  | track action =>
      rw [runs_track] at run otherRun
      obtain ⟨stack, does, rfl⟩ := run
      obtain ⟨otherStack, otherDoes, rfl⟩ := otherRun
      rw [← beside.stack, does] at otherDoes
      cases otherDoes
      exact ⟨rfl, .of_same ⟨rfl, beside.left, beside.right, beside.tables⟩ rfl rfl⟩
  | send site count _ ih =>
      simp only [runs_bind, runs_allocate, runs_write] at run otherRun
      obtain ⟨slot, _, ⟨sites, allocates, rfl⟩, _, _, rfl, run⟩ := run
      obtain ⟨otherSlot, _, ⟨otherSites, otherAllocates, rfl⟩, _, _, rfl, otherRun⟩ := otherRun
      have early := parallel_callSite count beside allocates otherAllocates
      obtain ⟨same, late⟩ := ih early.beside run otherRun
      exact ⟨same, early.trans late⟩
  | recordSuper name =>
      rw [runs_modify] at run otherRun
      rw [run, otherRun]
      refine ⟨rfl, .of_same ?_ rfl rfl⟩
      exact ⟨beside.stack, beside.left, beside.right, beside.tables⟩

end CallCode
