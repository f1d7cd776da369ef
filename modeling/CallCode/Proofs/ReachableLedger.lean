import CallCode.Dispatch.Ledger
import CallCode.Proofs.CandidateTable

/-!
# Reachable ledgers

Whatever order a class looks its tables up, reports collisions, notes names and hands
out slots in, each table of its ledger was built from the declared types.
-/

namespace CallCode

/-- The ledgers that the operations on ledgers lead to from a fresh one. -/
inductive Ledger.Reachable (types : TypeTable) : Ledger → Prop
  | fresh (classId : Identity) (allocator : SiteAllocator) (keyOf : KeyFunction) :
      Reachable types { classId, allocator, keyOf }
  | tabled {ledger later : Ledger} {target : Identity} {position : Position}
      {table : CandidateTable} : Reachable types ledger →
      candidateTable types target position ledger = .ok table later → Reachable types later
  | reported {ledger : Ledger} (table : CandidateTable) (position : Position)
      (diagnostics : Diagnostics) : Reachable types ledger →
      Reachable types (ledger.reportCollisions types table position diagnostics).1
  | recorded {ledger : Ledger} (name : String) : Reachable types ledger →
      Reachable types (ledger.recordSuper name)
  | allocated {ledger : Ledger} (sites : SiteTable) : Reachable types ledger →
      Reachable types { ledger with sites }

/-- The table of a class, wherever it is asked for. -/
def IsTableOf (types : TypeTable) (keyOf : KeyFunction) (classId : Identity)
    (table : CandidateTable) : Prop :=
  ∀ position, CandidateTable.build types classId position keyOf = .ok table

section IsTableOf

variable {types : TypeTable} {keyOf : KeyFunction} {classId : Identity}
  {table : CandidateTable} {position : Position}

theorem Ledger.classId_of_build
    (built : CandidateTable.build types classId position keyOf = .ok table) :
    table.classId = classId := by
  obtain ⟨_, _, -, -, -, rfl⟩ := CandidateTable.build_ok built
  rfl

/-- The position of a call only matters where there is no table. -/
theorem isTableOf_of_build
    (built : CandidateTable.build types classId position keyOf = .ok table) :
    IsTableOf types keyOf classId table := by
  intro other
  unfold CandidateTable.build at built ⊢
  split at built
  · cases built
  · split at built
    · cases built
    · rename_i declared
      rw [if_neg declared]
      split at built
      · cases built
      · exact built

namespace IsTableOf

theorem classId_eq (isTable : IsTableOf types keyOf classId table) :
    table.classId = classId :=
  Ledger.classId_of_build (isTable .synthetic)

theorem unique {other : CandidateTable} (isTable : IsTableOf types keyOf classId table)
    (another : IsTableOf types keyOf classId other) : other = table := by
  have same := (isTable .synthetic).symm.trans (another .synthetic)
  cases same
  rfl

theorem contains (isTable : IsTableOf types keyOf classId table) :
    types.contains classId = true := by
  obtain ⟨decl, _, found, -⟩ := CandidateTable.build_ok (isTable .synthetic)
  rw [TypeTable.contains, found]
  rfl

end IsTableOf

end IsTableOf

namespace Ledger

variable {types : TypeTable} {ledger later : Ledger} {target : Identity}
  {position : Position} {table : CandidateTable}

/-- A table was built from the declared types. -/
def Built (types : TypeTable) (table : CandidateTable) : Prop :=
  ∃ position keyOf, CandidateTable.build types table.classId position keyOf = .ok table

/-- The tables of a ledger are those of their classes. -/
def Valid (types : TypeTable) (ledger : Ledger) : Prop :=
  ∀ table ∈ ledger.tables, IsTableOf types ledger.keyOf table.classId table

/-- A table that was looked up was there before, or it is built and kept. -/
theorem candidateTable_ok
    (found : candidateTable types target position ledger = .ok table later) :
    (table ∈ ledger.tables ∧ table.classId = target ∧ later = ledger) ∨
      (IsTableOf types ledger.keyOf target table ∧
        later = { ledger with tables := table :: ledger.tables }) := by
  unfold candidateTable at found
  split at found
  · rename_i lookup
    cases found
    have same : table.classId = target := by simpa using List.find?_some lookup
    exact .inl ⟨List.mem_of_find?_eq_some lookup, same, rfl⟩
  · split at found
    · rename_i built
      cases found
      exact .inr ⟨isTableOf_of_build built, rfl⟩
    · cases found

/-- Where no table is found, the ledger stays as it was. -/
theorem eq_of_candidateTable_error {error : LoweringError}
    (failed : candidateTable types target position ledger = .error error later) :
    later = ledger := by
  unfold candidateTable at failed
  split at failed
  · cases failed
  · split at failed
    · cases failed
    · cases failed
      rfl

theorem candidateTable_keeps
    (found : candidateTable types target position ledger = .ok table later) :
    ∃ tables, later = { ledger with tables } := by
  rcases candidateTable_ok found with ⟨-, -, rfl⟩ | ⟨-, rfl⟩
  · exact ⟨_, rfl⟩
  · exact ⟨_, rfl⟩

/-- A table that is looked up is the one of its class. -/
theorem Valid.candidateTable (valid : ledger.Valid types)
    (found : Ledger.candidateTable types target position ledger = .ok table later) :
    IsTableOf types ledger.keyOf target table ∧ later.Valid types := by
  rcases candidateTable_ok found with ⟨member, rfl, rfl⟩ | ⟨isTable, rfl⟩
  · exact ⟨valid table member, valid⟩
  · refine ⟨isTable, List.forall_mem_cons.mpr ⟨?_, valid⟩⟩
    rwa [isTable.classId_eq]

/-- A table that is found is the one of its class. -/
theorem Valid.isTableOf (valid : ledger.Valid types)
    (found : ledger.tables.find? (·.classId == target) = some table) :
    IsTableOf types ledger.keyOf target table := by
  have same : table.classId = target := by simpa using List.find?_some found
  rw [← same]
  exact valid table (List.mem_of_find?_eq_some found)

/-- A look-up answers what building the table would, whether it is found or built. -/
theorem Valid.candidateTable_of_build (valid : ledger.Valid types)
    (built : CandidateTable.build types target position ledger.keyOf = .ok table) :
    ∃ tables, Ledger.candidateTable types target position ledger =
      .ok table { ledger with tables } := by
  unfold Ledger.candidateTable
  cases lookup : ledger.tables.find? (·.classId == target) with
  | some known =>
      cases (valid.isTableOf lookup position).symm.trans built
      exact ⟨ledger.tables, rfl⟩
  | none => exact ⟨table :: ledger.tables, by simp only [built]⟩

theorem Valid.candidateTable_of_refused {error : LoweringError} (valid : ledger.Valid types)
    (refused : CandidateTable.build types target position ledger.keyOf = .error error) :
    Ledger.candidateTable types target position ledger = .error error ledger := by
  unfold Ledger.candidateTable
  cases lookup : ledger.tables.find? (·.classId == target) with
  | some known => cases (valid.isTableOf lookup position).symm.trans refused
  | none => simp only [refused]

/-- Every table of a reachable ledger is the one of its class. -/
theorem Reachable.valid (reachable : ledger.Reachable types) : ledger.Valid types := by
  induction reachable with
  | fresh => simp [Valid]
  | tabled _ found ih => exact (ih.candidateTable found).2
  | reported table position diagnostics _ ih =>
      unfold reportCollisions
      split
      · exact ih
      · exact ih
  | recorded _ _ ih => exact ih
  | allocated _ _ ih => exact ih

/-- A table that is looked up in a reachable ledger was built. -/
theorem Reachable.built_candidateTable (reachable : ledger.Reachable types)
    (found : candidateTable types target position ledger = .ok table later) :
    Built types table := by
  have isTable := (reachable.valid.candidateTable found).1
  rw [← isTable.classId_eq] at isTable
  exact ⟨.synthetic, ledger.keyOf, isTable .synthetic⟩

end Ledger

end CallCode
