import CallCode.Dispatch.CandidateTable
import CallCode.Proofs.DistinctMembers

/-!
# Candidates and arms

The candidates of a built table are the declared constructors of its class.  Its arms
are the first candidates of each key, so that a key leads to one arm at most.
-/

namespace CallCode

namespace CandidateTable

variable {types : TypeTable} {classId : Identity} {position : Position}
  {keyOf : KeyFunction} {table : CandidateTable}

/-- The candidates of a built table, before they are ordered. -/
theorem build_ok (built : build types classId position keyOf = .ok table) :
    ∃ decl candidates, types.find? classId = some decl ∧ decl.constructors ≠ [] ∧
      decl.constructors.mapM (candidate? types keyOf) = some candidates ∧
      table = ⟨classId, candidates.mergeSort fun first second =>
        decide (first.descriptor ≤ second.descriptor)⟩ := by
  unfold build at built
  split at built
  · cases built
  · rename_i decl found
    split at built
    · cases built
    · rename_i some
      split at built
      · cases built
      · rename_i candidates listed
        cases built
        exact ⟨decl, candidates, found, by simpa using some, listed, rfl⟩

theorem candidate?_of_mapM {constructors : List Constructor} {candidates : List Candidate}
    (listed : constructors.mapM (candidate? types keyOf) = some candidates) :
    List.Forall₂ (fun constructor candidate =>
      candidate? types keyOf constructor = some candidate) constructors candidates := by
  induction constructors generalizing candidates with
  | nil =>
      rw [List.mapM_nil] at listed
      cases listed
      exact .nil
  | cons constructor constructors ih =>
      rw [List.mapM_cons, Option.bind_eq_bind, Option.bind_eq_some_iff] at listed
      obtain ⟨candidate, first, listed⟩ := listed
      rw [Option.bind_eq_bind, Option.bind_eq_some_iff] at listed
      obtain ⟨others, rest, listed⟩ := listed
      cases listed
      exact .cons first (ih rest)

theorem mapM_of_candidate? {constructors : List Constructor} {candidates : List Candidate}
    (made : List.Forall₂ (fun constructor candidate =>
      candidate? types keyOf constructor = some candidate) constructors candidates) :
    constructors.mapM (candidate? types keyOf) = some candidates := by
  induction made with
  | nil => rfl
  | cons first _ ih =>
      rw [List.mapM_cons, first, ih]
      rfl

theorem constructor_of_candidate? {constructor : Constructor} {candidate : Candidate}
    (made : candidate? types keyOf constructor = some candidate) :
    candidate.constructor = constructor := by
  rw [candidate?, Option.bind_eq_bind, Option.bind_eq_some_iff] at made
  obtain ⟨descriptor, -, made⟩ := made
  cases made
  rfl

theorem constructor_mem {constructors : List Constructor} {candidates : List Candidate}
    (listed : List.Forall₂ (fun constructor candidate =>
      candidate? types keyOf constructor = some candidate) constructors candidates) :
    ∀ candidate ∈ candidates, candidate.constructor ∈ constructors := by
  induction listed with
  | nil => simp
  | cons made _ ih =>
      intro candidate member
      rcases List.mem_cons.mp member with rfl | later
      · rw [constructor_of_candidate? made]
        exact List.mem_cons_self
      · exact List.mem_cons_of_mem _ (ih candidate later)

theorem declares_of_build (built : build types classId position keyOf = .ok table) :
    ∀ candidate ∈ table.candidates, types.DeclaresConstructor candidate.constructor := by
  obtain ⟨decl, candidates, found, -, listed, rfl⟩ := build_ok built
  intro candidate member
  rw [List.mem_mergeSort] at member
  exact ⟨decl, List.mem_of_find?_eq_some found,
    constructor_mem (candidate?_of_mapM listed) candidate member⟩

/-! ## Arms -/

theorem mem_distinctKeys {candidates : List Candidate} {candidate : Candidate} :
    candidate ∈ distinctKeys candidates ↔
      candidates.find? (·.key == candidate.key) = some candidate := by
  induction candidates with
  | nil => simp [distinctKeys]
  | cons first rest ih =>
      by_cases same : first.key = candidate.key
      · have found : (first :: rest).find? (·.key == candidate.key) = some first := by
          simp [same]
        rw [found, distinctKeys, List.mem_cons, List.mem_filter]
        constructor
        · rintro (rfl | ⟨-, other⟩)
          · rfl
          · simp [same] at other
        · intro equal
          exact .inl (Option.some.inj equal).symm
      · have found : (first :: rest).find? (·.key == candidate.key) =
            rest.find? (·.key == candidate.key) := by
          simp [same]
        rw [found, ← ih, distinctKeys, List.mem_cons, List.mem_filter]
        constructor
        · rintro (rfl | ⟨member, -⟩)
          · exact absurd rfl same
          · exact member
        · intro member
          exact .inr ⟨member, by simpa using fun equal => same equal.symm⟩

theorem nodup_distinctKeys (candidates : List Candidate) :
    ((distinctKeys candidates).map (·.key)).Nodup := by
  induction candidates with
  | nil => simp [distinctKeys]
  | cons first rest ih =>
      rw [distinctKeys, List.map_cons, List.nodup_cons]
      constructor
      · simp
      · exact List.Nodup.sublist (List.Sublist.map _ List.filter_sublist) ih

variable {candidate : Candidate}

/-- The arms are the candidates that their own key leads to. -/
theorem mem_arms : candidate ∈ table.arms ↔
    table.candidates.find? (·.key == candidate.key) = some candidate := by
  rw [arms, List.mem_mergeSort, mem_distinctKeys]

theorem nodup_arms (table : CandidateTable) : (table.arms.map (·.key)).Nodup :=
  ((List.mergeSort_perm _ _).map _).nodup_iff.mpr (nodup_distinctKeys table.candidates)

theorem mem_candidates_of_arms (member : candidate ∈ table.arms) :
    candidate ∈ table.candidates :=
  List.mem_of_find?_eq_some (mem_arms.mp member)

/-- The candidate that a key leads to is the arm of the key. -/
theorem mem_arms_of_find? {key : Int32}
    (found : table.candidates.find? (·.key == key) = some candidate) :
    candidate ∈ table.arms := by
  have same : candidate.key = key := by simpa using List.find?_some found
  rw [mem_arms, same]
  exact found

/-- A key leads to one position among the arms, where the first candidate with this key
stands. -/
theorem findIdx?_arms_of_find? {key : Int32}
    (found : table.candidates.find? (·.key == key) = some candidate) : ∃ position,
      table.arms.findIdx? (·.key == key) = some position ∧
        table.arms[position]? = some candidate := by
  have member := mem_arms_of_find? found
  have same : candidate.key = key := by simpa using List.find?_some found
  cases lookup : table.arms.findIdx? (·.key == key) with
  | none =>
      have absent := List.findIdx?_eq_none_iff.mp lookup candidate member
      simp [same] at absent
  | some position =>
      obtain ⟨bound, matched, -⟩ := List.findIdx?_eq_some_iff_getElem.mp lookup
      refine ⟨position, rfl, ?_⟩
      have equal : table.arms[position].key = candidate.key := by
        rw [same]
        simpa using matched
      rw [List.getElem?_eq_getElem bound, List.inj_on_of_nodup_map (nodup_arms table)
        (List.getElem_mem bound) member equal]

theorem findIdx?_arms_eq_none {key : Int32}
    (absent : table.candidates.find? (·.key == key) = none) :
    table.arms.findIdx? (·.key == key) = none := by
  rw [List.findIdx?_eq_none_iff]
  intro candidate member
  simpa using List.find?_eq_none.mp absent candidate (mem_candidates_of_arms member)

theorem uniqueOfArity_some {count : Nat} {candidate : Candidate}
    (unique : table.uniqueOfArity count = some candidate) :
    candidate ∈ table.candidates ∧ candidate.constructor.params.length = count := by
  unfold uniqueOfArity at unique
  split at unique
  · rename_i only alone
    cases unique
    have member : candidate ∈ table.candidates.filter
        (·.constructor.params.length == count) := by
      rw [alone]
      exact List.mem_singleton_self _
    simpa using List.mem_filter.mp member
  · cases unique

/-- Candidates in the order of their descriptors. -/
theorem sorted_mergeSort (candidates : List Candidate) :
    (candidates.mergeSort fun first second =>
      decide (first.descriptor ≤ second.descriptor)).Pairwise fun first second =>
        first.descriptor ≤ second.descriptor := by
  let inOrder (first second : Candidate) : Bool := decide (first.descriptor ≤ second.descriptor)
  have transitive : ∀ first second third, inOrder first second → inOrder second third →
      inOrder first third := by
    intro first second third below above
    simp only [inOrder, decide_eq_true_eq] at below above ⊢
    exact String.le_trans below above
  have total : ∀ first second, inOrder first second || inOrder second first := by
    intro first second
    simpa [inOrder] using String.le_total first.descriptor second.descriptor
  simpa [inOrder] using List.pairwise_mergeSort transitive total candidates

/-- The candidates of a built table are in the order of their descriptors. -/
theorem sorted_of_build (built : build types classId position keyOf = .ok table) :
    table.candidates.Pairwise fun first second => first.descriptor ≤ second.descriptor := by
  obtain ⟨decl, candidates, -, -, -, rfl⟩ := build_ok built
  exact sorted_mergeSort candidates

end CandidateTable

end CallCode
