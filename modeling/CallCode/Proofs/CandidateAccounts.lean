import CallCode.Proofs.CandidateTable
import CallCode.Proofs.Descriptors

/-!
# What a table accounts for

The candidates of a table are the constructors of its class.  Whatever keys they have, each
candidate is either the arm of its key or the later part of one collision, with the candidate
that has the arm as the earlier part.
-/

namespace CallCode

namespace CandidateTable

/-- The position of the first candidate with a key. -/
def owner (table : CandidateTable) (key : Int32) : Nat :=
  table.candidates.findIdx (·.key == key)

/-- The candidate at a position is the arm of its key. -/
def HasArm (table : CandidateTable) (index : Nat) : Prop :=
  ∃ arm ∈ table.arms, table.owner arm.key = index

/-- The candidates of a table are the constructors of a class, in the order of their
descriptors, each with its key. -/
structure Lists (table : CandidateTable) (types : TypeTable) (keyOf : KeyFunction)
    (decl : TypeDecl) : Prop where
  constructors : (table.candidates.map (·.constructor)).Perm decl.constructors
  sorted : table.candidates.Pairwise fun first second => first.descriptor ≤ second.descriptor
  descriptor : ∀ candidate ∈ table.candidates,
    types.signatureDescriptor candidate.constructor.params = some candidate.descriptor
  key : ∀ candidate ∈ table.candidates, candidate.key = keyOf candidate.descriptor

/-- Every candidate of a table is accounted for, by an arm or by a collision. -/
structure Accounts (table : CandidateTable) : Prop where
  increasing : (table.arms.map (·.key)).Pairwise (· < ·)
  keys : ∀ key, key ∈ table.arms.map (·.key) ↔ key ∈ table.candidates.map (·.key)
  /-- An arm is the candidate at the lowest position with its key. -/
  arm : ∀ arm ∈ table.arms, table.candidates[table.owner arm.key]? = some arm ∧
    ∀ index candidate, table.candidates[index]? = some candidate → candidate.key = arm.key →
      table.owner arm.key ≤ index
  /-- The later parts of collisions are the candidates that have no arm, each once. -/
  hidden : ∀ index, index ∈ table.collisions.map (·.second) ↔
    index < table.candidates.length ∧ ¬table.HasArm index
  once : (table.collisions.map (·.second)).Nodup
  /-- The earlier part of a collision is the candidate whose arm hides the later one. -/
  hides : ∀ collision ∈ table.collisions, collision.first < collision.second ∧
    ∃ candidate, table.candidates[collision.second]? = some candidate ∧
      collision.first = table.owner candidate.key
  total : table.arms.length + table.collisions.length = table.candidates.length

variable {table : CandidateTable} {index : Nat} {candidate : Candidate}

/-! ## First candidates -/

theorem owner_le (found : table.candidates[index]? = some candidate) :
    table.owner candidate.key ≤ index := by
  obtain ⟨bound, rfl⟩ := List.getElem?_eq_some_iff.mp found
  by_contra early
  have other := List.not_of_lt_findIdx (Nat.lt_of_not_le early)
  simp at other

theorem getElem?_owner (table : CandidateTable) (key : Int32) :
    table.candidates[table.owner key]? = table.candidates.find? (·.key == key) :=
  List.find?_eq_getElem?_findIdx.symm

theorem hasArm_iff :
    table.HasArm index ↔ ∃ candidate, table.candidates[index]? = some candidate ∧
      table.owner candidate.key = index := by
  constructor
  · rintro ⟨arm, member, rfl⟩
    exact ⟨arm, by rw [getElem?_owner, mem_arms.mp member], rfl⟩
  · rintro ⟨candidate, found, owned⟩
    refine ⟨candidate, mem_arms.mpr ?_, owned⟩
    rw [← getElem?_owner, owned, found]

theorem arm_eq_of_owner {arm other : Candidate} (member : arm ∈ table.arms)
    (another : other ∈ table.arms) (same : table.owner arm.key = table.owner other.key) :
    arm = other := by
  have found := mem_arms.mp member
  have otherFound := mem_arms.mp another
  rw [← getElem?_owner] at found otherFound
  rw [same, otherFound] at found
  exact (Option.some.inj found).symm

theorem mem_keys_arms {key : Int32} :
    key ∈ table.arms.map (·.key) ↔ key ∈ table.candidates.map (·.key) := by
  constructor
  · intro member
    obtain ⟨arm, among, rfl⟩ := List.mem_map.mp member
    exact List.mem_map_of_mem (mem_candidates_of_arms among)
  · intro member
    obtain ⟨candidate, among, rfl⟩ := List.mem_map.mp member
    have known : (table.candidates.find? (·.key == candidate.key)).isSome = true :=
      List.find?_isSome.mpr ⟨candidate, among, by simp⟩
    obtain ⟨arm, found⟩ := Option.isSome_iff_exists.mp known
    have same : arm.key = candidate.key := by simpa using List.find?_some found
    rw [← same]
    exact List.mem_map_of_mem (mem_arms_of_find? found)

theorem increasing_arms (table : CandidateTable) :
    (table.arms.map (·.key)).Pairwise (· < ·) := by
  let inOrder (first second : Candidate) : Bool := decide (first.key ≤ second.key)
  have transitive : ∀ first second third, inOrder first second → inOrder second third →
      inOrder first third := by
    intro first second third below above
    simp only [inOrder, decide_eq_true_eq] at below above ⊢
    exact Int32.le_trans below above
  have total : ∀ first second, inOrder first second || inOrder second first := by
    intro first second
    simpa [inOrder] using Int32.le_total first.key second.key
  have sorted : table.arms.Pairwise fun first second => first.key ≤ second.key := by
    unfold arms
    simpa [inOrder] using List.pairwise_mergeSort transitive total (distinctKeys table.candidates)
  have distinct := List.pairwise_map.mp (nodup_arms table)
  exact List.pairwise_map.mpr (sorted.imp₂ (fun _ _ => Int32.lt_of_le_of_ne) distinct)

/-! ## Collisions -/

/-- A key collides with its first occurrence among the keys before it. -/
theorem mem_collisionsAfter {earlier keys : List Int32} {collision : Collision} :
    collision ∈ collisionsAfter earlier keys ↔ ∃ index key, keys[index]? = some key ∧
      collision.second = earlier.length + index ∧
        (earlier ++ keys.take index).idxOf? key = some collision.first := by
  induction keys generalizing earlier with
  | nil => simp [collisionsAfter]
  | cons key keys ih =>
      have here : collision ∈ collisionsAfter earlier (key :: keys) ↔
          (collision.second = earlier.length ∧ earlier.idxOf? key = some collision.first) ∨
            collision ∈ collisionsAfter (earlier ++ [key]) keys := by
        obtain ⟨first, second⟩ := collision
        rw [collisionsAfter]
        cases lookup : earlier.idxOf? key with
        | none => simp
        | some found => simp [and_comm, eq_comm]
      rw [here, ih]
      constructor
      · rintro (⟨second, first⟩ | ⟨index, other, found, second, first⟩)
        · exact ⟨0, key, rfl, second, by simpa using first⟩
        · refine ⟨index + 1, other, found, ?_, by simpa using first⟩
          simp only [second, List.length_append, List.length_singleton]
          omega
      · rintro ⟨index, other, found, second, first⟩
        cases index with
        | zero =>
            cases found
            exact .inl ⟨second, by simpa using first⟩
        | succ index =>
            refine .inr ⟨index, other, found, ?_, by simpa using first⟩
            simp only [second, List.length_append, List.length_singleton]
            omega

theorem increasing_collisionsAfter (earlier keys : List Int32) :
    ((collisionsAfter earlier keys).map (·.second)).Pairwise (· < ·) := by
  induction keys generalizing earlier with
  | nil => exact .nil
  | cons key keys ih =>
      rw [collisionsAfter]
      split
      · refine List.pairwise_cons.mpr ⟨fun second member => ?_, ih _⟩
        obtain ⟨collision, among, rfl⟩ := List.mem_map.mp member
        obtain ⟨index, _, -, behind, -⟩ := mem_collisionsAfter.mp among
        simp only [List.length_append, List.length_singleton] at behind ⊢
        omega
      · exact ih _

/-- The first occurrence of a key among those in front is its owner, if that is there. -/
theorem idxOf?_take_keys {first : Nat} (found : table.candidates[index]? = some candidate) :
    ((table.candidates.map (·.key)).take index).idxOf? candidate.key = some first ↔
      first = table.owner candidate.key ∧ first < index := by
  have bound : index < table.candidates.length := (List.getElem?_eq_some_iff.mp found).1
  rw [List.idxOf?, List.findIdx?_take, List.findIdx?_map, Option.bind_eq_some_iff]
  simp only [List.findIdx?_eq_some_iff_findIdx_eq, Option.guard_eq_some_iff, decide_eq_true_eq]
  constructor
  · rintro ⟨position, ⟨-, owned⟩, rfl, early⟩
    exact ⟨owned.symm, early⟩
  · rintro ⟨rfl, early⟩
    exact ⟨_, ⟨Nat.lt_trans early bound, rfl⟩, rfl, early⟩

theorem mem_collisions {collision : Collision} :
    collision ∈ table.collisions ↔ ∃ candidate,
      table.candidates[collision.second]? = some candidate ∧
        collision.first = table.owner candidate.key ∧ collision.first < collision.second := by
  rw [collisions, mem_collisionsAfter]
  simp only [List.length_nil, Nat.zero_add, List.nil_append]
  constructor
  · rintro ⟨index, key, known, second, first⟩
    rw [List.getElem?_map, Option.map_eq_some_iff] at known
    obtain ⟨candidate, found, rfl⟩ := known
    rw [second]
    exact ⟨candidate, found, (idxOf?_take_keys found).mp first⟩
  · rintro ⟨candidate, found, owned⟩
    refine ⟨collision.second, candidate.key, ?_, rfl, (idxOf?_take_keys found).mpr owned⟩
    rw [List.getElem?_map, found, Option.map_some]

theorem mem_seconds_iff :
    index ∈ table.collisions.map (·.second) ↔
      index < table.candidates.length ∧ ¬table.HasArm index := by
  rw [List.mem_map, hasArm_iff]
  constructor
  · rintro ⟨collision, member, rfl⟩
    obtain ⟨candidate, found, first, early⟩ := mem_collisions.mp member
    refine ⟨(List.getElem?_eq_some_iff.mp found).1, fun ⟨other, again, owned⟩ => ?_⟩
    cases found.symm.trans again
    omega
  · rintro ⟨bound, armless⟩
    have found := List.getElem?_eq_getElem bound
    have early : table.owner table.candidates[index].key < index :=
      Nat.lt_of_le_of_ne (owner_le found) fun owned => armless ⟨_, found, owned⟩
    exact ⟨⟨_, index⟩, mem_collisions.mpr ⟨_, found, rfl, early⟩, rfl⟩

/-- The positions of the arms and the later parts of the collisions are all positions. -/
theorem perm_range (table : CandidateTable) :
    (table.arms.map (table.owner ·.key) ++ table.collisions.map (·.second)).Perm
      (List.range table.candidates.length) := by
  have positions : ∀ index, index ∈ table.arms.map (table.owner ·.key) ↔ table.HasArm index :=
    fun index => List.mem_map
  have arms : (table.arms.map (table.owner ·.key)).Nodup := by
    refine List.Nodup.map_on (fun arm member other another same => ?_) (nodup_arms table).of_map
    exact arm_eq_of_owner member another same
  have seconds : (table.collisions.map (·.second)).Nodup :=
    (increasing_collisionsAfter [] _).imp Nat.ne_of_lt
  have disjoint : ∀ index ∈ table.arms.map (table.owner ·.key),
      index ∉ table.collisions.map (·.second) := by
    intro index arm second
    exact (mem_seconds_iff.mp second).2 ((positions index).mp arm)
  refine (List.perm_ext_iff_of_nodup ?_ List.nodup_range).mpr fun index => ?_
  · exact arms.append seconds fun index arm second => disjoint index arm second
  · rw [List.mem_append, positions, mem_seconds_iff, List.mem_range]
    constructor
    · rintro (arm | ⟨bound, -⟩)
      · obtain ⟨candidate, found, -⟩ := hasArm_iff.mp arm
        exact (List.getElem?_eq_some_iff.mp found).1
      · exact bound
    · intro bound
      by_cases arm : table.HasArm index
      · exact .inl arm
      · exact .inr ⟨bound, arm⟩

/-- Whatever keys the candidates have, each is accounted for. -/
theorem accounts (table : CandidateTable) : table.Accounts where
  increasing := increasing_arms table
  keys _ := mem_keys_arms
  arm arm member := by
    refine ⟨by rw [getElem?_owner, mem_arms.mp member], fun index candidate found same => ?_⟩
    rw [← same]
    exact owner_le found
  hidden _ := mem_seconds_iff
  once := (increasing_collisionsAfter [] _).imp Nat.ne_of_lt
  hides collision member := by
    obtain ⟨candidate, found, first, early⟩ := mem_collisions.mp member
    exact ⟨early, candidate, found, first⟩
  total := by
    have all := (perm_range table).length_eq
    simpa using all

/-! ## Built tables -/

variable {types : TypeTable} {keyOf : KeyFunction} {classId : Identity} {decl : TypeDecl}
  {position : Position}

theorem candidate?_eq_some_iff {constructor : Constructor} :
    candidate? types keyOf constructor = some candidate ↔
      candidate.constructor = constructor ∧
        types.signatureDescriptor candidate.constructor.params = some candidate.descriptor ∧
          candidate.key = keyOf candidate.descriptor := by
  rw [candidate?, Option.bind_eq_bind, Option.bind_eq_some_iff]
  constructor
  · rintro ⟨descriptor, spelled, made⟩
    cases made
    exact ⟨rfl, spelled, rfl⟩
  · rintro ⟨rfl, spelled, key⟩
    exact ⟨_, spelled, by rw [← key]; rfl⟩

/-- The candidates for a row of constructors, before they are ordered. -/
theorem candidates_of_forall₂ {constructors : List Constructor} {candidates : List Candidate}
    (listed : List.Forall₂ (fun constructor candidate =>
      candidate? types keyOf constructor = some candidate) constructors candidates) :
    candidates.map (·.constructor) = constructors ∧ ∀ candidate ∈ candidates,
      types.signatureDescriptor candidate.constructor.params = some candidate.descriptor ∧
        candidate.key = keyOf candidate.descriptor := by
  induction listed with
  | nil => simp
  | cons made _ ih =>
      obtain ⟨rfl, spelled⟩ := candidate?_eq_some_iff.mp made
      obtain ⟨rfl, others⟩ := ih
      exact ⟨rfl, List.forall_mem_cons.mpr ⟨spelled, others⟩⟩

theorem lists_of_build (registered : types.find? classId = some decl)
    (built : build types classId position keyOf = .ok table) : table.Lists types keyOf decl := by
  have sorted := sorted_of_build built
  obtain ⟨_, candidates, found, -, listed, rfl⟩ := build_ok built
  cases registered.symm.trans found
  obtain ⟨constructors, each⟩ := candidates_of_forall₂ (candidate?_of_mapM listed)
  refine ⟨?_, sorted, fun candidate member => ?_, fun candidate member => ?_⟩
  · rw [← constructors]
    exact (List.mergeSort_perm _ _).map _
  · exact (each candidate (List.mem_mergeSort.mp member)).1
  · exact (each candidate (List.mem_mergeSort.mp member)).2

theorem exists_build_iff (registered : types.find? classId = some decl)
    (declared : decl.constructors ≠ []) :
    (∃ table, build types classId position keyOf = .ok table) ↔
      ∀ constructor ∈ decl.constructors, ∀ param ∈ constructor.params,
        types.contains param.type.base = true := by
  have each : ∀ constructor, (candidate? types keyOf constructor).isSome = true ↔
      ∀ param ∈ constructor.params, types.contains param.type.base = true := by
    intro constructor
    rw [← TypeTable.isSome_signatureDescriptor_iff]
    simp [candidate?, Option.isSome_bind]
  simp only [← each, ← isSome_mapM_iff, build, registered]
  rw [if_neg (by simpa using declared)]
  cases decl.constructors.mapM (candidate? types keyOf) with
  | none => simp
  | some candidates => simp

end CandidateTable

/-- The table of a class exists as soon as all the types of its constructors are registered.
It lists the constructors in the order of their descriptors, and accounts for each of them,
whatever keys they are given. -/
theorem constructors_accounted_for {types : TypeTable} {classId : Identity} {decl : TypeDecl}
    (registered : types.find? classId = some decl) (declared : decl.constructors ≠ [])
    (keyOf : KeyFunction) (position : Position) :
    ((∃ table, CandidateTable.build types classId position keyOf = .ok table) ↔
      ∀ constructor ∈ decl.constructors, ∀ param ∈ constructor.params,
        types.contains param.type.base = true) ∧
    ∀ table, CandidateTable.build types classId position keyOf = .ok table →
      table.Lists types keyOf decl ∧ table.Accounts :=
  ⟨CandidateTable.exists_build_iff registered declared,
    fun table built => ⟨CandidateTable.lists_of_build registered built, table.accounts⟩⟩

/-- A class that is constructed from nothing, from one instance or from two. -/
def pairedClass : TypeDecl where
  name := "P"
  id := ⟨1⟩
  kind := .classType
  constructors := [⟨⟨2⟩, ⟨1⟩, [], .openAccess⟩, ⟨⟨3⟩, ⟨1⟩, [⟨"a", .simple ⟨1⟩⟩], .openAccess⟩,
    ⟨⟨4⟩, ⟨1⟩, [⟨"a", .simple ⟨1⟩⟩, ⟨"b", .simple ⟨1⟩⟩], .openAccess⟩]

/-- One key for the constructor without parameters, and one for all others. -/
def pairedKey : KeyFunction := fun descriptor => if descriptor = "()V" then 7 else -3

/-- Of three candidates with two keys, the last one has no arm. -/
theorem constructors_accounted_for_pairs :
    ∃ table, CandidateTable.build ⟨[pairedClass]⟩ ⟨1⟩ .synthetic pairedKey = .ok table ∧
      table.Lists ⟨[pairedClass]⟩ pairedKey pairedClass ∧ table.Accounts ∧
      table.candidates.map (·.key) = [7, -3, -3] ∧ table.collisions = [⟨1, 2⟩] := by
  have found : TypeTable.find? ⟨[pairedClass]⟩ ⟨1⟩ = some pairedClass := rfl
  obtain ⟨exists_iff, accounted⟩ :=
    constructors_accounted_for found (by decide) pairedKey .synthetic
  obtain ⟨table, built⟩ := exists_iff.mpr (by decide)
  obtain ⟨lists, accounts⟩ := accounted table built
  have keys : table.candidates.map (·.key) = [7, -3, -3] := by
    let candidates : List Candidate := pairedClass.constructors.zipWith
      (fun constructor descriptor => ⟨constructor, descriptor, pairedKey descriptor⟩)
      ["()V", "(LP;)V", "(LP;LP;)V"]
    have listed : pairedClass.constructors.mapM
        (CandidateTable.candidate? ⟨[pairedClass]⟩ pairedKey) = some candidates := by
      decide +kernel
    have sorted : candidates.mergeSort (fun first second =>
        decide (first.descriptor ≤ second.descriptor)) = candidates :=
      List.mergeSort_of_pairwise (by decide +kernel)
    obtain ⟨_, _, again, -, listedAgain, rfl⟩ := CandidateTable.build_ok built
    cases found.symm.trans again
    cases listed.symm.trans listedAgain
    rw [sorted]
    decide
  refine ⟨table, built, lists, accounts, keys, ?_⟩
  rw [CandidateTable.collisions, keys]
  decide

end CallCode
