import CallCode.Proofs.ConstantIndices

/-!
# Histories of a constant pool

A pool only grows, and has each constant once.  So an index that was returned for a constant
leads to that constant in every later pool, and a constant that is added again, however
much later, is answered with the same index.
-/

namespace CallCode

/-- The calls that add a constant to a pool. -/
inductive PoolCall
  | add (constant : Constant)
  | addInt (value : Int64)
  | addString (value : String)
  | addType (id : Identity)
  | addMember (owner id : Identity)

/-- Every call adds one constant. -/
def PoolCall.constant : PoolCall → Constant
  | add constant => constant
  | addInt value => .int value
  | addString value => .ofString value
  | addType id => .type id
  | addMember owner id => .member owner id

namespace ConstantPool

/-- The index that a call returns, which has 32 bits, and the pool after the call. -/
def answer (pool : ConstantPool) (call : PoolCall) : UInt32 × ConstantPool :=
  ((pool.add call.constant).1.toUInt32, (pool.add call.constant).2)

/-- The indices that calls return one after the other, and the pool after all of them. -/
def answers (pool : ConstantPool) : List PoolCall → List UInt32 × ConstantPool
  | [] => ([], pool)
  | call :: calls =>
      ((pool.answer call).1 :: ((pool.answer call).2.answers calls).1,
        ((pool.answer call).2.answers calls).2)

/-! ## One call -/

section Call

variable {pool : ConstantPool} {constant added : Constant} {place : Nat}

theorem lt_size_of_get? (found : pool.get? place = some constant) : place < pool.size :=
  (Array.getElem?_eq_some_iff.mp found).1

theorem mem_constants_add :
    constant ∈ (pool.add added).2.constants ↔ constant ∈ pool.constants ∨ constant = added := by
  by_cases there : ∃ place, pool.get? place = some added
  · obtain ⟨place, found⟩ := there
    have among : added ∈ pool.constants := Array.mem_of_getElem? found
    rw [add_of_get? found]
    constructor
    · exact .inl
    · rintro (old | rfl)
      · exact old
      · exact among
  · obtain ⟨-, pushed⟩ := add_of_absent (not_exists.mp there)
    rw [pushed, Array.mem_push]

theorem nodup_constants (pool : ConstantPool) : pool.constants.toList.Nodup := by
  rw [List.nodup_iff_getElem?_ne_getElem?]
  intro first second before inside same
  simp only [Array.length_toList] at inside
  have stands : pool.get? second = some pool.constants[second] :=
    Array.getElem?_eq_getElem inside
  have also : pool.get? first = some pool.constants[second] := by
    rw [get?, ← Array.getElem?_toList, same, Array.getElem?_toList]
    exact stands
  exact absurd (place_unique also stands) (Nat.ne_of_lt before)

end Call

/-! ## Many calls -/

theorem answers_within (pool : ConstantPool) (calls : List PoolCall) :
    pool.Within (pool.answers calls).2 := by
  induction calls generalizing pool with
  | nil => exact .refl pool
  | cons call calls ih => exact (pool.add_within call.constant).trans (ih _)

theorem mem_constants_answers (pool : ConstantPool) (calls : List PoolCall)
    (constant : Constant) :
    constant ∈ (pool.answers calls).2.constants ↔
      constant ∈ pool.constants ∨ ∃ call ∈ calls, call.constant = constant := by
  induction calls generalizing pool with
  | nil => simp [answers]
  | cons call calls ih =>
      rw [answers, ih, answer, mem_constants_add, List.exists_mem_cons_iff, or_assoc,
        eq_comm (a := constant)]

theorem size_answers_le (pool : ConstantPool) (calls : List PoolCall) :
    (pool.answers calls).2.size ≤ pool.size + calls.length := by
  induction calls generalizing pool with
  | nil => exact Nat.le_refl _
  | cons call calls ih =>
      have rest := ih (pool.answer call).2
      have first : (pool.answer call).2.size ≤ pool.size + 1 := pool.size_add_le call.constant
      simp only [answers, List.length_cons]
      omega

/-- While the pool is small enough for its indices, each index that was returned leads to
the constant of its call. -/
theorem denotes_answers {pool : ConstantPool} {calls : List PoolCall}
    (few : (pool.answers calls).2.size ≤ UInt32.size) :
    List.Forall₂ (fun call index =>
        (pool.answers calls).2.get? index.toNat = some call.constant)
      calls (pool.answers calls).1 := by
  induction calls generalizing pool with
  | nil => exact .nil
  | cons call calls ih =>
      refine .cons ?_ (ih few)
      have within := (pool.answer call).2.answers_within calls
      have found := within.get? (pool.get?_add call.constant)
      have narrow : (pool.add call.constant).1 < UInt32.size :=
        Nat.lt_of_lt_of_le (lt_size_of_get? found) few
      have whole : (pool.answer call).1.toNat = (pool.add call.constant).1 :=
        UInt32.toNat_ofNat_of_lt' narrow
      rw [whole]
      exact found

/-- A pool in which calls were answered is a table of their constants. -/
structure Tabulates (pool : ConstantPool) (calls : List PoolCall) (indices : List UInt32)
    (after : ConstantPool) : Prop where
  /-- No constant stands twice. -/
  distinct : after.constants.toList.Nodup
  /-- The index knows the position of each constant, and nothing else. -/
  indexed : ∀ (constant : Constant) (position : Nat),
    after.index[constant]? = some position ↔ after.constants[position]? = some constant
  /-- The constants that were there stay where they are. -/
  appended : pool.constants.toList <+: after.constants.toList
  /-- The others are those of the calls. -/
  held : ∀ constant, constant ∈ after.constants ↔
    constant ∈ pool.constants ∨ ∃ call ∈ calls, call.constant = constant
  /-- What was returned leads to the constant of its call, whatever is added later. -/
  denotes : ∀ later, List.Forall₂ (fun call index =>
    (after.answers later).2.get? index.toNat = some call.constant) calls indices
  /-- What is there is answered with its place, and is not added again. -/
  again : ∀ constant position, after.get? position = some constant →
    after.add constant = (position, after)
  /-- Two calls return the same index exactly if they add the same constant. -/
  same_index : ∀ first ∈ calls.zip indices, ∀ second ∈ calls.zip indices,
    first.2 = second.2 ↔ first.1.constant = second.1.constant

/-- Indices that lead to the constants of their calls are the same for the same constants
only. -/
theorem same_index_iff {pool : ConstantPool} {calls : List PoolCall} {indices : List UInt32}
    (denote : List.Forall₂ (fun call index => pool.get? index.toNat = some call.constant)
      calls indices)
    {first second : PoolCall × UInt32} (one : first ∈ calls.zip indices)
    (other : second ∈ calls.zip indices) :
    first.2 = second.2 ↔ first.1.constant = second.1.constant := by
  have firstFound := (List.forall₂_iff_zip.mp denote).2 one
  have secondFound := (List.forall₂_iff_zip.mp denote).2 other
  constructor
  · intro same
    rw [same, secondFound] at firstFound
    exact (Option.some.inj firstFound).symm
  · intro same
    rw [same] at firstFound
    exact UInt32.toNat_inj.mp (place_unique firstFound secondFound)

/-- Whatever calls add to a pool, and in whatever order, the pool is a table of constants
without duplicates that is only appended to, and its indices tell the constants apart. -/
theorem tabulates_answers (pool : ConstantPool) (calls : List PoolCall)
    (few : (pool.answers calls).2.size ≤ UInt32.size) :
    pool.Tabulates calls (pool.answers calls).1 (pool.answers calls).2 where
  distinct := nodup_constants _
  indexed := (pool.answers calls).2.index_spec
  appended := pool.answers_within calls
  held := pool.mem_constants_answers calls
  denotes later := (denotes_answers few).imp fun _ _ found =>
    ((pool.answers calls).2.answers_within later).get? found
  again _ _ := add_of_get?
  same_index _ one _ other := same_index_iff (denotes_answers few) one other

/-- A name, a member of two owners, and the name again. -/
theorem tabulates_answers_of_members :
    let calls : List PoolCall :=
      [.addString "m", .addMember ⟨1⟩ ⟨5⟩, .addMember ⟨2⟩ ⟨5⟩, .addString "m"]
    let answers := ({} : ConstantPool).answers calls
    answers.2.size ≤ UInt32.size ∧
      ConstantPool.Tabulates {} calls answers.1 answers.2 := by
  intro calls answers
  have few : answers.2.size ≤ UInt32.size :=
    Nat.le_trans (size_answers_le {} calls) (by decide)
  exact ⟨few, tabulates_answers {} calls few⟩

end ConstantPool

end CallCode
