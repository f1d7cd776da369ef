import CallCode.TypeTable.Hierarchy
import CallCode.Proofs.RegisteredTypes
import Mathlib.Data.List.Induction
import Mathlib.Data.List.TakeWhile
import Mathlib.Logic.Relation
import Mathlib.Order.WellFounded

/-!
# The type hierarchy is well-founded

A type names only supertypes that are registered before it.  So the links between types
neither dangle nor run in a circle, whatever was offered for registration, and a search
that follows them ends without a set of visited types.
-/

namespace CallCode

namespace TypeTable

/-- The table after a declaration is offered for registration; a rejected declaration
leaves no trace. -/
def offer (table : TypeTable) (decl : TypeDecl) : TypeTable :=
  match table.register decl with
  | .ok later => later
  | .error _ => table

/-- The table after declarations are offered one after another, beginning with the built-in
types or with none. -/
def offered (builtins : Bool) (decls : List TypeDecl) : TypeTable :=
  decls.foldl offer (if builtins then builtin else empty)

/-- One registered type names another as its superclass or among its interfaces. -/
def Links (table : TypeTable) (sub super : Identity) : Prop :=
  ∃ decl, table.find? sub = some decl ∧ super ∈ decl.supertypes

/-- Every link leads to a registered type. -/
def LinksClosed (table : TypeTable) : Prop :=
  ∀ sub super, table.Links sub super → table.contains super = true

/-- No walk along the links returns to the type it came from. -/
def LinksAcyclic (table : TypeTable) : Prop :=
  ∀ id, ¬ Relation.TransGen table.Links id id

/-! ## Searches along the links

The searches look every type up in the whole table.  One that has not ended at a given depth
has no answer. -/

/-- The superclass chain from a declaration upwards. -/
def chainFrom (table : TypeTable) : Nat → Option TypeDecl → Option (List TypeDecl)
  | _, none => some []
  | 0, some _ => none
  | depth + 1, some decl => do
      let rest ← chainFrom table depth (decl.superclass.bind table.find?)
      some (decl :: rest)

/-- Whether a declaration, or an interface that it names, declares `interface`. -/
def declaresFrom (table : TypeTable) (interface : Identity) : Nat → TypeDecl → Option Bool
  | 0, _ => none
  | depth + 1, decl =>
      decl.interfaces.anyM fun declared =>
        if declared == interface then some true
        else match table.find? declared with
          | some parent => declaresFrom table interface depth parent
          | none => some false

/-- The single abstract method of an interface or of the one interface that it extends. -/
def abstractMethodFrom (table : TypeTable) : Nat → Identity → Option (Option Method)
  | 0, _ => none
  | depth + 1, id =>
      match table.find? id with
      | none => some none
      | some decl =>
          if decl.isInterface then
            match decl.ownAbstractMethod, decl.interfaces with
            | some method, _ => some (some method)
            | none, [extended] => abstractMethodFrom table depth extended
            | none, _ => some none
          else some none

/-- Without an order among the types a search may not end: the chain of a class that is
its own superclass has no answer at any depth. -/
theorem chainFrom_eq_none {table : TypeTable} {decl : TypeDecl}
    (self : decl.superclass.bind table.find? = some decl) (depth : Nat) :
    table.chainFrom depth (some decl) = none := by
  induction depth with
  | zero => rfl
  | succ depth ih => rw [chainFrom, self, ih]; rfl

/-! ## The order of registration -/

/-- Newest first, each declaration is of a new type and names older supertypes only. -/
inductive Grounded : List TypeDecl → Prop
  | nil : Grounded []
  | cons {decl : TypeDecl} {older : List TypeDecl} : Grounded older →
      (∀ other ∈ older, other.id ≠ decl.id) →
      (∀ super ∈ decl.supertypes, ∃ other ∈ older, other.id = super) →
      Grounded (decl :: older)

variable {table later : TypeTable} {decl : TypeDecl} {id : Identity}

theorem contains_iff : table.contains id = true ↔ ∃ decl ∈ table.decls, decl.id = id := by
  simp [contains, find?, List.find?_isSome]

/-- What registration checks, and all that it does. -/
theorem register_eq_ok_iff :
    table.register decl = .ok later ↔
      later = table.insert decl ∧ (∀ other ∈ table.decls, other.id ≠ decl.id) ∧
        (∀ other ∈ table.decls, other.name ≠ decl.name) ∧
        ∀ super ∈ decl.supertypes, table.contains super = true := by
  unfold register
  split
  · rename_i known
    simp only [reduceCtorEq, false_iff]
    rintro ⟨-, newId, newName, -⟩
    rw [Bool.or_eq_true, contains_iff] at known
    rcases known with ⟨other, member, same⟩ | named
    · exact newId other member same
    · obtain ⟨other, member, same⟩ := List.find?_isSome.mp named
      exact newName other member (by simpa using same)
  · rename_i unknown
    rw [Bool.or_eq_true, not_or, contains_iff, Bool.not_eq_true, Option.isSome_eq_false_iff,
      Option.isNone_iff_eq_none] at unknown
    have newId : ∀ other ∈ table.decls, other.id ≠ decl.id :=
      fun other member same => unknown.1 ⟨other, member, same⟩
    have newName : ∀ other ∈ table.decls, other.name ≠ decl.name :=
      fun other member => by simpa using List.find?_eq_none.mp unknown.2 other member
    split
    · rename_i missing found
      have absent := List.find?_some found
      simp only [reduceCtorEq, false_iff]
      rintro ⟨-, -, -, known⟩
      simp [known missing (List.mem_of_find?_eq_some found)] at absent
    · rename_i none_missing
      have known : ∀ super ∈ decl.supertypes, table.contains super = true :=
        fun super member => by simpa using List.find?_eq_none.mp none_missing super member
      rw [Except.ok.injEq, eq_comm]
      exact (and_iff_left ⟨newId, newName, known⟩).symm

theorem offer_eq (table : TypeTable) (decl : TypeDecl) :
    table.offer decl = table ∨ table.register decl = .ok (table.offer decl) := by
  unfold offer
  split
  · exact .inr ‹_›
  · exact .inl rfl

/-- The built-in types pass the checks of registration, which they are not put to. -/
theorem offered_builtins (decls : List TypeDecl) :
    offered true decls = offered false (Builtin.decls ++ decls) := by
  have pass : Builtin.decls.foldl offer empty = builtin := by rfl
  calc offered true decls
      = decls.foldl offer (Builtin.decls.foldl offer empty) := congrArg (decls.foldl offer) pass.symm
    _ = offered false (Builtin.decls ++ decls) := List.foldl_append.symm

/-- What holds of no declarations, and stays when one is registered, holds of every table
that offers lead to. -/
theorem offered_induction {motive : TypeTable → Prop} (empty : motive empty)
    (register : ∀ table decl later, motive table → table.register decl = .ok later →
      motive later) (builtins : Bool) (decls : List TypeDecl) :
    motive (offered builtins decls) := by
  have start (decls : List TypeDecl) : motive (offered false decls) := by
    -- the table is the one before the last offer, so the last one is taken off
    induction decls using List.reverseRecOn with
    | nil => exact empty
    | append_singleton decls decl ih =>
        have last : offered false (decls ++ [decl]) = (offered false decls).offer decl := by
          simp [offered]
        rcases offer_eq (offered false decls) decl with same | registers
        · rw [last, same]
          exact ih
        · rw [last]
          exact register _ _ _ ih registers
  cases builtins with
  | false => exact start decls
  | true => exact offered_builtins decls ▸ start _

/-- A registered declaration was there at the start or was offered. -/
theorem mem_foldl_offer {decls : List TypeDecl}
    (member : decl ∈ (decls.foldl offer table).decls) : decl ∈ table.decls ∨ decl ∈ decls := by
  induction decls generalizing table with
  | nil => exact .inl member
  | cons first decls ih =>
      rcases ih member with before | later
      · rcases offer_eq table first with same | registers
        · exact .inl (same ▸ before)
        · rw [(register_eq_ok_iff.mp registers).1] at before
          rcases List.mem_cons.mp before with rfl | old
          · exact .inr List.mem_cons_self
          · exact .inl old
      · exact .inr (List.mem_cons_of_mem first later)

theorem mem_offered {builtins : Bool} {decls : List TypeDecl}
    (member : decl ∈ (offered builtins decls).decls) : decl ∈ Builtin.decls ∨ decl ∈ decls := by
  rcases mem_foldl_offer member with start | given
  · cases builtins with
    | false => simp [empty] at start
    | true =>
        have whole : builtin.decls = Builtin.decls.reverse := by rfl
        exact .inl (List.mem_reverse.mp (whole ▸ start))
  · exact .inr given

namespace Grounded

theorem register (grounded : Grounded table.decls) (registers : table.register decl = .ok later) :
    Grounded later.decls := by
  obtain ⟨rfl, newId, -, known⟩ := register_eq_ok_iff.mp registers
  exact .cons grounded newId fun super member => contains_iff.mp (known super member)

theorem offered (builtins : Bool) (decls : List TypeDecl) :
    Grounded (offered builtins decls).decls :=
  offered_induction (motive := fun table => Grounded table.decls) .nil
    (fun _ _ _ grounded registers => grounded.register registers) builtins decls

variable {decls : List TypeDecl}

theorem nodup_ids (grounded : Grounded decls) : (decls.map (·.id)).Nodup := by
  induction grounded with
  | nil => exact List.nodup_nil
  | cons _ newId _ ih => exact List.nodup_cons.mpr ⟨by simpa using newId, ih⟩

/-- A registered type stands between newer declarations, of other types, and older ones,
among which are all its supertypes. -/
theorem split (grounded : Grounded decls) (found : decls.find? (·.id == id) = some decl) :
    ∃ newer older, decls = newer ++ decl :: older ∧ decl.id = id ∧
      (∀ other ∈ newer, other.id ≠ id) ∧
      ∀ super ∈ decl.supertypes, (∃ other ∈ older, other.id = super) ∧
        ∀ other ∈ newer ++ [decl], other.id ≠ super := by
  induction grounded with
  | nil => simp at found
  | @cons newest older _ newId known ih =>
      rw [List.find?_cons] at found
      split at found
      · rename_i same
        cases found
        refine ⟨[], older, rfl, by simpa using same, by simp, fun super member => ?_⟩
        obtain ⟨other, among, named⟩ := known super member
        exact ⟨⟨other, among, named⟩, by simpa [← named] using (newId other among).symm⟩
      · rename_i different
        obtain ⟨newer, oldest, rfl, named, others, supers⟩ := ih found
        refine ⟨newest :: newer, oldest, rfl, named, ?_, fun super member => ?_⟩
        · simpa using ⟨by simpa using different, others⟩
        · obtain ⟨⟨other, among, same⟩, absent⟩ := supers super member
          refine ⟨⟨other, among, same⟩, ?_⟩
          simpa [← same] using ⟨(newId other (by simp [among])).symm, by simpa [same] using absent⟩

end Grounded

/-! ## Equations over the whole table

The searches of the hierarchy recurse on the list of declarations.  In a table that grew by
registration this comes to the same as looking each supertype up in the whole table. -/

/-- A search passes over the declarations of other types. -/
def SkipsOthers {answer : Type} (search : List TypeDecl → Identity → answer) : Prop :=
  ∀ decl older id, decl.id ≠ id → search (decl :: older) id = search older id

theorem skipsOthers_chainIn : SkipsOthers chainIn := by
  intro decl older id other
  simp [chainIn, other]

theorem skipsOthers_declaresIn (interface : Identity) : SkipsOthers (declaresIn interface) := by
  intro decl older id other
  simp [declaresIn, other]

theorem skipsOthers_abstractMethodIn : SkipsOthers abstractMethodIn := by
  intro decl older id other
  simp [abstractMethodIn, other]

namespace SkipsOthers

variable {answer : Type} {search : List TypeDecl → Identity → answer}

theorem append (skips : SkipsOthers search) {newer older : List TypeDecl}
    (others : ∀ other ∈ newer, other.id ≠ id) : search (newer ++ older) id = search older id := by
  induction newer with
  | nil => rfl
  | cons newest newer ih =>
      rw [List.forall_mem_cons] at others
      rw [List.cons_append, skips _ _ _ others.1, ih others.2]

theorem unknown (skips : SkipsOthers search) (unknown : table.find? id = none) :
    search table.decls id = search [] id := by
  have others : ∀ other ∈ table.decls, other.id ≠ id :=
    fun other member => by simpa using List.find?_eq_none.mp unknown other member
  have passed : search (table.decls ++ []) id = search [] id := skips.append others
  rwa [List.append_nil] at passed

/-- From the declaration of a type the search goes on among older ones, where the answer
for each supertype is that of the whole table. -/
theorem known (skips : SkipsOthers search) (grounded : Grounded table.decls)
    (found : table.find? id = some decl) :
    ∃ older, search table.decls id = search (decl :: older) id ∧
      ∀ super ∈ decl.supertypes, search older super = search table.decls super := by
  obtain ⟨newer, older, whole, -, others, supers⟩ := grounded.split found
  refine ⟨older, ?_, fun super member => ?_⟩
  · rw [whole, skips.append others]
  · have passed : search (newer ++ [decl] ++ older) super = search older super :=
      skips.append (supers super member).2
    rw [whole, ← passed, List.append_assoc, List.singleton_append]

end SkipsOthers

namespace Grounded

variable (grounded : Grounded table.decls)
include grounded

theorem superclassChain_eq (id : Identity) :
    table.superclassChain id =
      (table.find? id).elim [] fun decl =>
        decl :: decl.superclass.elim [] table.superclassChain := by
  cases found : table.find? id with
  | none => exact skipsOthers_chainIn.unknown found
  | some decl =>
      obtain ⟨older, begins, supers⟩ := skipsOthers_chainIn.known grounded found
      rw [superclassChain, begins, chainIn, if_pos (id_of_find? found), Option.elim_some]
      cases declared : decl.superclass with
      | none => rfl
      | some super =>
          have superChain := supers super (by simp [TypeDecl.supertypes, declared])
          exact congrArg (decl :: ·) superChain

theorem declaresIn_eq (interface id : Identity) :
    declaresIn interface table.decls id =
      (table.find? id).any fun decl =>
        decl.interfaces.any fun declared =>
          declared == interface || declaresIn interface table.decls declared := by
  have skips := skipsOthers_declaresIn interface
  cases found : table.find? id with
  | none => exact skips.unknown found
  | some decl =>
      obtain ⟨older, begins, supers⟩ := skips.known grounded found
      rw [begins, declaresIn, if_pos (id_of_find? found), Option.any_some, Bool.eq_iff_iff,
        List.any_eq_true, List.any_eq_true]
      refine exists_congr fun declared => and_congr_right fun member => ?_
      rw [supers declared (by simp [TypeDecl.supertypes, member])]

theorem singleAbstractMethod_eq (id : Identity) :
    table.singleAbstractMethod id =
      (table.find? id).bind fun decl =>
        if decl.isInterface then
          match decl.ownAbstractMethod, decl.interfaces with
          | some method, _ => some method
          | none, [extended] => table.singleAbstractMethod extended
          | none, _ => none
        else none := by
  cases found : table.find? id with
  | none => exact skipsOthers_abstractMethodIn.unknown found
  | some decl =>
      obtain ⟨older, begins, supers⟩ := skipsOthers_abstractMethodIn.known grounded found
      rw [singleAbstractMethod, begins, abstractMethodIn, if_pos (id_of_find? found),
        Option.bind_some]
      split
      · cases decl.ownAbstractMethod with
        | some method => rfl
        | none =>
            rcases declared : decl.interfaces with _ | ⟨extended, _ | _⟩
            · rfl
            · exact supers extended (by simp [TypeDecl.supertypes, declared])
            · rfl
      · rfl

end Grounded

/-! ## Links and searches -/

/-- How many declarations there are up to that of a type, which it counts. -/
def rank (table : TypeTable) (id : Identity) : Nat :=
  (table.decls.dropWhile (·.id != id)).length

theorem rank_le (table : TypeTable) (id : Identity) : table.rank id ≤ table.typeCount :=
  (List.dropWhile_sublist _).length_le

theorem rank_pos (found : table.find? id = some decl) : 0 < table.rank id := by
  refine Nat.pos_of_ne_zero fun none => ?_
  have others := List.dropWhile_eq_nil_iff.mp (List.length_eq_zero_iff.mp none)
  have passed := others decl (List.mem_of_find?_eq_some found)
  simp [id_of_find? found] at passed

theorem skipsOthers_dropWhile :
    SkipsOthers fun decls id => (decls.dropWhile (·.id != id)).length := by
  intro decl older id other
  simp [other]

theorem chainIn_sublist (decls : List TypeDecl) (id : Identity) :
    (chainIn decls id).Sublist decls := by
  induction decls generalizing id with
  | nil => exact List.nil_sublist _
  | cons decl older ih =>
      rw [chainIn]
      split
      · cases decl.superclass with
        | none => exact (List.nil_sublist _).cons_cons decl
        | some super => exact (ih super).cons_cons decl
      · exact (ih id).cons decl

/-- A search that always answers finds out whether one of the items passes. -/
theorem anyM_eq_some_any {item : Type} {items : List item} {search : item → Option Bool}
    {passes : item → Bool} (answers : ∀ item ∈ items, search item = some (passes item)) :
    items.anyM search = some (items.any passes) := by
  induction items with
  | nil => rfl
  | cons item items ih =>
      rw [List.forall_mem_cons] at answers
      rw [List.anyM, answers.1, ih answers.2, List.any_cons]
      cases passes item <;> rfl

namespace Grounded

variable (grounded : Grounded table.decls)
include grounded

theorem rank_lt {sub super : Identity} (link : table.Links sub super) :
    table.rank super < table.rank sub := by
  obtain ⟨decl, found, member⟩ := link
  obtain ⟨older, begins, supers⟩ := skipsOthers_dropWhile.known grounded found
  calc table.rank super
      = (older.dropWhile (·.id != super)).length := (supers super member).symm
    _ ≤ older.length := (List.dropWhile_sublist _).length_le
    _ < (decl :: older).length := Nat.lt_succ_self _
    _ = table.rank sub := by rw [rank, begins]; simp [id_of_find? found]

theorem links_wellFounded : WellFounded fun super sub => table.Links sub super :=
  Subrelation.wf grounded.rank_lt (measure table.rank).wf

theorem linksAcyclic : table.LinksAcyclic := by
  intro id cycle
  have below {other : Identity} (path : Relation.TransGen table.Links id other) :
      table.rank other < table.rank id := by
    induction path with
    | single link => exact grounded.rank_lt link
    | tail _ link ih => exact (grounded.rank_lt link).trans ih
  exact (below cycle).false

theorem linksClosed : table.LinksClosed := by
  rintro sub super ⟨decl, found, member⟩
  obtain ⟨newer, older, whole, -, -, supers⟩ := grounded.split found
  obtain ⟨⟨other, among, same⟩, -⟩ := supers super member
  exact contains_iff.mpr ⟨other, by simp [whole, among], same⟩

theorem chainFrom_eq {id : Identity} {depth : Nat} (deep : table.rank id < depth) :
    table.chainFrom depth (table.find? id) = some (table.superclassChain id) := by
  induction depth generalizing id with
  | zero => exact absurd deep (Nat.not_lt_zero _)
  | succ depth ih =>
      rw [grounded.superclassChain_eq]
      cases found : table.find? id with
      | none => rfl
      | some decl =>
          rw [chainFrom, Option.elim_some]
          cases declared : decl.superclass with
          | none => rw [Option.bind_none, chainFrom]; rfl
          | some super =>
              have closer : table.rank super < table.rank id :=
                grounded.rank_lt ⟨decl, found, by simp [TypeDecl.supertypes, declared]⟩
              rw [Option.bind_some, ih (by omega)]
              rfl

/-- The interfaces that a declaration names are searched one level deeper. -/
theorem declaresFrom_succ {interface : Identity} {decl : TypeDecl} {depth : Nat}
    (parents : ∀ declared ∈ decl.interfaces, ∀ parent, table.find? declared = some parent →
      table.declaresFrom interface depth parent =
        some (declaresIn interface table.decls declared)) :
    table.declaresFrom interface (depth + 1) decl =
      some (decl.interfaces.any fun declared =>
        declared == interface || declaresIn interface table.decls declared) := by
  rw [declaresFrom]
  refine anyM_eq_some_any fun declared member => ?_
  by_cases same : declared == interface
  · simp [same]
  · cases found : table.find? declared with
    | none => simp [same, grounded.declaresIn_eq interface declared, found]
    | some parent => simpa [same] using parents declared member parent found

theorem declaresFrom_eq_declaresIn {interface id : Identity} {decl : TypeDecl} {depth : Nat}
    (found : table.find? id = some decl) (deep : table.rank id ≤ depth) :
    table.declaresFrom interface depth decl = some (declaresIn interface table.decls id) := by
  -- one level down the rank is smaller, so the depth that is left suffices there
  induction depth generalizing id decl with
  | zero => exact absurd (rank_pos found) (Nat.not_lt.mpr deep)
  | succ depth ih =>
      rw [grounded.declaresIn_eq interface id, found, Option.any_some]
      refine grounded.declaresFrom_succ fun declared member parent foundParent => ?_
      have closer : table.rank declared < table.rank id :=
        grounded.rank_lt ⟨decl, found, by simp [TypeDecl.supertypes, member]⟩
      exact ih foundParent (by omega)

/-- A search from any declaration ends, also from one that is not registered. -/
theorem declaresFrom_eq (interface : Identity) (decl : TypeDecl) {depth : Nat}
    (deep : table.typeCount < depth) :
    table.declaresFrom interface depth decl =
      some (decl.interfaces.any fun declared =>
        declared == interface || declaresIn interface table.decls declared) := by
  obtain ⟨depth, rfl⟩ := Nat.exists_eq_succ_of_ne_zero (Nat.ne_zero_of_lt deep)
  refine grounded.declaresFrom_succ fun declared _ parent found => ?_
  exact grounded.declaresFrom_eq_declaresIn found
    ((table.rank_le declared).trans (Nat.le_of_lt_succ deep))

theorem abstractMethodFrom_eq {id : Identity} {depth : Nat} (deep : table.rank id < depth) :
    table.abstractMethodFrom depth id = some (table.singleAbstractMethod id) := by
  induction depth generalizing id with
  | zero => exact absurd deep (Nat.not_lt_zero _)
  | succ depth ih =>
      rw [grounded.singleAbstractMethod_eq, abstractMethodFrom]
      cases found : table.find? id with
      | none => rfl
      | some decl =>
          by_cases interface : decl.isInterface = true
          · simp only [interface, ↓reduceIte, Option.bind_some]
            cases decl.ownAbstractMethod with
            | some method => rfl
            | none =>
                rcases declared : decl.interfaces with _ | ⟨extended, _ | _⟩
                · rfl
                · have closer : table.rank extended < table.rank id :=
                    grounded.rank_lt ⟨decl, found, by simp [TypeDecl.supertypes, declared]⟩
                  exact ih (by omega)
                · rfl
          · simp [interface]

/-- A chain keeps the order of the table, so it has no type twice. -/
theorem nodup_superclassChain (id : Identity) :
    ((table.superclassChain id).map (·.id)).Nodup :=
  grounded.nodup_ids.sublist ((chainIn_sublist table.decls id).map _)

end Grounded

/-- Whatever is offered for registration, the links between registered types form no cycle
and lead to registered types.  So each search that follows them ends no deeper than there
are types, with the answer of the hierarchy, and no superclass chain has a type twice or
outgrows the table. -/
theorem offered_wellFounded (builtins : Bool) (decls : List TypeDecl) :
    let table := offered builtins decls
    table.LinksAcyclic ∧ table.LinksClosed ∧
      (∀ depth > table.typeCount,
        (∀ id, table.chainFrom depth (table.find? id) = some (table.superclassChain id)) ∧
        (∀ interface decl, table.declaresFrom interface depth decl =
          some (decl.interfaces.any fun declared =>
            declared == interface || declaresIn interface table.decls declared)) ∧
        ∀ id, table.abstractMethodFrom depth id = some (table.singleAbstractMethod id)) ∧
      ∀ id, ((table.superclassChain id).map (·.id)).Nodup ∧
        (table.superclassChain id).length ≤ table.typeCount := by
  intro table
  have grounded : Grounded table.decls := .offered builtins decls
  refine ⟨grounded.linksAcyclic, grounded.linksClosed, fun depth deep => ⟨fun id => ?_,
    fun interface decl => grounded.declaresFrom_eq interface decl deep, fun id => ?_⟩,
    fun id => ⟨grounded.nodup_superclassChain id, (chainIn_sublist table.decls id).length_le⟩⟩
  · exact grounded.chainFrom_eq ((table.rank_le id).trans_lt deep)
  · exact grounded.abstractMethodFrom_eq ((table.rank_le id).trans_lt deep)

end TypeTable

end CallCode
