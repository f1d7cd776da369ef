import CallCode.Proofs.Machine.StackEffect
import CallCode.TypeTable.Builtin
import Mathlib.Data.List.Lattice
import Mathlib.Data.List.Nodup
import Mathlib.Data.List.Pairwise

/-!
# Distinct members

A member is found again under its identity only if no other member has that
identity.  Then a known method is not mistaken for a constructor, and a constructor
not for a method.
-/

namespace CallCode

/-- The identities of the members of a declaration. -/
def TypeDecl.memberIds (decl : TypeDecl) : List Identity :=
  decl.methods.map (·.id) ++ decl.constructors.map (·.id)

namespace TypeTable

/-- No two members of the declared types have the same identity. -/
def DistinctMembers (types : TypeTable) : Prop :=
  (types.decls.flatMap TypeDecl.memberIds).Nodup

instance (types : TypeTable) : Decidable types.DistinctMembers :=
  inferInstanceAs (Decidable (List.Nodup _))

/-- Some type declares the method. -/
def Declares (types : TypeTable) (method : Method) : Prop :=
  ∃ decl ∈ types.decls, method ∈ decl.methods

/-- Some type declares the constructor. -/
def DeclaresConstructor (types : TypeTable) (constructor : Constructor) : Prop :=
  ∃ decl ∈ types.decls, constructor ∈ decl.constructors

variable {types : TypeTable}

theorem method?_spec {id : Identity} {method : Method}
    (found : types.method? id = some method) : method.id = id ∧ types.Declares method := by
  obtain ⟨decl, member, inner⟩ := List.exists_of_findSome?_eq_some found
  refine ⟨by simpa using List.find?_some inner, decl, member, ?_⟩
  simpa using List.mem_of_find?_eq_some inner

theorem constructor?_spec {id : Identity} {constructor : Constructor}
    (found : types.constructor? id = some constructor) :
    constructor.id = id ∧ types.DeclaresConstructor constructor := by
  obtain ⟨decl, member, inner⟩ := List.exists_of_findSome?_eq_some found
  refine ⟨by simpa using List.find?_some inner, decl, member, ?_⟩
  simpa using List.mem_of_find?_eq_some inner

theorem isSome_method? {method : Method} (declared : types.Declares method) :
    (types.method? method.id).isSome = true := by
  obtain ⟨decl, member, inner⟩ := declared
  rw [method?, List.findSome?_isSome_iff]
  refine ⟨decl, member, ?_⟩
  rw [List.find?_isSome]
  exact ⟨method, by simpa using inner, by simp⟩

theorem isSome_constructor? {constructor : Constructor}
    (declared : types.DeclaresConstructor constructor) :
    (types.constructor? constructor.id).isSome = true := by
  obtain ⟨decl, member, inner⟩ := declared
  rw [constructor?, List.findSome?_isSome_iff]
  refine ⟨decl, member, ?_⟩
  rw [List.find?_isSome]
  exact ⟨constructor, by simpa using inner, by simp⟩

/-- Two declarations that share an identity are the same one. -/
theorem DistinctMembers.decl_eq (distinct : types.DistinctMembers) {first second : TypeDecl}
    (firstMember : first ∈ types.decls) (secondMember : second ∈ types.decls)
    {id : Identity} (inFirst : id ∈ first.memberIds) (inSecond : id ∈ second.memberIds) :
    first = second := by
  by_contra different
  have apart := (List.nodup_flatMap.mp distinct).2
  have symmetric : Std.Symm (Function.onFun List.Disjoint TypeDecl.memberIds) :=
    ⟨fun _ _ disjoint => List.Disjoint.symm disjoint⟩
  exact apart.forall firstMember secondMember different inFirst inSecond

theorem DistinctMembers.nodup (distinct : types.DistinctMembers) {decl : TypeDecl}
    (member : decl ∈ types.decls) : decl.memberIds.Nodup :=
  (List.nodup_flatMap.mp distinct).1 decl member

theorem DistinctMembers.id_ne (distinct : types.DistinctMembers) {method : Method}
    {constructor : Constructor} (declared : types.Declares method)
    (constructed : types.DeclaresConstructor constructor) : method.id ≠ constructor.id := by
  intro same
  obtain ⟨first, firstMember, inFirst⟩ := declared
  obtain ⟨second, secondMember, inSecond⟩ := constructed
  have methodId : method.id ∈ first.methods.map (·.id) := List.mem_map_of_mem inFirst
  have constructorId : method.id ∈ second.constructors.map (·.id) := by
    rw [same]
    exact List.mem_map_of_mem inSecond
  obtain rfl := distinct.decl_eq firstMember secondMember
    (List.mem_append_left _ methodId) (List.mem_append_right _ constructorId)
  exact List.disjoint_of_nodup_append (distinct.nodup firstMember) methodId constructorId

theorem DistinctMembers.method?_eq (distinct : types.DistinctMembers) {method : Method}
    (declared : types.Declares method) : types.method? method.id = some method := by
  obtain ⟨found, lookup⟩ := Option.isSome_iff_exists.mp (isSome_method? declared)
  obtain ⟨same, other⟩ := method?_spec lookup
  obtain ⟨first, firstMember, inFirst⟩ := declared
  obtain ⟨second, secondMember, inSecond⟩ := other
  have firstId : method.id ∈ first.methods.map (·.id) := List.mem_map_of_mem inFirst
  have secondId : method.id ∈ second.methods.map (·.id) := by
    rw [← same]
    exact List.mem_map_of_mem inSecond
  obtain rfl := distinct.decl_eq firstMember secondMember
    (List.mem_append_left _ firstId) (List.mem_append_left _ secondId)
  have unique := (distinct.nodup firstMember).of_append_left
  rw [lookup, List.inj_on_of_nodup_map unique inSecond inFirst same]

theorem DistinctMembers.constructor?_eq_none (distinct : types.DistinctMembers)
    {method : Method} (declared : types.Declares method) :
    types.constructor? method.id = none := by
  by_contra present
  obtain ⟨constructor, found⟩ := Option.ne_none_iff_exists'.mp present
  obtain ⟨same, constructed⟩ := constructor?_spec found
  exact distinct.id_ne declared constructed same.symm

theorem DistinctMembers.method?_eq_none (distinct : types.DistinctMembers)
    {constructor : Constructor} (constructed : types.DeclaresConstructor constructor) :
    types.method? constructor.id = none := by
  by_contra present
  obtain ⟨method, found⟩ := Option.ne_none_iff_exists'.mp present
  obtain ⟨same, declared⟩ := method?_spec found
  exact distinct.id_ne declared constructed same

end TypeTable

end CallCode
