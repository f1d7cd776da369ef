import CallCode.TypeTable.Descriptor
import CallCode.Proofs.Assignability

/-!
# Later registrations change no answer

Whatever is asked about a type, a table answers as it did when the type was registered.
A search that begins at a type only meets types that were there before it, and
registration puts new declarations in front of those.
-/

namespace CallCode

namespace TypeTable

/-- One table answers like another when it is asked about a type. -/
structure AnswersAlike (table later : TypeTable) (id : Identity) : Prop where
  isDerivedFrom : ∀ dims super,
    later.isDerivedFrom ⟨id, dims⟩ super = table.isDerivedFrom ⟨id, dims⟩ super
  isAssignable : ∀ dims target,
    later.isAssignable ⟨id, dims⟩ target = table.isAssignable ⟨id, dims⟩ target
  implementsInterface : ∀ interface,
    later.implementsInterface id interface = table.implementsInterface id interface
  findField : ∀ name, later.findField id name = table.findField id name
  hasPossibleMethod : ∀ name count,
    later.hasPossibleMethod id name count = table.hasPossibleMethod id name count
  singleAbstractMethod : later.singleAbstractMethod id = table.singleAbstractMethod id
  isEnum : ∀ dims, later.isEnum ⟨id, dims⟩ = table.isEnum ⟨id, dims⟩
  boxed : ∀ dims, later.boxed ⟨id, dims⟩ = table.boxed ⟨id, dims⟩
  descriptor : ∀ dims, later.descriptor ⟨id, dims⟩ = table.descriptor ⟨id, dims⟩

/-- Walks that look every link up in the whole table come to the same in both tables, once
they may go as deep as there are types. -/
structure WalksAlike (table later : TypeTable) (id : Identity) : Prop where
  chain : ∀ depth > later.typeCount,
    later.chainFrom depth (later.find? id) = table.chainFrom depth (table.find? id)
  interfaces : ∀ depth > later.typeCount, ∀ interface decl, table.find? id = some decl →
    later.find? id = some decl ∧
      later.declaresFrom interface depth decl = table.declaresFrom interface depth decl
  abstractMethod : ∀ depth > later.typeCount,
    later.abstractMethodFrom depth id = table.abstractMethodFrom depth id

/-- A later table has all declarations of an earlier one at its end. -/
structure Extends (table later : TypeTable) : Prop where
  grounded : Grounded later.decls
  suffix : table.decls <:+ later.decls

variable {table later : TypeTable} {id : Identity}

theorem Grounded.of_suffix {older decls : List TypeDecl} (grounded : Grounded decls)
    (suffix : older <:+ decls) : Grounded older := by
  induction grounded with
  | nil =>
      rw [List.suffix_nil.mp suffix]
      exact .nil
  | cons grounded newId known ih =>
      rcases List.suffix_cons_iff.mp suffix with rfl | shorter
      · exact .cons grounded newId known
      · exact ih shorter

theorem skipsOthers_find? : SkipsOthers fun decls id => decls.find? (·.id == id) := by
  intro decl older id other
  simp [other]

/-- An interface that a type implements is registered. -/
theorem contains_of_declaresIn (grounded : Grounded table.decls) {interface : Identity}
    (declares : declaresIn interface table.decls id = true) : table.contains interface = true := by
  induction id using grounded.links_wellFounded.induction with
  | _ id ih =>
      rw [grounded.declaresIn_eq, Option.any_eq_true] at declares
      obtain ⟨decl, found, named⟩ := declares
      obtain ⟨declared, member, leads⟩ := List.any_eq_true.mp named
      have link : table.Links id declared := ⟨decl, found, by simp [TypeDecl.supertypes, member]⟩
      rw [Bool.or_eq_true, beq_iff_eq] at leads
      rcases leads with rfl | further
      · exact grounded.linksClosed id declared link
      · exact ih declared link further

theorem contains_of_implementsInterface (grounded : Grounded table.decls) {interface : Identity}
    (implements : table.implementsInterface id interface = true) :
    table.contains interface = true := by
  obtain ⟨decl, -, declares⟩ := List.any_eq_true.mp implements
  exact contains_of_declaresIn grounded declares

/-- Between types of different bases, inheritance needs the superclass chain. -/
theorem isDerivedFrom_eq_false {sub super : ValueType} (other : sub.base ≠ super.base)
    (notRoot : super.base ≠ .object) (above : ¬table.Inherits sub.base super.base) :
    table.isDerivedFrom sub super = false := by
  rw [Bool.eq_false_iff, ne_eq, isDerivedFrom_iff, derivesBase_iff]
  rintro (rfl | ⟨-, -, rfl | ⟨-, same | ⟨-, -, root | inherits⟩⟩⟩)
  · exact other rfl
  · exact notRoot rfl
  · exact other same
  · exact notRoot root
  · exact above inherits

namespace Extends

theorem refl (grounded : Grounded table.decls) : table.Extends table :=
  ⟨grounded, List.suffix_rfl⟩

theorem offer (extends_ : table.Extends later) (decl : TypeDecl) :
    table.Extends (later.offer decl) := by
  rcases offer_eq later decl with same | registers
  · rw [same]
    exact extends_
  · have inserted := (register_eq_ok_iff.mp registers).1
    refine ⟨extends_.grounded.register registers, ?_⟩
    rw [inserted]
    exact extends_.suffix.trans (List.suffix_cons decl later.decls)

theorem foldl_offer (extends_ : table.Extends later) (decls : List TypeDecl) :
    table.Extends (decls.foldl TypeTable.offer later) := by
  induction decls generalizing later with
  | nil => exact extends_
  | cons decl decls ih => exact ih (extends_.offer decl)

/-! ## Searches that begin at a registered type -/

section Known

variable (extends_ : table.Extends later)
include extends_

theorem olderGrounded : Grounded table.decls :=
  extends_.grounded.of_suffix extends_.suffix

theorem typeCount_le : table.typeCount ≤ later.typeCount :=
  extends_.suffix.length_le

/-- Registration gave every new declaration another identity, so a search for an old one
passes them all over. -/
theorem search_eq {answer : Type} {search : List TypeDecl → Identity → answer}
    (skips : SkipsOthers search) (known : table.contains id = true) :
    search later.decls id = search table.decls id := by
  obtain ⟨newer, whole⟩ := extends_.suffix
  obtain ⟨decl, member, named⟩ := contains_iff.mp known
  have distinct := extends_.grounded.nodup_ids
  rw [← whole, List.map_append, List.nodup_append] at distinct
  have others : ∀ other ∈ newer, other.id ≠ id := by
    intro other new same
    apply distinct.2.2 other.id (List.mem_map_of_mem new) decl.id (List.mem_map_of_mem member)
    rw [same, named]
  rw [← whole]
  exact skips.append others

theorem find?_eq (known : table.contains id = true) : later.find? id = table.find? id :=
  extends_.search_eq skipsOthers_find? known

theorem superclassChain_eq (known : table.contains id = true) :
    later.superclassChain id = table.superclassChain id :=
  extends_.search_eq skipsOthers_chainIn known

theorem declaresIn_eq (interface : Identity) (known : table.contains id = true) :
    declaresIn interface later.decls id = declaresIn interface table.decls id :=
  extends_.search_eq (skipsOthers_declaresIn interface) known

theorem singleAbstractMethod_eq (known : table.contains id = true) :
    later.singleAbstractMethod id = table.singleAbstractMethod id :=
  extends_.search_eq skipsOthers_abstractMethodIn known

theorem inherits_iff (known : table.contains id = true) (super : Identity) :
    later.Inherits id super ↔ table.Inherits id super := by
  rw [Inherits, Inherits, extends_.superclassChain_eq known]

theorem primitiveOf_eq {type : ValueType} (known : table.contains type.base = true) :
    later.primitiveOf type = table.primitiveOf type := by
  rw [primitiveOf, primitiveOf, extends_.find?_eq known]

theorem isPrimitive_eq {type : ValueType} (known : table.contains type.base = true) :
    later.isPrimitive type = table.isPrimitive type := by
  rw [isPrimitive, isPrimitive, extends_.primitiveOf_eq known]

theorem isInterface_eq {type : ValueType} (known : table.contains type.base = true) :
    later.isInterface type = table.isInterface type := by
  rw [isInterface, isInterface, extends_.find?_eq known]

/-- The classes of a chain are as old as the class that it begins with. -/
theorem implementsInterface_eq (interface : Identity) (known : table.contains id = true) :
    later.implementsInterface id interface = table.implementsInterface id interface := by
  rw [implementsInterface, implementsInterface, extends_.superclassChain_eq known,
    Bool.eq_iff_iff, List.any_eq_true, List.any_eq_true]
  apply exists_congr
  intro decl
  apply and_congr_right
  intro member
  have registered : table.contains decl.id = true :=
    contains_iff.mpr ⟨decl, (chainIn_sublist table.decls id).subset member, rfl⟩
  rw [extends_.declaresIn_eq interface registered]

theorem derivesBase_eq {sub super : Identity} (knownSub : table.contains sub = true)
    (knownSuper : table.contains super = true) :
    later.derivesBase sub super = table.derivesBase sub super := by
  have lower : later.isPrimitive (.simple sub) = table.isPrimitive (.simple sub) :=
    extends_.isPrimitive_eq knownSub
  have upper : later.isPrimitive (.simple super) = table.isPrimitive (.simple super) :=
    extends_.isPrimitive_eq knownSuper
  rw [derivesBase, derivesBase, extends_.superclassChain_eq knownSub, lower, upper]

theorem isDerivedFrom_eq (root : table.contains .object = true) {sub super : ValueType}
    (knownSub : table.contains sub.base = true) :
    later.isDerivedFrom sub super = table.isDerivedFrom sub super := by
  by_cases knownSuper : table.contains super.base = true
  · rw [TypeTable.isDerivedFrom, TypeTable.isDerivedFrom, extends_.isPrimitive_eq knownSub,
      extends_.isPrimitive_eq knownSuper, extends_.derivesBase_eq knownSub knownSuper]
  · -- whatever it is registered as later, it is above no older type
    have other : sub.base ≠ super.base := fun same => knownSuper (same ▸ knownSub)
    have notRoot : super.base ≠ .object := fun same => knownSuper (same ▸ root)
    have above : ¬table.Inherits sub.base super.base := by
      rintro ⟨decl, member, named⟩
      apply knownSuper
      exact contains_iff.mpr
        ⟨decl, (chainIn_sublist table.decls sub.base).subset member, named⟩
    have aboveLater := mt (extends_.inherits_iff knownSub super.base).mp above
    rw [isDerivedFrom_eq_false other notRoot aboveLater, isDerivedFrom_eq_false other notRoot above]

theorem isAssignable_eq (root : table.contains .object = true) {source target : ValueType}
    (known : table.contains source.base = true) :
    later.isAssignable source target = table.isAssignable source target := by
  rw [TypeTable.isAssignable, TypeTable.isAssignable, extends_.isDerivedFrom_eq root known,
    extends_.implementsInterface_eq target.base known]
  cases implements : table.implementsInterface source.base target.base with
  | false => simp
  | true =>
      have registered := contains_of_implementsInterface extends_.olderGrounded implements
      rw [extends_.isInterface_eq registered]

theorem isEnum_eq (root : table.contains .object = true) {type : ValueType}
    (known : table.contains type.base = true) : later.isEnum type = table.isEnum type := by
  rw [isEnum, isEnum, extends_.find?_eq known, extends_.isDerivedFrom_eq root known]

theorem boxed_eq {type : ValueType} (known : table.contains type.base = true) :
    later.boxed type = table.boxed type := by
  rw [boxed, boxed, extends_.primitiveOf_eq known]

theorem descriptor_eq {type : ValueType} (known : table.contains type.base = true) :
    later.descriptor type = table.descriptor type := by
  rw [descriptor, descriptor, extends_.find?_eq known]

theorem answersAlike (root : table.contains .object = true) (known : table.contains id = true) :
    table.AnswersAlike later id where
  isDerivedFrom _ _ := extends_.isDerivedFrom_eq root known
  isAssignable _ _ := extends_.isAssignable_eq root known
  implementsInterface interface := extends_.implementsInterface_eq interface known
  findField name := by rw [findField, findField, extends_.superclassChain_eq known]
  hasPossibleMethod name count := by
    rw [hasPossibleMethod, hasPossibleMethod, extends_.superclassChain_eq known]
  singleAbstractMethod := extends_.singleAbstractMethod_eq known
  isEnum _ := extends_.isEnum_eq root known
  boxed _ := extends_.boxed_eq known
  descriptor _ := extends_.descriptor_eq known

/-- Both walks end with the answer of the search among older declarations. -/
theorem walksAlike (known : table.contains id = true) : table.WalksAlike later id := by
  have older := extends_.olderGrounded
  have deepEnough {depth : Nat} (deep : depth > later.typeCount) : table.typeCount < depth :=
    extends_.typeCount_le.trans_lt deep
  constructor
  · intro depth deep
    rw [extends_.grounded.chainFrom_eq ((later.rank_le id).trans_lt deep),
      older.chainFrom_eq ((table.rank_le id).trans_lt (deepEnough deep)),
      extends_.superclassChain_eq known]
  · intro depth deep interface decl found
    have foundLater : later.find? id = some decl := (extends_.find?_eq known).trans found
    refine ⟨foundLater, ?_⟩
    rw [extends_.grounded.declaresFrom_eq_declaresIn foundLater
        ((later.rank_le id).trans deep.le),
      older.declaresFrom_eq_declaresIn found ((table.rank_le id).trans (deepEnough deep).le),
      extends_.declaresIn_eq interface known]
  · intro depth deep
    rw [extends_.grounded.abstractMethodFrom_eq ((later.rank_le id).trans_lt deep),
      older.abstractMethodFrom_eq ((table.rank_le id).trans_lt (deepEnough deep)),
      extends_.singleAbstractMethod_eq known]

end Known

end Extends

/-- Whatever is offered for registration later, a table that began with the built-in types
answers as before when it is asked about a type which it already has, and so do the walks
along its links. -/
theorem offered_append_answersAlike (decls further : List TypeDecl) (id : Identity)
    (known : (offered true decls).contains id = true) :
    (offered true decls).AnswersAlike (offered true (decls ++ further)) id ∧
      (offered true decls).WalksAlike (offered true (decls ++ further)) id := by
  have start : (offered true decls).Extends (offered true decls) := .refl (.offered true decls)
  have whole : offered true (decls ++ further) = further.foldl offer (offered true decls) :=
    List.foldl_append
  have extends_ : (offered true decls).Extends (offered true (decls ++ further)) :=
    whole ▸ start.foldl_offer further
  have root : (offered true decls).contains .object = true :=
    Option.isSome_of_eq_some (find?_object decls)
  exact ⟨extends_.answersAlike root known, extends_.walksAlike known⟩

/-- A class, and later an interface, a subclass that implements it, and a class of a name
that is taken. -/
theorem offered_append_answersAlike_circle :
    let circle : TypeDecl :=
      { name := "Circle", id := ⟨103⟩, kind := .classType, superclass := some .object }
    let shape : TypeDecl := { name := "Shape", id := ⟨101⟩, kind := .interfaceType }
    let disc : TypeDecl :=
      { name := "Disc", id := ⟨104⟩, kind := .classType, superclass := some ⟨103⟩,
        interfaces := [⟨101⟩] }
    let other : TypeDecl := { name := "Circle", id := ⟨105⟩, kind := .enumType }
    let before := offered true [circle]
    let after := offered true ([circle] ++ [shape, disc, other])
    before.contains ⟨103⟩ = true ∧ before.AnswersAlike after ⟨103⟩ ∧
      before.WalksAlike after ⟨103⟩ := by
  intro circle shape disc other before after
  have known : before.contains ⟨103⟩ = true := by decide
  exact ⟨known, offered_append_answersAlike [circle] [shape, disc, other] ⟨103⟩ known⟩

-- of a type that is registered in between the answers are new
example :
    let disc : TypeDecl :=
      { name := "Disc", id := ⟨104⟩, kind := .classType, superclass := some .string }
    (offered true []).isAssignable (.simple ⟨104⟩) .string = false ∧
      (offered true [disc]).isAssignable (.simple ⟨104⟩) .string = true := by
  decide

end TypeTable

end CallCode
