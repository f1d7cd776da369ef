import CallCode.Proofs.TypeHierarchy
import Mathlib.Order.Defs.Unbundled

/-!
# Inheritance and assignability are orders

Inheritance is a partial order on the types of values, and assignability can be chained.
Both rest on the hierarchy: a superclass chain ends with the chain of each class in it, and
an interface of an interface is an interface.
-/

namespace CallCode

namespace TypeDecl

/-- A declaration names the supertypes that its kind can have: interfaces and primitives
have no superclass, and primitives no interfaces. -/
def FollowsKind (decl : TypeDecl) : Prop :=
  (decl.isInterface = true → decl.superclass = none) ∧
    (decl.primitive?.isSome = true → decl.superclass = none ∧ decl.interfaces = [])

instance (decl : TypeDecl) : Decidable decl.FollowsKind :=
  inferInstanceAs (Decidable (_ ∧ _))

end TypeDecl

namespace TypeTable

/-- No primitive names a supertype. -/
def PrimitivesAlone (table : TypeTable) : Prop :=
  ∀ decl ∈ table.decls, decl.primitive?.isSome = true →
    decl.superclass = none ∧ decl.interfaces = []

instance (table : TypeTable) : Decidable table.PrimitivesAlone :=
  inferInstanceAs (Decidable (∀ _ ∈ _, _))

variable {table : TypeTable}

/-! ## The root class -/

theorem find?_offer {id : Identity} {decl : TypeDecl} (found : table.find? id = some decl)
    (other : TypeDecl) : (table.offer other).find? id = some decl := by
  rcases offer_eq table other with same | registers
  · rw [same]
    exact found
  · obtain ⟨later, new, -⟩ := register_eq_ok_iff.mp registers
    have different : other.id ≠ id :=
      fun same => new decl (List.mem_of_find?_eq_some found) (by rw [same, id_of_find? found])
    rw [later, find?_insert, if_neg different, found]

/-- The root class stays as it is built in. -/
theorem find?_object (decls : List TypeDecl) :
    (offered true decls).find? .object = some Builtin.object := by
  have keeps (table : TypeTable) (found : table.find? .object = some Builtin.object) :
      (decls.foldl offer table).find? .object = some Builtin.object := by
    induction decls generalizing table with
    | nil => exact found
    | cons decl decls ih => exact ih _ (find?_offer found decl)
  exact keeps builtin (by rfl)

/-! ## Superclass chains -/

namespace Grounded

variable (grounded : Grounded table.decls)
include grounded

/-- The chain of a class ends with the chain of each class in it. -/
theorem superclassChain_suffix {id super : Identity} {decl : TypeDecl}
    (member : decl ∈ table.superclassChain id) (same : decl.id = super) :
    table.superclassChain super <:+ table.superclassChain id := by
  induction id using grounded.links_wellFounded.induction with
  | _ id ih =>
      rw [grounded.superclassChain_eq id] at member ⊢
      cases found : table.find? id with
      | none => simp [found] at member
      | some first =>
          simp only [found, Option.elim_some, List.mem_cons] at member ⊢
          rcases member with rfl | above
          · rw [← same, id_of_find? found, grounded.superclassChain_eq id, found]
            exact List.suffix_rfl
          · cases declared : first.superclass with
            | none => simp [declared] at above
            | some next =>
                rw [declared, Option.elim_some] at above
                have link : table.Links id next :=
                  ⟨first, found, by simp [TypeDecl.supertypes, declared]⟩
                exact (ih next link above).trans (List.suffix_cons first _)

/-- A chain begins with the class itself. -/
theorem head?_superclassChain (id : Identity) :
    (table.superclassChain id).head? = table.find? id := by
  rw [grounded.superclassChain_eq]
  cases table.find? id <;> rfl

end Grounded

/-- One class stands in the superclass chain of another. -/
def Inherits (table : TypeTable) (sub super : Identity) : Prop :=
  ∃ decl ∈ table.superclassChain sub, decl.id = super

namespace Inherits

variable {sub middle super : Identity}

theorem trans (grounded : Grounded table.decls) (first : table.Inherits sub middle)
    (second : table.Inherits middle super) : table.Inherits sub super := by
  obtain ⟨between, member, same⟩ := first
  obtain ⟨decl, above, named⟩ := second
  exact ⟨decl, (grounded.superclassChain_suffix member same).subset above, named⟩

theorem antisymm (grounded : Grounded table.decls) (first : table.Inherits sub super)
    (second : table.Inherits super sub) : sub = super := by
  obtain ⟨upper, member, named⟩ := first
  obtain ⟨lower, above, same⟩ := second
  have chains : table.superclassChain super = table.superclassChain sub :=
    (grounded.superclassChain_suffix member named).sublist.antisymm
      (grounded.superclassChain_suffix above same).sublist
  have heads : table.find? super = table.find? sub := by
    rw [← grounded.head?_superclassChain, ← grounded.head?_superclassChain, chains]
  -- an unregistered type has the empty chain, which no declaration is a member of
  cases found : table.find? sub with
  | none => simp [grounded.superclassChain_eq sub, found] at member
  | some decl => rw [← id_of_find? found, id_of_find? (heads.trans found)]

end Inherits

theorem superclassChain_object (grounded : Grounded table.decls)
    (root : table.find? .object = some Builtin.object) :
    table.superclassChain .object = [Builtin.object] := by
  rw [grounded.superclassChain_eq, root]
  rfl

/-- Above the root class there is only the class itself. -/
theorem Inherits.eq_object {super : Identity} (grounded : Grounded table.decls)
    (root : table.find? .object = some Builtin.object)
    (inherits : table.Inherits .object super) : super = .object := by
  obtain ⟨decl, member, rfl⟩ := inherits
  rw [superclassChain_object grounded root, List.mem_singleton] at member
  rw [member]
  rfl

/-! ## Inheritance -/

theorem type_ext {source target : ValueType} (dims : source.dims = target.dims)
    (base : source.base = target.base) : source = target := by
  cases source
  cases target
  cases dims
  cases base
  rfl

variable {sub middle super : Identity}

theorem derivesBase_iff :
    table.derivesBase sub super = true ↔
      sub = super ∨ (table.isPrimitive (.simple sub) = false ∧
        table.isPrimitive (.simple super) = false ∧
          (super = .object ∨ table.Inherits sub super)) := by
  simp [derivesBase, Inherits, and_assoc]

theorem isDerivedFrom_iff {source target : ValueType} :
    table.isDerivedFrom source target = true ↔
      source = target ∨ (table.isPrimitive source = false ∧ table.isPrimitive target = false ∧
        (target = .object ∨
          (source.dims = target.dims ∧ table.derivesBase source.base target.base = true))) := by
  by_cases same : source = target
  · simp [isDerivedFrom, same]
  cases plainSource : table.isPrimitive source with
  | true => simp [isDerivedFrom, same, plainSource]
  | false =>
      cases plainTarget : table.isPrimitive target with
      | true => simp [isDerivedFrom, same, plainTarget]
      | false =>
          by_cases top : target = .object
          · subst top
            simp [isDerivedFrom, plainTarget, plainSource]
          · simp [isDerivedFrom, same, plainTarget, plainSource, top]

section Derivation

variable (grounded : Grounded table.decls) (root : table.find? .object = some Builtin.object)
include grounded root

theorem derivesBase_trans (first : table.derivesBase sub middle = true)
    (second : table.derivesBase middle super = true) : table.derivesBase sub super = true := by
  rw [derivesBase_iff] at *
  rcases first with rfl | ⟨plainSub, plainMiddle, above⟩
  · exact second
  rcases second with rfl | ⟨-, plainSuper, further⟩
  · exact .inr ⟨plainSub, plainMiddle, above⟩
  refine .inr ⟨plainSub, plainSuper, ?_⟩
  rcases further with top | inherits
  · exact .inl top
  · rcases above with rfl | lower
    · exact .inl (inherits.eq_object grounded root)
    · exact .inr (lower.trans grounded inherits)

theorem derivesBase_antisymm (first : table.derivesBase sub super = true)
    (second : table.derivesBase super sub = true) : sub = super := by
  rw [derivesBase_iff] at first second
  rcases first with same | ⟨-, -, top | inherits⟩
  · exact same
  all_goals rcases second with same | ⟨-, -, bottom | back⟩
  · exact same.symm
  · exact bottom.trans top.symm
  · subst top
    exact back.eq_object grounded root
  · exact same.symm
  · subst bottom
    exact (inherits.eq_object grounded root).symm
  · exact inherits.antisymm grounded back

theorem eq_object_of_derivesBase (top : table.derivesBase .object super = true) :
    super = .object := by
  rw [derivesBase_iff] at top
  rcases top with same | ⟨-, -, same | inherits⟩
  · exact same.symm
  · exact same
  · exact inherits.eq_object grounded root

theorem isDerivedFrom_trans {first second third : ValueType}
    (lower : table.isDerivedFrom first second = true)
    (upper : table.isDerivedFrom second third = true) :
    table.isDerivedFrom first third = true := by
  rw [isDerivedFrom_iff] at *
  rcases lower with rfl | ⟨plainFirst, plainSecond, above⟩
  · exact upper
  rcases upper with rfl | ⟨-, plainThird, further⟩
  · exact .inr ⟨plainFirst, plainSecond, above⟩
  refine .inr ⟨plainFirst, plainThird, ?_⟩
  rcases further with top | ⟨sameDims, derives⟩
  · exact .inl top
  rcases above with rfl | ⟨dims, base⟩
  · exact .inl (type_ext sameDims.symm (eq_object_of_derivesBase grounded root derives))
  · exact .inr ⟨dims.trans sameDims, derivesBase_trans grounded root base derives⟩

theorem isDerivedFrom_antisymm {source target : ValueType}
    (up : table.isDerivedFrom source target = true)
    (down : table.isDerivedFrom target source = true) : source = target := by
  rw [isDerivedFrom_iff] at up down
  rcases up with same | ⟨-, -, top | ⟨dims, base⟩⟩
  · exact same
  all_goals rcases down with same | ⟨-, -, bottom | ⟨sameDims, back⟩⟩
  · exact same.symm
  · exact bottom.trans top.symm
  · subst top
    exact type_ext sameDims.symm (eq_object_of_derivesBase grounded root back)
  · exact same.symm
  · subst bottom
    exact (type_ext dims.symm (eq_object_of_derivesBase grounded root base)).symm
  · exact type_ext dims (derivesBase_antisymm grounded root base back)

end Derivation

theorem isDerivedFrom_refl (type : ValueType) : table.isDerivedFrom type type = true :=
  isDerivedFrom_iff.mpr (.inl rfl)

/-! ## Interfaces -/

section Interfaces

variable (grounded : Grounded table.decls)
include grounded

/-- What declares an interface declares the interfaces which that one extends. -/
theorem declaresIn_trans {id middle interface : Identity}
    (first : declaresIn middle table.decls id = true)
    (second : declaresIn interface table.decls middle = true) :
    declaresIn interface table.decls id = true := by
  induction id using grounded.links_wellFounded.induction with
  | _ id ih =>
      rw [grounded.declaresIn_eq, Option.any_eq_true] at first ⊢
      obtain ⟨decl, found, named⟩ := first
      obtain ⟨declared, member, leads⟩ := List.any_eq_true.mp named
      refine ⟨decl, found, List.any_eq_true.mpr ⟨declared, member, ?_⟩⟩
      rw [Bool.or_eq_true, beq_iff_eq] at leads ⊢
      rcases leads with rfl | further
      · exact .inr second
      · exact .inr (ih declared ⟨decl, found, by simp [TypeDecl.supertypes, member]⟩ further)

theorem superclassChain_eq_singleton {id : Identity} {decl : TypeDecl}
    (found : table.find? id = some decl) (alone : decl.superclass = none) :
    table.superclassChain id = [decl] := by
  rw [grounded.superclassChain_eq, found, Option.elim_some, alone]
  rfl

theorem PrimitivesAlone.implementsInterface_eq_false (alone : table.PrimitivesAlone)
    {id : Identity} (primitive : table.isPrimitive (.simple id) = true) (interface : Identity) :
    table.implementsInterface id interface = false := by
  obtain ⟨value, standsFor⟩ := Option.isSome_iff_exists.mp primitive
  obtain ⟨decl, registered, kind⟩ := Option.bind_eq_some_iff.mp standsFor
  have found : table.find? id = some decl := registered
  obtain ⟨root, none_declared⟩ := alone decl (List.mem_of_find?_eq_some found)
    (Option.isSome_of_eq_some kind)
  rw [implementsInterface, superclassChain_eq_singleton grounded found root, List.any_cons,
    List.any_nil, Bool.or_false, id_of_find? found, grounded.declaresIn_eq, found,
    Option.any_some, none_declared, List.any_nil]

variable (follows : ∀ decl ∈ table.decls, decl.FollowsKind)
include follows

/-- The chain of an interface is the interface alone. -/
theorem superclassChain_of_isInterface {type : ValueType}
    (interface : table.isInterface type = true) :
    ∃ decl, table.superclassChain type.base = [decl] ∧ decl.id = type.base := by
  rw [isInterface, Bool.and_eq_true, Option.any_eq_true] at interface
  obtain ⟨-, decl, found, kind⟩ := interface
  have alone := (follows decl (List.mem_of_find?_eq_some found)).1 kind
  exact ⟨decl, superclassChain_eq_singleton grounded found alone, id_of_find? found⟩

theorem isPrimitive_of_implementsInterface {id interface : Identity}
    (implements : table.implementsInterface id interface = true) :
    table.isPrimitive (.simple id) = false := by
  rw [Bool.eq_false_iff]
  intro primitive
  have alone : table.PrimitivesAlone := fun decl member => (follows decl member).2
  rw [alone.implementsInterface_eq_false grounded primitive] at implements
  cases implements

end Interfaces

/-! ## Assignability -/

/-- A type without dimensions implements an interface. -/
def Implements (table : TypeTable) (source target : ValueType) : Prop :=
  source.dims = 0 ∧ table.isInterface target = true ∧
    table.implementsInterface source.base target.base = true

theorem dims_of_isInterface {type : ValueType} (interface : table.isInterface type = true) :
    type.dims = 0 := by
  rw [isInterface, Bool.and_eq_true, beq_iff_eq] at interface
  exact interface.1

theorem isAssignable_refl (type : ValueType) : table.isAssignable type type = true := by
  rw [isAssignable, isDerivedFrom_refl, Bool.true_or]

theorem isAssignable_iff {source target : ValueType} :
    table.isAssignable source target = true ↔
      table.isDerivedFrom source target = true ∨ table.Implements source target := by
  simp [isAssignable, Implements, and_assoc]

section Assignment

variable (grounded : Grounded table.decls) (root : table.find? .object = some Builtin.object)
include grounded root

theorem not_implementsInterface_object (interface : Identity) :
    ¬table.implementsInterface .object interface = true := by
  have none_declared : declaresIn interface table.decls Builtin.object.id = false := by
    rw [grounded.declaresIn_eq]
    change (table.find? .object).any _ = false
    rw [root]
    rfl
  rw [implementsInterface, superclassChain_object grounded root, List.any_cons, none_declared]
  exact Bool.false_ne_true

theorem implementsInterface_of_derivesBase {sub super interface : Identity}
    (derives : table.derivesBase sub super = true)
    (implements : table.implementsInterface super interface = true) :
    table.implementsInterface sub interface = true := by
  rcases derivesBase_iff.mp derives with rfl | ⟨-, -, rfl | ⟨middle, member, same⟩⟩
  · exact implements
  · exact absurd implements (not_implementsInterface_object grounded root interface)
  · rw [implementsInterface, List.any_eq_true] at implements ⊢
    obtain ⟨decl, above, declares⟩ := implements
    exact ⟨decl, (grounded.superclassChain_suffix member same).subset above, declares⟩

/-- A subclass takes over the interfaces of its superclasses. -/
theorem Implements.of_isDerivedFrom {first second third : ValueType}
    (derives : table.isDerivedFrom first second = true)
    (implements : table.Implements second third) : table.Implements first third := by
  obtain ⟨plain, interface, found⟩ := implements
  rcases isDerivedFrom_iff.mp derives with rfl | ⟨-, -, rfl | ⟨dims, base⟩⟩
  · exact ⟨plain, interface, found⟩
  · exact absurd found (not_implementsInterface_object grounded root third.base)
  · exact ⟨dims.trans plain, interface,
      implementsInterface_of_derivesBase grounded root base found⟩

variable (follows : ∀ decl ∈ table.decls, decl.FollowsKind)
include follows

omit root in
/-- The interfaces of an interface are implemented along with it. -/
theorem Implements.trans {first second third : ValueType} (lower : table.Implements first second)
    (upper : table.Implements second third) : table.Implements first third := by
  obtain ⟨plain, interface, found⟩ := lower
  obtain ⟨-, further, extends_⟩ := upper
  obtain ⟨decl, chain, named⟩ := superclassChain_of_isInterface grounded follows interface
  rw [implementsInterface, chain, List.any_cons, List.any_nil, Bool.or_false, named] at extends_
  rw [implementsInterface, List.any_eq_true] at found
  obtain ⟨upper, member, declares⟩ := found
  refine ⟨plain, further, List.any_eq_true.mpr ⟨upper, member, ?_⟩⟩
  exact declaresIn_trans grounded declares extends_

omit root in
/-- Above an interface there are, by inheritance, only itself and the root class. -/
theorem isAssignable_of_implements {first second third : ValueType}
    (implements : table.Implements first second)
    (derives : table.isDerivedFrom second third = true) :
    table.isAssignable first third = true := by
  rw [isAssignable_iff]
  obtain ⟨plain, interface, found⟩ := implements
  have plainFirst : table.isPrimitive first = false := by
    have simple : first = .simple first.base := type_ext plain rfl
    rw [simple]
    exact isPrimitive_of_implementsInterface grounded follows found
  rcases isDerivedFrom_iff.mp derives with rfl | ⟨-, plainThird, rfl | ⟨dims, base⟩⟩
  · exact .inr ⟨plain, interface, found⟩
  · exact .inl (isDerivedFrom_iff.mpr (.inr ⟨plainFirst, plainThird, .inl rfl⟩))
  · have flat : third.dims = 0 := dims.symm.trans (dims_of_isInterface interface)
    obtain ⟨decl, chain, named⟩ := superclassChain_of_isInterface grounded follows interface
    have same_or_top : second.base = third.base ∨ third.base = .object := by
      rcases derivesBase_iff.mp base with same | ⟨-, -, top | ⟨upper, member, same⟩⟩
      · exact .inl same
      · exact .inr top
      · rw [chain, List.mem_singleton] at member
        exact .inl (by rw [← named, ← member, same])
    rcases same_or_top with same | top
    · have equal : second = third := type_ext dims same
      exact .inr (equal ▸ ⟨plain, interface, found⟩)
    · have root : third = .object := type_ext flat top
      exact .inl (isDerivedFrom_iff.mpr (.inr ⟨plainFirst, plainThird, .inl root⟩))

theorem isAssignable_trans {first second third : ValueType}
    (lower : table.isAssignable first second = true)
    (upper : table.isAssignable second third = true) :
    table.isAssignable first third = true := by
  rcases isAssignable_iff.mp lower with derives | implements
  · rcases isAssignable_iff.mp upper with further | implements
    · exact isAssignable_iff.mpr (.inl (isDerivedFrom_trans grounded root derives further))
    · exact isAssignable_iff.mpr (.inr (implements.of_isDerivedFrom grounded root derives))
  · rcases isAssignable_iff.mp upper with derives | further
    · exact isAssignable_of_implements grounded follows implements derives
    · exact isAssignable_iff.mpr (.inr (implements.trans grounded follows further))

end Assignment

/-- Whatever is offered for registration beside the built-in types, inheritance is a
partial order on the types of values.  Where interfaces and primitives name the supertypes
of their kind only, assignability is a preorder. -/
theorem assignability_order (decls : List TypeDecl) :
    let table := offered true decls
    IsPartialOrder ValueType (fun sub super => table.isDerivedFrom sub super = true) ∧
      ((∀ decl ∈ table.decls, decl.FollowsKind) →
        IsPreorder ValueType fun source target => table.isAssignable source target = true) := by
  intro table
  have grounded : Grounded table.decls := .offered true decls
  have root : table.find? .object = some Builtin.object := find?_object decls
  refine ⟨{ refl := isDerivedFrom_refl
            trans := fun _ _ _ => isDerivedFrom_trans grounded root
            antisymm := fun _ _ => isDerivedFrom_antisymm grounded root }, fun follows => ?_⟩
  exact { refl := fun type => by simp [isAssignable, isDerivedFrom_refl]
          trans := fun _ _ _ => isAssignable_trans grounded root follows }

/-- An interface that extends another, and a class that implements it. -/
theorem assignability_order_circle :
    let shape : TypeDecl := { name := "Shape", id := ⟨101⟩, kind := .interfaceType }
    let figure : TypeDecl :=
      { name := "Figure", id := ⟨102⟩, kind := .interfaceType, interfaces := [⟨101⟩] }
    let circle : TypeDecl :=
      { name := "Circle", id := ⟨103⟩, kind := .classType, superclass := some .object,
        interfaces := [⟨102⟩] }
    let table := offered true [shape, figure, circle]
    (∀ decl ∈ table.decls, decl.FollowsKind) ∧
      table.isAssignable (.simple ⟨103⟩) (.simple ⟨101⟩) = true ∧
      IsPreorder ValueType fun source target => table.isAssignable source target = true := by
  intro shape figure circle table
  have follows : ∀ decl ∈ table.decls, decl.FollowsKind := by decide
  exact ⟨follows, by decide, (assignability_order [shape, figure, circle]).2 follows⟩

end TypeTable

end CallCode
