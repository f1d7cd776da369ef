import CallCode.Proofs.TypeHierarchy

/-!
# Functional interfaces

A functional interface stands for one abstract method: the only one that it declares or,
where it declares none, the one for which the only interface that it extends stands.  The
search goes up past an interface that declares several of them as well, and then answers a
method that the interface does not stand for.
-/

namespace CallCode

namespace TypeDecl

/-- The abstract methods that a type itself declares. -/
def abstractMethods (decl : TypeDecl) : List Method :=
  decl.methods.filter (·.modifiers.isAbstract)

variable {decl : TypeDecl} {method : Method}

theorem ownAbstractMethod_eq_some_iff (interface : decl.isInterface = true) :
    decl.ownAbstractMethod = some method ↔ decl.abstractMethods = [method] := by
  rw [ownAbstractMethod, if_pos interface, ← abstractMethods]
  cases decl.abstractMethods with
  | nil => simp
  | cons first others => cases others <;> simp

theorem ownAbstractMethod_eq_none_iff (interface : decl.isInterface = true) :
    decl.ownAbstractMethod = none ↔
      decl.abstractMethods = [] ∨ 1 < decl.abstractMethods.length := by
  rw [ownAbstractMethod, if_pos interface, ← abstractMethods]
  cases decl.abstractMethods with
  | nil => simp
  | cons first others => cases others <;> simp

end TypeDecl

namespace TypeTable

/-- An interface declares a method, and no other one, as abstract. -/
def DeclaresOnly (table : TypeTable) (id : Identity) (method : Method) : Prop :=
  ∃ decl, table.find? id = some decl ∧ decl.isInterface = true ∧
    decl.abstractMethods = [method]

/-- An interface declares no abstract method, and another is the only one that it extends. -/
def DefersTo (table : TypeTable) (id extended : Identity) : Prop :=
  ∃ decl, table.find? id = some decl ∧ decl.isInterface = true ∧
    decl.abstractMethods = [] ∧ decl.interfaces = [extended]

/-- An interface declares several abstract methods, and another is the only one that it
extends. -/
def Outgrows (table : TypeTable) (id extended : Identity) : Prop :=
  ∃ decl, table.find? id = some decl ∧ decl.isInterface = true ∧
    1 < decl.abstractMethods.length ∧ decl.interfaces = [extended]

/-- A type stands for a method: it is an interface that declares no other abstract method, or
one that declares none and defers to a functional interface. -/
def StandsFor (table : TypeTable) (id : Identity) (method : Method) : Prop :=
  table.DeclaresOnly id method ∨
    ∃ extended, table.DefersTo id extended ∧
      table.singleAbstractMethod extended = some method

/-- The search for the method of an interface goes on at the one that it extends. -/
def ClimbsTo (table : TypeTable) (id extended : Identity) : Prop :=
  table.DefersTo id extended ∨ table.Outgrows id extended

variable {table : TypeTable} {id extended : Identity} {method : Method}

theorem not_standsFor_of_outgrows (outgrows : table.Outgrows id extended) :
    ¬ table.StandsFor id method := by
  obtain ⟨decl, found, -, several, -⟩ := outgrows
  rintro (⟨other, again, -, only⟩ | ⟨_, ⟨other, again, -, absent, -⟩, -⟩)
  · cases found.symm.trans again
    simp [only] at several
  · cases found.symm.trans again
    simp [absent] at several

theorem ClimbsTo.links (climbs : table.ClimbsTo id extended) : table.Links id extended := by
  rcases climbs with ⟨decl, found, -, -, extends_⟩ | ⟨decl, found, -, -, extends_⟩
  · exact ⟨decl, found, by simp [TypeDecl.supertypes, extends_]⟩
  · exact ⟨decl, found, by simp [TypeDecl.supertypes, extends_]⟩

namespace Grounded

variable (grounded : Grounded table.decls)
include grounded

/-- What one step of the search does: an interface that does not declare exactly one
abstract method is passed over, whether it declares none or several. -/
theorem singleAbstractMethod_step :
    table.singleAbstractMethod id = some method ↔ table.DeclaresOnly id method ∨
      ∃ extended, table.ClimbsTo id extended ∧
        table.singleAbstractMethod extended = some method := by
  constructor
  · intro answered
    rw [grounded.singleAbstractMethod_eq, Option.bind_eq_some_iff] at answered
    obtain ⟨decl, found, answered⟩ := answered
    split at answered
    · rename_i interface
      split at answered
      · rename_i own
        cases answered
        exact .inl ⟨decl, found, interface,
          (TypeDecl.ownAbstractMethod_eq_some_iff interface).mp own⟩
      · rename_i extended passed extends_
        refine .inr ⟨extended, ?_, answered⟩
        rcases (TypeDecl.ownAbstractMethod_eq_none_iff interface).mp passed with none | several
        · exact .inl ⟨decl, found, interface, none, extends_⟩
        · exact .inr ⟨decl, found, interface, several, extends_⟩
      · cases answered
    · cases answered
  · rw [grounded.singleAbstractMethod_eq]
    rintro (⟨decl, found, interface, only⟩ | ⟨extended, climbs, answered⟩)
    · have own := (TypeDecl.ownAbstractMethod_eq_some_iff interface).mpr only
      simp [found, interface, own]
    · have passes : ∃ decl, table.find? id = some decl ∧ decl.isInterface = true ∧
          decl.ownAbstractMethod = none ∧ decl.interfaces = [extended] := by
        rcases climbs with ⟨decl, found, interface, absent, extends_⟩ |
          ⟨decl, found, interface, several, extends_⟩
        · exact ⟨decl, found, interface,
            (TypeDecl.ownAbstractMethod_eq_none_iff interface).mpr (.inl absent), extends_⟩
        · exact ⟨decl, found, interface,
            (TypeDecl.ownAbstractMethod_eq_none_iff interface).mpr (.inr several), extends_⟩
      obtain ⟨decl, found, interface, passed, extends_⟩ := passes
      simp [found, interface, passed, extends_, answered]

/-- The search answers the method of the first interface on its way up that declares exactly
one. -/
theorem singleAbstractMethod_iff_climbs :
    table.singleAbstractMethod id = some method ↔ ∃ source,
      Relation.ReflTransGen table.ClimbsTo id source ∧ table.DeclaresOnly source method := by
  constructor
  · intro answered
    induction id using grounded.links_wellFounded.induction with
    | _ id ih =>
        rcases grounded.singleAbstractMethod_step.mp answered with
          only | ⟨extended, climbs, further⟩
        · exact ⟨id, .refl, only⟩
        · obtain ⟨source, path, only⟩ := ih extended climbs.links further
          exact ⟨source, .head climbs path, only⟩
  · rintro ⟨source, path, only⟩
    induction path using Relation.ReflTransGen.head_induction_on with
    | refl => exact grounded.singleAbstractMethod_step.mpr (.inl only)
    | head climbs _ ih =>
        exact grounded.singleAbstractMethod_step.mpr (.inr ⟨_, climbs, ih⟩)

theorem singleAbstractMethod_iff_standsFor :
    table.singleAbstractMethod id = some method ↔ table.StandsFor id method ∨
      ∃ extended, table.Outgrows id extended ∧
        table.singleAbstractMethod extended = some method := by
  rw [grounded.singleAbstractMethod_step, StandsFor, or_assoc]
  simp only [ClimbsTo, or_and_right, exists_or]

/-- An answer is one that the type stands for, unless the type declares several abstract
methods itself. -/
theorem standsFor_iff_not_outgrows (answered : table.singleAbstractMethod id = some method) :
    table.StandsFor id method ↔ ¬ ∃ extended, table.Outgrows id extended := by
  constructor
  · rintro stands ⟨extended, outgrows⟩
    exact not_standsFor_of_outgrows outgrows stands
  · intro others
    rcases grounded.singleAbstractMethod_iff_standsFor.mp answered with
      stands | ⟨extended, outgrows, -⟩
    · exact stands
    · exact absurd ⟨extended, outgrows⟩ others

end Grounded

/-- Whatever is offered for registration, the search for the method of an interface answers
that of the first interface on its way up which declares exactly one.  A type stands for the
answer exactly unless it declares several abstract methods; so all answers in a table are
right exactly if no interface that declares several extends a functional one alone. -/
theorem functional_interfaces_of_offered (builtins : Bool) (decls : List TypeDecl) :
    let table := offered builtins decls
    (∀ id method, table.singleAbstractMethod id = some method ↔ ∃ source,
      Relation.ReflTransGen table.ClimbsTo id source ∧ table.DeclaresOnly source method) ∧
    (∀ id method, table.StandsFor id method → table.singleAbstractMethod id = some method) ∧
    (∀ id method, table.singleAbstractMethod id = some method →
      (table.StandsFor id method ↔ ¬ ∃ extended, table.Outgrows id extended)) ∧
    ((∀ id method, table.singleAbstractMethod id = some method → table.StandsFor id method) ↔
      ∀ id extended, table.Outgrows id extended →
        table.singleAbstractMethod extended = none) := by
  intro table
  have grounded : Grounded table.decls := .offered builtins decls
  refine ⟨fun _ _ => grounded.singleAbstractMethod_iff_climbs,
    fun _ _ stands => grounded.singleAbstractMethod_iff_standsFor.mpr (.inl stands),
    fun _ _ answered => grounded.standsFor_iff_not_outgrows answered, ?_⟩
  constructor
  · intro right id extended outgrows
    rw [Option.eq_none_iff_forall_ne_some]
    intro method above
    have answered : table.singleAbstractMethod id = some method :=
      grounded.singleAbstractMethod_iff_standsFor.mpr (.inr ⟨extended, outgrows, above⟩)
    exact not_standsFor_of_outgrows outgrows (right id method answered)
  · intro unused id method answered
    rcases grounded.singleAbstractMethod_iff_standsFor.mp answered with
      stands | ⟨extended, outgrows, above⟩
    · exact stands
    · rw [unused id extended outgrows] at above
      cases above

-- a door declares two abstract methods, and yet the method of the action above is found
example :
    let abstractly : Modifiers := { isPublic := true, isAbstract := true }
    let bare (name : String) (id : Identity) : TypeDecl := { name, id, kind := .interfaceType }
    let action := (bare "Action" ⟨101⟩).addMethod "run" [] .void abstractly
    let door := ({ bare "Door" ⟨102⟩ with interfaces := [⟨101⟩] }.addMethod "open" [] .void
      abstractly).addMethod "close" [] .void abstractly
    ((offered true [action, door]).singleAbstractMethod ⟨102⟩).map (·.name) = some "run" := by
  decide

end TypeTable

end CallCode
