import CallCode.TypeTable.Descriptor
import CallCode.TypeTable.Builtin
import CallCode.TypeTable.Hierarchy

/-!
# Tables without constructors

Constructors take no part in the hierarchy of types, nor in the members that calls are bound
to.  A table answers all questions about these as it would if no type had a constructor.
-/

namespace CallCode

/-- A declaration without its constructors. -/
def TypeDecl.bare (decl : TypeDecl) : TypeDecl := { decl with constructors := [] }

namespace TypeDecl

variable (decl : TypeDecl)

@[simp]
theorem id_bare : decl.bare.id = decl.id := rfl

@[simp]
theorem name_bare : decl.bare.name = decl.name := rfl

@[simp]
theorem superclass_bare : decl.bare.superclass = decl.superclass := rfl

@[simp]
theorem interfaces_bare : decl.bare.interfaces = decl.interfaces := rfl

@[simp]
theorem supertypes_bare : decl.bare.supertypes = decl.supertypes := rfl

@[simp]
theorem isInterface_bare : decl.bare.isInterface = decl.isInterface := rfl

@[simp]
theorem primitive?_bare : decl.bare.primitive? = decl.primitive? := rfl

@[simp]
theorem methods_bare : decl.bare.methods = decl.methods := rfl

@[simp]
theorem methodsNamed_bare (name : String) :
    decl.bare.methodsNamed name = decl.methodsNamed name := rfl

@[simp]
theorem ownAbstractMethod_bare : decl.bare.ownAbstractMethod = decl.ownAbstractMethod := rfl

end TypeDecl

namespace TypeTable

/-- A table without the constructors of its types. -/
def bare (table : TypeTable) : TypeTable := ⟨table.decls.map TypeDecl.bare⟩

/-! ## Searches -/

section Searches

variable (decls : List TypeDecl)

theorem chainIn_bare (id : Identity) :
    chainIn (decls.map TypeDecl.bare) id = (chainIn decls id).map TypeDecl.bare := by
  induction decls generalizing id with
  | nil => rfl
  | cons decl older ih =>
      rw [List.map_cons, chainIn, chainIn, TypeDecl.id_bare, TypeDecl.superclass_bare]
      by_cases same : decl.id = id
      · rw [if_pos same, if_pos same, List.map_cons]
        cases decl.superclass with
        | some superclass => rw [← ih]
        | none => rfl
      · rw [if_neg same, if_neg same, ih]

theorem declaresIn_bare (interface id : Identity) :
    declaresIn interface (decls.map TypeDecl.bare) id = declaresIn interface decls id := by
  induction decls generalizing id with
  | nil => rfl
  | cons decl older ih =>
      rw [List.map_cons, declaresIn, declaresIn, TypeDecl.id_bare, TypeDecl.interfaces_bare]
      simp only [ih]

theorem abstractMethodIn_bare (id : Identity) :
    abstractMethodIn (decls.map TypeDecl.bare) id = abstractMethodIn decls id := by
  induction decls generalizing id with
  | nil => rfl
  | cons decl older ih =>
      rw [List.map_cons, abstractMethodIn, abstractMethodIn, TypeDecl.id_bare,
        TypeDecl.isInterface_bare, TypeDecl.ownAbstractMethod_bare, TypeDecl.interfaces_bare]
      simp only [ih]

end Searches

/-! ## Answers -/

section Answers

variable (table : TypeTable)

theorem find?_bare (id : Identity) :
    table.bare.find? id = (table.find? id).map TypeDecl.bare := by
  rw [find?, bare, List.find?_map]
  rfl

theorem findNamed?_bare (name : String) :
    table.bare.findNamed? name = (table.findNamed? name).map TypeDecl.bare := by
  rw [findNamed?, bare, List.find?_map]
  rfl

/-- What is asked of the declaration of a type is answered alike. -/
theorem any_find?_bare (id : Identity) {ask : TypeDecl → Bool}
    (same : ∀ decl : TypeDecl, ask decl.bare = ask decl) :
    (table.bare.find? id).any ask = (table.find? id).any ask := by
  rw [find?_bare]
  cases table.find? id with
  | none => rfl
  | some decl => exact same decl

theorem contains_bare (id : Identity) : table.bare.contains id = table.contains id := by
  rw [contains, find?_bare, Option.isSome_map, contains]

theorem typeName_bare (id : Identity) : table.bare.typeName id = table.typeName id := by
  rw [typeName, find?_bare, typeName]
  cases table.find? id <;> rfl

theorem method?_bare (id : Identity) : table.bare.method? id = table.method? id := by
  simp [method?, bare, List.findSome?_map, Function.comp_def]

theorem superclassChain_bare (id : Identity) :
    table.bare.superclassChain id = (table.superclassChain id).map TypeDecl.bare :=
  chainIn_bare table.decls id

theorem hasPossibleMethod_bare (id : Identity) (name : String) (count : Nat) :
    table.bare.hasPossibleMethod id name count = table.hasPossibleMethod id name count := by
  simp [hasPossibleMethod, superclassChain_bare, Function.comp_def]

theorem singleAbstractMethod_bare (id : Identity) :
    table.bare.singleAbstractMethod id = table.singleAbstractMethod id :=
  abstractMethodIn_bare table.decls id

theorem classLookup?_bare : table.bare.classLookup? = table.classLookup? := by
  simp only [classLookup?, find?_bare]
  cases table.find? .metaclass <;> rfl

theorem primitiveOf_bare (type : ValueType) :
    table.bare.primitiveOf type = table.primitiveOf type := by
  simp [primitiveOf, find?_bare, Option.bind_map, Function.comp_def]

theorem isPrimitive_bare (type : ValueType) :
    table.bare.isPrimitive type = table.isPrimitive type := by
  rw [isPrimitive, primitiveOf_bare, isPrimitive]

theorem isInterface_bare (type : ValueType) :
    table.bare.isInterface type = table.isInterface type := by
  rw [isInterface, any_find?_bare table _ fun _ => rfl, isInterface]

theorem isPublic_bare (id : Identity) : table.bare.isPublic id = table.isPublic id := by
  rw [isPublic, any_find?_bare table _ fun _ => rfl, isPublic]

theorem isFinal_bare (id : Identity) : table.bare.isFinal id = table.isFinal id := by
  rw [isFinal, any_find?_bare table _ fun _ => rfl, isFinal]

theorem boxed_bare (type : ValueType) : table.bare.boxed type = table.boxed type := by
  rw [boxed, primitiveOf_bare, boxed]

theorem isDerivedFrom_bare (sub super : ValueType) :
    table.bare.isDerivedFrom sub super = table.isDerivedFrom sub super := by
  simp [isDerivedFrom, derivesBase, isPrimitive_bare, superclassChain_bare, Function.comp_def]

theorem implementsInterface_bare (id interface : Identity) :
    table.bare.implementsInterface id interface = table.implementsInterface id interface := by
  rw [implementsInterface, superclassChain_bare, implementsInterface, List.any_map]
  simp only [bare, declaresIn_bare, Function.comp_def, TypeDecl.id_bare]

theorem isAssignable_bare (source target : ValueType) :
    table.bare.isAssignable source target = table.isAssignable source target := by
  simp only [isAssignable, isDerivedFrom_bare, isInterface_bare, implementsInterface_bare]

theorem descriptor_bare (type : ValueType) :
    table.bare.descriptor type = table.descriptor type := by
  simp only [descriptor, find?_bare]
  cases table.find? type.base <;> rfl

theorem signatureDescriptor_bare (params : List Param) :
    table.bare.signatureDescriptor params = table.signatureDescriptor params := by
  simp only [signatureDescriptor, descriptor_bare]

end Answers

end TypeTable

end CallCode
