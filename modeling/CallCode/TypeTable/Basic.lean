import CallCode.Declaration.TypeDecl
import CallCode.Error

/-!
# The table of declared types

A table lists its declarations from the newest to the oldest.  A type may only
name supertypes that are registered before it, so every supertype of a
declaration stands further down the list.  Questions about the hierarchy recurse
on that list, and a new declaration changes no answer about the older ones.
-/

namespace CallCode

/-- The registered declarations, newest first. -/
structure TypeTable where
  decls : List TypeDecl := []

namespace TypeTable

/-- The declaration of a type. -/
def find? (table : TypeTable) (id : Identity) : Option TypeDecl :=
  table.decls.find? (·.id == id)

/-- The declaration of the type with a qualified name. -/
def findNamed? (table : TypeTable) (name : String) : Option TypeDecl :=
  table.decls.find? (·.name == name)

/-- Whether a type is registered. -/
def contains (table : TypeTable) (id : Identity) : Bool :=
  (table.find? id).isSome

def typeCount (table : TypeTable) : Nat := table.decls.length

/-- Add a declaration without any check. -/
def insert (table : TypeTable) (decl : TypeDecl) : TypeTable :=
  ⟨decl :: table.decls⟩

/-- Register a declaration of a new type whose supertypes are all registered. -/
def register (table : TypeTable) (decl : TypeDecl) :
    Except RegistrationError TypeTable :=
  if table.contains decl.id || (table.findNamed? decl.name).isSome then
    .error (.duplicateType decl.name)
  else
    match decl.supertypes.find? (!table.contains ·) with
    | some missing => .error (.missingSupertype decl.name missing)
    | none => .ok (table.insert decl)

/-- The name of a type, or the text of its identity where it is unknown. -/
def typeName (table : TypeTable) (id : Identity) : String :=
  match table.find? id with
  | some decl => decl.name
  | none => id.text

/-- The text of a type: its name, and a pair of brackets for each dimension. -/
def typeText (table : TypeTable) (type : ValueType) : String :=
  table.typeName type.base ++ String.join (List.replicate type.dims.toNat "[]")

/-- The method of an identity; of several, the one that was declared last. -/
def method? (table : TypeTable) (id : Identity) : Option Method :=
  table.decls.findSome? fun decl => decl.methods.reverse.find? (·.id == id)

/-- The constructor of an identity; of several, the one that was declared last. -/
def constructor? (table : TypeTable) (id : Identity) : Option Constructor :=
  table.decls.findSome? fun decl => decl.constructors.reverse.find? (·.id == id)

theorem find?_insert (table : TypeTable) (decl : TypeDecl) (id : Identity) :
    (table.insert decl).find? id =
      if decl.id = id then some decl else table.find? id := by
  by_cases same : decl.id = id <;> simp [find?, insert, same]

/-- A found declaration has the identity that was looked up. -/
theorem id_of_find? {table : TypeTable} {id : Identity} {decl : TypeDecl}
    (found : table.find? id = some decl) : decl.id = id := by
  simpa using List.find?_some found

end TypeTable

end CallCode
