import CallCode.TypeTable.Basic

/-!
# Built-in types

The root class, the primitives and their boxes, strings, class literals, enums
and reference cells, in an order that puts each type after its supertypes.
-/

namespace CallCode

namespace Builtin

/-- The static method of the metaclass that looks a class up by its name. -/
def forName : String := "forName"

def primitive (name : String) (id : Identity) (kind : Primitive) : TypeDecl where
  name := name
  id := id
  kind := .primitive kind
  modifiers := { isPublic := true, isFinal := true }

def finalClass (name : String) (id : Identity) : TypeDecl where
  name := name
  id := id
  kind := .classType
  superclass := some .object
  modifiers := { isPublic := true, isFinal := true }

def object : TypeDecl :=
  let root : TypeDecl := { name := "Object", id := .object, kind := .classType }
  root.addConstructor []
    |>.addMethod "toString" [] .string
    |>.addMethod "hashCode" [] .int
    |>.addMethod "equals" [⟨"other", .object⟩] .boolean

def metaclass : TypeDecl :=
  (finalClass "Class" .metaclass).addMethod forName [⟨"name", .string⟩] .metaclass
    { isPublic := true, isStatic := true }

def enumBase : TypeDecl :=
  let base : TypeDecl :=
    { name := "Enum", id := .enumBase, kind := .classType,
      superclass := some .object,
      modifiers := { isPublic := true, isAbstract := true } }
  base.addMethod "name" [] .string

def reference : TypeDecl :=
  let cell : TypeDecl :=
    { name := "Reference", id := .reference, kind := .classType,
      superclass := some .object }
  cell.addConstructor [⟨"value", .object⟩]
    |>.addMethod "get" [] .object
    |>.addMethod "set" [⟨"value", .object⟩] .void

/-- The built-in declarations, oldest first. -/
def decls : List TypeDecl :=
  [object,
    primitive "void" .void .void,
    primitive "boolean" .boolean .boolean,
    primitive "int" .int .int,
    primitive "long" .long .long,
    primitive "double" .double .double,
    finalClass "String" .string,
    metaclass,
    enumBase,
    reference,
    finalClass "Boolean" .booleanBox,
    finalClass "Integer" .integerBox,
    finalClass "Long" .longBox,
    finalClass "Double" .doubleBox]

/-- The identity of the built-in type with a name. -/
def id? (name : String) : Option Identity :=
  (decls.find? (·.name == name)).map (·.id)

end Builtin

namespace TypeTable

/-- A table with no types. -/
def empty : TypeTable := {}

/-- A table with the built-in types. -/
def builtin : TypeTable := Builtin.decls.foldl insert empty

/-- The static lookup of a class by its name on the metaclass. -/
def classLookup? (table : TypeTable) : Option Method := do
  let decl ← table.find? .metaclass
  (decl.methodsNamed Builtin.forName).find? fun method =>
    method.isStatic && method.params.length == 1

end TypeTable

end CallCode
