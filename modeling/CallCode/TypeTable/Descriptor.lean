import CallCode.TypeTable.Basic

/-!
# Descriptors

A descriptor spells a type with one bracket for each array dimension, then a
letter for a primitive or the slashed qualified name of any other type.
-/

namespace CallCode

/-- A qualified name with slashes in place of its dots. -/
def slashed (name : String) : String :=
  name.map fun letter => if letter = '.' then '/' else letter

/-- The descriptor of the base type that `decl` declares. -/
def TypeDecl.descriptor (decl : TypeDecl) : String :=
  match decl.primitive? with
  | some primitive => String.singleton primitive.descriptor
  | none => "L" ++ slashed decl.name ++ ";"

namespace TypeTable

/-- The descriptor of a type whose base type is registered. -/
def descriptor (table : TypeTable) (type : ValueType) : Option String := do
  let decl ← table.find? type.base
  return String.ofList (List.replicate type.dims.toNat '[') ++ decl.descriptor

/-- The descriptor of a parameter list: its types in parentheses, then `V`. -/
def signatureDescriptor (table : TypeTable) (params : List Param) :
    Option String := do
  let parts ← params.mapM fun param => table.descriptor param.type
  return "(" ++ String.join parts ++ ")V"

end TypeTable

end CallCode
