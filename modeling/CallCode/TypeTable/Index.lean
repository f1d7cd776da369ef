import CallCode.TypeTable.Builtin
import Std.Data.HashMap

/-!
# The index of declared types

Hashed access to the declarations.  Types are kept by their identity, and names, methods
and constructors lead to the type that declares them, so that a resolved call target is
found without its owner.  Where two members have the same identity, the one that was
registered last is found.
-/

namespace CallCode

/-- Where a member is declared: its type, and its position among the members of its kind. -/
structure MemberSlot where
  owner : Identity
  position : Nat
  deriving DecidableEq, Repr

/-- The registered types and the ways to them. -/
structure TypeIndex where
  types : Std.HashMap Identity TypeDecl := {}
  names : Std.HashMap String Identity := {}
  methods : Std.HashMap Identity MemberSlot := {}
  constructors : Std.HashMap Identity MemberSlot := {}

namespace TypeIndex

variable {member : Type}

/-- Enter the members of a type one after another. -/
def enterMembers (owner : Identity) (members : List member) (key : member → Identity)
    (slots : Std.HashMap Identity MemberSlot) : Std.HashMap Identity MemberSlot :=
  members.zipIdx.foldl (fun slots (member, position) =>
    slots.insert (key member) ⟨owner, position⟩) slots

/-- The member that a slot leads to. -/
def memberAt? (types : Std.HashMap Identity TypeDecl)
    (slots : Std.HashMap Identity MemberSlot) (members : TypeDecl → List member)
    (id : Identity) : Option member := do
  let slot ← slots[id]?
  let decl ← types[slot.owner]?
  (members decl)[slot.position]?

variable (index : TypeIndex)

/-- The method of an identity. -/
def method? (id : Identity) : Option Method :=
  memberAt? index.types index.methods (·.methods) id

/-- The constructor of an identity. -/
def constructor? (id : Identity) : Option Constructor :=
  memberAt? index.types index.constructors (·.constructors) id

/-- Enter a declaration and its members without any check. -/
def insert (decl : TypeDecl) : TypeIndex where
  methods := enterMembers decl.id decl.methods (·.id) index.methods
  constructors := enterMembers decl.id decl.constructors (·.id) index.constructors
  names := index.names.insert decl.name decl.id
  types := index.types.insert decl.id decl

/-- Register a declaration of a new type whose supertypes are all registered. -/
def register (decl : TypeDecl) : EStateM RegistrationError TypeIndex Identity := do
  let index ← get
  if index.types.contains decl.id || index.names.contains decl.name then
    throw (.duplicateType decl.name)
  decl.supertypes.forM fun super =>
    unless index.types.contains super do
      throw (.missingSupertype decl.name super)
  set (index.insert decl)
  return decl.id

/-- The index after a declaration is offered for registration. -/
def offer (index : TypeIndex) (decl : TypeDecl) : TypeIndex :=
  match register decl index with
  | .ok _ later => later
  | .error _ later => later

/-- The index of the built-in types. -/
def builtin : TypeIndex := Builtin.decls.foldl insert {}

/-- The index after declarations are offered one after another, beginning with the built-in
types or with none. -/
def offered (builtins : Bool) (decls : List TypeDecl) : TypeIndex :=
  decls.foldl offer (if builtins then builtin else {})

end TypeIndex

end CallCode
