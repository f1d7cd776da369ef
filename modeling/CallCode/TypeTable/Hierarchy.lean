import CallCode.TypeTable.Basic

/-!
# The type hierarchy

Superclass chains, interfaces and assignability.  Each search starts at the
declaration of a type and goes on among the older declarations, where all its
supertypes are.
-/

namespace CallCode

namespace TypeTable

/-- The superclass chain of a type among `decls`, starting with the type. -/
def chainIn : List TypeDecl → Identity → List TypeDecl
  | [], _ => []
  | decl :: older, id =>
      if decl.id = id then
        decl ::
          match decl.superclass with
          | some superclass => chainIn older superclass
          | none => []
      else chainIn older id

/-- Whether the type itself, or an interface that it extends, declares
`interface` among its interfaces. -/
def declaresIn (interface : Identity) : List TypeDecl → Identity → Bool
  | [], _ => false
  | decl :: older, id =>
      if decl.id = id then
        decl.interfaces.any fun declared =>
          declared == interface || declaresIn interface older declared
      else declaresIn interface older id

/-- The single abstract method of an interface, which may come from the one
interface that it extends. -/
def abstractMethodIn : List TypeDecl → Identity → Option Method
  | [], _ => none
  | decl :: older, id =>
      if decl.id = id then
        if decl.isInterface then
          match decl.ownAbstractMethod, decl.interfaces with
          | some method, _ => some method
          | none, [extended] => abstractMethodIn older extended
          | none, _ => none
        else none
      else abstractMethodIn older id

variable (table : TypeTable)

/-- A registered type, its superclass, and so on up to the root. -/
def superclassChain (id : Identity) : List TypeDecl :=
  chainIn table.decls id

/-- The field of a name on a class or the nearest superclass that has one. -/
def findField (id : Identity) (name : String) : Option Field :=
  (table.superclassChain id).findSome? (·.findField name)

/-- Whether a class or a superclass declares a method of the name that a call
with `count` arguments could bind to. -/
def hasPossibleMethod (id : Identity) (name : String) (count : Nat) : Bool :=
  (table.superclassChain id).any fun decl =>
    (decl.methodsNamed name).any (·.accepts count)

/-- The method that a functional interface stands for. -/
def singleAbstractMethod (id : Identity) : Option Method :=
  abstractMethodIn table.decls id

/-! ## Classification -/

/-- The primitive that a type without dimensions is. -/
def primitiveOf (type : ValueType) : Option Primitive :=
  if type.dims = 0 then (table.find? type.base).bind (·.primitive?) else none

def isPrimitive (type : ValueType) : Bool := (table.primitiveOf type).isSome

def isInterface (type : ValueType) : Bool :=
  type.dims == 0 && (table.find? type.base).any (·.isInterface)

def isPublic (id : Identity) : Bool :=
  (table.find? id).any (·.modifiers.isPublic)

def isFinal (id : Identity) : Bool :=
  (table.find? id).any (·.modifiers.isFinal)

/-- The boxed form of a primitive; any other type is its own. -/
def boxed (type : ValueType) : ValueType :=
  match (table.primitiveOf type).bind Primitive.box with
  | some box => .simple box
  | none => type

/-! ## Subtyping -/

/-- Inheritance between types of equal dimensions, by their base types. -/
def derivesBase (sub super : Identity) : Bool :=
  sub == super ||
    (!table.isPrimitive (.simple sub) && !table.isPrimitive (.simple super) &&
      (super == .object || (table.superclassChain sub).any (·.id == super)))

/-- Whether `sub` is `super` or inherits from it through superclasses.  Every
reference type derives from the root class, and arrays of equal dimensions derive
when their element types do. -/
def isDerivedFrom (sub super : ValueType) : Bool :=
  if sub = super then true
  else if table.isPrimitive sub || table.isPrimitive super then false
  else if super = .object then true
  else sub.dims == super.dims && table.derivesBase sub.base super.base

/-- Whether a type, a superclass or an interface of these declares
`interface`.  A type does not implement itself. -/
def implementsInterface (id interface : Identity) : Bool :=
  (table.superclassChain id).any fun decl =>
    declaresIn interface table.decls decl.id

/-- Whether a value of type `source` serves where `target` is expected. -/
def isAssignable (source target : ValueType) : Bool :=
  table.isDerivedFrom source target ||
    (source.dims == 0 && table.isInterface target &&
      table.implementsInterface source.base target.base)

/-- Whether a type is declared as an enum or inherits from the enum class. -/
def isEnum (type : ValueType) : Bool :=
  type.dims == 0 &&
    ((table.find? type.base).any (·.kind == .enumType) ||
      (type.base != .enumBase &&
        table.isDerivedFrom type (.simple .enumBase)))

end TypeTable

end CallCode
