import CallCode.Declaration.Member

/-!
# Type declarations
-/

namespace CallCode

/-- The primitive values of the target machine. -/
inductive Primitive
  | void
  | boolean
  | int
  | long
  | double
  deriving DecidableEq, Repr

namespace Primitive

/-- The letter of the primitive in a descriptor. -/
def descriptor : Primitive → Char
  | void => 'V'
  | boolean => 'Z'
  | int => 'I'
  | long => 'J'
  | double => 'D'

/-- The class of the boxed primitive; nothing is boxed for `void`. -/
def box : Primitive → Option Identity
  | void => none
  | boolean => some .booleanBox
  | int => some .integerBox
  | long => some .longBox
  | double => some .doubleBox

end Primitive

/-- What a type is. -/
inductive TypeKind
  | primitive (primitive : Primitive)
  | classType
  | interfaceType
  | enumType
  deriving DecidableEq, Repr

/-- The name of what a type is. -/
def TypeKind.name : TypeKind → String
  | .primitive .void => "Primitive(Void)"
  | .primitive .boolean => "Primitive(Boolean)"
  | .primitive .int => "Primitive(Int)"
  | .primitive .long => "Primitive(Long)"
  | .primitive .double => "Primitive(Double)"
  | .classType => "Class"
  | .interfaceType => "Interface"
  | .enumType => "Enum"

/-- A declared class, interface, enum or primitive. -/
structure TypeDecl where
  /-- The qualified name, with dots between its parts. -/
  name : String
  id : Identity
  kind : TypeKind
  modifiers : Modifiers := .openAccess
  superclass : Option Identity := none
  /-- The interfaces that a class implements or an interface extends. -/
  interfaces : List Identity := []
  /-- The type around a nested type. -/
  outer : Option Identity := none
  constructors : List Constructor := []
  methods : List Method := []
  fields : List Field := []
  deriving DecidableEq, Repr

namespace TypeDecl

/-- A public class below the root class. -/
def ofClass (name : String) : TypeDecl where
  name := name
  id := .ofTypeName name
  kind := .classType
  superclass := some .object

/-- A public abstract interface. -/
def ofInterface (name : String) : TypeDecl where
  name := name
  id := .ofTypeName name
  kind := .interfaceType
  modifiers := { isPublic := true, isAbstract := true }

/-- A public final enum below the common enum class. -/
def ofEnum (name : String) : TypeDecl where
  name := name
  id := .ofTypeName name
  kind := .enumType
  superclass := some .enumBase
  modifiers := { isPublic := true, isFinal := true }

/-- Declare one more public constructor. -/
def addConstructor (decl : TypeDecl) (params : List Param) : TypeDecl :=
  { decl with
    constructors := decl.constructors ++ [.declare decl.id params .openAccess] }

/-- Declare one more method. -/
def addMethod (decl : TypeDecl) (name : String) (params : List Param)
    (returnType : ValueType) (modifiers : Modifiers := .openAccess) : TypeDecl :=
  { decl with
    methods := decl.methods ++ [.declare decl.id name params returnType modifiers] }

/-- Declare one more field. -/
def addField (decl : TypeDecl) (field : Field) : TypeDecl :=
  { decl with fields := decl.fields ++ [field] }

def isInterface (decl : TypeDecl) : Bool := decl.kind == .interfaceType

/-- The primitive that the declaration stands for, if it stands for one. -/
def primitive? (decl : TypeDecl) : Option Primitive :=
  match decl.kind with
  | .primitive primitive => some primitive
  | _ => none

/-- The first field of a name that the type itself declares. -/
def findField (decl : TypeDecl) (name : String) : Option Field :=
  decl.fields.find? (·.name == name)

/-- The methods of a name that the type itself declares. -/
def methodsNamed (decl : TypeDecl) (name : String) : List Method :=
  decl.methods.filter (·.name == name)

/-- The one abstract method of an interface that declares exactly one. -/
def ownAbstractMethod (decl : TypeDecl) : Option Method :=
  if decl.isInterface then
    match decl.methods.filter (·.modifiers.isAbstract) with
    | [method] => some method
    | _ => none
  else none

/-- The supertypes that the declaration names, the superclass first. -/
def supertypes (decl : TypeDecl) : List Identity :=
  decl.superclass.toList ++ decl.interfaces

end TypeDecl

end CallCode
