import CallCode.Declaration.Modifiers
import CallCode.ValueType

/-!
# Methods, constructors and fields
-/

namespace CallCode

/-- A formal parameter. -/
structure Param where
  name : String
  type : ValueType
  deriving DecidableEq, Inhabited, Repr

/-- The identities under which parameters enter a member's identity. -/
def signature (params : List Param) : List Identity :=
  params.map (·.type.signature)

/-- Whether the last parameter is an array, which takes surplus arguments. -/
def isVariadic (params : List Param) : Bool :=
  params.getLast?.any (·.type.isArray)

/-- The type of a surplus argument: the elements of the last parameter, where that
is an array. -/
def variadicElement (params : List Param) : Option ValueType :=
  params.getLast?.bind (·.type.component)

/-- A declared method. -/
structure Method where
  id : Identity
  name : String
  /-- The declaring type. -/
  owner : Identity
  params : List Param
  returnType : ValueType
  modifiers : Modifiers
  deriving DecidableEq, Repr

namespace Method

/-- Declare a method of `owner`; its identity follows from the declaration. -/
def declare (owner : Identity) (name : String) (params : List Param)
    (returnType : ValueType) (modifiers : Modifiers) : Method where
  id := .ofMethod owner name (signature params)
  name := name
  owner := owner
  params := params
  returnType := returnType
  modifiers := modifiers

def isStatic (method : Method) : Bool := method.modifiers.isStatic

def isVariadic (method : Method) : Bool := CallCode.isVariadic method.params

/-- Whether a call with `count` arguments could bind to the method. -/
def accepts (method : Method) (count : Nat) : Bool :=
  method.params.length == count ||
    (method.isVariadic && decide (method.params.length ≤ count + 1))

end Method

/-- A declared constructor. -/
structure Constructor where
  id : Identity
  /-- The class that it initializes. -/
  owner : Identity
  params : List Param
  modifiers : Modifiers
  deriving DecidableEq, Repr

namespace Constructor

/-- Declare a constructor of `owner`; its identity follows from the declaration. -/
def declare (owner : Identity) (params : List Param) (modifiers : Modifiers) :
    Constructor where
  id := .ofConstructor owner (signature params)
  owner := owner
  params := params
  modifiers := modifiers

def isVariadic (constructor : Constructor) : Bool :=
  CallCode.isVariadic constructor.params

end Constructor

/-- A declared field. -/
structure Field where
  name : String
  type : ValueType
  modifiers : Modifiers
  deriving DecidableEq, Repr

def Field.isStatic (field : Field) : Bool := field.modifiers.isStatic

end CallCode
