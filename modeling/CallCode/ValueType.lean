import CallCode.Identity

/-!
# Value types

A value has a base type and a number of array dimensions over it.
-/

namespace CallCode

/-- A base type and how many array dimensions stand over it. -/
structure ValueType where
  base : Identity
  dims : UInt8
  deriving DecidableEq, Hashable, Inhabited, Repr

namespace ValueType

/-- A type with no array dimension. -/
def simple (base : Identity) : ValueType := ⟨base, 0⟩

/-- A one-dimensional array. -/
def arrayOf (element : Identity) : ValueType := ⟨element, 1⟩

def void : ValueType := simple .void
def boolean : ValueType := simple .boolean
def int : ValueType := simple .int
def object : ValueType := simple .object
def string : ValueType := simple .string
def metaclass : ValueType := simple .metaclass

/-- The shape of every argument vector. -/
def objectArray : ValueType := arrayOf .object

def isVoid (type : ValueType) : Bool := type == void

def isArray (type : ValueType) : Bool := type.dims != 0

/-- The element type of an array. -/
def component (type : ValueType) : Option ValueType :=
  if type.dims = 0 then none else some ⟨type.base, type.dims - 1⟩

/-- The array whose elements have this type. -/
def array (type : ValueType) : ValueType := ⟨type.base, type.dims + 1⟩

/-- The identity under which the type enters a signature. -/
def signature (type : ValueType) : Identity := .ofArray type.base type.dims

@[simp]
theorem isArray_simple (base : Identity) : (simple base).isArray = false := rfl

@[simp]
theorem component_simple (base : Identity) : (simple base).component = none := rfl

@[simp]
theorem signature_simple (base : Identity) : (simple base).signature = base := rfl

theorem isSome_component (type : ValueType) :
    type.component.isSome = type.isArray := by
  by_cases flat : type.dims = 0 <;> simp [component, isArray, flat]

end ValueType

end CallCode
