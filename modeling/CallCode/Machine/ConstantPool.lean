import CallCode.Identity
import Std.Data.HashMap

/-!
# The constant pool

The methods of a class share one pool of constants.  A constant keeps the index
under which it was first added, and its place is also found by its value.
-/

namespace CallCode

-- byte arrays are compared as the core library compares them
attribute [local instance (high)] ByteArray.instDecidableEq

/-- A value that instructions refer to by its index. -/
inductive Constant
  | int (value : Int64)
  /-- The bytes of a literal, a name or a message. -/
  | text (bytes : ByteArray)
  | type (id : Identity)
  /-- A member as seen through an owner, which may be below the declaring type. -/
  | member (owner id : Identity)
  deriving DecidableEq, Hashable

/-- The constant of a string. -/
def Constant.ofString (value : String) : Constant := .text value.toUTF8

theorem ConstantPool.index_spec_empty (constant : Constant) (position : Nat) :
    ({} : Std.HashMap Constant Nat)[constant]? = some position ↔
      (#[] : Array Constant)[position]? = some constant := by
  simp

/-- Constants in the order of their addition, and the index of each. -/
structure ConstantPool where
  constants : Array Constant := #[]
  index : Std.HashMap Constant Nat := {}
  /-- The index knows exactly the positions of the constants. -/
  index_spec : ∀ (constant : Constant) (position : Nat),
    index[constant]? = some position ↔ constants[position]? = some constant := by
      exact ConstantPool.index_spec_empty

namespace ConstantPool

def size (pool : ConstantPool) : Nat := pool.constants.size

def isEmpty (pool : ConstantPool) : Bool := pool.constants.isEmpty

theorem index_spec_push {constants : Array Constant} {index : Std.HashMap Constant Nat}
    (spec : ∀ (constant : Constant) (position : Nat),
      index[constant]? = some position ↔ constants[position]? = some constant)
    {added : Constant} (absent : index[added]? = none)
    (constant : Constant) (position : Nat) :
    (index.insert added constants.size)[constant]? = some position ↔
      (constants.push added)[position]? = some constant := by
  have notAmong : ∀ place : Nat, constants[place]? ≠ some added := fun place found => by
    simp [(spec added place).mpr found] at absent
  rw [Std.HashMap.getElem?_insert, Array.getElem?_push]
  by_cases same : added = constant
  · subst same
    by_cases last : position = constants.size
    · simp [last]
    · simp [last, notAmong position, Ne.symm last]
  · by_cases last : position = constants.size
    · simp [same, last, spec]
    · simp [same, last, spec]

/-- The index of a constant, which is added if the pool does not have it yet. -/
def add (pool : ConstantPool) (constant : Constant) : Nat × ConstantPool :=
  match absent : pool.index[constant]? with
  | some position => (position, pool)
  | none =>
      (pool.constants.size,
        { constants := pool.constants.push constant
          index := pool.index.insert constant pool.constants.size
          index_spec := index_spec_push pool.index_spec absent })

def get? (pool : ConstantPool) (position : Nat) : Option Constant :=
  pool.constants[position]?

/-- The string at an index, if there is text there and it is valid UTF-8. -/
def string? (pool : ConstantPool) (position : Nat) : Option String :=
  match pool.get? position with
  | some (.text bytes) => String.fromUTF8? bytes
  | _ => none

/-- The returned index denotes the added constant. -/
theorem get?_add (pool : ConstantPool) (constant : Constant) :
    (pool.add constant).2.get? (pool.add constant).1 = some constant := by
  unfold add
  split
  · rename_i position found
    exact (pool.index_spec constant position).mp found
  · simp [get?]

end ConstantPool

end CallCode
