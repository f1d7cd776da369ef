/-!
# Declaration modifiers
-/

namespace CallCode

/-- The access and shape modifiers of a type or a member. -/
structure Modifiers where
  isPublic : Bool := false
  isPrivate : Bool := false
  isProtected : Bool := false
  isStatic : Bool := false
  isFinal : Bool := false
  isAbstract : Bool := false
  isSynthetic : Bool := false
  deriving DecidableEq, Inhabited, Repr

namespace Modifiers

/-- The modifiers as bits, `isPublic` in the lowest place. -/
def bits (modifiers : Modifiers) : Nat :=
  modifiers.isPublic.toNat + 2 * modifiers.isPrivate.toNat +
    4 * modifiers.isProtected.toNat + 8 * modifiers.isStatic.toNat +
    16 * modifiers.isFinal.toNat + 32 * modifiers.isAbstract.toNat +
    64 * modifiers.isSynthetic.toNat

/-- Read the seven modifier bits of a number and ignore its other bits. -/
def ofBits (bits : Nat) : Modifiers where
  isPublic := bits.testBit 0
  isPrivate := bits.testBit 1
  isProtected := bits.testBit 2
  isStatic := bits.testBit 3
  isFinal := bits.testBit 4
  isAbstract := bits.testBit 5
  isSynthetic := bits.testBit 6

/-- The modifiers that either side has. -/
def union (first second : Modifiers) : Modifiers where
  isPublic := first.isPublic || second.isPublic
  isPrivate := first.isPrivate || second.isPrivate
  isProtected := first.isProtected || second.isProtected
  isStatic := first.isStatic || second.isStatic
  isFinal := first.isFinal || second.isFinal
  isAbstract := first.isAbstract || second.isAbstract
  isSynthetic := first.isSynthetic || second.isSynthetic

/-- The words for the modifiers in the order of their bits. -/
def words : List String :=
  ["public", "private", "protected", "static", "final", "abstract", "synthetic"]

/-- The modifier that a word stands for. -/
def ofWord? (word : String) : Option Modifiers :=
  (words.idxOf? word).map fun place => ofBits (1 <<< place)

/-- The modifiers of an ordinary member. -/
def openAccess : Modifiers := { isPublic := true }

theorem ofBits_bits (modifiers : Modifiers) : ofBits modifiers.bits = modifiers := by
  rcases modifiers with ⟨_ | _, _ | _, _ | _, _ | _, _ | _, _ | _, _ | _⟩ <;> rfl

end Modifiers

end CallCode
