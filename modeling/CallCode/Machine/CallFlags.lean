/-!
# Call flags
-/

namespace CallCode

/-- What a dispatching instruction says about its call. -/
structure CallFlags where
  /-- A null receiver yields null. -/
  safe : Bool := false
  /-- The call is made on every element of a collection receiver. -/
  spreadSafe : Bool := false
  implicitThis : Bool := false
  /-- Dispatch is on the current instance or its superclass. -/
  current : Bool := false
  isStatic : Bool := false
  /-- The arguments were packed into one vector. -/
  spread : Bool := false
  deriving DecidableEq, Inhabited, Repr

namespace CallFlags

/-- The flags as the bits of a byte, `safe` in the lowest place. -/
def bits (flags : CallFlags) : UInt8 :=
  flags.safe.toUInt8 ||| (flags.spreadSafe.toUInt8 <<< 1) |||
    (flags.implicitThis.toUInt8 <<< 2) ||| (flags.current.toUInt8 <<< 3) |||
    (flags.isStatic.toUInt8 <<< 4) ||| (flags.spread.toUInt8 <<< 5)

/-- Read the six flag bits of a byte and ignore the other two. -/
def ofBits (bits : UInt8) : CallFlags where
  safe := bits.toNat.testBit 0
  spreadSafe := bits.toNat.testBit 1
  implicitThis := bits.toNat.testBit 2
  current := bits.toNat.testBit 3
  isStatic := bits.toNat.testBit 4
  spread := bits.toNat.testBit 5

theorem ofBits_bits (flags : CallFlags) : ofBits flags.bits = flags := by
  rcases flags with ⟨_ | _, _ | _, _ | _, _ | _, _ | _, _ | _⟩ <;> rfl

end CallFlags

end CallCode
