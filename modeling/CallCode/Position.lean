/-!
# Source positions
-/

namespace CallCode

/-- Where a call starts in its source; line zero marks a call with no source. -/
structure Position where
  line : UInt32
  column : UInt32
  deriving DecidableEq, Inhabited, Repr

namespace Position

/-- The position of a call that was written nowhere. -/
def synthetic : Position := ⟨0, 0⟩

def isSynthetic (position : Position) : Bool := position.line == 0

/-- The position as `line:column`. -/
def text (position : Position) : String :=
  toString position.line.toNat ++ ":" ++ toString position.column.toNat

end Position

end CallCode
