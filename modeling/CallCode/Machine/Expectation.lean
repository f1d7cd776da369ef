import CallCode.Machine.ObjectCode

/-!
# Expectations on listings

Checks of the opcodes of some code against an expected listing.  Containment
asks for the expected opcodes in order, but not next to each other.
-/

namespace CallCode

/-- How the opcodes of some code differ from what was expected. -/
inductive ListingMismatch
  | different (expected actual : List Opcode)
  /-- The opcodes from the first one that was not found. -/
  | missing (remaining actual : List Opcode)
  | unexpected (opcode : Opcode) (actual : List Opcode)
  deriving DecidableEq, Repr

/-- The wording of a mismatch. -/
def ListingMismatch.message : ListingMismatch → String
  | .different expected actual =>
      "Bytecode mismatch.\nExpected: " ++ Opcode.listText expected ++
        "\nActual:   " ++ Opcode.listText actual
  | .missing remaining actual =>
      "Missing opcodes in sequence.\nExpected to find: " ++
        Opcode.listText remaining ++ "\nActual bytecode:  " ++
        Opcode.listText actual
  | .unexpected opcode actual =>
      "Unexpected " ++ opcode.mnemonic ++ " in bytecode: " ++
        Opcode.listText actual

/-- What is left of `expected` after its opcodes are found in turn in a listing. -/
def unmatched : List Opcode → List Opcode → List Opcode
  | [], _ => []
  | expected, [] => expected
  | opcode :: expected, actual :: following =>
      if opcode = actual then unmatched expected following
      else unmatched (opcode :: expected) following

namespace ObjectCode

/-- Expect exactly the given opcodes. -/
def expectOpcodes (code : ObjectCode) (expected : List Opcode) :
    Except ListingMismatch Unit :=
  let actual := code.opcodes.toList
  if actual = expected then .ok () else .error (.different expected actual)

/-- Expect the given opcodes in order among the others. -/
def expectContains (code : ObjectCode) (expected : List Opcode) :
    Except ListingMismatch Unit :=
  let actual := code.opcodes.toList
  match unmatched expected actual with
  | [] => .ok ()
  | remaining => .error (.missing remaining actual)

/-- Expect that an opcode does not occur. -/
def expectLacks (code : ObjectCode) (opcode : Opcode) :
    Except ListingMismatch Unit :=
  let actual := code.opcodes.toList
  if opcode ∈ actual then .error (.unexpected opcode actual) else .ok ()

end ObjectCode

end CallCode
