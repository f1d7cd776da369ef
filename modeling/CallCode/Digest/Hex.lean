/-!
# Fixed-width hexadecimal text
-/

namespace CallCode

namespace Hex

/-- The lower-case hexadecimal digit of a number below sixteen. -/
def digit (value : Nat) : Char :=
  if value < 10 then Char.ofNat (48 + value) else Char.ofNat (87 + value)

/-- The low `width` hexadecimal digits of `value`, most significant first. -/
def digits : Nat → Nat → List Char
  | 0, _ => []
  | width + 1, value => digits width (value / 16) ++ [digit (value % 16)]

/-- A byte as two hexadecimal digits. -/
def ofByte (byte : UInt8) : String :=
  String.ofList (digits 2 byte.toNat)

/-- Bytes as two hexadecimal digits each. -/
def ofBytes (bytes : List UInt8) : String :=
  bytes.foldl (fun text byte => text ++ ofByte byte) ""

/-- The value of a hexadecimal digit of either case. -/
def digitValue? (letter : Char) : Option Nat :=
  (List.range 16).find? fun value => digit value == letter.toLower

/-- The number that hexadecimal digits spell, most significant first. -/
def value? (letters : List Char) : Option Nat :=
  letters.foldlM (fun value letter => do
    let last ← digitValue? letter
    return value * 16 + last) 0

/-- The bytes that pairs of hexadecimal digits spell.  A last character without a
partner belongs to no byte. -/
def bytes? : List Char → Option (List UInt8)
  | [] | [_] => some []
  | high :: low :: rest => do
      let byte ← value? [high, low]
      let bytes ← bytes? rest
      return byte.toUInt8 :: bytes

/-- A 64-bit word as `0x` and sixteen hexadecimal digits. -/
def ofWord (word : UInt64) : String :=
  "0x" ++ String.ofList (digits 16 word.toNat)

@[simp]
theorem length_digits (width value : Nat) : (digits width value).length = width := by
  induction width generalizing value with
  | zero => rfl
  | succ width ih => simp [digits, ih]

end Hex

end CallCode
