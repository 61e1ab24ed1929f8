/-!
# Hexadecimal digits

The value of a hexadecimal digit in either letter case, and the lowercase digits of
bytes.
-/

namespace Montage
namespace Text

/-- The value of a hexadecimal digit. -/
def hexValue? (digit : Char) : Option Nat :=
  if '0' ≤ digit ∧ digit ≤ '9' then some (digit.toNat - '0'.toNat)
  else if 'a' ≤ digit ∧ digit ≤ 'f' then some (digit.toNat - 'a'.toNat + 10)
  else if 'A' ≤ digit ∧ digit ≤ 'F' then some (digit.toNat - 'A'.toNat + 10)
  else none

/-- The digit of a value below sixteen. -/
def hexDigit (value : Nat) : Char :=
  Nat.digitChar (value % 16)

/-- The two lowercase digits of a byte. -/
def hexByte (byte : UInt8) : List Char :=
  [hexDigit (byte.toNat / 16), hexDigit byte.toNat]

/-- The byte that two digits spell. -/
def byteOfHex? (high low : Char) : Option UInt8 :=
  match hexValue? high, hexValue? low with
  | some first, some second => some (UInt8.ofNat (16 * first + second))
  | _, _ => none

end Text
end Montage
