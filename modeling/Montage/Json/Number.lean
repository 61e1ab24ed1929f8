import Montage.Json.Basic
import Montage.Number.Reading
import Montage.Number.Shortest

/-!
# The numbers of documents

A floating-point number is written with its shortest digits: in full, with at least
one digit after the point, when the power of ten of the leading digit lies between -5
and 15, and otherwise with a power of ten.  What is not finite has no numeral.

A numeral is read in two steps.  First its digits are gathered into a significand of
64 bits.  From the first digit on that no longer fits, digits before the point count
as zeros, and digits after the point are ignored.  Then the significand is multiplied
or divided by a power of ten, each step rounding on its own; powers below the smallest
are divided off in two steps.  A numeral whose number would be infinite has none.
-/

namespace Montage
namespace Json

open Number

open Float.Model (UnpackedFloat)

/-- The numeral of a finite number. -/
def numeralOf? (number : Float) : Option Numeral :=
  match number.toModel.unpack with
  | .notANumber => none
  | .infinity _ => none
  | .zero sign => some ⟨sign == .negative, ['0'], ['0'], none⟩
  | .finite sign mantissa exponent _ =>
      let number := Digits.shortest .even mantissa exponent
      let power := number.point - 1
      if -5 ≤ power ∧ power ≤ 15 then
        let (whole, fraction) := number.positional
        some ⟨sign == .negative, whole,
          if fraction.isEmpty then ['0'] else fraction, none⟩
      else
        some ⟨sign == .negative, number.digits.take 1, number.digits.drop 1,
          some power⟩

/-- The document of a number; the empty value when the number is not finite. -/
def ofFloat (amount : Float) : Json :=
  match numeralOf? amount with
  | some numeral => .number numeral
  | none => .null

/-- Appends digits to a significand as long as it fits into 64 bits; the second
part is the number of digits that are left over. -/
def gather (significand : Nat) : List Char → Nat × Nat
  | [] => (significand, 0)
  | digit :: rest =>
      let next := 10 * significand + Numeral.digitValue digit
      if next < UInt64.size then gather next rest else (significand, rest.length + 1)

/-- The significand of a numeral and the power of ten that goes with it. -/
def parts (numeral : Numeral) : Nat × Int :=
  let (whole, beyond) := gather 0 numeral.whole
  let (significand, ignored) := gather whole numeral.fraction
  let used : Int := numeral.fraction.length - ignored
  (significand, beyond - used + numeral.exponent.getD 0)

/-- A power of ten as a floating-point number. -/
def powerOfTen (power : Nat) : Float :=
  Float.ofScientific 1 false power

/-- A number times a power of ten that is not negative. -/
def raise
    (number : Float)
    (power : Nat) : Option Float :=
  if power ≤ 308 then
    let raised := number * powerOfTen power
    if raised.isFinite then some raised else none
  else if number == 0 then
    some number
  else
    none

/-- A number divided by a power of ten. -/
def lower
    (number : Float)
    (power : Nat) : Float :=
  if power ≤ 308 then number / powerOfTen power
  else if power ≤ 616 then number / powerOfTen 308 / powerOfTen (power - 308)
  else 0

/-- The number of a numeral. -/
def toFloat? (numeral : Numeral) : Option Float :=
  let (significand, power) := parts numeral
  let number := Float.ofNat significand
  let magnitude :=
    if 0 ≤ power then raise number power.toNat
    else some (lower number (-power).toNat)
  magnitude.map fun amount => if numeral.negative then -amount else amount

/-- The whole number of a numeral below a bound; a sign, a point and a power of ten
are refused even where they would not change the number. -/
def toNat?
    (bound : Nat)
    (numeral : Numeral) : Option Nat :=
  let value := Numeral.digitsValue numeral.whole
  if !numeral.negative && numeral.fraction.isEmpty && numeral.exponent.isNone &&
      decide (value < bound) then
    some value
  else
    none

end Json
end Montage
