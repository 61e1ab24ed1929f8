import Montage.Number.Numeral

/-!
# The shortest digits of a floating-point number

A finite number other than zero is the rounding of every real in an interval around
it.  Among the decimals in that interval the shortest ones are wanted, and among
those the nearest.  For one digit, two digits and so on, the number's two neighbours
on the decimal grid of that many digits are tried: if any point of the grid lies in
the interval, one of these two does.  Seventeen digits always suffice.
-/

namespace Montage
namespace Number

open Float.Model (UnpackedFloat)

/-- Which of two equally near decimals is taken. -/
inductive Tie where
  /-- The larger one. -/
  | up
  /-- The one whose last digit is even. -/
  | even
  deriving DecidableEq, Repr

/-- A positive number together with the interval of reals that round to it. -/
structure Cell where
  /-- The number itself. -/
  value : Rat
  /-- The lower end of the interval. -/
  lower : Rat
  /-- The upper end of the interval. -/
  upper : Rat
  /-- Whether the two ends round to the number as well. -/
  closed : Bool

namespace Cell

/-- The least mantissa of 53 bits. -/
def leastNormal : Nat :=
  0x10000000000000

/-- The cell of `mantissa * 2 ^ exponent`: half a step on either side, but only a
quarter below a power of two, where the steps get half as wide; the ends belong to
the cell when the mantissa is even. -/
def ofParts
    (mantissa : Nat)
    (exponent : Int) : Cell :=
  let step : Rat := 2 ^ exponent
  let value := mantissa * step
  let narrow := mantissa = leastNormal ∧ exponent ≠ -1074
  { value := value
    lower := value - (if narrow then step / 4 else step / 2)
    upper := value + step / 2
    closed := mantissa % 2 = 0 }

/-- Whether a decimal rounds to the number of the cell. -/
def admits
    (cell : Cell)
    (decimal : Rat) : Bool :=
  if cell.closed then
    cell.lower ≤ decimal && decimal ≤ cell.upper
  else
    cell.lower < decimal && decimal < cell.upper

/-- How many digits stand before the point of the number; zero or less when it is
below one tenth or between one tenth and one. -/
def point (cell : Cell) : Int :=
  let numerator := cell.value.num.natAbs
  let denominator := cell.value.den
  if denominator ≤ numerator then
    (Nat.toDigits 10 (numerator / denominator)).length
  else
    1 - (Nat.toDigits 10 ((denominator - 1) / numerator)).length

/-- The multiple of `10 ^ exponent` that lies in the cell and is nearest to its
number, if there is one. -/
def nearestMultiple
    (cell : Cell)
    (tie : Tie)
    (exponent : Int) : Option Nat :=
  let unit : Rat := 10 ^ exponent
  let scaled := cell.value / unit
  let below := scaled.floor.toNat
  let excess := scaled - below
  let above := below + 1
  match cell.admits (below * unit), cell.admits (above * unit) with
  | false, false => none
  | true, false => some below
  | false, true => some above
  | true, true =>
      if excess < 1 / 2 then some below
      else if 1 / 2 < excess then some above
      else
        match tie with
        | .up => some above
        | .even => some (if below % 2 = 0 then below else above)

end Cell

/-- The digits of a positive decimal `0.digits * 10 ^ point`; the first and the last
of them are not zero. -/
structure Digits where
  /-- The digits, most significant first. -/
  digits : List Char
  /-- How many of the digits stand before the decimal point. -/
  point : Int
  deriving DecidableEq, Repr

namespace Digits

/-- The digits of `multiple * 10 ^ exponent`, without zeros at the end. -/
def ofMultiple
    (multiple : Nat)
    (exponent : Int) : Digits :=
  let all := Nat.toDigits 10 multiple
  { digits := (all.reverse.dropWhile (· = '0')).reverse
    point := all.length + exponent }

/-- The shortest digits of a positive number, the nearest among the shortest. -/
def shortest
    (tie : Tie)
    (mantissa : Nat)
    (exponent : Int) : Digits :=
  let cell := Cell.ofParts mantissa exponent
  let found := (List.range 17).findSome? fun (count : Nat) =>
    let unit := cell.point - (count + 1)
    (cell.nearestMultiple tie unit).map fun multiple => ofMultiple multiple unit
  found.getD ⟨[], 0⟩

/-- The digits before and after the point when no power of ten is written. -/
def positional (number : Digits) : List Char × List Char :=
  if number.point ≤ 0 then
    (['0'], List.replicate (-number.point).toNat '0' ++ number.digits)
  else
    let before := number.point.toNat
    (number.digits.take before ++
        List.replicate (before - number.digits.length) '0',
      number.digits.drop before)

end Digits
end Number
end Montage
