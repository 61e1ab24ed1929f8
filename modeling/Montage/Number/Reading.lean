/-!
# The exact value of a number

Sampling and sizing are written once for any number type.  Where a number has to
become a count, a colour channel or a text, its exact value is needed: a rational,
or the knowledge that it is infinite or undefined.  `Reading` is that value, and
`Readable` the number types that have one.
-/

namespace Montage
namespace Number

open Float.Model (UnpackedFloat)

/-- What a number stands for. -/
inductive Reading where
  /-- An exact rational. -/
  | finite (value : Rat)
  /-- An infinity of either sign. -/
  | infinite (negative : Bool)
  /-- No number at all. -/
  | undefined
  deriving DecidableEq

/-- Number types whose values can be read exactly. -/
class Readable (ν : Type) where
  /-- The exact value. -/
  reading : ν → Reading

/-- Whether a number is neither infinite nor undefined. -/
def isFinite {ν : Type} [Readable ν] (number : ν) : Bool :=
  match Readable.reading number with
  | .finite _ => true
  | _ => false

instance readableRat : Readable Rat where
  reading value := .finite value

@[simp] theorem isFinite_rat (value : Rat) : isFinite value = true := rfl

/-- The exact value of a floating-point number taken apart into sign, mantissa and
power of two. -/
def Reading.ofUnpacked : UnpackedFloat → Reading
  | .zero _ => .finite 0
  | .finite sign mantissa exponent _ =>
      .finite (sign.apply mantissa * (2 : Rat) ^ exponent)
  | .infinity sign => .infinite (sign == .negative)
  | .notANumber => .undefined

instance readableFloat : Readable Float where
  reading number := .ofUnpacked number.toModel.unpack

instance natCastFloat : NatCast Float where
  natCast number := Float.ofNat number

/-- The nearest whole number, halves away from zero. -/
def roundHalfAway (value : Rat) : Int :=
  if 0 ≤ value then (value + 1 / 2).floor else -(-value + 1 / 2).floor

/-- The whole number of the range from zero to `ceiling` that lies nearest. -/
def clampTo (ceiling : Nat) (value : Int) : Nat :=
  min ceiling value.toNat

end Number
end Montage
