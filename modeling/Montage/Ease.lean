/-!
# Easing curves

An easing curve bends the progress between two keyframes.  The curves are given for
any number type with the four operations and an order, so that the same definition
runs on floating-point numbers and can be studied over the rationals.
-/

namespace Montage

/-- The shape of the passage between two keyframes. -/
inductive Ease where
  /-- Slow at the start. -/
  | easeIn
  /-- Slow at the end. -/
  | easeOut
  /-- Slow at both ends. -/
  | easeInOut
  /-- Even speed. -/
  | linear
  deriving DecidableEq, Repr

namespace Ease

/-- The curve that every animated property is sampled with. -/
def standard : Ease :=
  .easeInOut

/-- The name a curve goes by in documents and host programs. -/
def name : Ease → String
  | .easeIn => "in"
  | .easeOut => "out"
  | .easeInOut => "inOut"
  | .linear => "linear"

/-- The curve of exactly this name. -/
def ofName? (text : String) : Option Ease :=
  [easeIn, easeOut, easeInOut, linear].find? fun ease => ease.name = text

@[simp] theorem ofName?_name (ease : Ease) : ofName? ease.name = some ease := by
  cases ease <;> decide

section Curve

variable {ν : Type} [Add ν] [Sub ν] [Mul ν] [Div ν]
  [LT ν] [DecidableLT ν] [OfNat ν 0] [OfNat ν 1] [OfNat ν 2]

/-- Progress kept between zero and one; what compares with neither is kept as it
is. -/
def clamp (progress : ν) : ν :=
  let raised := if progress < 0 then 0 else progress
  if 1 < raised then 1 else raised

/-- The eased progress: quadratic pieces that start at zero and end at one. -/
def apply
    (ease : Ease)
    (progress : ν) : ν :=
  let t := clamp progress
  match ease with
  | .linear => t
  | .easeIn => t * t
  | .easeOut => 1 - (1 - t) * (1 - t)
  | .easeInOut =>
      if 2 * t < 1 then
        2 * t * t
      else
        1 - (2 - 2 * t) * (2 - 2 * t) / 2

end Curve

end Ease
end Montage
