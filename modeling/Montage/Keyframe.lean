import Montage.Ease

/-!
# Keyframes

Keyframes are a list of instants, each with a value.  Before the first instant they
stand for the first value, from the last instant on for the last one, and in between
they pass from key to key along an easing curve.
-/

namespace Montage
namespace Keyframe

variable {ν : Type} [Add ν] [Sub ν] [Mul ν] [Div ν] [LT ν] [LE ν]
  [DecidableLT ν] [DecidableLE ν] [OfNat ν 0] [OfNat ν 1] [OfNat ν 2]

/-- The value at `instant` on the way from one key to the next; a key that the next
one does not follow in time holds its value. -/
def between
    (ease : Ease)
    (instant start stop : ν)
    (startValue stopValue : ν) : ν :=
  let span := stop - start
  if span ≤ 0 then
    startValue
  else
    startValue + (stopValue - startValue) * ease.apply ((instant - start) / span)

/-- The value at `instant`, when the key given apart has been reached. -/
def sampleFrom
    (ease : Ease)
    (instant : ν)
    (start startValue : ν) : List (ν × ν) → ν
  | [] => startValue
  | (stop, stopValue) :: later =>
      if stop ≤ instant then
        sampleFrom ease instant stop stopValue later
      else
        between ease instant start stop startValue stopValue

/-- The value of keyframes at `instant`; without any keyframe it is zero. -/
def sample
    (ease : Ease)
    (instant : ν) : List (ν × ν) → ν
  | [] => 0
  | (start, startValue) :: later =>
      if start ≤ instant then
        sampleFrom ease instant start startValue later
      else
        startValue

end Keyframe

/-- A way of finding values at the present instant: given the instants of the keys,
their values and a curve, it answers a number.  What else it does, such as counting
its calls, is up to the monad. -/
abbrev Sampler (m : Type → Type) :=
  List Float → List Float → Ease → m Float

end Montage
