import Montage.Keyframe

/-!
# Keyframes by position

Instants and values are kept in two lists, and keyframes are the positions that both lists
have.  The last instant that has been reached is found by halving the stretch of positions
that it may stand at.  Nothing is taken for granted here: an entry is read only where a list
has one, and a number is divided only by a positive one.  Where that fails, there is no
value.  The sampler that stands at one instant finds its answers in this way.
-/

namespace Montage
namespace Keyframe

variable {ν : Type} [Add ν] [Sub ν] [Mul ν] [Div ν] [LT ν] [LE ν]
  [DecidableLT ν] [DecidableLE ν] [OfNat ν 0] [OfNat ν 1] [OfNat ν 2]

/-- The quotient by a positive number. -/
def quotient? (dividend divisor : ν) : Option ν :=
  if 0 < divisor then some (dividend / divisor) else none

/-- How many instants have been reached, when all of them before `base` have been and none of
them behind the next `size` ones. -/
def reachedWithin?
    (instants : List ν)
    (instant : ν)
    (base size : Nat) : Option Nat :=
  if 1 < size then do
    let half := size / 2
    let middle ← instants[base + half]?
    reachedWithin? instants instant (if middle ≤ instant then base + half else base)
      (size - half)
  else do
    let last ← instants[base]?
    return if last ≤ instant then base + 1 else base
termination_by size

/-- The value at `instant`, when so many instants have been reached. -/
def valueAfter?
    (ease : Ease)
    (instant : ν)
    (instants values : List ν)
    (reached : Nat) : Option ν :=
  if reached = 0 then values[0]?
  else if values.length ≤ reached then values[values.length - 1]?
  else do
    let start ← instants[reached - 1]?
    let stop ← instants[reached]?
    let startValue ← values[reached - 1]?
    let stopValue ← values[reached]?
    let span := stop - start
    if span ≤ 0 then
      return startValue
    else
      let progress ← quotient? (instant - start) span
      return startValue + (stopValue - startValue) * ease.apply progress

/-- The value at `instant`, found by position among as many instants and values as there are
of both; zero if there are none of either. -/
def search?
    (ease : Ease)
    (instant : ν)
    (instants values : List ν) : Option ν :=
  let count := min instants.length values.length
  if count = 0 then
    some 0
  else do
    let reached ← reachedWithin? (instants.take count) instant 0 count
    valueAfter? ease instant (instants.take count) (values.take count) reached

end Keyframe

/-- The sampler that stands at one instant of the timeline.  Instants without a value
and values without an instant are left out of account.  No value is found only where the
span between two instants is no number, and then the answer is no number either. -/
def Sampler.standingAt (instant : Float) : Sampler Id :=
  fun instants values ease =>
    pure ((Keyframe.search? ease instant instants values).getD (0 / 0))

end Montage
