import Montage.FrameRate
import Montage.Timeline

/-!
# The duration of a timeline

Each outgoing transition makes its clip longer by half of its own duration, whether
or not another clip follows.  A timeline ends where the last of its clips ends, and
lasts for at least one frame.  Durations that are negative or not finite do not count,
nor do clips whose end is not finite.
-/

namespace Montage

open Number

variable {ν : Type} [Add ν] [Mul ν] [Div ν] [LT ν] [DecidableLT ν]
  [OfNat ν 0] [OfNat ν 2] [NatCast ν] [Readable ν]

/-- By how much a transition makes the clip before it longer. -/
def Transition.extension (transition : Transition ν) : ν :=
  if isFinite transition.duration then
    if 0 < transition.duration then transition.duration / 2 else 0
  else
    0

namespace Clip

/-- By how much a clip lasts beyond its end. -/
def extension (clip : Clip ν) : ν :=
  match clip.toNext with
  | none => 0
  | some transition => transition.extension

/-- The end of a clip together with its outgoing transition. -/
def extendedFinish (clip : Clip ν) : ν :=
  clip.finish + clip.extension

end Clip

namespace Timeline

/-- The least number of frames that a timeline lasts. -/
def minFrames : Nat :=
  1

/-- The later one of two instants, the first one when they are equal. -/
def later (first second : ν) : ν :=
  if first < second then second else first

/-- The end of the last clip, or zero if that is later. -/
def finish (timeline : Timeline ν) : ν :=
  ((timeline.clips.map Clip.extendedFinish).filter isFinite).foldl later 0

/-- The number of frames of a timeline at a frame rate. -/
def frameCount
    (timeline : Timeline ν)
    (rate : FrameRate) : Nat :=
  max minFrames (rate.framesCovering timeline.finish)

end Timeline
end Montage
