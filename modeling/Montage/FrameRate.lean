import Montage.Number.Reading

/-!
# Frame rates

A frame rate is a fraction of whole numbers, so many frames in so many seconds.  The
number of frames that cover a stretch of time is found on the exact value of the
product, with a tolerance for round-off: a product within a billionth of a whole
number counts as that number.
-/

namespace Montage

open Number

/-- So many frames in so many seconds. -/
structure FrameRate where
  /-- The number of frames. -/
  frames : UInt32
  /-- The number of seconds they last. -/
  seconds : UInt32
  deriving DecidableEq, Repr

/-- What keeps a fraction from being a frame rate. -/
inductive RateFault where
  /-- No seconds. -/
  | noSeconds
  /-- No frames. -/
  | noFrames
  deriving DecidableEq, Repr

namespace FrameRate

/-- The rate at which playback is sized: thirty frames in a second. -/
def playback : FrameRate :=
  ⟨30, 1⟩

/-- The largest number of frames that is ever reported. -/
def maxCount : Nat :=
  UInt64.size - 1

/-- A frame rate with both parts positive. -/
def checked (frames seconds : UInt32) : Except RateFault FrameRate :=
  if seconds = 0 then .error .noSeconds
  else if frames = 0 then .error .noFrames
  else .ok ⟨frames, seconds⟩

/-- The whole number of frames for an exact number of frames: the nearest one when
it is less than a billionth away, and otherwise the next one above. -/
def wholeFrames (frames : Rat) : Int :=
  let nearest := roundHalfAway frames
  let excess := frames - nearest
  let tolerance : Rat := 1 / 1000000000
  if -tolerance < excess ∧ excess < tolerance then nearest else frames.ceil

/-- The reported count: never negative, never above `maxCount`, and zero for what is
no number. -/
def count : Reading → Nat
  | .finite frames => clampTo maxCount (wholeFrames frames)
  | .infinite negative => if negative then 0 else maxCount
  | .undefined => 0

section Arithmetic

variable {ν : Type} [Mul ν] [Div ν] [NatCast ν] [Readable ν]

/-- Frames per second. -/
def perSecond (rate : FrameRate) : ν :=
  (rate.frames.toNat : ν) / (rate.seconds.toNat : ν)

/-- The number of frames that cover a stretch of time; a stretch that is not finite
is covered by none. -/
def framesCovering
    (rate : FrameRate)
    (seconds : ν) : Nat :=
  if isFinite seconds then
    count (Readable.reading (seconds * rate.perSecond))
  else
    0

/-- The instant at which a frame begins. -/
def instantOf
    (rate : FrameRate)
    (frame : Nat) : ν :=
  (frame : ν) / rate.perSecond

end Arithmetic

end FrameRate
end Montage
