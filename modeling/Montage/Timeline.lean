/-!
# Timelines

A timeline is a list of tracks in stacking order, a track a list of clips.  A clip
shows the tree of its element descriptions from its start on until before its end,
and may pass into its neighbours by transitions.  Times are in seconds, in any number
type.
-/

namespace Montage

/-- A passage between two neighbouring clips. -/
structure Transition (ν : Type) where
  /-- The kind of passage, as the editor names it. -/
  kind : String
  /-- How long it takes. -/
  duration : ν
  deriving DecidableEq, Repr

/-- A stretch of a track with the element descriptions that are shown in it. -/
structure Clip (ν : Type) where
  /-- The identifier. -/
  id : String
  /-- The first instant at which the clip is shown. -/
  start : ν
  /-- The first instant after it. -/
  finish : ν
  /-- The element descriptions. -/
  descriptions : List String := []
  /-- The passage into the clip that follows. -/
  toNext : Option (Transition ν) := none
  /-- The passage out of the clip before. -/
  fromPrevious : Option (Transition ν) := none
  deriving DecidableEq, Repr

/-- Clips one after the other; there may be gaps between them. -/
structure Track (ν : Type) where
  /-- The clips in order. -/
  clips : List (Clip ν) := []
  deriving DecidableEq, Repr

/-- Tracks on top of each other. -/
structure Timeline (ν : Type) where
  /-- The tracks in stacking order. -/
  tracks : List (Track ν) := []
  deriving DecidableEq, Repr

/-- The clips of all tracks. -/
def Timeline.clips {ν : Type} (timeline : Timeline ν) : List (Clip ν) :=
  timeline.tracks.flatMap Track.clips

/-- Whether a clip is shown at an instant. -/
def Clip.isShownAt
    {ν : Type} [LT ν] [LE ν] [DecidableLT ν] [DecidableLE ν]
    (clip : Clip ν)
    (instant : ν) : Bool :=
  clip.start ≤ instant && instant < clip.finish

end Montage
