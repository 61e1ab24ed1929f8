import Montage.Cache
import Montage.Timeline.Duration

/-!
# Playback

Playback shows chosen frames of a timeline at the rate that timelines are sized by.
In each frame the clips that are shown at its instant appear in stacking order; all
trees come from one cache.
-/

namespace Montage

/-- One clip in one frame of a playback. -/
structure Shown where
  /-- The number of the frame. -/
  frame : Nat
  /-- The identifier of the clip. -/
  clip : String
  /-- What the clip looks like in it. -/
  root : Except Error Frame

namespace Playback

/-- Shows clips in one frame. -/
def showClips
    (frame : Nat)
    (instant : Float)
    (cache : Cache) : List (Clip Float) → List Shown × Cache
  | [] => ([], cache)
  | clip :: rest =>
      let (root, afterClip) := cache.frameAt clip.descriptions instant
      let (others, after) := showClips frame instant afterClip rest
      (⟨frame, clip.id, root⟩ :: others, after)

/-- Shows frames of a timeline one after the other. -/
def showFrames
    (timeline : Timeline Float)
    (cache : Cache) : List Nat → List Shown × Cache
  | [] => ([], cache)
  | frame :: rest =>
      let instant := FrameRate.playback.instantOf frame
      let clips := timeline.clips.filter fun clip => clip.isShownAt instant
      let (shown, afterFrame) := showClips frame instant cache clips
      let (others, after) := showFrames timeline afterFrame rest
      (shown ++ others, after)

end Playback

/-- The given frames of a timeline, with the cache after them. -/
def Timeline.play
    (timeline : Timeline Float)
    (frames : List Nat) : List Shown × Cache :=
  Playback.showFrames timeline {} frames

end Montage
