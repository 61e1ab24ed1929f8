import Montage.Timeline
import Montage.Wire.Record

/-!
# Timelines in documents

A timeline is written as the bare list of its tracks; tracks, clips and transitions
are records.  The clips of a track and the descriptions of a clip may be absent, its
transitions also empty.  Absent transitions are not written.
-/

namespace Montage

/-- Decodes a transition. -/
def Transition.ofJson? (json : Json) : Option (Transition Float) := do
  match ← json.fields? ["type", "durationInSeconds"] with
  | [some kind, some duration] =>
      return {
        kind := ← kind.string?
        duration := ← duration.float? }
  | _ => none

/-- The document of a transition. -/
def Transition.toJson (transition : Transition Float) : Json :=
  Json.record
    [("type", .text transition.kind),
      ("durationInSeconds", Json.ofFloat transition.duration)]

namespace Clip

/-- The fields of a clip in order. -/
def fieldNames : List String :=
  ["id", "startTimeInSeconds", "endTimeInSeconds", "element", "transitionToNext",
    "transitionFromPrevious"]

/-- Decodes a clip. -/
def ofJson? (json : Json) : Option (Clip Float) := do
  match ← json.fields? fieldNames with
  | [some id, some start, some finish, descriptions, toNext, fromPrevious] =>
      return {
        id := ← id.string?
        start := ← start.float?
        finish := ← finish.float?
        descriptions := ← Json.listed? Json.string? descriptions
        toNext := ← Json.optional? Transition.ofJson? toNext
        fromPrevious := ← Json.optional? Transition.ofJson? fromPrevious }
  | _ => none

/-- The member for a transition, if there is one. -/
def transitionMember
    (key : String)
    (transition : Option (Transition Float)) : List (String × Json) :=
  (transition.map fun given => (key, given.toJson)).toList

/-- The document of a clip. -/
def toJson (clip : Clip Float) : Json :=
  Json.record
    ([("id", .text clip.id),
        ("startTimeInSeconds", Json.ofFloat clip.start),
        ("endTimeInSeconds", Json.ofFloat clip.finish),
        ("element", .array (clip.descriptions.map Json.text))] ++
      transitionMember "transitionToNext" clip.toNext ++
      transitionMember "transitionFromPrevious" clip.fromPrevious)

end Clip

/-- Decodes a track. -/
def Track.ofJson? (json : Json) : Option (Track Float) := do
  match ← json.fields? ["clips"] with
  | [clips] => return ⟨← Json.listed? Clip.ofJson? clips⟩
  | _ => none

/-- The document of a track. -/
def Track.toJson (track : Track Float) : Json :=
  Json.record [("clips", .array (track.clips.map Clip.toJson))]

/-- Decodes a timeline. -/
def Timeline.ofJson? (json : Json) : Option (Timeline Float) :=
  (json.items?.bind fun items => items.mapM Track.ofJson?).map Timeline.mk

/-- The document of a timeline. -/
def Timeline.toJson (timeline : Timeline Float) : Json :=
  .array (timeline.tracks.map Track.toJson)

end Montage
