/-!
# Component schemas

A schema says for a component which of its properties are handed to the component
itself and which are folded into its style; a property that is neither is dropped.
The registry knows the plain tags and the media and layout components by name, and
hands everything to components it does not know.
-/

namespace Montage

/-- What stands behind a component name. -/
inductive ComponentKind where
  /-- A plain tag. -/
  | html
  /-- A composed component. -/
  | component
  deriving DecidableEq, Repr

namespace ComponentKind

/-- The name of a kind in documents. -/
def name : ComponentKind → String
  | .html => "html"
  | .component => "component"

end ComponentKind

/-- A set of property keys. -/
inductive KeySet where
  /-- Every key. -/
  | all
  /-- The listed keys. -/
  | only (keys : List String)
  /-- Every key but the listed ones. -/
  | allExcept (keys : List String)
  deriving DecidableEq, Repr

namespace KeySet

/-- The empty set. -/
def none : KeySet :=
  .only []

/-- Whether a key belongs to a set. -/
def contains
    (set : KeySet)
    (key : String) : Bool :=
  match set with
  | all => true
  | only keys => keys.elem key
  | allExcept keys => !keys.elem key

end KeySet

/-- Where a property goes. -/
inductive Route where
  /-- To the component. -/
  | component
  /-- Into the style. -/
  | style
  /-- Nowhere. -/
  | dropped
  deriving DecidableEq, Repr

/-- The rule by which the properties of a component are routed. -/
structure Schema where
  /-- What stands behind the name. -/
  kind : ComponentKind
  /-- The keys that are handed to the component. -/
  component : KeySet
  /-- The keys that are folded into the style. -/
  style : KeySet
  deriving DecidableEq, Repr

namespace Schema

/-- Where the property of a key goes; the component comes before the style. -/
def route
    (schema : Schema)
    (key : String) : Route :=
  if schema.component.contains key then .component
  else if schema.style.contains key then .style
  else .dropped

/-! ## The registry -/

/-- The schema of a name that the registry does not know. -/
def unregistered : Schema where
  kind := .component
  component := .all
  style := .none

/-- The names of plain tags. -/
def tags : List String :=
  ["div", "span", "p", "h1", "h2", "h3", "h4", "h5", "h6", "section", "header",
    "footer", "ul", "ol", "li", "a", "img", "button", "strong", "em"]

/-- The schema of a plain tag. -/
def tag : Schema where
  kind := .html
  component := .only ["className", "id", "src", "alt", "href"]
  style := .allExcept ["className", "id", "src", "alt", "href", "text"]

/-- The schema of the component that fills its parent. -/
def fill : Schema where
  kind := .component
  component := .only ["className", "id"]
  style := .allExcept ["className", "id", "text"]

/-- The schema of pictures. -/
def picture : Schema where
  kind := .component
  component := .only ["src", "alt", "className"]
  style := .allExcept ["src", "alt", "className", "text"]

/-- The schema of moving pictures. -/
def video : Schema where
  kind := .component
  component :=
    .only ["src", "startFrom", "endAt", "volume", "muted", "playbackRate", "loop",
      "className"]
  style :=
    .allExcept ["src", "startFrom", "endAt", "volume", "muted", "playbackRate",
      "loop", "className", "text"]

/-- The schema of sound, which has no style. -/
def audio : Schema where
  kind := .component
  component :=
    .only ["src", "startFrom", "endAt", "volume", "muted", "playbackRate", "loop"]
  style := .none

/-- The schema of a component name. -/
def ofName (name : String) : Schema :=
  if tags.elem name then tag
  else if name = "AbsoluteFill" then fill
  else if name = "Img" then picture
  else if name = "Video" ∨ name = "OffthreadVideo" then video
  else if name = "Audio" then audio
  else unregistered

/-! ## Offsets into media -/

/-- The component names and keys whose values are positions inside a media file and
not instants of the timeline. -/
def mediaOffsets : List (String × String) :=
  [("Video", "startFrom"), ("Video", "endAt"), ("OffthreadVideo", "startFrom"),
    ("OffthreadVideo", "endAt"), ("Audio", "startFrom"), ("Audio", "endAt")]

/-- Whether the property of a component is a position inside a media file. -/
def isMediaOffset (name key : String) : Bool :=
  mediaOffsets.elem (name, key)

theorem isMediaOffset_eq_true_iff
    {name key : String} :
    isMediaOffset name key = true ↔ (name, key) ∈ mediaOffsets := by
  simp [isMediaOffset]

theorem isMediaOffset_eq_false_iff
    {name key : String} :
    isMediaOffset name key = false ↔ (name, key) ∉ mediaOffsets := by
  simp [isMediaOffset]

end Schema
end Montage
