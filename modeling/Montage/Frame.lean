import Montage.Keyframe.Search
import Montage.Sampling
import Montage.Schema
import Montage.Tree

/-!
# Frames

A frame is a tree as it stands at one instant: every property has been sampled and
routed by the schema of its component.  Offsets into media are handed on as they are
written.  Properties are sampled in key order, a node before its children; dropped
properties and media offsets are never shown to the sampler.
-/

namespace Montage

/-- A property of a frame. -/
inductive Sampled where
  /-- The value at the instant of the frame. -/
  | value (value : Value)
  /-- An offset into media, as it was written. -/
  | source (property : Property)

/-- A node of a tree at one instant. -/
structure Frame where
  /-- The name of the component. -/
  name : String
  /-- What stands behind the name. -/
  kind : ComponentKind
  /-- The properties handed to the component, in key order. -/
  componentProps : List (String × Sampled)
  /-- The properties folded into the style, in key order. -/
  styleProps : List (String × Sampled)
  /-- Nested nodes and texts in order. -/
  children : List (Child Frame)

namespace Tree

variable {m : Type → Type} [Monad m]

/-- Samples one property, or hands it on when it is an offset into media. -/
def sampleProp
    (sampler : Sampler m)
    (name key : String)
    (property : Property) : m Sampled :=
  if Schema.isMediaOffset name key then
    return .source property
  else
    return .value (← property.sample sampler)

/-- Samples the properties of a component that are not dropped, each with its
route. -/
def sampleProps
    (sampler : Sampler m)
    (name : String) : Dict Property → m (List (Route × String × Sampled))
  | [] => return []
  | (key, property) :: rest =>
      match (Schema.ofName name).route key with
      | .dropped => sampleProps sampler name rest
      | route => do
          let sampled ← sampleProp sampler name key property
          let others ← sampleProps sampler name rest
          return (route, key, sampled) :: others

/-- The properties that go one way. -/
def routed
    (route : Route)
    (props : List (Route × String × Sampled)) : Dict Sampled :=
  (props.filter fun prop => prop.1 = route).map Prod.snd

mutual

/-- The frame of a tree. -/
def sample
    (sampler : Sampler m) : Tree → m Frame
  | ⟨name, props, children⟩ => do
      let sampled ← sampleProps sampler name props
      let below ← sampleChildren sampler children
      return {
        name := name
        kind := (Schema.ofName name).kind
        componentProps := routed .component sampled
        styleProps := routed .style sampled
        children := below }

/-- The frames of the nested nodes among texts, which stay as they are. -/
def sampleChildren
    (sampler : Sampler m) : List (Child Tree) → m (List (Child Frame))
  | [] => return []
  | .element tree :: rest => do
      let frame ← sample sampler tree
      let others ← sampleChildren sampler rest
      return .element frame :: others
  | .text content :: rest => do
      let others ← sampleChildren sampler rest
      return .text content :: others

end

/-- The frame of a tree at an instant, in seconds. -/
def frameAt
    (tree : Tree)
    (instant : Float) : Frame :=
  Id.run (tree.sample (Sampler.standingAt instant))

end Tree
end Montage
