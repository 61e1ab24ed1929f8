import Montage.Frame
import Montage.Wire.Property

/-!
# Frames in documents

Frames are written and never read.  A sampled property is written as the plain value,
an offset into media as the property it is.
-/

namespace Montage

/-- The document of a property of a frame. -/
def Sampled.toJson : Sampled → Json
  | .value sampled => sampled.toJson
  | .source written => written.toJson

namespace Frame

/-- The document of the properties that go one way. -/
def propsToJson (props : List (String × Sampled)) : Json :=
  Json.record (props.map fun prop => (prop.1, prop.2.toJson))

mutual

/-- The document of a frame. -/
def toJson : Frame → Json
  | ⟨name, kind, componentProps, styleProps, children⟩ =>
      Json.record
        [("name", .text name),
          ("kind", .text kind.name),
          ("component_props", propsToJson componentProps),
          ("style_props", propsToJson styleProps),
          ("children", .array (childrenToJson children))]

/-- The documents of the children of a frame. -/
def childrenToJson : List (Child Frame) → List Json
  | [] => []
  | .element frame :: rest => toJson frame :: childrenToJson rest
  | .text content :: rest => .text content :: childrenToJson rest

end

end Frame
end Montage
