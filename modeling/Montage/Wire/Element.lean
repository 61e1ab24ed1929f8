import Montage.Element
import Montage.Wire.Property

/-!
# Elements in documents

An element is written as a record.  Its parent and its text may be absent or empty;
an absent parent is written as the empty document, an absent text not at all.
-/

namespace Montage
namespace Element

/-- The fields of an element in order. -/
def fieldNames : List String :=
  ["id", "name", "parent_id", "props", "text"]

/-- Decodes an element in the given room. -/
def ofJsonWithin? : Nat → Json → Option Element
  | room + 1, json => do
      match ← json.fields? fieldNames with
      | [some id, some name, parent, some props, text] =>
          return {
            id := ← id.string?
            name := ← name.string?
            parent := ← Json.optional? Json.string? parent
            props := ← Property.dictOfJsonWithin? false room props
            text := ← Json.optional? Json.string? text }
      | _ => none
  | 0, _ => none

/-- Decodes a list of elements in the given room. -/
def listOfJsonWithin? : Nat → Json → Option (List Element)
  | room + 1, .array items => items.mapM (ofJsonWithin? room)
  | _, _ => none

/-- Decodes a whole document as an element. -/
def ofJson? (json : Json) : Option Element :=
  ofJsonWithin? Json.maxDepth json

/-- Decodes a whole document as a list of elements. -/
def listOfJson? (json : Json) : Option (List Element) :=
  listOfJsonWithin? Json.maxDepth json

/-- The document of an element. -/
def toJson (element : Element) : Json :=
  Json.record
    ([("id", .text element.id),
        ("name", .text element.name),
        ("parent_id", (element.parent.map Json.text).getD .null),
        ("props", Property.dictToJson element.props)] ++
      (element.text.map fun content => ("text", Json.text content)).toList)

/-- The document of a list of elements. -/
def listToJson (elements : List Element) : Json :=
  .array (elements.map toJson)

end Element
end Montage
