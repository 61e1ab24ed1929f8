import Montage.Property
import Montage.Wire.Value

/-!
# Properties in documents

A property is written as an object that says under `kind` whether it is constant or
animated and holds the rest under `value`, in either order, or as a list of the two.
The value of an animated property is an object with its instants and its values; that
there are as many of the one as of the other is not asked for.

Where the value comes before the kind, it has to be kept until the kind is known, and
a document that is kept has to be sound as a whole.

In an object the kind is one of two choices.  In a list it is a string and, in a
document that is kept, also a whole number: the position of the kind among the kinds.
-/

namespace Montage
namespace Property

/-- The names of the two kinds. -/
def constantName : String := "constant"
@[inherit_doc constantName] def animatedName : String := "animated"

/-- The names of the kinds in order. -/
def kindNames : List String :=
  [constantName, animatedName]

/-- The kind that the first item of a list names. -/
def listedKind? (kept : Bool) : Json → Option String
  | .string spelled => spelled
  | .number numeral =>
      if kept then
        (Json.toNat? kindNames.length numeral).bind fun position =>
          kindNames[position]?
      else
        none
  | _ => none

/-- The kind that a property names, given the document that stands for it. -/
def kind?
    (kept : Bool)
    (room : Nat)
    (kind : Json) : Json → Option String
  | .array _ => listedKind? kept kind
  | _ => kind.choice? room

/-- Decodes the instants and values of an animated property. -/
def animationOfJsonWithin? : Nat → Json → Option Property
  | room + 2, .object members => do
      match ← Json.fields? ["timestamps", "values"] (.object members) with
      | [some instants, some values] =>
          let instants ← (← instants.items?).mapM Json.float?
          let values ← (← values.items?).mapM (Value.ofJsonWithin? room)
          return .animated instants values
      | _ => none
  | _, _ => none

/-- Decodes the value of a property whose kind is known. -/
def ofKind?
    (kind : String)
    (room : Nat)
    (json : Json) : Option Property :=
  if kind = constantName then (Value.ofJsonWithin? room json).map .constant
  else if kind = animatedName then animationOfJsonWithin? room json
  else none

/-- Whether the value comes before the kind. -/
def valueFirst (members : List (Option String × Json)) : Bool :=
  (members.find? fun member =>
      member.1 = some "kind" || member.1 = some "value").any
    fun member => member.1 = some "value"

/-- Decodes a property in the given room. -/
def ofJsonWithin? (kept : Bool) : Nat → Json → Option Property
  | room + 1, json => do
      match ← json.fields? ["kind", "value"] with
      | [some kind, some value] =>
          if json.members?.any valueFirst && !value.isSound room then none
          else ofKind? (← kind? kept room kind json) room value
      | _ => none
  | 0, _ => none

/-- Decodes a whole document as a property. -/
def ofJson? (json : Json) : Option Property :=
  ofJsonWithin? false Json.maxDepth json

/-- The document of a property. -/
def toJson : Property → Json
  | .constant value =>
      Json.record [("kind", .text constantName), ("value", value.toJson)]
  | .animated instants values =>
      Json.record
        [("kind", .text animatedName),
          ("value", Json.record
            [("timestamps", .array (instants.map Json.ofFloat)),
              ("values", .array (values.map Value.toJson))])]

/-- Decodes a dictionary of properties; the last one under a key counts. -/
def dictOfJsonWithin? (kept : Bool) : Nat → Json → Option (Dict Property)
  | room + 1, .object members => do
      let entries ← members.mapM fun member => do
        let key ← member.1
        let property ← ofJsonWithin? kept room member.2
        return (key, property)
      return Dict.ofList entries
  | _, _ => none

/-- The document of a dictionary of properties. -/
def dictToJson (props : Dict Property) : Json :=
  Json.record (props.map fun prop => (prop.1, prop.2.toJson))

end Property
end Montage
