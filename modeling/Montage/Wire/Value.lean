import Montage.Dict
import Montage.Value
import Montage.Wire.Record

/-!
# Values in documents

A value stands in a document without any mark of what it is.  The empty document is
no value, nor is anything that contains it.
-/

namespace Montage
namespace Value

/-- Decodes a value in the given room.  Of several entries with one key the last one
counts, but all of them have to be values. -/
def ofJsonWithin? : Nat → Json → Option Value
  | _, .null => none
  | _, .bool truth => some (.bool truth)
  | _, .number numeral => (Json.toFloat? numeral).map .number
  | _, .string spelled => spelled.map .text
  | 0, .array _ => none
  | 0, .object _ => none
  | room + 1, .array items => (items.mapM (ofJsonWithin? room)).map .list
  | room + 1, .object members => do
      let entries ← members.mapM fun member => do
        let key ← member.1
        let value ← ofJsonWithin? room member.2
        return (key, value)
      return .map (Dict.ofList entries)

/-- Decodes a whole document as a value. -/
def ofJson? (json : Json) : Option Value :=
  ofJsonWithin? Json.maxDepth json

mutual

/-- The document of a value. -/
def toJson : Value → Json
  | .bool truth => .bool truth
  | .number amount => Json.ofFloat amount
  | .text content => Json.text content
  | .list items => .array (itemsToJson items)
  | .map entries => .object (entriesToJson entries)

/-- The documents of the items of a list. -/
def itemsToJson : List Value → List Json
  | [] => []
  | item :: rest => toJson item :: itemsToJson rest

/-- The members for the entries of a dictionary. -/
def entriesToJson : List (String × Value) → List (Option String × Json)
  | [] => []
  | (key, value) :: rest => (some key, toJson value) :: entriesToJson rest

end

end Value
end Montage
