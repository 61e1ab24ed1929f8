import Montage.Json.Number

/-!
# Records in documents

A record is written as an object with a member for each field, or as a list of its
fields in order.  In an object every key must spell a text and no field may be given
twice, while members under other keys are passed over without a look at what they
hold.  A list may not be longer than the record; the fields it does not reach count as
absent.

How deeply a document may be nested where it is looked at is limited.  Decoders take
the number of levels that may still be entered as their `room`.
-/

namespace Montage
namespace Json

/-- How many levels of lists and objects may be entered. -/
def maxDepth : Nat :=
  127

/-- The string that a document is. -/
def string? : Json → Option String
  | .string spelled => spelled
  | _ => none

/-- The number that a document is. -/
def float? : Json → Option Float
  | .number numeral => toFloat? numeral
  | _ => none

/-- The items of a document that is a list. -/
def items? : Json → Option (List Json)
  | .array items => some items
  | _ => none

/-- The members of a document that is an object. -/
def members? : Json → Option (List (Option String × Json))
  | .object members => some members
  | _ => none

/-- Whether a document can be looked at as a whole: its numbers are finite, its
strings and keys spell texts, and it is not nested too deeply. -/
def isSound : Nat → Json → Bool
  | _, .null => true
  | _, .bool _ => true
  | _, .number numeral => (toFloat? numeral).isSome
  | _, .string spelled => spelled.isSome
  | 0, .array _ => false
  | 0, .object _ => false
  | room + 1, .array items => items.all (isSound room)
  | room + 1, .object members =>
      members.all fun member => member.1.isSome && isSound room member.2

/-! ## Fields -/

/-- What is given under a key, unless it is given more than once. -/
def once?
    (key : String)
    (members : List (Option String × Json)) : Option (Option Json) :=
  match members.filter fun member => member.1 = some key with
  | [] => some none
  | [member] => some (some member.2)
  | _ => none

/-- The fields of a record, each as far as it is given. -/
def fields?
    (names : List String) : Json → Option (List (Option Json))
  | .array items =>
      if items.length ≤ names.length then
        some (items.map some ++ List.replicate (names.length - items.length) none)
      else
        none
  | .object members =>
      if members.all fun member => member.1.isSome then
        names.mapM fun name => once? name members
      else
        none
  | _ => none

/-- Decodes a field that may be absent or empty. -/
def optional?
    {α : Type}
    (decode : Json → Option α) : Option Json → Option (Option α)
  | none => some none
  | some .null => some none
  | some json => (decode json).map some

/-- Decodes a field that holds a list and may be absent. -/
def listed?
    {α : Type}
    (decode : Json → Option α) : Option Json → Option (List α)
  | none => some []
  | some json => json.items?.bind fun items => items.mapM decode

/-! ## Names -/

/-- The name that a document gives to one of several choices: a string, or an object
with the name as its only key and nothing under it. -/
def choice? (room : Nat) : Json → Option String
  | .string spelled => spelled
  | .object [(key, .null)] => if room = 0 then none else key
  | _ => none

end Json
end Montage
