import Montage.Dict
import Montage.Number.Numeral
import Montage.Text.Split

/-!
# Property values

A value is a truth value, a number, a text, a list or a dictionary.  Written plainly
a value can only be one of the first three (`ofPlainText`); the brackets of a list
and the braces of a dictionary are recognised by `ofText` and enclose plain values.
-/

namespace Montage

/-- A value that does not change in time. -/
inductive Value where
  /-- A truth value. -/
  | bool (truth : Bool)
  /-- A number. -/
  | number (amount : Float)
  /-- A text. -/
  | text (content : String)
  /-- A list of values. -/
  | list (items : List Value)
  /-- A dictionary of values. -/
  | map (entries : List (String × Value))

namespace Value

open Text Number

/-- The kinds of values. -/
inductive Kind where
  /-- Truth values. -/
  | bool
  /-- Numbers. -/
  | number
  /-- Texts. -/
  | text
  /-- Lists. -/
  | list
  /-- Dictionaries. -/
  | map
  deriving DecidableEq, Repr

/-- The kind of a value. -/
def kind : Value → Kind
  | .bool _ => .bool
  | .number _ => .number
  | .text _ => .text
  | .list _ => .list
  | .map _ => .map

/-- The number of a numeric value. -/
def number? : Value → Option Float
  | .number amount => some amount
  | _ => none

/-- The text of a text value. -/
def text? : Value → Option String
  | .text content => some content
  | _ => none

/-- The truth value of a value that is one. -/
def bool? : Value → Option Bool
  | .bool truth => some truth
  | _ => none

/-- Reads a plain value: the two truth values and the strict numeric literals are
recognised after trimming, and everything else is a text. -/
def ofPlainText (source : List Char) : Value :=
  let trimmed := trim source
  if trimmed = "true".toList then .bool true
  else if trimmed = "false".toList then .bool false
  else
    match Numeral.literal? trimmed with
    | some numeral => .number numeral.nearest
    | none => .text (String.ofList trimmed)

/-- The entry written as `key:value`; without a colon, or with a blank key, there is
none. -/
def entry? (source : List Char) : Option (String × Value) :=
  match cut ':' source with
  | none => none
  | some (key, value) =>
      match trim key with
      | [] => none
      | first :: rest => some (String.ofList (first :: rest), ofPlainText value)

/-- Reads a value that is not animated: a list in brackets, a dictionary in braces,
or a plain value. -/
def ofText (source : List Char) : Value :=
  let trimmed := trim source
  match within '[' ']' trimmed with
  | some body => .list ((items body).map ofPlainText)
  | none =>
      match within '{' '}' trimmed with
      | some body => .map (Dict.ofList ((items body).filterMap entry?))
      | none => ofPlainText trimmed

end Value
end Montage
