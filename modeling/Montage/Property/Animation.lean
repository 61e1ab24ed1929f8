import Montage.Error
import Montage.Property

/-!
# Reading properties

A property whose text starts with the mark `@animate` has the form
`@animate[t0,t1,...]:[v0,v1,...]`.  The first closing bracket ends the instants, the
last character of the text ends the values.  Texts without the mark are values.
-/

namespace Montage
namespace Property

open Text Number

/-- The mark that announces an animation. -/
def mark : List Char :=
  "@animate".toList

/-- The bodies of the two bracketed lists that follow the mark. -/
def animationBodies? (afterMark : List Char) : Option (List Char × List Char) :=
  match trimStart afterMark with
  | '[' :: opened =>
      match cut ']' opened with
      | none => none
      | some (instants, afterInstants) =>
          match trimStart afterInstants with
          | ':' :: afterColon =>
              (within '[' ']' (trim afterColon)).map fun values =>
                (instants, values)
          | _ => none
  | _ => none

/-- The instant that a token spells, unless it is no number or not a finite one. -/
def instant? (token : List Char) : Option Float :=
  match Numeral.free? token with
  | none => none
  | some numeral =>
      if numeral.nearest.isFinite then some numeral.nearest else none

/-- Reads the instants in order; the first token that is none is reported. -/
def readInstants (key : String) : List (List Char) → Except Fault (List Float)
  | [] => .ok []
  | token :: rest =>
      match instant? token with
      | none => .error (.badInstant key (String.ofList token))
      | some instant => do
          let later ← readInstants key rest
          return instant :: later

/-- Reads what follows the mark of an animation. -/
def readAnimation
    (key : String)
    (afterMark : List Char) : Except Fault Property :=
  match animationBodies? afterMark with
  | none => .error (.malformedAnimation key)
  | some (instantsBody, valuesBody) => do
      let instants ← readInstants key (items instantsBody)
      let values := (items valuesBody).map Value.ofPlainText
      if instants.length ≠ values.length then
        throw (.countMismatch key instants.length values.length)
      if instants.length < 2 then
        throw (.tooFewKeyframes key instants.length)
      return .animated instants values

/-- Reads the text of a property; the key serves the wording of faults only. -/
def read
    (key : String)
    (source : List Char) : Except Fault Property :=
  let trimmed := trim source
  match mark.isPrefixOf? trimmed with
  | some afterMark => readAnimation key afterMark
  | none => .ok (.constant (Value.ofText trimmed))

end Property
end Montage
