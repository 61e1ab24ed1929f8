import Montage.Element
import Montage.Property.Animation

/-!
# Reading element descriptions

A description is a name followed by segments `key:value`, all separated by
semicolons.  Segments without a colon or with a blank key are passed over.  The keys
`id`, `parent` and `text` are taken verbatim, every other key is a property; of
several segments with one key the last one counts.
-/

namespace Montage
namespace Element

open Text

/-- The key and the value of a segment, both trimmed. -/
def segment? (source : List Char) : Option (List Char × List Char) :=
  match cut ':' source with
  | none => none
  | some (key, value) =>
      match trim key with
      | [] => none
      | first :: rest => some (first :: rest, trim value)

/-- What the segments read so far have said about an element. -/
structure Draft where
  /-- The last identifier. -/
  id : Option String := none
  /-- The last parent. -/
  parent : Option String := none
  /-- The last text. -/
  text : Option String := none
  /-- The properties. -/
  props : Dict Property := []

namespace Draft

/-- The parent that a segment names; the word for no parent means the root. -/
def parentOf (value : String) : String :=
  if value = nullWord then rootId else value

/-- Takes one segment into account.  A text is also kept as a constant property, and
never read as a number, a list or an animation. -/
def add
    (draft : Draft)
    (segment : List Char × List Char) : Except Fault Draft :=
  let key := String.ofList segment.1
  let value := String.ofList segment.2
  if key = "id" then
    .ok { draft with id := some value }
  else if key = "parent" then
    .ok { draft with parent := some (parentOf value) }
  else if key = "text" then
    .ok { draft with
      text := some value
      props := draft.props.insert "text" (.constant (.text value)) }
  else do
    let property ← Property.read key segment.2
    return { draft with props := draft.props.insert key property }

/-- The element, provided that there is an identifier.  Without a parent it belongs
under the root. -/
def finish
    (draft : Draft)
    (name : String) : Except Fault Element :=
  match draft.id with
  | none => .error (.missingId name)
  | some id =>
      .ok
        { id := id
          name := name
          parent := some (draft.parent.getD rootId)
          props := draft.props
          text := draft.text }

end Draft

/-- Reads one description.  A missing name is reported before anything else, and a
property that is refused before a missing identifier. -/
def ofDescription (source : List Char) : Except Fault Element :=
  match pieces ';' source with
  | [] => .error .missingName
  | first :: segments =>
      let name := trim first
      if name.isEmpty then
        .error .missingName
      else do
        let draft ← (segments.filterMap segment?).foldlM Draft.add {}
        draft.finish (String.ofList name)

/-- Reads the description at a position of its batch. -/
def read
    (index : Nat)
    (source : String) : Except Error Element :=
  match ofDescription source.toList with
  | .ok element => .ok element
  | .error fault => .error (.element index source fault)

/-- Reads descriptions that stand at the positions from `index` on; the first one
that is refused ends the reading. -/
def readFrom (index : Nat) : List String → Except Error (List Element)
  | [] => .ok []
  | source :: rest => do
      let element ← read index source
      let others ← readFrom (index + 1) rest
      return element :: others

/-- Reads the descriptions of a batch in order. -/
def readAll (sources : List String) : Except Error (List Element) :=
  readFrom 0 sources

end Element

/-- Reads the descriptions of a batch and puts the root in front. -/
def Batch.read (sources : List String) : Except Error Batch :=
  (Element.readAll sources).map Batch.ofElements

end Montage
