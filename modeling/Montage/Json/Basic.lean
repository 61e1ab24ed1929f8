import Montage.Number.Numeral

/-!
# Documents

A document is a tree of the six kinds of JSON.  Numbers are kept as they are written
and the members of an object in the order in which they are written, repeated keys
included: what becomes of them is up to whoever decodes the document.  A string whose
escapes or bytes spell no text is kept as well, since it may stand where nobody looks.
-/

namespace Montage

/-- A document. -/
inductive Json where
  /-- The empty value. -/
  | null
  /-- A truth value. -/
  | bool (truth : Bool)
  /-- A number as it is written. -/
  | number (numeral : Number.Numeral)
  /-- A string; nothing when it spells no text. -/
  | string (spelled : Option String)
  /-- A list of documents. -/
  | array (items : List Json)
  /-- Documents under keys. -/
  | object (members : List (Option String × Json))

namespace Json

/-- The document of a text. -/
def text (content : String) : Json :=
  .string (some content)

/-- An object with these members. -/
def record (members : List (String × Json)) : Json :=
  .object (members.map fun member => (some member.1, member.2))

/-- One word of the language of documents. -/
inductive Token where
  /-- An opening bracket. -/
  | arrayStart
  /-- A closing bracket. -/
  | arrayEnd
  /-- An opening brace. -/
  | objectStart
  /-- A closing brace. -/
  | objectEnd
  /-- A comma. -/
  | comma
  /-- A colon. -/
  | colon
  /-- The word for the empty value. -/
  | null
  /-- The word for a truth value. -/
  | bool (truth : Bool)
  /-- A number as it is written. -/
  | number (numeral : Number.Numeral)
  /-- A string; nothing when it spells no text. -/
  | string (spelled : Option String)
  deriving DecidableEq, Repr

end Json
end Montage
