import Montage.Json.Lexer

/-!
# From tokens to a document

A document is built by a machine that takes one token at a time.  What is still open
lies on a stack, innermost first; the state says what may come next.
-/

namespace Montage
namespace Json

/-- A container that waits for the document being read. -/
inductive Waiting where
  /-- A list with its items so far, the latest first. -/
  | item (items : List Json)
  /-- An object with its members so far, the latest first, and the key of the document
  being read. -/
  | member (members : List (Option String × Json)) (key : Option String)

/-- What has been read, and what may come next. -/
inductive State where
  /-- A document must come. -/
  | value (stack : List Waiting)
  /-- A list has been opened. -/
  | arrayOpened (stack : List Waiting)
  /-- An item of a list has been read. -/
  | arrayNext (items : List Json) (stack : List Waiting)
  /-- An object has been opened. -/
  | objectOpened (stack : List Waiting)
  /-- A key must come. -/
  | keyDue (members : List (Option String × Json)) (stack : List Waiting)
  /-- A colon must come. -/
  | keyRead
      (members : List (Option String × Json))
      (key : Option String)
      (stack : List Waiting)
  /-- A member of an object has been read. -/
  | objectNext (members : List (Option String × Json)) (stack : List Waiting)
  /-- The document is complete. -/
  | done (json : Json)

namespace State

/-- Puts a complete document where it belongs. -/
def place (json : Json) : List Waiting → State
  | [] => .done json
  | .item items :: stack => .arrayNext (json :: items) stack
  | .member members key :: stack => .objectNext ((key, json) :: members) stack

/-- Takes the first token of a document. -/
def start (stack : List Waiting) : Token → Option State
  | .null => some (place .null stack)
  | .bool truth => some (place (.bool truth) stack)
  | .number numeral => some (place (.number numeral) stack)
  | .string spelled => some (place (.string spelled) stack)
  | .arrayStart => some (.arrayOpened stack)
  | .objectStart => some (.objectOpened stack)
  | _ => none

/-- Takes one token. -/
def step : State → Token → Option State
  | .value stack, token => start stack token
  | .arrayOpened stack, .arrayEnd => some (place (.array []) stack)
  | .arrayOpened stack, token => start (.item [] :: stack) token
  | .arrayNext items stack, .comma => some (.value (.item items :: stack))
  | .arrayNext items stack, .arrayEnd => some (place (.array items.reverse) stack)
  | .objectOpened stack, .objectEnd => some (place (.object []) stack)
  | .objectOpened stack, .string spelled => some (.keyRead [] spelled stack)
  | .keyDue members stack, .string spelled => some (.keyRead members spelled stack)
  | .keyRead members key stack, .colon => some (.value (.member members key :: stack))
  | .objectNext members stack, .comma => some (.keyDue members stack)
  | .objectNext members stack, .objectEnd =>
      some (place (.object members.reverse) stack)
  | _, _ => none

/-- Takes tokens one after the other. -/
def run : State → List Token → Option State
  | state, [] => some state
  | state, token :: rest => (step state token).bind fun next => run next rest

end State

/-- The document that tokens form. -/
def ofTokens? (tokens : List Token) : Option Json :=
  match State.run (.value []) tokens with
  | some (.done json) => some json
  | _ => none

/-- Reads a document from symbols. -/
def ofSymbols? (symbols : List Symbol) : Option Json :=
  (lex symbols).bind ofTokens?

/-- Reads a document from a text. -/
def ofText? (content : String) : Option Json :=
  ofSymbols? (symbolsOfText content)

/-- Reads a document from bytes. -/
def ofBytes? (bytes : ByteArray) : Option Json :=
  ofSymbols? (symbolsOfBytes bytes)

/-- Reads what a decoder makes of the document in a text. -/
def readText?
    {α : Type}
    (decode : Json → Option α)
    (content : String) : Option α :=
  (ofText? content).bind decode

/-- Reads what a decoder makes of the document in a row of bytes. -/
def readBytes?
    {α : Type}
    (decode : Json → Option α)
    (bytes : ByteArray) : Option α :=
  (ofBytes? bytes).bind decode

end Json
end Montage
