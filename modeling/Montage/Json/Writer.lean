import Montage.Json.Basic
import Montage.Json.Quoted

/-!
# Writing documents

A document is written without any space, its members in the order in which they
stand.
-/

namespace Montage
namespace Json

/-- The text of a token. -/
def Token.text : Token → List Char
  | .arrayStart => ['[']
  | .arrayEnd => [']']
  | .objectStart => ['{']
  | .objectEnd => ['}']
  | .comma => [',']
  | .colon => [':']
  | .null => "null".toList
  | .bool truth => if truth then "true".toList else "false".toList
  | .number numeral => numeral.text
  | .string spelled => quote spelled

mutual

/-- The tokens of a document. -/
def tokens : Json → List Token
  | .null => [.null]
  | .bool truth => [.bool truth]
  | .number numeral => [.number numeral]
  | .string spelled => [.string spelled]
  | .array [] => [.arrayStart, .arrayEnd]
  | .array (first :: rest) =>
      .arrayStart :: (tokens first ++ (itemTokens rest ++ [.arrayEnd]))
  | .object [] => [.objectStart, .objectEnd]
  | .object ((key, first) :: rest) =>
      .objectStart :: .string key :: .colon ::
        (tokens first ++ (memberTokens rest ++ [.objectEnd]))

/-- The tokens of further items of a list. -/
def itemTokens : List Json → List Token
  | [] => []
  | first :: rest => .comma :: (tokens first ++ itemTokens rest)

/-- The tokens of further members of an object. -/
def memberTokens : List (Option String × Json) → List Token
  | [] => []
  | (key, first) :: rest =>
      .comma :: .string key :: .colon :: (tokens first ++ memberTokens rest)

end

/-- Writes a document. -/
def write (json : Json) : String :=
  String.ofList (json.tokens.flatMap Token.text)

end Json
end Montage
