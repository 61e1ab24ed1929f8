/-!
# What a reader of documents sees

A document comes as a text or as bytes.  Bytes that are no well-formed UTF-8 are not
refused at once, since a reader may skip the part of the document they stand in; each
of them is a symbol that is no character.
-/

namespace Montage
namespace Json

/-- One place of the input: a character, or a byte that belongs to none. -/
abbrev Symbol := Option Char

/-- The symbols of a text. -/
def symbolsOfText (text : String) : List Symbol :=
  text.toList.map some

/-- The symbols of the bytes from a position on. -/
def symbolsFrom
    (bytes : ByteArray)
    (position : Nat) : List Symbol :=
  if position < bytes.size then
    match bytes.utf8DecodeChar? position with
    | some character =>
        some character :: symbolsFrom bytes (position + character.utf8Size)
    | none => none :: symbolsFrom bytes (position + 1)
  else
    []
termination_by bytes.size - position
decreasing_by
  · have positive := Char.utf8Size_pos character
    omega
  · omega

/-- The symbols of a row of bytes. -/
def symbolsOfBytes (bytes : ByteArray) : List Symbol :=
  symbolsFrom bytes 0

end Json
end Montage
