import Montage.Json.Symbol
import Montage.Text.Hex

/-!
# Quoted strings

Between its quotes a string is written with escapes: a backslash and a letter for the
quote, the backslash, the slash and five control characters, or a backslash, `u` and
four hexadecimal digits for a unit of UTF-16.  Control characters must not be written
raw.  Two units that form a surrogate pair are one character; a string with any other
surrogate, or with bytes that are no character, spells no text.

Writing escapes the quote, the backslash and the control characters and nothing else.
-/

namespace Montage
namespace Json

open Text

/-- A piece of a string between its quotes. -/
inductive Piece where
  /-- A character, raw or escaped. -/
  | char (character : Char)
  /-- An escaped half of a surrogate pair. -/
  | surrogate (unit : Nat)
  /-- A byte that is no character. -/
  | stray
  deriving DecidableEq, Repr

/-- The piece that an escaped unit of UTF-16 stands for. -/
def Piece.ofUnit (unit : Nat) : Piece :=
  if 0xD800 ≤ unit ∧ unit < 0xE000 then .surrogate unit
  else .char (Char.ofNat unit)

/-- The characters of the short escapes, by their letters. -/
def shortEscapes : List (Char × Char) :=
  [('"', '"'), ('\\', '\\'), ('/', '/'), ('b', '\x08'), ('f', '\x0c'),
    ('n', '\n'), ('r', '\r'), ('t', '\t')]

/-- The unit that four hexadecimal digits spell, with the symbols after them. -/
def unit? : List Symbol → Option (Nat × List Symbol)
  | some a :: some b :: some c :: some d :: rest =>
      match hexValue? a, hexValue? b, hexValue? c, hexValue? d with
      | some w, some x, some y, some z =>
          some (4096 * w + 256 * x + 16 * y + z, rest)
      | _, _, _, _ => none
  | _ => none

/-- The piece that follows a backslash, with the symbols after it. -/
def escape? : List Symbol → Option (Piece × List Symbol)
  | some 'u' :: rest =>
      (unit? rest).map fun found => (Piece.ofUnit found.1, found.2)
  | some letter :: rest =>
      (shortEscapes.lookup letter).map fun character => (.char character, rest)
  | _ => none

/-- An escape takes at least one symbol. -/
theorem length_lt_of_escape?
    {symbols after : List Symbol}
    {piece : Piece}
    (found : escape? symbols = some (piece, after)) :
    after.length < symbols.length := by
  unfold escape? at found
  split at found
  · next rest =>
      obtain ⟨pair, unitFound, same⟩ := Option.map_eq_some_iff.mp found
      unfold unit? at unitFound
      split at unitFound
      · split at unitFound
        · cases unitFound
          cases same
          simp only [List.length_cons]
          omega
        · cases unitFound
      · cases unitFound
  · obtain ⟨character, _, same⟩ := Option.map_eq_some_iff.mp found
    cases same
    simp
  · cases found

/-- The pieces up to the closing quote, with the symbols after it. -/
def pieces? (symbols : List Symbol) : Option (List Piece × List Symbol) :=
  match symbols with
  | [] => none
  | none :: rest => (pieces? rest).map fun found => (.stray :: found.1, found.2)
  | some first :: rest =>
      if first = '"' then
        some ([], rest)
      else if first = '\\' then
        match _found : escape? rest with
        | none => none
        | some (piece, after) =>
            (pieces? after).map fun found => (piece :: found.1, found.2)
      else if first < ' ' then
        none
      else
        (pieces? rest).map fun found => (.char first :: found.1, found.2)
termination_by symbols.length
decreasing_by
  · simp
  · have shorter := length_lt_of_escape? _found
    simp only [List.length_cons]
    omega
  · simp

/-- A string takes at least its closing quote. -/
theorem length_lt_of_pieces?
    (symbols : List Symbol)
    {after : List Symbol}
    {pieces : List Piece}
    (found : pieces? symbols = some (pieces, after)) :
    after.length < symbols.length := by
  fun_induction pieces? symbols generalizing pieces after with
  | case1 => cases found
  | case2 rest inductionHypothesis =>
      obtain ⟨pair, inner, same⟩ := Option.map_eq_some_iff.mp found
      cases same
      have shorter := inductionHypothesis inner
      simp only [List.length_cons]
      omega
  | case3 => cases found; simp
  | case4 => cases found
  | case5 rest piece later escaped _ inductionHypothesis =>
      obtain ⟨pair, inner, same⟩ := Option.map_eq_some_iff.mp found
      cases same
      have shorter := inductionHypothesis inner
      have shorterEscape := length_lt_of_escape? escaped
      simp only [List.length_cons]
      omega
  | case6 => cases found
  | case7 first rest _ _ _ inductionHypothesis =>
      obtain ⟨pair, inner, same⟩ := Option.map_eq_some_iff.mp found
      cases same
      have shorter := inductionHypothesis inner
      simp only [List.length_cons]
      omega

/-- The text that pieces spell, if they spell one. -/
def spell : List Piece → Option (List Char)
  | [] => some []
  | .char character :: rest => (spell rest).map (character :: ·)
  | .surrogate high :: .surrogate low :: rest =>
      if high < 0xDC00 ∧ 0xDC00 ≤ low then
        let point := 0x10000 + 0x400 * (high - 0xD800) + (low - 0xDC00)
        (spell rest).map (Char.ofNat point :: ·)
      else
        none
  | _ => none

/-! ## Writing -/

/-- The characters that are written with a short escape, and its letter. -/
def writtenEscapes : List (Char × Char) :=
  [('"', '"'), ('\\', '\\'), ('\x08', 'b'), ('\x0c', 'f'), ('\n', 'n'),
    ('\r', 'r'), ('\t', 't')]

/-- One character between quotes. -/
def writeChar (character : Char) : List Char :=
  match writtenEscapes.lookup character with
  | some letter => ['\\', letter]
  | none =>
      if character < ' ' then
        ['\\', 'u', '0', '0'] ++ hexByte (UInt8.ofNat character.toNat)
      else
        [character]

/-- A string with its quotes.  What spells no text is written as half a surrogate
pair, which spells none either. -/
def quote : Option String → List Char
  | some content => '"' :: content.toList.flatMap writeChar ++ ['"']
  | none => '"' :: ['\\', 'u', 'd', '8', '0', '0'] ++ ['"']

end Json
end Montage
