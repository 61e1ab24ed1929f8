import Montage.Template

/-!
# Numeric runs by byte offsets

A text is stored as bytes, and its numeric runs can be told by offsets into them: where a
number starts, where it ends, and where its unit ends.  The walk over the bytes finds these
offsets without taking the text apart into characters: a byte at which no number starts is
passed over, even in the middle of a character.
-/

namespace Montage

/-- A numeric run by offsets into the bytes of its text. -/
structure Extent where
  /-- Where the number starts. -/
  start : Nat
  /-- Just past the number. -/
  stop : Nat
  /-- Just past the unit. -/
  unitStop : Nat
  deriving DecidableEq, Repr

namespace Template

/-- The bytes in which a text is stored. -/
def bytesOf (text : List Char) : List UInt8 :=
  text.flatMap String.utf8EncodeChar

/-- The byte of a minus. -/
def minusByte : UInt8 :=
  0x2D

/-- The byte of a point. -/
def pointByte : UInt8 :=
  0x2E

/-- Whether a byte is that of a digit. -/
def isDigitByte (byte : UInt8) : Bool :=
  0x30 ≤ byte && byte ≤ 0x39

/-- The bytes of the digits behind a point in first place. -/
def decimalBytes : List UInt8 → List UInt8
  | [] => []
  | first :: rest => if first = pointByte then rest.takeWhile isDigitByte else []

/-- How many bytes the number at the start takes up, if there is one. -/
def numberLength? (bytes : List UInt8) : Option Nat :=
  let sign := if bytes.head? = some minusByte then 1 else 0
  let body := bytes.drop sign
  let whole := body.takeWhile isDigitByte
  let decimals := decimalBytes (body.dropWhile isDigitByte)
  if !decimals.isEmpty then some (sign + whole.length + 1 + decimals.length)
  else if !whole.isEmpty then some (sign + whole.length)
  else none

/-- How many bytes the unit at the start takes up. -/
def unitLength (bytes : List UInt8) : Nat :=
  (((units.map bytesOf).find? fun unit => unit.isPrefixOf bytes).getD []).length

theorem pos_of_numberLength?
    {bytes : List UInt8}
    {length : Nat}
    (found : numberLength? bytes = some length) :
    0 < length := by
  unfold numberLength? at found
  simp only at found
  generalize (if bytes.head? = some minusByte then 1 else 0) = sign at found
  split at found
  · cases found
    omega
  · split at found
    · next nonempty =>
        cases found
        simp only [Bool.not_eq_true', List.isEmpty_eq_false_iff] at nonempty
        have positive := List.length_pos_iff.mpr nonempty
        omega
    · cases found

/-- Walks over the bytes that are left from an offset on. -/
def walkFrom (offset : Nat) (bytes : List UInt8) : List Extent :=
  match bytes with
  | [] => []
  | first :: rest =>
      match _found : numberLength? (first :: rest) with
      | none => walkFrom (offset + 1) rest
      | some length =>
          let unit := unitLength ((first :: rest).drop length)
          ⟨offset, offset + length, offset + length + unit⟩ ::
            walkFrom (offset + length + unit) ((first :: rest).drop (length + unit))
termination_by bytes.length
decreasing_by
  · simp
  · have positive := pos_of_numberLength? _found
    simp only [List.length_drop, List.length_cons]
    omega

/-- The extents of a text, found byte by byte. -/
def walk (source : String) : List Extent :=
  walkFrom 0 source.toUTF8.data.toList

/-- The extents of runs that are written from an offset on. -/
def extentsFrom (offset : Nat) : List Run → List Extent
  | [] => []
  | run :: rest =>
      let start := offset + (bytesOf run.lead).length
      let stop := start + (bytesOf run.numeral.text).length
      let unitStop := stop + (bytesOf run.unit).length
      ⟨start, stop, unitStop⟩ :: extentsFrom unitStop rest

/-- The extents of a template. -/
def extents (template : Template) : List Extent :=
  extentsFrom 0 template.runs

end Template
end Montage
