import Montage.Number.Reading
import Montage.Text.Hex

/-!
# Colours

A colour is written as a hash mark and three pairs of hexadecimal digits, and has
three channels of one byte each.
-/

namespace Montage

/-- A colour in three channels. -/
structure Color where
  /-- The red channel. -/
  red : UInt8
  /-- The green channel. -/
  green : UInt8
  /-- The blue channel. -/
  blue : UInt8
  deriving DecidableEq, Repr

namespace Color

open Text Number

/-- Reads a colour; the letters may be of either case. -/
def ofText? : List Char → Option Color
  | ['#', r₁, r₀, g₁, g₀, b₁, b₀] =>
      match byteOfHex? r₁ r₀, byteOfHex? g₁ g₀, byteOfHex? b₁ b₀ with
      | some red, some green, some blue => some ⟨red, green, blue⟩
      | _, _, _ => none
  | _ => none

/-- Writes a colour with lowercase letters. -/
def text (color : Color) : List Char :=
  '#' :: hexByte color.red ++ hexByte color.green ++ hexByte color.blue

/-- The channel value nearest to a number, halves away from zero; zero for what is no
number. -/
def channelOf (number : Float) : UInt8 :=
  match Readable.reading number with
  | .finite value => UInt8.ofNat (clampTo 255 (roundHalfAway value))
  | .infinite negative => if negative then 0 else 255
  | .undefined => 0

end Color
end Montage
