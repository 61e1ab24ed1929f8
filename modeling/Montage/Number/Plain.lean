import Montage.Number.Shortest

/-!
# Numbers inside running text

A number that replaces a numeric run of a text is written with its shortest digits
and never with a power of ten.  Zero is written without a sign, and the values that
are no finite numbers have names.
-/

namespace Montage
namespace Number

open Float.Model (UnpackedFloat)

/-- The text of a number inside running text; of two equally near shortest decimals
the larger magnitude is taken. -/
def plainText (number : Float) : List Char :=
  match number.toModel.unpack with
  | .notANumber => "NaN".toList
  | .infinity sign => if sign == .negative then "-inf".toList else "inf".toList
  | .zero _ => ['0']
  | .finite sign mantissa exponent _ =>
      let parts := (Digits.shortest .up mantissa exponent).positional
      Numeral.text ⟨sign == .negative, parts.1, parts.2, none⟩

end Number
end Montage
