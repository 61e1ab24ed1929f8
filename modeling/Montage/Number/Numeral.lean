/-!
# Decimal numerals

A numeral is the written form of a number: a sign, the digits before and after the
point, and a power of ten when one is written.  The same structure serves the plain
literals of property values, the instants of animations and the numbers of
documents; they differ in the grammar that admits a text, not in what a numeral
holds.
-/

namespace Montage
namespace Number

/-- The parts of a written decimal number. -/
structure Numeral where
  /-- Whether a minus sign is written. -/
  negative : Bool
  /-- The digits before the point. -/
  whole : List Char
  /-- The digits after the point; empty when there is no point. -/
  fraction : List Char
  /-- The written power of ten, if any. -/
  exponent : Option Int
  deriving DecidableEq, Repr

namespace Numeral

/-- The value of one decimal digit. -/
def digitValue (digit : Char) : Nat :=
  digit.toNat - '0'.toNat

/-- The natural number that a row of digits spells. -/
def digitsValue (digits : List Char) : Nat :=
  digits.foldl (fun total digit => 10 * total + digitValue digit) 0

/-- All digits as one natural number; the point is accounted for by `scale`. -/
def significand (numeral : Numeral) : Nat :=
  digitsValue (numeral.whole ++ numeral.fraction)

/-- The power of ten that the significand is to be multiplied by. -/
def scale (numeral : Numeral) : Int :=
  numeral.exponent.getD 0 - numeral.fraction.length

/-- The floating-point number nearest to the numeral, halves to the even neighbour;
a numeral beyond the largest finite number gives infinity. -/
def nearest (numeral : Numeral) : Float :=
  let magnitude :=
    if 0 ≤ numeral.scale then
      Float.ofScientific numeral.significand false numeral.scale.toNat
    else
      Float.ofScientific numeral.significand true (-numeral.scale).toNat
  if numeral.negative then -magnitude else magnitude

/-- The text of the exponent part. -/
def exponentText : Option Int → List Char
  | none => []
  | some power =>
      'e' :: (if power < 0 then '-' else '+') :: Nat.toDigits 10 power.natAbs

/-- The numeral as text: the point is written only before a digit, the exponent
always with its sign. -/
def text (numeral : Numeral) : List Char :=
  (if numeral.negative then ['-'] else []) ++ numeral.whole ++
    (if numeral.fraction.isEmpty then [] else '.' :: numeral.fraction) ++
    exponentText numeral.exponent

/-! ## Grammars -/

/-- Splits an optional minus sign off. -/
def splitMinus : List Char → Bool × List Char
  | '-' :: rest => (true, rest)
  | text => (false, text)

/-- Nothing is lost by splitting a minus off. -/
theorem splitMinus_append (text : List Char) :
    (if (splitMinus text).1 then ['-'] else []) ++ (splitMinus text).2 = text := by
  fun_cases splitMinus text <;> simp

/-- Splits an optional sign of either kind off. -/
def splitSign : List Char → Bool × List Char
  | '-' :: rest => (true, rest)
  | '+' :: rest => (false, rest)
  | text => (false, text)

/-- The strict literal: an optional minus, digits, and optionally a point followed
by digits.  No other text is a literal. -/
def literal? (text : List Char) : Option Numeral :=
  let (negative, body) := splitMinus text
  let whole := body.takeWhile Char.isDigit
  if whole.isEmpty then
    none
  else
    match body.dropWhile Char.isDigit with
    | [] => some ⟨negative, whole, [], none⟩
    | '.' :: fraction =>
        if !fraction.isEmpty && fraction.all Char.isDigit then
          some ⟨negative, whole, fraction, none⟩
        else
          none
    | _ => none

/-- A point with digits after it, and the text after these. -/
def fraction? : List Char → Option (List Char × List Char)
  | '.' :: afterPoint =>
      let fraction := afterPoint.takeWhile Char.isDigit
      if fraction.isEmpty then none
      else some (fraction, afterPoint.dropWhile Char.isDigit)
  | _ => none

/-- A point, its digits and what follows make up the text they were found in. -/
theorem fraction?_eq_some
    {text fraction after : List Char}
    (found : fraction? text = some (fraction, after)) :
    fraction ≠ [] ∧ '.' :: (fraction ++ after) = text := by
  unfold fraction? at found
  split at found
  · next afterPoint =>
      simp only at found
      split at found
      · cases found
      · next digits =>
          cases found
          refine ⟨by simpa using digits, ?_⟩
          rw [List.takeWhile_append_dropWhile]
  · cases found

/-- The exponent part of a free numeral: nothing, or a mark, an optional sign and
digits. -/
def exponent? : List Char → Option (Option Int)
  | [] => some none
  | mark :: rest =>
      if mark = 'e' ∨ mark = 'E' then
        let (negative, digits) := splitSign rest
        if !digits.isEmpty && digits.all Char.isDigit then
          let power : Int := digitsValue digits
          some (some (if negative then -power else power))
        else
          none
      else
        none

/-- The free numeral of an animation instant: a sign of either kind, digits on at
least one side of an optional point, and an optional exponent. -/
def free? (text : List Char) : Option Numeral :=
  let (negative, body) := splitSign text
  let whole := body.takeWhile Char.isDigit
  let (fraction, tail) :=
    match body.dropWhile Char.isDigit with
    | '.' :: rest => (rest.takeWhile Char.isDigit, rest.dropWhile Char.isDigit)
    | rest => ([], rest)
  if whole.isEmpty && fraction.isEmpty then
    none
  else
    (exponent? tail).map fun exponent => ⟨negative, whole, fraction, exponent⟩

end Numeral
end Number
end Montage
