import Montage.Json.Basic
import Montage.Json.Quoted

/-!
# From symbols to tokens

The words of a document are separated by spaces, tabs and line ends as far as
necessary.  Numbers are written without leading zeros, with at least one digit after
a point and at least one in a power of ten.
-/

namespace Montage
namespace Json

open Number

/-- The characters that may stand between words. -/
def isSpace (character : Char) : Bool :=
  [' ', '\t', '\n', '\r'].elem character

/-- Splits the digits at the start off. -/
def splitDigits : List Symbol → List Char × List Symbol
  | some first :: rest =>
      if first.isDigit then
        let later := splitDigits rest
        (first :: later.1, later.2)
      else
        ([], some first :: rest)
  | symbols => ([], symbols)

theorem length_splitDigits (symbols : List Symbol) :
    (splitDigits symbols).1.length + (splitDigits symbols).2.length =
      symbols.length := by
  fun_induction splitDigits symbols with
  | case1 first rest _ later inductionHypothesis =>
      simp only [List.length_cons, later]
      omega
  | case2 => simp
  | case3 => simp

/-- The digits before the point: a single zero, or no zero in first place. -/
def whole? (symbols : List Symbol) : Option (List Char × List Symbol) :=
  match splitDigits symbols with
  | ([], _) => none
  | ('0' :: _ :: _, _) => none
  | found => some found

/-- The digits after the point, if there is one. -/
def decimals? : List Symbol → Option (List Char × List Symbol)
  | some '.' :: rest =>
      match splitDigits rest with
      | ([], _) => none
      | found => some found
  | symbols => some ([], symbols)

/-- Splits the sign of a power of ten off. -/
def splitExponentSign : List Symbol → Bool × List Symbol
  | some '-' :: rest => (true, rest)
  | some '+' :: rest => (false, rest)
  | symbols => (false, symbols)

/-- The power of ten, if one is written. -/
def power? : List Symbol → Option (Option Int × List Symbol)
  | some mark :: rest =>
      if mark = 'e' ∨ mark = 'E' then
        let (negative, unsigned) := splitExponentSign rest
        match splitDigits unsigned with
        | ([], _) => none
        | (digits, after) =>
            let power : Int := Numeral.digitsValue digits
            some (some (if negative then -power else power), after)
      else
        some (none, some mark :: rest)
  | symbols => some (none, symbols)

/-- The number at the start, after its sign. -/
def unsigned?
    (negative : Bool)
    (symbols : List Symbol) : Option (Numeral × List Symbol) := do
  let (whole, afterWhole) ← whole? symbols
  let (fraction, afterFraction) ← decimals? afterWhole
  let (exponent, after) ← power? afterFraction
  return (⟨negative, whole, fraction, exponent⟩, after)

/-- The number at the start. -/
def number? : List Symbol → Option (Numeral × List Symbol)
  | some '-' :: rest => unsigned? true rest
  | symbols => unsigned? false symbols

theorem length_lt_of_whole?
    {symbols after : List Symbol}
    {whole : List Char}
    (found : whole? symbols = some (whole, after)) :
    after.length < symbols.length := by
  have total := length_splitDigits symbols
  unfold whole? at found
  split at found
  · cases found
  · cases found
  · next nonempty _ =>
      have split := Option.some.inj found
      rw [split] at total
      cases whole with
      | nil => exact absurd split (nonempty after)
      | cons first others =>
          simp only [List.length_cons] at total
          omega

theorem length_le_of_decimals?
    {symbols after : List Symbol}
    {fraction : List Char}
    (found : decimals? symbols = some (fraction, after)) :
    after.length ≤ symbols.length := by
  unfold decimals? at found
  split at found
  · next rest =>
      have total := length_splitDigits rest
      split at found
      · cases found
      · have split := Option.some.inj found
        rw [split] at total
        simp only [List.length_cons] at total ⊢
        omega
  · cases found
    simp

theorem length_le_of_splitExponentSign (symbols : List Symbol) :
    (splitExponentSign symbols).2.length ≤ symbols.length := by
  fun_cases splitExponentSign symbols <;> simp

theorem length_le_of_power?
    {symbols after : List Symbol}
    {exponent : Option Int}
    (found : power? symbols = some (exponent, after)) :
    after.length ≤ symbols.length := by
  unfold power? at found
  split at found
  · next mark rest =>
      split at found
      · have shorter := length_le_of_splitExponentSign rest
        simp only at found
        have total := length_splitDigits (splitExponentSign rest).2
        split at found
        · cases found
        · next digits later _ split =>
            cases found
            rw [split] at total
            simp only [List.length_cons] at total ⊢
            omega
      · cases found
        simp
  · cases found
    simp

theorem length_lt_of_unsigned?
    {negative : Bool}
    {symbols after : List Symbol}
    {numeral : Numeral}
    (found : unsigned? negative symbols = some (numeral, after)) :
    after.length < symbols.length := by
  unfold unsigned? at found
  simp only [Option.bind_eq_bind, Option.bind_eq_some_iff] at found
  obtain ⟨⟨whole, afterWhole⟩, wholeFound, found⟩ := found
  obtain ⟨⟨fraction, afterFraction⟩, fractionFound, found⟩ := found
  obtain ⟨⟨exponent, later⟩, exponentFound, found⟩ := found
  cases found
  have first := length_lt_of_whole? wholeFound
  have second := length_le_of_decimals? fractionFound
  have third := length_le_of_power? exponentFound
  exact Nat.lt_of_le_of_lt (Nat.le_trans third second) first

/-- A number takes at least one symbol. -/
theorem length_lt_of_number?
    {symbols after : List Symbol}
    {numeral : Numeral}
    (found : number? symbols = some (numeral, after)) :
    after.length < symbols.length := by
  unfold number? at found
  split at found
  · have shorter := length_lt_of_unsigned? found
    simp only [List.length_cons]
    omega
  · exact length_lt_of_unsigned? found

/-- The words that stand for the empty value and the truth values. -/
def word? : List Symbol → Option (Token × List Symbol)
  | some 'n' :: some 'u' :: some 'l' :: some 'l' :: rest => some (.null, rest)
  | some 't' :: some 'r' :: some 'u' :: some 'e' :: rest => some (.bool true, rest)
  | some 'f' :: some 'a' :: some 'l' :: some 's' :: some 'e' :: rest =>
      some (.bool false, rest)
  | _ => none

theorem length_lt_of_word?
    {symbols after : List Symbol}
    {token : Token}
    (found : word? symbols = some (token, after)) :
    after.length < symbols.length := by
  unfold word? at found
  split at found <;> cases found <;> simp only [List.length_cons] <;> omega

/-- The punctuation marks. -/
def punctuation? : Char → Option Token
  | '[' => some .arrayStart
  | ']' => some .arrayEnd
  | '{' => some .objectStart
  | '}' => some .objectEnd
  | ',' => some .comma
  | ':' => some .colon
  | _ => none

/-- The token at the start, with the symbols after it; no space stands before it. -/
def token? : List Symbol → Option (Token × List Symbol)
  | [] => none
  | none :: _ => none
  | some first :: rest =>
      match punctuation? first with
      | some token => some (token, rest)
      | none =>
          if first = '"' then
            (pieces? rest).map fun found =>
              (.string ((spell found.1).map String.ofList), found.2)
          else if first.isAlpha then
            word? (some first :: rest)
          else
            (number? (some first :: rest)).map fun found =>
              (.number found.1, found.2)

/-- A token takes at least one symbol. -/
theorem length_lt_of_token?
    {symbols after : List Symbol}
    {token : Token}
    (found : token? symbols = some (token, after)) :
    after.length < symbols.length := by
  unfold token? at found
  split at found
  · cases found
  · cases found
  · next first rest =>
      split at found
      · cases found
        simp
      · split at found
        · obtain ⟨⟨pieces, later⟩, inner, same⟩ := Option.map_eq_some_iff.mp found
          cases same
          have shorter := length_lt_of_pieces? rest inner
          simp only [List.length_cons]
          omega
        · split at found
          · exact length_lt_of_word? found
          · obtain ⟨⟨numeral, later⟩, inner, same⟩ := Option.map_eq_some_iff.mp found
            cases same
            exact length_lt_of_number? inner

/-- The tokens of a document, if it has no symbols that form none. -/
def lex (symbols : List Symbol) : Option (List Token) :=
  match symbols with
  | [] => some []
  | first :: rest =>
      if first.any isSpace then
        lex rest
      else
        match _found : token? (first :: rest) with
        | none => none
        | some (token, after) => (lex after).map (token :: ·)
termination_by symbols.length
decreasing_by
  · simp
  · exact length_lt_of_token? _found

end Json
end Montage
