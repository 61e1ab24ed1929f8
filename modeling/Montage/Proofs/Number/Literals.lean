import Montage.Proofs.Number.Spelling

/-!
# Strict literals

The numbers of plain values are spelled strictly: digits, with a minus in front or not, and
with a point and further digits behind or not.  A plus, a power of ten and a point without
digits on both sides are not allowed.  Reading a literal accepts exactly these texts.
-/

namespace Montage
namespace Number.Numeral

/-- The sign of a numeral as it is written. -/
def signText (negative : Bool) : List Char :=
  if negative then ['-'] else []

theorem splitMinus_signText_append
    {rest : List Char}
    (noMinus : rest.head? ≠ some '-')
    (negative : Bool) :
    splitMinus (signText negative ++ rest) = (negative, rest) := by
  cases negative with
  | true => rfl
  | false =>
      change splitMinus rest = (false, rest)
      unfold splitMinus
      split
      · exact absurd rfl noMinus
      · rfl

theorem ne_minus_of_areDigits
    {digits : List Char}
    (areDigits : AreDigits digits)
    (rest : List Char)
    (otherwise : digits = [] → rest.head? ≠ some '-') :
    (digits ++ rest).head? ≠ some '-' := by
  cases digits with
  | nil => exact otherwise rfl
  | cons digit others =>
      rintro ⟨⟩
      exact absurd (areDigits '-' List.mem_cons_self) (by decide)

/-- The text of a strict literal, with the numeral that it spells. -/
inductive IsLiteral : List Char → Numeral → Prop
  /-- Digits without a point. -/
  | whole
      (negative : Bool)
      (digits : List Char) :
      digits ≠ [] →
      AreDigits digits →
      IsLiteral (signText negative ++ digits) ⟨negative, digits, [], none⟩
  /-- Digits on both sides of a point. -/
  | pointed
      (negative : Bool)
      (whole fraction : List Char) :
      whole ≠ [] →
      AreDigits whole →
      fraction ≠ [] →
      AreDigits fraction →
      IsLiteral (signText negative ++ (whole ++ '.' :: fraction))
        ⟨negative, whole, fraction, none⟩

theorem literal?_of_isLiteral
    {text : List Char}
    {numeral : Numeral}
    (isLiteral : IsLiteral text numeral) :
    literal? text = some numeral := by
  cases isLiteral with
  | whole negative digits nonempty areDigits =>
      have noMinus := ne_minus_of_areDigits areDigits [] fun none => absurd none nonempty
      rw [List.append_nil] at noMinus
      have taken := takeWhile_isDigit_append areDigits noDigitAhead_nil
      have dropped := dropWhile_isDigit_append areDigits noDigitAhead_nil
      rw [List.append_nil] at taken dropped
      simp [literal?, splitMinus_signText_append noMinus, taken, dropped, nonempty]
  | pointed negative whole fraction nonempty areDigits decimals areDecimals =>
      have noMinus := ne_minus_of_areDigits areDigits ('.' :: fraction)
        fun none => absurd none nonempty
      have point : NoDigitAhead ('.' :: fraction) := noDigitAhead_cons (by decide) _
      have all : fraction.all Char.isDigit = true := List.all_eq_true.mpr areDecimals
      simp [literal?, splitMinus_signText_append noMinus,
        takeWhile_isDigit_append areDigits point, dropWhile_isDigit_append areDigits point,
        nonempty, decimals, all]

theorem isLiteral_of_literal?
    {text : List Char}
    {numeral : Numeral}
    (found : literal? text = some numeral) :
    IsLiteral text numeral := by
  have signed := splitMinus_append text
  unfold literal? at found
  generalize splitMinus text = parts at found signed
  obtain ⟨negative, body⟩ := parts
  have whole := List.takeWhile_append_dropWhile (p := Char.isDigit) (l := body)
  have areDigits := areDigits_takeWhile body
  simp only at signed found
  change signText negative ++ body = text at signed
  rw [← signed, ← whole]
  generalize body.takeWhile Char.isDigit = digits at found areDigits ⊢
  generalize body.dropWhile Char.isDigit = after at found ⊢
  split at found
  · cases found
  · next nonempty =>
      rw [List.isEmpty_iff] at nonempty
      split at found
      · cases found
        rw [List.append_nil]
        exact .whole negative digits nonempty areDigits
      · next fraction =>
          simp only [Bool.and_eq_true, Bool.not_eq_true', List.isEmpty_eq_false_iff,
            List.all_eq_true, Option.ite_none_right_eq_some, Option.some.injEq] at found
          obtain ⟨⟨decimals, areDecimals⟩, rfl⟩ := found
          exact .pointed negative digits fraction nonempty areDigits decimals areDecimals
      · cases found

/-- Reading accepts the literals and nothing else. -/
theorem literal?_eq_some_iff
    {text : List Char}
    {numeral : Numeral} :
    literal? text = some numeral ↔ IsLiteral text numeral :=
  ⟨isLiteral_of_literal?, literal?_of_isLiteral⟩

theorem literal?_eq_none_iff
    {text : List Char} :
    literal? text = none ↔ ∀ numeral, ¬ IsLiteral text numeral := by
  simp only [Option.eq_none_iff_forall_ne_some, ne_eq, literal?_eq_some_iff]

end Number.Numeral
end Montage
