import Montage.Number.Plain
import Montage.Proofs.Number.Digits
import Montage.Proofs.Number.Spelling

/-!
# Numbers inside running text are plain numerals

The text of a finite number has digits in front of a point, none or some behind it, and a
minus exactly when the number is below zero.  Reading this text gives the numeral it was
written from (`free?_plainText`).
-/

namespace Montage
namespace Number

open Float.Model.UnpackedFloat

/-- The numeral of a finite number inside running text. -/
def plainNumeral (amount : Float) : Numeral :=
  match amount.toModel.unpack with
  | .finite sign mantissa exponent _ =>
      let parts := (Digits.shortest .up mantissa exponent).positional
      ⟨sign == .negative, parts.1, parts.2, none⟩
  | _ => ⟨false, ['0'], [], none⟩

theorem plainText_eq_text
    {amount : Float}
    (finite : amount.isFinite = true) :
    plainText amount = (plainNumeral amount).text := by
  change amount.toModel.unpack.isFinite = true at finite
  unfold plainText plainNumeral
  generalize amount.toModel.unpack = unpacked at finite
  cases unpacked with
  | notANumber => cases finite
  | infinity sign => cases finite
  | zero sign => rfl
  | finite sign mantissa exponent positive => rfl

/-- A numeral as it is written inside running text. -/
structure Numeral.IsPlain (numeral : Numeral) : Prop where
  /-- There is a digit in front of the point. -/
  whole_ne_nil : numeral.whole ≠ []
  /-- In front of the point there are digits only. -/
  whole_digits : AreDigits numeral.whole
  /-- Behind the point there are digits only. -/
  fraction_digits : AreDigits numeral.fraction
  /-- There is no power of ten. -/
  exponent_eq : numeral.exponent = none

theorem isPlain_plainNumeral (amount : Float) : (plainNumeral amount).IsPlain := by
  unfold plainNumeral
  split
  · next sign mantissa exponent positive _ =>
      rcases Digits.shortest_eq_or_isProper positive .up exponent with none | proper
      · rw [none]
        constructor <;> simp [Digits.positional, AreDigits]
      · obtain ⟨nonempty, wholeDigits, -, fractionDigits⟩ := proper.positional
        exact ⟨nonempty, wholeDigits, fractionDigits, rfl⟩
  · constructor <;> simp [AreDigits]

/-- A minus is written exactly for the numbers below zero. -/
theorem negative_plainNumeral_iff
    {amount : Float}
    (finite : amount.isFinite = true) :
    (plainNumeral amount).negative = true ↔ amount < 0 := by
  have zero : (0 : Float).toModel.unpack = .zero .positive := rfl
  change amount.toModel.unpack.isFinite = true at finite
  change _ ↔ decide (amount.toModel.unpack.lt (0 : Float).toModel.unpack = true) = true
  rw [decide_eq_true_iff, zero]
  unfold plainNumeral
  generalize amount.toModel.unpack = unpacked at finite ⊢
  cases unpacked with
  | notANumber => cases finite
  | infinity sign => cases finite
  | zero sign => exact ⟨nofun, nofun⟩
  | finite sign mantissa exponent positive =>
      cases sign with
      | negative => exact ⟨fun _ => rfl, fun _ => rfl⟩
      | positive => exact ⟨nofun, nofun⟩

/-- The text of a number below zero starts with a minus, that of another one with a digit. -/
theorem plainText_cases
    {amount : Float}
    (finite : amount.isFinite = true) :
    (amount < 0 ∧ ∃ rest, plainText amount = '-' :: rest) ∨
      (¬ amount < 0 ∧ ∃ digit rest, plainText amount = digit :: rest ∧
        digit.isDigit = true) := by
  rw [plainText_eq_text finite, ← negative_plainNumeral_iff finite]
  have isPlain := isPlain_plainNumeral amount
  generalize plainNumeral amount = numeral at isPlain
  obtain ⟨negative, whole, fraction, exponent⟩ := numeral
  cases negative with
  | true => exact Or.inl ⟨rfl, _, rfl⟩
  | false =>
      obtain ⟨digit, others, isWhole⟩ := List.exists_cons_of_ne_nil isPlain.whole_ne_nil
      obtain rfl : whole = digit :: others := isWhole
      exact Or.inr ⟨Bool.false_ne_true, digit, _, rfl,
        isPlain.whole_digits digit List.mem_cons_self⟩

/-- The text of a finite number is read as the numeral it was written from. -/
theorem free?_plainText
    {amount : Float}
    (finite : amount.isFinite = true) :
    Numeral.free? (plainText amount) = some (plainNumeral amount) := by
  rw [plainText_eq_text finite, Numeral.free?_eq_some_iff]
  obtain ⟨nonempty, wholeDigits, fractionDigits, withoutPower⟩ := isPlain_plainNumeral amount
  generalize plainNumeral amount = numeral at *
  obtain ⟨negative, whole, fraction, exponent⟩ := numeral
  obtain rfl : exponent = none := withoutPower
  have isSign : Numeral.IsSign (if negative then ['-'] else []) negative := by
    cases negative
    · exact .absent
    · exact .minus
  by_cases pointed : fraction = []
  · subst pointed
    have isFree := Numeral.IsFree.whole _ whole [] negative none isSign nonempty wholeDigits
      .absent
    simpa [Numeral.text, Numeral.exponentText] using isFree
  · have isFree := Numeral.IsFree.pointed _ whole fraction [] negative none isSign
      (Or.inl nonempty) wholeDigits fractionDigits .absent
    simpa [Numeral.text, Numeral.exponentText, pointed] using isFree

/-- The text of the number is read as this number again. -/
def ReadsBack (amount : Float) : Prop :=
  ∃ numeral, Numeral.free? (plainText amount) = some numeral ∧
    (numeral.nearest == amount) = true

theorem ReadsBack.nearest_plainNumeral
    {amount : Float}
    (readsBack : ReadsBack amount)
    (finite : amount.isFinite = true) :
    ((plainNumeral amount).nearest == amount) = true := by
  obtain ⟨numeral, read, same⟩ := readsBack
  rw [free?_plainText finite] at read
  cases read
  exact same

end Number
end Montage
