import Mathlib
import Montage.Json.Lexer

/-!
# Written numerals come back

A numeral is standard when it has digits before the point, no needless zero in front of
them, and only digits after the point.  The text of a standard numeral is read as that
numeral, provided that what follows cannot be a part of a number: the end of the
document, a comma, or a closing bracket or brace.
-/

namespace Montage

open Number

/-- A numeral that the language of documents has a text for. -/
structure Number.Numeral.IsStandard (numeral : Numeral) : Prop where
  /-- There is a digit before the point. -/
  whole_ne_nil : numeral.whole ≠ []
  /-- Before the point there are digits only. -/
  whole_digits : ∀ digit ∈ numeral.whole, digit.isDigit = true
  /-- A zero in first place stands alone. -/
  no_needless_zero : ∀ digits, numeral.whole = '0' :: digits → digits = []
  /-- After the point there are digits only. -/
  fraction_digits : ∀ digit ∈ numeral.fraction, digit.isDigit = true

namespace Json

/-- What may stand behind a document: nothing, or something that starts with a comma or
a closing mark. -/
def EndsDocument (rest : List Symbol) : Prop :=
  ∀ character, rest.head? = some (some character) → character ∈ [',', ']', '}']

theorem mem_closing {character : Char} :
    character ∈ [',', ']', '}'] ↔ character = ',' ∨ character = ']' ∨ character = '}' := by
  simp

theorem endsDocument_nil : EndsDocument [] := by
  intro character found
  cases found

theorem endsDocument_cons
    {character : Char}
    (ends : character ∈ [',', ']', '}'])
    (rest : List Symbol) :
    EndsDocument (some character :: rest) := by
  rintro _ ⟨⟩
  exact ends

/-! ## Digits -/

/-- What does not go on with a digit. -/
def EndsDigits (rest : List Symbol) : Prop :=
  ∀ character, rest.head? = some (some character) → character.isDigit = false

theorem EndsDocument.endsDigits
    {rest : List Symbol}
    (ends : EndsDocument rest) :
    EndsDigits rest := by
  intro character found
  rcases mem_closing.mp (ends character found) with rfl | rfl | rfl <;> decide

theorem endsDigits_cons
    {character : Char}
    (noDigit : character.isDigit = false)
    (rest : List Symbol) :
    EndsDigits (some character :: rest) := by
  rintro _ ⟨⟩
  exact noDigit

theorem splitDigits_of_endsDigits
    {rest : List Symbol}
    (ends : EndsDigits rest) :
    splitDigits rest = ([], rest) := by
  match rest, ends with
  | [], _ => rfl
  | none :: later, _ => rfl
  | some character :: later, ends => simp [splitDigits, ends character rfl]

/-- Digits are split off up to their end. -/
theorem splitDigits_append
    {digits : List Char}
    {rest : List Symbol}
    (areDigits : ∀ digit ∈ digits, digit.isDigit = true)
    (ends : EndsDigits rest) :
    splitDigits (digits.map some ++ rest) = (digits, rest) := by
  induction digits with
  | nil => exact splitDigits_of_endsDigits ends
  | cons digit others inductionHypothesis =>
      obtain ⟨first, later⟩ := List.forall_mem_cons.mp areDigits
      rw [List.map_cons, List.cons_append, splitDigits, if_pos first,
        inductionHypothesis later]

/-! ## The parts of a number -/

section Parts

variable {numeral : Numeral} {rest : List Symbol}

theorem whole?_append
    (standard : numeral.IsStandard)
    (ends : EndsDigits rest) :
    whole? (numeral.whole.map some ++ rest) = some (numeral.whole, rest) := by
  rw [whole?, splitDigits_append standard.whole_digits ends]
  split
  · next none =>
      exact absurd (Prod.mk.inj none).1 standard.whole_ne_nil
  · next digit digits after needless =>
      have isZero := (Prod.mk.inj needless).1
      cases standard.no_needless_zero _ isZero
  · rfl

/-- The point and the digits after it, as they are written. -/
def fractionText (fraction : List Char) : List Char :=
  if fraction.isEmpty then [] else '.' :: fraction

theorem decimals?_append
    (standard : numeral.IsStandard)
    (ends : EndsDigits rest)
    (noPoint : rest.head? ≠ some (some '.')) :
    decimals? ((fractionText numeral.fraction).map some ++ rest) =
      some (numeral.fraction, rest) := by
  cases given : numeral.fraction with
  | nil =>
      simp only [fractionText, List.isEmpty_nil, if_true, List.map_nil, List.nil_append]
      unfold decimals?
      split
      · exact absurd rfl noPoint
      · rfl
  | cons digit digits =>
      have areDigits : ∀ other ∈ digit :: digits, other.isDigit = true :=
        given ▸ standard.fraction_digits
      have split := splitDigits_append areDigits ends
      simp only [fractionText, List.isEmpty_cons, Bool.false_eq_true, if_false,
        List.map_cons, List.cons_append] at split ⊢
      rw [decimals?, split]

theorem digitsValue_toDigits (value : Nat) :
    Numeral.digitsValue (Nat.toDigits 10 value) = value :=
  Nat.ofDigitChars_ten_toDigits

theorem power?_append
    (exponent : Option Int)
    (ends : EndsDocument rest) :
    power? ((Numeral.exponentText exponent).map some ++ rest) = some (exponent, rest) := by
  cases exponent with
  | none =>
      match rest, ends with
      | [], _ => rfl
      | none :: later, _ => rfl
      | some character :: later, ends =>
          have noMark : ¬ (character = 'e' ∨ character = 'E') := by
            rcases mem_closing.mp (ends character rfl) with rfl | rfl | rfl <;> decide
          simp only [Numeral.exponentText, List.map_nil, List.nil_append, power?]
          rw [if_neg noMark]
  | some power =>
      have areDigits : ∀ digit ∈ Nat.toDigits 10 power.natAbs, digit.isDigit = true :=
        fun digit member => Nat.isDigit_of_mem_toDigits (by decide) (by decide) member
      have split := splitDigits_append areDigits ends.endsDigits
      have value := digitsValue_toDigits power.natAbs
      obtain ⟨digit, digits, spelled⟩ :=
        List.exists_cons_of_ne_nil (Nat.toDigits_ne_nil (n := power.natAbs) (b := 10))
      rw [spelled] at split value
      rw [List.map_cons, List.cons_append] at split
      by_cases negative : power < 0
      · have magnitude : -(Numeral.digitsValue (digit :: digits) : Int) = power := by omega
        simp [Numeral.exponentText, negative, power?, splitExponentSign, spelled, split,
          magnitude]
      · have magnitude : (Numeral.digitsValue (digit :: digits) : Int) = power := by omega
        simp [Numeral.exponentText, negative, power?, splitExponentSign, spelled, split,
          magnitude]

theorem head?_exponentText_append
    (exponent : Option Int)
    (rest : List Symbol) :
    ((Numeral.exponentText exponent).map some ++ rest).head? = some (some 'e') ∨
      (Numeral.exponentText exponent).map some ++ rest = rest := by
  cases exponent with
  | none => exact Or.inr rfl
  | some power => exact Or.inl rfl

/-! ## The whole number -/

theorem unsigned?_append
    (standard : numeral.IsStandard)
    (ends : EndsDocument rest) :
    unsigned? numeral.negative
      (numeral.whole.map some ++ ((fractionText numeral.fraction).map some ++
        ((Numeral.exponentText numeral.exponent).map some ++ rest))) =
      some (numeral, rest) := by
  have exponentEndsDigits :
      EndsDigits ((Numeral.exponentText numeral.exponent).map some ++ rest) := by
    rcases head?_exponentText_append numeral.exponent rest with marked | plain
    · intro character found
      cases marked.symm.trans found
      decide
    · rw [plain]
      exact ends.endsDigits
  have noPoint :
      ((Numeral.exponentText numeral.exponent).map some ++ rest).head? ≠ some (some '.') := by
    intro pointed
    rcases head?_exponentText_append numeral.exponent rest with marked | plain
    · cases marked.symm.trans pointed
    · rw [plain] at pointed
      exact absurd (ends _ pointed) (by decide)
  have fractionEndsDigits :
      EndsDigits ((fractionText numeral.fraction).map some ++
        ((Numeral.exponentText numeral.exponent).map some ++ rest)) := by
    unfold fractionText
    split
    · exact exponentEndsDigits
    · exact endsDigits_cons (by decide) _
  simp only [unsigned?, Option.bind_eq_bind, Option.pure_def,
    whole?_append standard fractionEndsDigits,
    decimals?_append standard exponentEndsDigits noPoint, power?_append _ ends,
    Option.bind_some]

theorem text_map_append
    (numeral : Numeral)
    (rest : List Symbol) :
    numeral.text.map some ++ rest =
      (if numeral.negative then [some '-'] else []) ++
        (numeral.whole.map some ++ ((fractionText numeral.fraction).map some ++
          ((Numeral.exponentText numeral.exponent).map some ++ rest))) := by
  cases negative : numeral.negative <;>
    simp [Numeral.text, fractionText, negative, List.append_assoc]

/-- A number starts with a minus or a digit, which no other token does. -/
theorem token?_of_number
    {first : Char}
    (starts : first = '-' ∨ first.isDigit = true)
    (after : List Symbol) :
    token? (some first :: after) =
      (number? (some first :: after)).map fun found => (.number found.1, found.2) := by
  have noMark : punctuation? first = none ∧ first ≠ '"' ∧ first.isAlpha = false := by
    rcases starts with rfl | isDigit
    · decide
    · have bounds := isDigit
      simp only [Char.isDigit, Bool.and_eq_true, decide_eq_true_eq] at bounds
      refine ⟨?_, ?_, ?_⟩
      · unfold punctuation?
        split <;> first | rfl | exact absurd isDigit (by decide)
      · rintro rfl
        exact absurd isDigit (by decide)
      · grind [Char.isAlpha, Char.isUpper, Char.isLower]
  simp [token?, noMark]

/-- A written number is read as the same numeral. -/
theorem token?_numeral
    (standard : numeral.IsStandard)
    (ends : EndsDocument rest) :
    token? (numeral.text.map some ++ rest) = some (.number numeral, rest) := by
  have unsigned := unsigned?_append standard ends
  obtain ⟨digit, digits, whole⟩ := List.exists_cons_of_ne_nil standard.whole_ne_nil
  have isDigit : digit.isDigit = true :=
    standard.whole_digits digit (whole ▸ List.mem_cons_self)
  rw [text_map_append]
  cases negative : numeral.negative with
  | true =>
      rw [negative] at unsigned
      simp only [if_true, List.cons_append, List.nil_append]
      rw [token?_of_number (Or.inl rfl), number?, unsigned]
      rfl
  | false =>
      have notMinus : digit ≠ '-' := by
        rintro rfl
        exact absurd isDigit (by decide)
      rw [negative] at unsigned
      rw [whole, List.map_cons] at unsigned ⊢
      simp only [Bool.false_eq_true, if_false, List.cons_append, List.nil_append]
        at unsigned ⊢
      rw [token?_of_number (Or.inr isDigit), number?]
      · rw [unsigned]
        rfl
      · rintro later sign
        cases sign
        exact notMinus rfl

end Parts
end Json
end Montage
