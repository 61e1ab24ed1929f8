import Montage.Number.Numeral

/-!
# How numbers are spelled

The grammar of free numbers: a sign of either kind or none, digits on at least one side of
an optional point, and an optional power of ten.  Reading accepts exactly the texts of this
grammar.  Besides them there are spellings for the numbers that are not finite (`Spells`),
which are of no use where a finite number is asked for.
-/

namespace Montage
namespace Number

/-! ## Digits -/

/-- A row of digits, possibly empty. -/
def AreDigits (text : List Char) : Prop :=
  ∀ character ∈ text, character.isDigit = true

/-- What does not go on with a digit. -/
def NoDigitAhead (rest : List Char) : Prop :=
  ∀ character, rest.head? = some character → character.isDigit = false

theorem noDigitAhead_nil : NoDigitAhead [] := by
  rintro character ⟨⟩

theorem noDigitAhead_cons
    {character : Char}
    (noDigit : character.isDigit = false)
    (rest : List Char) :
    NoDigitAhead (character :: rest) := by
  rintro _ ⟨⟩
  exact noDigit

theorem areDigits_takeWhile (text : List Char) : AreDigits (text.takeWhile Char.isDigit) := by
  have all := List.all_takeWhile (p := Char.isDigit) (l := text)
  rwa [List.all_eq_true] at all

theorem noDigitAhead_dropWhile (text : List Char) :
    NoDigitAhead (text.dropWhile Char.isDigit) := by
  intro character ahead
  have first := List.head?_dropWhile_not Char.isDigit text
  rw [ahead] at first
  simpa using first

section Span

variable {digits rest : List Char}

theorem takeWhile_isDigit_append
    (areDigits : AreDigits digits)
    (ends : NoDigitAhead rest) :
    (digits ++ rest).takeWhile Char.isDigit = digits := by
  rw [List.takeWhile_append_of_pos areDigits]
  cases rest with
  | nil => simp
  | cons first others => simp [ends first rfl]

theorem dropWhile_isDigit_append
    (areDigits : AreDigits digits)
    (ends : NoDigitAhead rest) :
    (digits ++ rest).dropWhile Char.isDigit = rest := by
  rw [List.dropWhile_append_of_pos areDigits]
  cases rest with
  | nil => rfl
  | cons first others => simp [ends first rfl]

end Span

namespace Numeral

/-! ## The grammar -/

/-- The text of an optional sign, with whether it is a minus. -/
inductive IsSign : List Char → Bool → Prop
  /-- There is no sign. -/
  | absent : IsSign [] false
  /-- A plus, which changes nothing. -/
  | plus : IsSign ['+'] false
  /-- A minus. -/
  | minus : IsSign ['-'] true

/-- The text of an optional power of ten. -/
inductive IsExponent : List Char → Option Int → Prop
  /-- There is no power of ten. -/
  | absent : IsExponent [] none
  /-- A mark in either letter case, an optional sign, and digits. -/
  | power
      (mark : Char)
      (sign digits : List Char)
      (negative : Bool) :
      mark = 'e' ∨ mark = 'E' →
      IsSign sign negative →
      digits ≠ [] →
      AreDigits digits →
      IsExponent (mark :: (sign ++ digits))
        (some (if negative then -(digitsValue digits : Int) else digitsValue digits))

/-- The text of a free number, with the numeral that it spells. -/
inductive IsFree : List Char → Numeral → Prop
  /-- Digits without a point. -/
  | whole
      (sign digits ending : List Char)
      (negative : Bool)
      (exponent : Option Int) :
      IsSign sign negative →
      digits ≠ [] →
      AreDigits digits →
      IsExponent ending exponent →
      IsFree (sign ++ (digits ++ ending)) ⟨negative, digits, [], exponent⟩
  /-- Digits on at least one side of a point. -/
  | pointed
      (sign whole fraction ending : List Char)
      (negative : Bool)
      (exponent : Option Int) :
      IsSign sign negative →
      whole ≠ [] ∨ fraction ≠ [] →
      AreDigits whole →
      AreDigits fraction →
      IsExponent ending exponent →
      IsFree (sign ++ (whole ++ '.' :: (fraction ++ ending)))
        ⟨negative, whole, fraction, exponent⟩

/-! ## Signs -/

theorem exists_isSign (text : List Char) :
    ∃ sign, IsSign sign (splitSign text).1 ∧ text = sign ++ (splitSign text).2 := by
  fun_cases splitSign text with
  | case1 rest => exact ⟨['-'], .minus, rfl⟩
  | case2 rest => exact ⟨['+'], .plus, rfl⟩
  | case3 => exact ⟨[], .absent, rfl⟩

/-- A sign is split off in front of what is no sign. -/
theorem splitSign_append
    {sign rest : List Char}
    {negative : Bool}
    (isSign : IsSign sign negative)
    (noSign : ∀ character, rest.head? = some character →
      character ≠ '+' ∧ character ≠ '-') :
    splitSign (sign ++ rest) = (negative, rest) := by
  cases isSign with
  | plus => rfl
  | minus => rfl
  | absent =>
      rw [List.nil_append]
      unfold splitSign
      split
      · exact absurd rfl (noSign '-' rfl).2
      · exact absurd rfl (noSign '+' rfl).1
      · rfl

theorem ne_sign_of_isDigit
    {character : Char}
    (isDigit : character.isDigit = true) :
    character ≠ '+' ∧ character ≠ '-' := by
  constructor <;> rintro rfl <;> exact absurd isDigit (by decide)

/-- Digits in front keep signs away from the start. -/
theorem noSign_of_areDigits
    {digits : List Char}
    (areDigits : AreDigits digits)
    (rest : List Char)
    (otherwise : digits = [] → ∀ character, rest.head? = some character →
      character ≠ '+' ∧ character ≠ '-') :
    ∀ character, (digits ++ rest).head? = some character →
      character ≠ '+' ∧ character ≠ '-' := by
  cases digits with
  | nil => exact otherwise rfl
  | cons digit others =>
      rintro _ ⟨⟩
      exact ne_sign_of_isDigit (areDigits digit List.mem_cons_self)

/-! ## Reading -/

theorem exponent?_eq_some_iff
    {text : List Char}
    {exponent : Option Int} :
    exponent? text = some exponent ↔ IsExponent text exponent := by
  constructor
  · intro found
    cases text with
    | nil =>
        cases found
        exact .absent
    | cons mark rest =>
        obtain ⟨sign, isSign, whole⟩ := exists_isSign rest
        rw [exponent?] at found
        generalize splitSign rest = parts at found isSign whole
        obtain ⟨negative, digits⟩ := parts
        simp only [Bool.and_eq_true, Bool.not_eq_true', List.isEmpty_eq_false_iff,
          List.all_eq_true, Option.ite_none_right_eq_some, Option.some.injEq] at found
        obtain ⟨isMark, ⟨nonempty, areDigits⟩, rfl⟩ := found
        rw [whole]
        exact .power mark sign digits negative isMark isSign nonempty areDigits
  · intro isExponent
    cases isExponent with
    | absent => rfl
    | power mark sign digits negative isMark isSign nonempty areDigits =>
        have noSign := noSign_of_areDigits areDigits [] fun none =>
          absurd none nonempty
        rw [List.append_nil] at noSign
        have all : digits.all Char.isDigit = true := List.all_eq_true.mpr areDigits
        rw [exponent?, splitSign_append isSign noSign]
        simp [isMark, nonempty, all]

theorem IsExponent.noDigitAhead
    {text : List Char}
    {exponent : Option Int}
    (isExponent : IsExponent text exponent) :
    NoDigitAhead text := by
  cases isExponent with
  | absent => exact noDigitAhead_nil
  | power mark sign digits negative isMark =>
      apply noDigitAhead_cons
      rcases isMark with rfl | rfl <;> decide

theorem isFree_of_free?
    {text : List Char}
    {numeral : Numeral}
    (found : free? text = some numeral) :
    IsFree text numeral := by
  obtain ⟨sign, isSign, signed⟩ := exists_isSign text
  unfold free? at found
  generalize splitSign text = parts at found isSign signed
  obtain ⟨negative, body⟩ := parts
  have whole := List.takeWhile_append_dropWhile (p := Char.isDigit) (l := body)
  have areDigits := areDigits_takeWhile body
  subst signed
  rw [← whole]
  simp only [Option.ite_none_left_eq_some, Option.map_eq_some_iff] at found
  generalize body.takeWhile Char.isDigit = digits at found areDigits ⊢
  generalize body.dropWhile Char.isDigit = after at found ⊢
  split at found
  · next rest =>
      obtain ⟨some, exponent, isExponent, rfl⟩ := found
      simp only [Bool.and_eq_true, List.isEmpty_iff, Classical.not_and_iff_not_or_not] at some
      have free := IsFree.pointed sign digits _ _ negative exponent isSign some areDigits
        (areDigits_takeWhile rest) (exponent?_eq_some_iff.mp isExponent)
      rwa [List.takeWhile_append_dropWhile] at free
  · obtain ⟨some, exponent, isExponent, rfl⟩ := found
    refine .whole sign digits after negative exponent isSign ?_ areDigits
      (exponent?_eq_some_iff.mp isExponent)
    simpa using some

theorem free?_of_isFree
    {text : List Char}
    {numeral : Numeral}
    (isFree : IsFree text numeral) :
    free? text = some numeral := by
  cases isFree with
  | whole sign digits ending negative exponent isSign nonempty areDigits isExponent =>
      have noSign := noSign_of_areDigits areDigits ending fun none => absurd none nonempty
      have read := exponent?_eq_some_iff.mpr isExponent
      have noDigit := isExponent.noDigitAhead
      simp only [free?, splitSign_append isSign noSign,
        takeWhile_isDigit_append areDigits noDigit,
        dropWhile_isDigit_append areDigits noDigit]
      cases isExponent with
      | absent => simp [nonempty, exponent?]
      | power mark _ _ _ isMark =>
          -- The mark of a power of ten is no point.
          rcases isMark with rfl | rfl <;> simp [nonempty, read]
  | pointed sign whole fraction ending negative exponent isSign nonempty areDigits
      areDecimals isExponent =>
      have noSign := noSign_of_areDigits areDigits ('.' :: (fraction ++ ending))
        fun _ character first => by
          obtain rfl := Option.some.inj first
          decide
      have point : NoDigitAhead ('.' :: (fraction ++ ending)) :=
        noDigitAhead_cons (by decide) _
      have some : (whole.isEmpty && fraction.isEmpty) = false := by
        rcases nonempty with nonempty | nonempty <;> simp [nonempty]
      simp [free?, splitSign_append isSign noSign,
        takeWhile_isDigit_append areDigits point, dropWhile_isDigit_append areDigits point,
        takeWhile_isDigit_append areDecimals isExponent.noDigitAhead,
        dropWhile_isDigit_append areDecimals isExponent.noDigitAhead, some,
        exponent?_eq_some_iff.mpr isExponent]

/-- Reading accepts the free numbers and nothing else. -/
theorem free?_eq_some_iff
    {text : List Char}
    {numeral : Numeral} :
    free? text = some numeral ↔ IsFree text numeral :=
  ⟨isFree_of_free?, free?_of_isFree⟩

end Numeral

/-! ## Spellings of numbers -/

/-- The words for an infinite number, in lower case. -/
def infinityWords : List (List Char) :=
  ["inf".toList, "infinity".toList]

/-- The word for what is no number, in lower case. -/
def undefinedWord : List Char :=
  "nan".toList

/-- The text spells the number: as a free numeral, which stands for the number nearest to
it, or as one of the words for what is not finite, in any letter case and with an optional
sign. -/
inductive Spells : List Char → Float → Prop
  /-- A numeral. -/
  | numeral (text : List Char) (numeral : Numeral) :
      Numeral.IsFree text numeral →
      Spells text numeral.nearest
  /-- An infinite number. -/
  | infinite (sign word : List Char) (negative : Bool) :
      Numeral.IsSign sign negative →
      word.map Char.toLower ∈ infinityWords →
      Spells (sign ++ word)
        (Float.ofBits (if negative then 0xFFF0000000000000 else 0x7FF0000000000000))
  /-- No number. -/
  | undefined (sign word : List Char) (negative : Bool) :
      Numeral.IsSign sign negative →
      word.map Char.toLower = undefinedWord →
      Spells (sign ++ word) (Float.ofBits 0x7FF8000000000000)

/-- A finite number is spelled by a numeral. -/
theorem spells_finite_iff
    {text : List Char}
    {amount : Float}
    (finite : amount.isFinite = true) :
    Spells text amount ↔
      ∃ numeral, Numeral.free? text = some numeral ∧ numeral.nearest = amount := by
  constructor
  · intro spells
    cases spells with
    | numeral _ numeral isFree => exact ⟨numeral, Numeral.free?_eq_some_iff.mpr isFree, rfl⟩
    | infinite sign word negative =>
        cases negative
        · exact absurd finite (by decide +kernel)
        · exact absurd finite (by decide +kernel)
    | undefined => exact absurd finite (by decide +kernel)
  · rintro ⟨numeral, isFree, rfl⟩
    exact .numeral text numeral (Numeral.free?_eq_some_iff.mp isFree)

end Number
end Montage
