import Montage.Proofs.Number.Literals
import Montage.Template

/-!
# Where a numeric run starts and where it ends

The pattern of a numeric run is an optional minus, digits or none, an optional point, and
at least one digit (`IsRunText`).  The run that is found at the start of a text is the
longest text of the pattern that the text starts with, and none is found when no text of
the pattern stands there.  Whether one does is decided by the first three characters
(`StartsRun`).
-/

namespace Montage

open Number

/-! ## Numerals of runs -/

namespace Number.Numeral

/-- A numeral without a power of ten and with at least one digit. -/
structure IsRun (numeral : Numeral) : Prop where
  /-- There is no power of ten. -/
  exponent_eq : numeral.exponent = none
  /-- Before the point there are digits only. -/
  whole_digits : AreDigits numeral.whole
  /-- After the point there are digits only. -/
  fraction_digits : AreDigits numeral.fraction
  /-- There is a digit on one side at least. -/
  some_digit : numeral.whole ≠ [] ∨ numeral.fraction ≠ []

/-- What follows does not go on with the numeral: neither with a digit, nor with a point
and a digit when there is no point in the numeral yet. -/
structure EndsBefore
    (numeral : Numeral)
    (after : List Char) : Prop where
  /-- No digit follows. -/
  noDigit : NoDigitAhead after
  /-- No decimals follow a whole number. -/
  noDecimals : numeral.fraction = [] → ∀ rest, after = '.' :: rest → NoDigitAhead rest

theorem text_whole
    (negative : Bool)
    (whole : List Char) :
    (⟨negative, whole, [], none⟩ : Numeral).text = signText negative ++ whole := by
  simp [text, signText, exponentText]

theorem text_pointed
    {fraction : List Char}
    (nonempty : fraction ≠ [])
    (negative : Bool)
    (whole : List Char) :
    (⟨negative, whole, fraction, none⟩ : Numeral).text =
      signText negative ++ (whole ++ '.' :: fraction) := by
  simp [text, signText, exponentText, nonempty]

theorem IsRun.text_ne_nil
    {numeral : Numeral}
    (isRun : numeral.IsRun) :
    numeral.text ≠ [] := by
  rcases isRun.some_digit with someWhole | someFraction
  · simp [text, someWhole]
  · simp [text, someFraction]

theorem fraction?_eq_none_iff {text : List Char} :
    fraction? text = none ↔ ∀ rest, text = '.' :: rest → NoDigitAhead rest := by
  unfold fraction?
  split
  · next afterPoint =>
      have first : afterPoint.takeWhile Char.isDigit = [] ↔ NoDigitAhead afterPoint := by
        cases afterPoint with
        | nil => simp [noDigitAhead_nil]
        | cons character others => simp [NoDigitAhead, List.takeWhile_cons]
      simp [first]
  · next noPoint =>
      simp only [true_iff]
      rintro rest rfl
      exact absurd rfl (noPoint rest)

theorem fraction?_eq_some_iff
    {text fraction after : List Char} :
    fraction? text = some (fraction, after) ↔
      fraction ≠ [] ∧ AreDigits fraction ∧ NoDigitAhead after ∧
        text = '.' :: (fraction ++ after) := by
  constructor
  · intro found
    obtain ⟨nonempty, joined⟩ := fraction?_eq_some found
    refine ⟨nonempty, ?_, ?_, joined.symm⟩ <;> unfold fraction? at found <;> split at found
    · simp only [Option.ite_none_left_eq_some, Option.some.injEq, Prod.mk.injEq] at found
      exact found.2.1 ▸ areDigits_takeWhile _
    · cases found
    · simp only [Option.ite_none_left_eq_some, Option.some.injEq, Prod.mk.injEq] at found
      exact found.2.2 ▸ noDigitAhead_dropWhile _
    · cases found
  · rintro ⟨nonempty, areDigits, ends, rfl⟩
    simp [fraction?, takeWhile_isDigit_append areDigits ends,
      dropWhile_isDigit_append areDigits ends, nonempty]

end Number.Numeral

namespace Template

open Number.Numeral

theorem isRun_and_endsBefore_of_run?
    {text after : List Char}
    {numeral : Numeral}
    (found : run? text = some (numeral, after)) :
    numeral.IsRun ∧ numeral.EndsBefore after := by
  unfold run? at found
  simp only at found
  split at found
  · next fraction rest pointed =>
      cases found
      obtain ⟨nonempty, fractionDigits, ends, -⟩ := fraction?_eq_some_iff.mp pointed
      exact ⟨⟨rfl, areDigits_takeWhile _, fractionDigits, Or.inr nonempty⟩,
        ends, fun none => absurd none nonempty⟩
  · next noDecimals =>
      split at found
      · cases found
      · next nonempty =>
          cases found
          exact ⟨⟨rfl, areDigits_takeWhile _, List.forall_mem_nil _,
              Or.inl (by simpa using nonempty)⟩,
            noDigitAhead_dropWhile _, fun _ => fraction?_eq_none_iff.mp noDecimals⟩

theorem run?_text_append
    {numeral : Numeral}
    {after : List Char}
    (isRun : numeral.IsRun)
    (ends : numeral.EndsBefore after) :
    run? (numeral.text ++ after) = some (numeral, after) := by
  obtain ⟨withoutPower, wholeDigits, fractionDigits, someDigit⟩ := isRun
  obtain ⟨negative, whole, fraction, exponent⟩ := numeral
  obtain rfl : exponent = none := withoutPower
  simp only at wholeDigits fractionDigits someDigit
  by_cases pointed : fraction = []
  · subst pointed
    have nonempty : whole ≠ [] := someDigit.resolve_right fun other => other rfl
    have noMinus := ne_minus_of_areDigits wholeDigits after fun none => absurd none nonempty
    have noDecimals := fraction?_eq_none_iff.mpr (ends.noDecimals rfl)
    rw [text_whole, List.append_assoc]
    simp [run?, splitMinus_signText_append noMinus,
      takeWhile_isDigit_append wholeDigits ends.noDigit,
      dropWhile_isDigit_append wholeDigits ends.noDigit, noDecimals, nonempty]
  · have point : NoDigitAhead ('.' :: (fraction ++ after)) :=
      noDigitAhead_cons (by decide) _
    have noMinus := ne_minus_of_areDigits wholeDigits ('.' :: (fraction ++ after))
      fun _ => by simp
    rw [text_pointed pointed, List.append_assoc, List.append_assoc, List.cons_append]
    simp [run?, splitMinus_signText_append noMinus,
      takeWhile_isDigit_append wholeDigits point, dropWhile_isDigit_append wholeDigits point,
      fraction?_eq_some_iff.mpr ⟨pointed, fractionDigits, ends.noDigit, rfl⟩]

/-- The run at the start of a text is a numeral that ends before the rest. -/
theorem run?_eq_some_iff
    {text after : List Char}
    {numeral : Numeral} :
    run? text = some (numeral, after) ↔
      numeral.IsRun ∧ numeral.EndsBefore after ∧ text = numeral.text ++ after := by
  constructor
  · intro found
    obtain ⟨isRun, ends⟩ := isRun_and_endsBefore_of_run? found
    exact ⟨isRun, ends, (text_run? found).symm⟩
  · rintro ⟨isRun, ends, rfl⟩
    exact run?_text_append isRun ends

/-! ## The longest run -/

/-- Whatever numeral a text starts with, the run found there is no shorter. -/
theorem exists_run?_of_isRun
    {numeral : Numeral}
    (isRun : numeral.IsRun)
    (after : List Char) :
    ∃ found rest, run? (numeral.text ++ after) = some (found, rest) ∧
      numeral.text.length ≤ found.text.length := by
  obtain ⟨withoutPower, wholeDigits, fractionDigits, someDigit⟩ := isRun
  obtain ⟨negative, whole, fraction, exponent⟩ := numeral
  obtain rfl : exponent = none := withoutPower
  simp only at wholeDigits fractionDigits someDigit
  have moreDigits := areDigits_takeWhile after
  have ends := noDigitAhead_dropWhile after
  have joined := List.takeWhile_append_dropWhile (p := Char.isDigit) (l := after)
  generalize after.takeWhile Char.isDigit = digits at moreDigits joined
  generalize after.dropWhile Char.isDigit = rest at ends joined
  subst joined
  by_cases pointed : fraction = []
  · subst pointed
    have nonempty : whole ≠ [] := someDigit.resolve_right fun other => other rfl
    have allDigits : AreDigits (whole ++ digits) :=
      List.forall_mem_append.mpr ⟨wholeDigits, moreDigits⟩
    cases decimals : fraction? rest with
    | none =>
        refine ⟨⟨negative, whole ++ digits, [], none⟩, rest, ?_, ?_⟩
        · refine run?_eq_some_iff.mpr ⟨⟨rfl, allDigits, fractionDigits, ?_⟩, ?_, ?_⟩
          · exact Or.inl (List.append_ne_nil_of_left_ne_nil nonempty _)
          · exact ⟨ends, fun _ => fraction?_eq_none_iff.mp decimals⟩
          · simp [text_whole]
        · simp [text_whole]
    | some found =>
        obtain ⟨fraction, later⟩ := found
        obtain ⟨someDecimal, areDecimals, decimalsEnd, rfl⟩ :=
          fraction?_eq_some_iff.mp decimals
        refine ⟨⟨negative, whole ++ digits, fraction, none⟩, later, ?_, ?_⟩
        · refine run?_eq_some_iff.mpr
            ⟨⟨rfl, allDigits, areDecimals, Or.inr someDecimal⟩, ?_, ?_⟩
          · exact ⟨decimalsEnd, fun none => absurd none someDecimal⟩
          · simp [text_whole, text_pointed someDecimal]
        · simp [text_whole, text_pointed someDecimal]
  · have nonempty : fraction ++ digits ≠ [] := List.append_ne_nil_of_left_ne_nil pointed _
    refine ⟨⟨negative, whole, fraction ++ digits, none⟩, rest, ?_, ?_⟩
    · refine run?_eq_some_iff.mpr ⟨⟨rfl, wholeDigits, ?_, Or.inr nonempty⟩, ?_, ?_⟩
      · exact List.forall_mem_append.mpr ⟨fractionDigits, moreDigits⟩
      · exact ⟨ends, fun none => absurd none nonempty⟩
      · simp [text_pointed pointed, text_pointed nonempty]
    · simp [text_pointed pointed, text_pointed nonempty]

/-- The texts of the pattern: an optional minus, digits or none, an optional point, and at
least one digit. -/
def IsRunText (text : List Char) : Prop :=
  ∃ sign whole point digits, text = sign ++ (whole ++ (point ++ digits)) ∧
    (sign = [] ∨ sign = ['-']) ∧ AreDigits whole ∧ (point = [] ∨ point = ['.']) ∧
      digits ≠ [] ∧ AreDigits digits

/-- The texts of the pattern are those of numerals. -/
theorem isRunText_iff {text : List Char} :
    IsRunText text ↔ ∃ numeral : Numeral, numeral.IsRun ∧ numeral.text = text := by
  constructor
  · rintro ⟨sign, whole, point, digits, rfl, isSign, wholeDigits, isPoint, nonempty, areDigits⟩
    obtain ⟨negative, rfl⟩ : ∃ negative, sign = signText negative := by
      rcases isSign with rfl | rfl
      · exact ⟨false, rfl⟩
      · exact ⟨true, rfl⟩
    rcases isPoint with rfl | rfl
    · refine ⟨⟨negative, whole ++ digits, [], none⟩, ⟨rfl, ?_, List.forall_mem_nil _, ?_⟩, ?_⟩
      · exact List.forall_mem_append.mpr ⟨wholeDigits, areDigits⟩
      · exact Or.inl (List.append_ne_nil_of_right_ne_nil _ nonempty)
      · simp [text_whole]
    · refine ⟨⟨negative, whole, digits, none⟩, ⟨rfl, wholeDigits, areDigits, ?_⟩, ?_⟩
      · exact Or.inr nonempty
      · simp [text_pointed nonempty]
  · rintro ⟨numeral, ⟨withoutPower, wholeDigits, fractionDigits, someDigit⟩, rfl⟩
    obtain ⟨negative, whole, fraction, exponent⟩ := numeral
    obtain rfl : exponent = none := withoutPower
    simp only at wholeDigits fractionDigits someDigit
    have isSign : signText negative = [] ∨ signText negative = ['-'] := by
      cases negative
      · exact Or.inl rfl
      · exact Or.inr rfl
    by_cases pointed : fraction = []
    · subst pointed
      have nonempty : whole ≠ [] := someDigit.resolve_right fun other => other rfl
      exact ⟨signText negative, [], [], whole, text_whole negative whole, isSign,
        List.forall_mem_nil _, Or.inl rfl, nonempty, wholeDigits⟩
    · exact ⟨signText negative, whole, ['.'], fraction, text_pointed pointed negative whole,
        isSign, wholeDigits, Or.inr rfl, pointed, fractionDigits⟩

/-- The run is the longest text of the pattern that the text starts with. -/
structure IsLongestRun (run text : List Char) : Prop where
  /-- The text starts with it. -/
  isPrefix : run <+: text
  /-- It is of the pattern. -/
  isRunText : IsRunText run
  /-- No longer one is. -/
  longest : ∀ other, other <+: text → IsRunText other → other.length ≤ run.length

theorem isLongestRun_of_run?
    {text after : List Char}
    {numeral : Numeral}
    (found : run? text = some (numeral, after)) :
    IsLongestRun numeral.text text := by
  obtain ⟨isRun, -, whole⟩ := run?_eq_some_iff.mp found
  refine ⟨⟨after, whole.symm⟩, isRunText_iff.mpr ⟨numeral, isRun, rfl⟩, ?_⟩
  rintro _ ⟨rest, rfl⟩ isRunText
  obtain ⟨other, otherIsRun, rfl⟩ := isRunText_iff.mp isRunText
  obtain ⟨longest, later, again, noShorter⟩ := exists_run?_of_isRun otherIsRun rest
  rw [found] at again
  obtain ⟨rfl, -⟩ := Prod.mk.inj (Option.some.inj again)
  exact noShorter

/-! ## Where a run starts -/

/-- A run starts here: after an optional minus and an optional point there is a digit. -/
def StartsRun (text : List Char) : Prop :=
  ∃ sign point digit rest, text = sign ++ (point ++ digit :: rest) ∧
    (sign = [] ∨ sign = ['-']) ∧ (point = [] ∨ point = ['.']) ∧ digit.isDigit = true

theorem StartsRun.append
    {text : List Char}
    (starts : StartsRun text)
    (addition : List Char) :
    StartsRun (text ++ addition) := by
  obtain ⟨sign, point, digit, rest, rfl, isSign, isPoint, isDigit⟩ := starts
  exact ⟨sign, point, digit, rest ++ addition, by simp, isSign, isPoint, isDigit⟩

theorem startsRun_iff {text : List Char} :
    StartsRun text ↔ ∃ run, run <+: text ∧ IsRunText run := by
  constructor
  · rintro ⟨sign, point, digit, rest, rfl, isSign, isPoint, isDigit⟩
    refine ⟨sign ++ (point ++ [digit]), ⟨rest, by simp⟩, ?_⟩
    exact ⟨sign, [], point, [digit], by simp, isSign, List.forall_mem_nil _, isPoint, by simp,
      by simpa [AreDigits] using isDigit⟩
  · rintro ⟨_, ⟨rest, rfl⟩, sign, whole, point, digits, rfl, isSign, wholeDigits, isPoint,
      nonempty, areDigits⟩
    cases whole with
    | nil =>
        obtain ⟨digit, others, rfl⟩ := List.exists_cons_of_ne_nil nonempty
        exact ⟨sign, point, digit, others ++ rest, by simp, isSign, isPoint,
          areDigits digit List.mem_cons_self⟩
    | cons digit others =>
        exact ⟨sign, [], digit, others ++ (point ++ (digits ++ rest)), by simp, isSign,
          Or.inl rfl, wholeDigits digit List.mem_cons_self⟩

/-- No run is found exactly where none starts. -/
theorem run?_eq_none_iff {text : List Char} : run? text = none ↔ ¬ StartsRun text := by
  rw [startsRun_iff]
  constructor
  · rintro notFound ⟨_, ⟨rest, rfl⟩, isRunText⟩
    obtain ⟨numeral, isRun, rfl⟩ := isRunText_iff.mp isRunText
    obtain ⟨longest, later, found, -⟩ := exists_run?_of_isRun isRun rest
    rw [notFound] at found
    cases found
  · intro noRun
    apply Option.eq_none_iff_forall_ne_some.mpr
    rintro ⟨numeral, after⟩ found
    have isLongest := isLongestRun_of_run? found
    exact noRun ⟨_, isLongest.isPrefix, isLongest.isRunText⟩

end Template
end Montage
