import Mathlib.Data.List.Forall2
import Montage.Proofs.Number.Plain
import Montage.Proofs.Template.Tiling

/-!
# Scanning a rendered text again

A number that is put in the place of a run is written with its own minus, and without one
it starts with a digit.  Behind a minus or a point of the literal text such a digit becomes
part of another run, and behind a digit it goes on with the run before.  Where no number
without a minus is put behind one of these characters (`ApartFrom`), and only there, the
rendered text is scanned as the template with the numbers in their places
(`scan_render_eq_refill_iff`).
-/

namespace Montage

open Number

theorem Number.Numeral.IsPlain.isRun
    {numeral : Numeral}
    (isPlain : numeral.IsPlain) :
    numeral.IsRun :=
  ⟨isPlain.exponent_eq, isPlain.whole_digits, isPlain.fraction_digits,
    Or.inl isPlain.whole_ne_nil⟩

namespace Template

/-! ## Numbers in the place of runs -/

/-- Runs with numbers in the place of their own. -/
def refillFrom (runs : List Run) (amounts : List Float) : List Run :=
  runs.zipWith (fun run amount => { run with numeral := plainNumeral amount }) amounts

/-- The template with numbers in the place of its own. -/
def refill
    (template : Template)
    (amounts : List Float) : Template :=
  { template with runs := refillFrom template.runs amounts }

/-- The runs found again are as many as before, with the numbers that were put in their
places and with the units that they had. -/
structure Carries
    (found template : Template)
    (amounts : List Float) : Prop where
  /-- There are as many runs. -/
  sameLength : found.runs.length = template.runs.length
  /-- They have the numbers that were put in their places. -/
  values_eq : List.Forall₂ (fun value amount => (value == amount) = true) found.values amounts
  /-- They have their units. -/
  units_eq : found.runs.map Run.unit = template.runs.map Run.unit

/-- What stands in front keeps a digit apart: it does not end with a digit, with a minus or
with a point. -/
def IsParted (before : List Char) : Prop :=
  ∀ last, before.getLast? = some last → last.isDigit = false ∧ last ≠ '-' ∧ last ≠ '.'

/-- Each number is below zero, or what stands in front of its run keeps it apart; the text
in front of the first of the runs is given. -/
def ApartFrom (before : List Char) : List Run → List Float → Prop
  | run :: rest, amount :: amounts =>
      (amount < 0 ∨ IsParted (before ++ run.lead)) ∧
        ApartFrom (before ++ run.lead ++ run.numeral.text ++ run.unit) rest amounts
  | _, _ => True

theorem isParted_append
    {before addition : List Char}
    (nonempty : addition ≠ []) :
    IsParted (before ++ addition) ↔ IsParted addition := by
  rw [IsParted, IsParted, List.getLast?_append_of_ne_nil _ nonempty]

theorem not_isParted_append_digit
    {digit : Char}
    (isDigit : digit.isDigit = true)
    (before : List Char) :
    ¬ IsParted (before ++ [digit]) := by
  intro isParted
  have noDigit := (isParted digit List.getLast?_concat).1
  rw [isDigit] at noDigit
  cases noDigit

/-- There is a finite number for each of the runs. -/
def AreFilled (runs : List Run) (amounts : List Float) : Prop :=
  List.Forall₂ (fun _ amount => amount.isFinite = true) runs amounts

theorem areFilled_of_finite
    {runs : List Run}
    {amounts : List Float}
    (sameLength : amounts.length = runs.length)
    (finite : ∀ amount ∈ amounts, amount.isFinite = true) :
    AreFilled runs amounts :=
  List.forall₂_iff_zip.mpr
    ⟨sameLength.symm, fun member => finite _ (List.of_mem_zip member).2⟩

theorem textFrom_refillFrom_cons
    {amount : Float}
    (finite : amount.isFinite = true)
    (tail : List Char)
    (run : Run)
    (rest : List Run)
    (others : List Float) :
    textFrom tail (refillFrom (run :: rest) (amount :: others)) =
      run.lead ++ (plainText amount ++
        (run.unit ++ textFrom tail (refillFrom rest others))) := by
  rw [refillFrom, List.zipWith_cons_cons, textFrom_cons, plainText_eq_text finite, refillFrom]

theorem textFrom_refillFrom
    {runs : List Run}
    {amounts : List Float}
    (filled : AreFilled runs amounts)
    (tail : List Char) :
    textFrom tail (refillFrom runs amounts) = renderFrom tail runs amounts := by
  induction filled with
  | nil => rfl
  | cons finite _ inductionHypothesis =>
      rw [textFrom_refillFrom_cons finite, inductionHypothesis]
      simp [renderFrom]

/-! ## Literal stretches in front of other numbers -/

/-- A run that starts in a stretch only with what is put behind it takes a point from there,
or a digit behind a minus or a point. -/
theorem not_startsRun_append_cons
    {stretch rest : List Char}
    {first : Char}
    (nonempty : stretch ≠ [])
    (noRun : ¬ StartsRun stretch)
    (notPoint : first ≠ '.')
    (apart : first.isDigit = true → IsParted stretch) :
    ¬ StartsRun (stretch ++ first :: rest) := by
  rintro ⟨sign, point, digit, more, whole, isSign, isPoint, isDigit⟩
  rw [← List.append_assoc] at whole
  have notJust : stretch = sign ++ point → first ≠ digit := by
    rintro rfl rfl
    have isParted := apart isDigit
    rcases isSign with rfl | rfl <;> rcases isPoint with rfl | rfl
    · exact nonempty rfl
    · exact (isParted '.' rfl).2.2 rfl
    · exact (isParted '-' rfl).2.1 rfl
    · exact (isParted '.' rfl).2.2 rfl
  rcases List.append_eq_append_iff.mp whole with
    ⟨others, signed, taken⟩ | ⟨others, rfl, taken⟩
  · cases others with
    | nil => exact notJust (by simpa using signed.symm) (List.cons.inj taken).1
    | cons next others =>
        -- The stretch is the sign alone, so that the point is taken from behind it.
        obtain ⟨rfl, -⟩ := List.cons.inj taken
        obtain ⟨minus, stretch, rfl⟩ := List.exists_cons_of_ne_nil nonempty
        rcases isSign with rfl | rfl <;> rcases isPoint with rfl | rfl
        · cases signed
        · cases stretch <;> cases signed
        · cases stretch <;> cases signed
        · cases stretch with
          | nil =>
              cases signed
              exact notPoint rfl
          | cons second stretch => cases stretch <;> cases signed
  · cases others with
    | nil => exact notJust (List.append_nil _) (List.cons.inj taken).1.symm
    | cons next others =>
        obtain ⟨rfl, -⟩ := List.cons.inj taken
        exact noRun ⟨sign, point, digit, others, by simp, isSign, isPoint, isDigit⟩

section Literal

variable {stretch following rest : List Char}

theorem IsLiteral.not_startsRun
    (isLiteral : IsLiteral stretch following)
    {back : List Char}
    (isSuffix : back <:+ stretch)
    (nonempty : back ≠ []) :
    ¬ StartsRun back :=
  fun starts => isLiteral back isSuffix nonempty (starts.append following)

/-- A literal stretch stays one in front of a minus. -/
theorem IsLiteral.cons_minus
    (isLiteral : IsLiteral stretch following)
    (rest : List Char) :
    IsLiteral stretch ('-' :: rest) := fun _ isSuffix nonempty =>
  not_startsRun_append_cons nonempty (isLiteral.not_startsRun isSuffix nonempty) (by decide)
    fun isDigit => absurd isDigit (by decide)

/-- A literal stretch stays one in front of a digit if it keeps the digit apart, and only
then. -/
theorem IsLiteral.cons_digit_iff
    (isLiteral : IsLiteral stretch following)
    {digit : Char}
    (isDigit : digit.isDigit = true)
    (rest : List Char) :
    IsLiteral stretch (digit :: rest) ↔ IsParted stretch := by
  constructor
  · intro stays last isLast
    obtain ⟨front, rfl⟩ := List.getLast?_eq_some_iff.mp isLast
    have noRun := stays [last] (List.suffix_append front [last]) (List.cons_ne_nil _ _)
    refine ⟨?_, ?_, ?_⟩
    · rw [← Bool.not_eq_true]
      intro lastIsDigit
      exact noRun ⟨[], [], last, digit :: rest, rfl, Or.inl rfl, Or.inl rfl, lastIsDigit⟩
    · rintro rfl
      exact noRun ⟨['-'], [], digit, rest, rfl, Or.inr rfl, Or.inl rfl, isDigit⟩
    · rintro rfl
      exact noRun ⟨[], ['.'], digit, rest, rfl, Or.inl rfl, Or.inr rfl, isDigit⟩
  · intro isParted back isSuffix nonempty
    obtain ⟨front, rfl⟩ := isSuffix
    refine not_startsRun_append_cons nonempty
      (isLiteral.not_startsRun (List.suffix_append front back) nonempty) ?_ fun _ =>
        (isParted_append nonempty).mp isParted
    rintro rfl
    cases isDigit

/-- A stretch in front of a run stays literal, and keeps apart what is put behind it,
exactly for a number below zero or behind what keeps a digit apart. -/
theorem isLiteral_plainText_iff
    (isLiteral : IsLiteral stretch following)
    {amount : Float}
    (finite : amount.isFinite = true)
    (before : List Char) :
    (IsLiteral stretch (plainText amount ++ rest) ∧
        (stretch = [] → amount < 0 ∨ IsParted before)) ↔
      (amount < 0 ∨ IsParted (before ++ stretch)) := by
  by_cases empty : stretch = []
  · subst empty
    simp [isLiteral_nil]
  · rw [isParted_append empty]
    rcases plainText_cases finite with
      ⟨negative, others, written⟩ | ⟨notNegative, digit, others, written, isDigit⟩
    · simp [written, empty, negative, isLiteral.cons_minus]
    · simp [written, empty, notNegative, isLiteral.cons_digit_iff isDigit]

end Literal

/-! ## Ends of numerals -/

theorem endsBefore_of_not_startsRun
    {text : List Char}
    (noRun : ¬ StartsRun text)
    (numeral : Numeral) :
    numeral.EndsBefore text := by
  constructor
  · intro first ahead
    obtain ⟨rest, rfl⟩ := List.head?_eq_some_iff.mp ahead
    rw [← Bool.not_eq_true]
    intro isDigit
    exact noRun ⟨[], [], first, rest, rfl, Or.inl rfl, Or.inl rfl, isDigit⟩
  · rintro - rest rfl second ahead
    obtain ⟨more, rfl⟩ := List.head?_eq_some_iff.mp ahead
    rw [← Bool.not_eq_true]
    intro isDigit
    exact noRun ⟨[], ['.'], second, more, rfl, Or.inl rfl, Or.inr rfl, isDigit⟩

theorem endsBefore_cons
    {first : Char}
    (noDigit : first.isDigit = false)
    (notPoint : first ≠ '.')
    (rest : List Char)
    (numeral : Numeral) :
    numeral.EndsBefore (first :: rest) := by
  refine ⟨noDigitAhead_cons noDigit rest, ?_⟩
  rintro - _ ⟨⟩
  exact absurd rfl notPoint

/-- A unit starts neither with a digit nor with a point, and keeps a digit apart. -/
theorem endsBefore_and_isParted_of_mem_units
    {unit : List Char}
    (member : unit ∈ units) :
    (∀ (rest : List Char) (numeral : Numeral), numeral.EndsBefore (unit ++ rest)) ∧
      ∀ before, IsParted (before ++ unit) := by
  have starts : ∃ first others, unit = first :: others ∧ first.isDigit = false ∧
      first ≠ '.' := by
    revert unit
    simp [units]
  have ends : IsParted unit := by
    revert unit
    simp [units, IsParted]
  obtain ⟨first, others, rfl, noDigit, notPoint⟩ := starts
  exact ⟨fun rest => endsBefore_cons noDigit notPoint (others ++ rest),
    fun before => (isParted_append (List.cons_ne_nil _ _)).mpr ends⟩

/-- A run ends with a digit. -/
theorem exists_text_eq_append_digit
    {numeral : Numeral}
    (isRun : numeral.IsRun) :
    ∃ front digit, numeral.text = front ++ [digit] ∧ digit.isDigit = true := by
  obtain ⟨sign, whole, point, digits, spelled, -, -, -, nonempty, areDigits⟩ :=
    isRunText_iff.mpr ⟨numeral, isRun, rfl⟩
  refine ⟨sign ++ (whole ++ (point ++ digits.dropLast)), digits.getLast nonempty, ?_,
    areDigits _ (List.getLast_mem nonempty)⟩
  rw [spelled]
  simp [List.dropLast_concat_getLast]

/-! ## Units in front of other numbers -/

/-- No unit has a character that a number starts with. -/
theorem not_mem_units_of_starts
    {unit : List Char}
    (member : unit ∈ units)
    {first : Char}
    (starts : first = '-' ∨ first.isDigit = true) :
    first ∉ unit := by
  have noNumber : ∀ character ∈ unit, character ≠ '-' ∧ character.isDigit = false := by
    revert unit
    simp [units]
  intro isMember
  obtain ⟨noMinus, noDigit⟩ := noNumber first isMember
  rcases starts with isMinus | isDigit
  · exact noMinus isMinus
  · rw [noDigit] at isDigit
    cases isDigit

theorem isPrefix_of_not_mem
    {front stretch rest : List Char}
    {first : Char}
    (isPrefix : front <+: stretch ++ first :: rest)
    (absent : first ∉ front) :
    front <+: stretch := by
  rcases List.prefix_or_prefix_of_prefix isPrefix (List.prefix_append stretch _) with
    shorter | ⟨others, rfl⟩
  · exact shorter
  · cases others with
    | nil => exact ⟨[], by simp⟩
    | cons second others =>
        obtain ⟨rfl, -⟩ :=
          List.cons_prefix_cons.mp ((List.prefix_append_right_inj stretch).mp isPrefix)
        exact absurd (List.mem_append_right _ List.mem_cons_self) absent

/-- The unit of a run does not depend on the number behind it. -/
theorem IsUnitOf.cons_of_starts
    {unit stretch following rest : List Char}
    (isUnit : IsUnitOf unit (unit ++ (stretch ++ following)))
    {first : Char}
    (starts : first = '-' ∨ first.isDigit = true) :
    IsUnitOf unit (unit ++ (stretch ++ first :: rest)) := by
  rcases isUnit with ⟨member, -⟩ | ⟨rfl, absent⟩
  · exact Or.inl ⟨member, List.prefix_append _ _⟩
  · refine Or.inr ⟨rfl, fun other member isPrefix => absent other member ?_⟩
    have shorter := isPrefix_of_not_mem isPrefix (not_mem_units_of_starts member starts)
    exact shorter.trans (List.prefix_append stretch following)

/-! ## Fitting -/

/-- The first of the runs does not directly go on with what stands in front. -/
def StartsApart (before : List Char) : List Run → List Float → Prop
  | run :: _, amount :: _ => run.lead = [] → amount < 0 ∨ IsParted before
  | _, _ => True

section Refilled

variable {runs : List Run}
variable {amounts : List Float}
variable {tail : List Char}

theorem isUnitOf_refillFrom
    {unit : List Char}
    (filled : AreFilled runs amounts)
    (isUnit : IsUnitOf unit (unit ++ textFrom tail runs)) :
    IsUnitOf unit (unit ++ textFrom tail (refillFrom runs amounts)) := by
  cases filled with
  | nil => exact isUnit
  | cons finite _ =>
      rw [textFrom_cons] at isUnit
      rw [textFrom_refillFrom_cons finite]
      rcases plainText_cases finite with
        ⟨-, more, written⟩ | ⟨-, digit, more, written, isDigit⟩
      · rw [written]
        exact isUnit.cons_of_starts (Or.inl rfl)
      · rw [written]
        exact isUnit.cons_of_starts (Or.inr isDigit)

/-- No numeral goes on with what follows, unless a digit follows directly. -/
theorem endsBefore_textFrom_iff
    (filled : AreFilled runs amounts)
    (fits : FitsFrom tail (refillFrom runs amounts))
    {before : List Char}
    (notParted : ¬ IsParted before)
    (numeral : Numeral) :
    numeral.EndsBefore (textFrom tail (refillFrom runs amounts)) ↔
      StartsApart before runs amounts := by
  cases filled with
  | nil =>
      refine ⟨fun _ => trivial, fun _ => endsBefore_of_not_startsRun ?_ numeral⟩
      have isLiteral : IsLiteral tail [] := fits
      by_cases empty : tail = []
      · subst empty
        exact run?_eq_none_iff.mp rfl
      · exact isLiteral.not_startsRun (List.suffix_refl tail) empty
  | @cons run amount rest others finite _ =>
      have isLiteral := fits.1.isLiteral
      simp only [StartsApart, notParted, or_false]
      by_cases touching : run.lead = []
      · rw [textFrom_refillFrom_cons finite, touching, List.nil_append]
        rcases plainText_cases finite with
          ⟨negative, more, written⟩ | ⟨notNegative, digit, more, written, isDigit⟩
        · rw [written]
          exact ⟨fun _ _ => negative, fun _ => endsBefore_cons (by decide) (by decide) _ _⟩
        · rw [written]
          refine ⟨fun ends => ?_, fun negative => absurd (negative rfl) notNegative⟩
          have noDigit := ends.noDigit digit rfl
          rw [isDigit] at noDigit
          cases noDigit
      · refine ⟨fun _ none => absurd none touching, fun _ => ?_⟩
        rw [refillFrom, List.zipWith_cons_cons, textFrom_cons]
        exact endsBefore_of_not_startsRun
          (isLiteral run.lead (List.suffix_refl _) touching) numeral

theorem StartsApart.of_isParted
    {before : List Char}
    (isParted : IsParted before) :
    StartsApart before runs amounts := by
  cases runs with
  | nil => trivial
  | cons run rest =>
      cases amounts with
      | nil => trivial
      | cons amount others => exact fun _ => Or.inr isParted

/-- A numeral ends before what follows exactly when this keeps apart from the run in whose
place it stands. -/
theorem endsBefore_unit_iff
    (filled : AreFilled runs amounts)
    (fits : FitsFrom tail (refillFrom runs amounts))
    {run : Run}
    {text : List Char}
    (isRun : run.numeral.IsRun)
    (isUnit : IsUnitOf run.unit text)
    (before : List Char)
    (numeral : Numeral) :
    numeral.EndsBefore (run.unit ++ textFrom tail (refillFrom runs amounts)) ↔
      StartsApart (before ++ run.numeral.text ++ run.unit) runs amounts := by
  rcases isUnit with ⟨member, -⟩ | ⟨none, -⟩
  · obtain ⟨ends, isParted⟩ := endsBefore_and_isParted_of_mem_units member
    exact ⟨fun _ => .of_isParted (isParted _), fun _ => ends _ numeral⟩
  · obtain ⟨front, digit, spelled, isDigit⟩ := exists_text_eq_append_digit isRun
    rw [none, List.nil_append, List.append_nil, spelled, ← List.append_assoc]
    exact endsBefore_textFrom_iff filled fits
      (not_isParted_append_digit isDigit _) numeral

/-- The template with other numbers fits exactly where these are kept apart. -/
theorem fitsFrom_refillFrom_iff
    (filled : AreFilled runs amounts)
    (fits : FitsFrom tail runs)
    (before : List Char) :
    (FitsFrom tail (refillFrom runs amounts) ∧ StartsApart before runs amounts) ↔
      ApartFrom before runs amounts := by
  induction filled generalizing before with
  | nil => exact ⟨fun _ => trivial, fun _ => ⟨fits, trivial⟩⟩
  | @cons run amount rest others finite restFilled inductionHypothesis =>
      obtain ⟨⟨isLiteral, isRun, endsBefore, isUnit⟩, restFits⟩ := fits
      have restIff := inductionHypothesis restFits
        (before ++ run.lead ++ run.numeral.text ++ run.unit)
      have newUnit := isUnitOf_refillFrom restFilled isUnit
      have isPlain := (isPlain_plainNumeral amount).isRun
      rw [refillFrom, List.zipWith_cons_cons, ← refillFrom, ApartFrom, ← restIff,
        ← isLiteral_plainText_iff isLiteral finite before, plainText_eq_text finite]
      constructor
      · rintro ⟨⟨⟨stays, -, ends, -⟩, fitsAgain⟩, startsApart⟩
        exact ⟨⟨stays, startsApart⟩, fitsAgain,
          (endsBefore_unit_iff restFilled fitsAgain isRun isUnit _ _).mp ends⟩
      · rintro ⟨⟨stays, startsApart⟩, fitsAgain, restApart⟩
        have ends := (endsBefore_unit_iff restFilled fitsAgain isRun isUnit _
          (plainNumeral amount)).mpr restApart
        exact ⟨⟨⟨stays, isPlain, ends, newUnit⟩, fitsAgain⟩, startsApart⟩

end Refilled

/-! ## Rendering and scanning -/

theorem carries_refillFrom
    {runs : List Run}
    {amounts : List Float}
    (filled : AreFilled runs amounts)
    (readBack : ∀ amount ∈ amounts, ReadsBack amount)
    (tail : List Char) :
    Carries ⟨refillFrom runs amounts, tail⟩ ⟨runs, tail⟩ amounts := by
  induction filled with
  | nil => exact ⟨rfl, List.Forall₂.nil, rfl⟩
  | @cons run amount rest others finite _ inductionHypothesis =>
      obtain ⟨here, later⟩ := List.forall_mem_cons.mp readBack
      obtain ⟨length, values, units⟩ := inductionHypothesis later
      exact ⟨congrArg Nat.succ length,
        List.Forall₂.cons (here.nearest_plainNumeral finite) values,
        congrArg (run.unit :: ·) units⟩

/-- Scanning a rendered text again gives the template with the numbers in their places
exactly when each number that is not below zero stands at the start of the text or behind
a character that is no digit, no minus and no point.  Then as many runs are found again,
with these numbers and with the units that the runs had. -/
theorem scan_render_eq_refill_iff
    {source : List Char}
    {amounts : List Float}
    (sameLength : amounts.length = (scan source).runs.length)
    (finite : ∀ amount ∈ amounts, amount.isFinite = true)
    (readBack : ∀ amount ∈ amounts, ReadsBack amount) :
    (ApartFrom [] (scan source).runs amounts ↔
        scan ((scan source).render amounts) = (scan source).refill amounts) ∧
      (ApartFrom [] (scan source).runs amounts →
        Carries (scan ((scan source).render amounts)) (scan source) amounts) := by
  have fits := fitsFrom_scan source
  have filled := areFilled_of_finite sameLength finite
  have rendered := textFrom_refillFrom filled (scan source).tail
  have notInFront : StartsApart [] (scan source).runs amounts := .of_isParted (by simp [IsParted])
  have again : ApartFrom [] (scan source).runs amounts ↔
      scan ((scan source).render amounts) = (scan source).refill amounts := by
    rw [← fitsFrom_refillFrom_iff filled fits, scan_eq_iff]
    exact ⟨fun ⟨fitsAgain, _⟩ => ⟨rendered, fitsAgain⟩,
      fun ⟨_, fitsAgain⟩ => ⟨fitsAgain, notInFront⟩⟩
  refine ⟨again, fun apart => ?_⟩
  rw [again.mp apart]
  exact carries_refillFrom filled readBack (scan source).tail

/-- In "5-3 .5s" the numbers 0, -2.5 and 1 give "0-2.5 1s", where the minus of the second
run stands directly behind the digit of the first one. -/
theorem carries_minusBehindDigit :
    ApartFrom [] (scan "5-3 .5s".toList).runs [0, -2.5, 1] ∧
      (scan "5-3 .5s".toList).render [0, -2.5, 1] = "0-2.5 1s".toList ∧
      Carries (scan ((scan "5-3 .5s".toList).render [0, -2.5, 1])) (scan "5-3 .5s".toList)
        [0, -2.5, 1] := by
  have scanned : (scan "5-3 .5s".toList).runs =
      [⟨[], ⟨false, ['5'], [], none⟩, []⟩, ⟨[], ⟨true, ['3'], [], none⟩, []⟩,
        ⟨[' '], ⟨false, [], ['5'], none⟩, ['s']⟩] := by
    decide +kernel
  have apart : ApartFrom [] (scan "5-3 .5s".toList).runs [0, -2.5, 1] := by
    rw [scanned]
    exact ⟨Or.inr (by simp [IsParted]), Or.inl (by decide +kernel),
      Or.inr (by simp [IsParted]), trivial⟩
  refine ⟨apart, by decide +kernel,
    (scan_render_eq_refill_iff (by rw [scanned]; rfl) (by decide +kernel) ?_).2 apart⟩
  simp only [List.forall_mem_cons]
  exact ⟨⟨⟨false, ['0'], [], none⟩, by decide +kernel, by decide +kernel⟩,
    ⟨⟨true, ['2'], ['5'], none⟩, by decide +kernel, by decide +kernel⟩,
    ⟨⟨false, ['1'], [], none⟩, by decide +kernel, by decide +kernel⟩, List.forall_mem_nil _⟩

/-- In "M5-3" the numbers 5 and 3 give "M53", with one run only. -/
theorem not_forall_carries_scan_render :
    ¬ ∀ source amounts, amounts.length = (scan source).runs.length →
      (∀ amount ∈ amounts, amount.isFinite = true) →
      (∀ amount ∈ amounts, ReadsBack amount) →
      Carries (scan ((scan source).render amounts)) (scan source) amounts := by
  intro always
  have readBack : ∀ amount ∈ [5, 3], ReadsBack amount := by
    simp only [List.forall_mem_cons]
    exact ⟨⟨⟨false, ['5'], [], none⟩, by decide +kernel, by decide +kernel⟩,
      ⟨⟨false, ['3'], [], none⟩, by decide +kernel, by decide +kernel⟩, List.forall_mem_nil _⟩
  have carries := always "M5-3".toList [5, 3] (by decide +kernel) (by decide +kernel) readBack
  exact absurd carries.sameLength (by decide +kernel)

end Template
end Montage
