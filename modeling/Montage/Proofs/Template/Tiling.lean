import Montage.Proofs.Template.Runs

/-!
# How a template lies over its text

A template fits when no run starts anywhere in its literal stretches, when each of its runs
goes on as long as can be, and when each unit is the one that follows its run
(`FitsFrom`).  Scanning a text gives the one template that fits and has this text
(`scan_eq_iff`).
-/

namespace Montage
namespace Template

open Number

/-! ## Units -/

/-- The unit stands at the start of the text, or it is empty and no unit does. -/
def IsUnitOf (unit text : List Char) : Prop :=
  unit ∈ units ∧ unit <+: text ∨ unit = [] ∧ ∀ other ∈ units, ¬ other <+: text

/-- No unit is the start of another one. -/
theorem eq_of_isPrefix_of_mem_units :
    ∀ first ∈ units, ∀ second ∈ units, first <+: second → first = second := by
  decide

theorem isUnitOf_unitOf (text : List Char) : IsUnitOf (unitOf text) text := by
  unfold unitOf
  cases found : units.find? fun unit => unit.isPrefixOf text with
  | none =>
      refine Or.inr ⟨rfl, fun other member isPrefix => ?_⟩
      have absent := List.find?_eq_none.mp found other member
      rw [List.isPrefixOf_iff_prefix] at absent
      exact absent isPrefix
  | some unit =>
      have isPrefix := List.find?_some found
      rw [List.isPrefixOf_iff_prefix] at isPrefix
      exact Or.inl ⟨List.mem_of_find?_eq_some found, isPrefix⟩

/-- There is one unit at the start of a text. -/
theorem IsUnitOf.unique
    {first second text : List Char}
    (isFirst : IsUnitOf first text)
    (isSecond : IsUnitOf second text) :
    first = second := by
  rcases isFirst with ⟨firstMember, firstPrefix⟩ | ⟨rfl, absent⟩
  · rcases isSecond with ⟨secondMember, secondPrefix⟩ | ⟨rfl, absent⟩
    · rcases List.prefix_or_prefix_of_prefix firstPrefix secondPrefix with shorter | shorter
      · exact eq_of_isPrefix_of_mem_units first firstMember second secondMember shorter
      · exact (eq_of_isPrefix_of_mem_units second secondMember first firstMember shorter).symm
    · exact absurd firstPrefix (absent first firstMember)
  · rcases isSecond with ⟨secondMember, secondPrefix⟩ | ⟨rfl, -⟩
    · exact absurd secondPrefix (absent second secondMember)
    · rfl

theorem IsUnitOf.unitOf_eq
    {unit text : List Char}
    (isUnit : IsUnitOf unit text) :
    unitOf text = unit :=
  (isUnitOf_unitOf text).unique isUnit

theorem unitOf_isPrefix (text : List Char) : unitOf text <+: text := by
  rcases isUnitOf_unitOf text with ⟨-, isPrefix⟩ | ⟨none, -⟩
  · exact isPrefix
  · rw [none]
    exact List.nil_prefix

theorem unitOf_append_drop (text : List Char) :
    unitOf text ++ text.drop (unitOf text).length = text :=
  List.prefix_iff_eq_append.mp (unitOf_isPrefix text)

/-! ## Literal stretches -/

/-- No run starts at any character of a stretch in front of some text. -/
def IsLiteral (stretch following : List Char) : Prop :=
  ∀ back, back <:+ stretch → back ≠ [] → ¬ StartsRun (back ++ following)

theorem isLiteral_nil (following : List Char) : IsLiteral [] following :=
  fun _ isSuffix nonempty => absurd (List.suffix_nil.mp isSuffix) nonempty

theorem isLiteral_cons
    {first : Char}
    {rest following : List Char} :
    IsLiteral (first :: rest) following ↔
      ¬ StartsRun (first :: (rest ++ following)) ∧ IsLiteral rest following := by
  constructor
  · intro isLiteral
    refine ⟨isLiteral (first :: rest) (List.suffix_refl _) (List.cons_ne_nil _ _), ?_⟩
    exact fun back isSuffix => isLiteral back (isSuffix.trans (List.suffix_cons _ _))
  · rintro ⟨here, later⟩ back isSuffix nonempty
    rcases List.suffix_cons_iff.mp isSuffix with rfl | shorter
    · exact here
    · exact later back shorter nonempty

/-! ## Templates that fit -/

/-- A run fits in front of the text behind its unit. -/
structure Fits
    (run : Run)
    (following : List Char) : Prop where
  /-- No run starts in front of it. -/
  isLiteral : IsLiteral run.lead (run.numeral.text ++ (run.unit ++ following))
  /-- Its numeral is one of a run. -/
  isRun : run.numeral.IsRun
  /-- Its numeral does not go on. -/
  endsBefore : run.numeral.EndsBefore (run.unit ++ following)
  /-- Its unit is the one behind the numeral. -/
  isUnitOf : IsUnitOf run.unit (run.unit ++ following)

/-- Each of the runs fits, and no run starts behind the last one. -/
def FitsFrom (tail : List Char) : List Run → Prop
  | [] => IsLiteral tail []
  | run :: rest => Fits run (textFrom tail rest) ∧ FitsFrom tail rest

theorem FitsFrom.of_append
    {tail : List Char}
    {front back : List Run}
    (fits : FitsFrom tail (front ++ back)) :
    FitsFrom tail back := by
  induction front with
  | nil => exact fits
  | cons run rest inductionHypothesis => exact inductionHypothesis fits.2

theorem textFrom_cons
    (tail : List Char)
    (run : Run)
    (rest : List Run) :
    textFrom tail (run :: rest) =
      run.lead ++ (run.numeral.text ++ (run.unit ++ textFrom tail rest)) := by
  simp [textFrom]

/-! ## Scanning -/

theorem scan_nil : scan [] = ⟨[], []⟩ := by
  rw [scan]

theorem scan_cons_of_not_startsRun
    {first : Char}
    {rest : List Char}
    (noRun : ¬ StartsRun (first :: rest)) :
    scan (first :: rest) = lead first (scan rest) := by
  rw [scan]
  split
  · rfl
  · next numeral after found =>
      rw [run?_eq_none_iff.mpr noRun] at found
      cases found

theorem scan_of_run?
    {text after : List Char}
    {numeral : Numeral}
    (found : run? text = some (numeral, after)) :
    scan text =
      { scan (after.drop (unitOf after).length) with
        runs := ⟨[], numeral, unitOf after⟩ ::
          (scan (after.drop (unitOf after).length)).runs } := by
  cases text with
  | nil => cases found
  | cons first rest =>
      rw [scan]
      split
      · next notFound =>
          rw [found] at notFound
          cases notFound
      · next other otherAfter again =>
          rw [found] at again
          cases again
          rfl

theorem text_lead
    (first : Char)
    (template : Template) :
    (lead first template).text = first :: template.text := by
  obtain ⟨runs, tail⟩ := template
  cases runs with
  | nil => rfl
  | cons run rest => rfl

/-- A template has the text that it was scanned from. -/
theorem text_scan (text : List Char) : (scan text).text = text := by
  fun_induction scan text with
  | case1 => rfl
  | case2 first rest _ inductionHypothesis => rw [text_lead, inductionHypothesis]
  | case3 first rest numeral after found unit later inductionHypothesis =>
      have whole : textFrom later.tail later.runs = after.drop unit.length :=
        inductionHypothesis
      rw [text, textFrom_cons, whole, unitOf_append_drop, List.nil_append, text_run? found]

/-- A literal character in front of a template that fits. -/
theorem fitsFrom_lead
    {first : Char}
    {template : Template}
    (noRun : ¬ StartsRun (first :: template.text))
    (fits : FitsFrom template.tail template.runs) :
    FitsFrom (lead first template).tail (lead first template).runs := by
  obtain ⟨runs, tail⟩ := template
  cases runs with
  | nil =>
      refine isLiteral_cons.mpr ⟨?_, fits⟩
      rwa [List.append_nil]
  | cons run rest =>
      obtain ⟨runFits, restFits⟩ := fits
      rw [text, textFrom_cons] at noRun
      exact ⟨{ runFits with isLiteral := isLiteral_cons.mpr ⟨noRun, runFits.isLiteral⟩ },
        restFits⟩

/-- Scanning gives a template that fits. -/
theorem fitsFrom_scan (text : List Char) : FitsFrom (scan text).tail (scan text).runs := by
  fun_induction scan text with
  | case1 => exact isLiteral_nil []
  | case2 first rest notFound inductionHypothesis =>
      refine fitsFrom_lead ?_ inductionHypothesis
      rw [text_scan]
      exact run?_eq_none_iff.mp notFound
  | case3 first rest numeral after found unit later inductionHypothesis =>
      obtain ⟨isRun, endsBefore, -⟩ := run?_eq_some_iff.mp found
      have whole : unit ++ textFrom later.tail later.runs = after := by
        have remaining : textFrom later.tail later.runs = after.drop unit.length :=
          text_scan _
        rw [remaining, unitOf_append_drop]
      refine ⟨⟨isLiteral_nil _, isRun, ?_, ?_⟩, inductionHypothesis⟩
      · rwa [whole]
      · rw [whole]
        exact isUnitOf_unitOf after

theorem foldr_lead_of_cons
    (stretch : List Char)
    (run : Run)
    (rest : List Run)
    (tail : List Char) :
    stretch.foldr lead ⟨run :: rest, tail⟩ =
      ⟨{ run with lead := stretch ++ run.lead } :: rest, tail⟩ := by
  induction stretch with
  | nil => rfl
  | cons first others inductionHypothesis =>
      rw [List.foldr_cons, inductionHypothesis]
      rfl

theorem foldr_lead_of_nil (stretch tail : List Char) :
    stretch.foldr lead ⟨[], tail⟩ = ⟨[], stretch ++ tail⟩ := by
  induction stretch with
  | nil => rfl
  | cons first others inductionHypothesis =>
      rw [List.foldr_cons, inductionHypothesis]
      rfl

/-- A literal stretch is passed over character by character. -/
theorem scan_append_of_isLiteral
    {stretch following : List Char}
    (isLiteral : IsLiteral stretch following) :
    scan (stretch ++ following) = stretch.foldr lead (scan following) := by
  induction stretch with
  | nil => rfl
  | cons first others inductionHypothesis =>
      obtain ⟨noRun, later⟩ := isLiteral_cons.mp isLiteral
      rw [List.cons_append, scan_cons_of_not_startsRun noRun, inductionHypothesis later]
      rfl

/-- The text of a template that fits is scanned as this template. -/
theorem scan_textFrom
    {tail : List Char}
    {runs : List Run}
    (fits : FitsFrom tail runs) :
    scan (textFrom tail runs) = ⟨runs, tail⟩ := by
  induction runs with
  | nil =>
      have passed := scan_append_of_isLiteral fits
      rwa [List.append_nil, scan_nil, foldr_lead_of_nil, List.append_nil] at passed
  | cons run rest inductionHypothesis =>
      obtain ⟨⟨isLiteral, isRun, endsBefore, isUnitOf⟩, restFits⟩ := fits
      have found : run? (run.numeral.text ++ (run.unit ++ textFrom tail rest)) =
          some (run.numeral, run.unit ++ textFrom tail rest) :=
        run?_text_append isRun endsBefore
      rw [textFrom_cons, scan_append_of_isLiteral isLiteral, scan_of_run? found,
        isUnitOf.unitOf_eq, List.drop_left, inductionHypothesis restFits, foldr_lead_of_cons]
      simp

/-- Scanning a text gives the one template that fits and has this text. -/
theorem scan_eq_iff
    {source : List Char}
    {template : Template} :
    scan source = template ↔
      template.text = source ∧ FitsFrom template.tail template.runs := by
  constructor
  · rintro rfl
    exact ⟨text_scan source, fitsFrom_scan source⟩
  · rintro ⟨rfl, fits⟩
    exact scan_textFrom fits

end Template
end Montage
