import Montage.Number.Plain

/-!
# Texts with numbers in them

A template takes a text apart into literal stretches and numeric runs.  A run is an
optional minus, digits, and optionally a point with digits after it, as long as can
be; a point without digits before it may start a run as well.  One of the known units
may follow a run.  The text of a template is the text it was scanned from, and
`render` puts other numbers in the place of the runs.
-/

namespace Montage

open Number

/-- A numeric run with what stands before it. -/
structure Run where
  /-- The literal text between the run before this one and this one. -/
  lead : List Char
  /-- The number as it is written. -/
  numeral : Numeral
  /-- The unit directly after the number; empty when there is none. -/
  unit : List Char
  deriving DecidableEq, Repr

/-- A text taken apart at its numeric runs. -/
structure Template where
  /-- The runs in order. -/
  runs : List Run
  /-- The literal text after the last run. -/
  tail : List Char
  deriving DecidableEq, Repr

namespace Template

/-- The units that may follow a number; none of them is looked for once a longer one
has been found. -/
def units : List (List Char) :=
  ["vmin", "vmax", "turn", "rem", "deg", "rad", "px", "em", "vw", "vh", "ms", "%",
    "s"].map String.toList

/-- The unit at the start of a text, or the empty text. -/
def unitOf (text : List Char) : List Char :=
  (units.find? fun unit => unit.isPrefixOf text).getD []

/-- The numeric run at the start of a text, with the text after it. -/
def run? (text : List Char) : Option (Numeral × List Char) :=
  let (negative, body) := Numeral.splitMinus text
  let whole := body.takeWhile Char.isDigit
  let afterWhole := body.dropWhile Char.isDigit
  match Numeral.fraction? afterWhole with
  | some (fraction, after) => some (⟨negative, whole, fraction, none⟩, after)
  | none =>
      if whole.isEmpty then none
      else some (⟨negative, whole, [], none⟩, afterWhole)

/-- A run and what follows it make up the text it was found in. -/
theorem text_run?
    {text after : List Char}
    {numeral : Numeral}
    (found : run? text = some (numeral, after)) :
    numeral.text ++ after = text := by
  have whole := Numeral.splitMinus_append text
  unfold run? at found
  generalize Numeral.splitMinus text = parts at found whole
  obtain ⟨negative, body⟩ := parts
  subst whole
  have digits := List.takeWhile_append_dropWhile (p := Char.isDigit) (l := body)
  simp only at found
  split at found
  · next fraction rest pointed =>
      obtain ⟨nonempty, joined⟩ := Numeral.fraction?_eq_some pointed
      cases found
      rw [← joined] at digits
      refine Eq.trans ?_ (congrArg ((if negative then ['-'] else []) ++ ·) digits)
      simp [Numeral.text, Numeral.exponentText, nonempty]
  · split at found
    · cases found
    · cases found
      simp [Numeral.text, Numeral.exponentText]

/-- A run is never empty. -/
theorem text_ne_nil_of_run?
    {text after : List Char}
    {numeral : Numeral}
    (found : run? text = some (numeral, after)) :
    numeral.text ≠ [] := by
  unfold run? at found
  simp only at found
  split at found
  · next fraction rest pointed =>
      obtain ⟨nonempty, _⟩ := Numeral.fraction?_eq_some pointed
      cases found
      simp [Numeral.text, nonempty]
  · split at found
    · cases found
    · next digits =>
        cases found
        simp only [List.isEmpty_iff] at digits
        simp [Numeral.text, digits]

/-- What follows a run is shorter than the text the run was found in. -/
theorem length_lt_of_run?
    {text after : List Char}
    {numeral : Numeral}
    (found : run? text = some (numeral, after)) :
    after.length < text.length := by
  rw [← text_run? found, List.length_append]
  have positive := List.length_pos_iff.mpr (text_ne_nil_of_run? found)
  omega

/-- Puts a literal character in front of a template. -/
def lead
    (character : Char)
    (template : Template) : Template :=
  match template.runs with
  | [] => { template with tail := character :: template.tail }
  | run :: rest =>
      { template with runs := { run with lead := character :: run.lead } :: rest }

/-- Takes a text apart: a run is taken wherever one starts, together with its unit,
and any other character is literal. -/
def scan (text : List Char) : Template :=
  match text with
  | [] => ⟨[], []⟩
  | first :: rest =>
      match _found : run? (first :: rest) with
      | none => lead first (scan rest)
      | some (numeral, after) =>
          let unit := unitOf after
          let later := scan (after.drop unit.length)
          { later with runs := ⟨[], numeral, unit⟩ :: later.runs }
termination_by text.length
decreasing_by
  · simp
  · have shorter := length_lt_of_run? _found
    simp only [List.length_drop]
    omega

/-- The numbers of the runs, in order. -/
def values (template : Template) : List Float :=
  template.runs.map fun run => run.numeral.nearest

/-- The text from a run on. -/
def textFrom (tail : List Char) : List Run → List Char
  | [] => tail
  | run :: rest =>
      run.lead ++ run.numeral.text ++ run.unit ++ textFrom tail rest

/-- The text that was taken apart. -/
def text (template : Template) : List Char :=
  textFrom template.tail template.runs

/-- The text from a run on, with numbers in the place of the runs as far as there are
any. -/
def renderFrom (tail : List Char) : List Run → List Float → List Char
  | run :: rest, value :: values =>
      run.lead ++ plainText value ++ run.unit ++ renderFrom tail rest values
  | runs, _ => textFrom tail runs

/-- The text with numbers in the place of the runs; literal text and units stay. -/
def render
    (template : Template)
    (values : List Float) : List Char :=
  renderFrom template.tail template.runs values

end Template
end Montage
