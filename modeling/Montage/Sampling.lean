import Montage.Color
import Montage.Keyframe
import Montage.Property
import Montage.Template

/-!
# Sampling properties

A constant property is its value at all times.  An animated one is sampled by what
its values have in common: numbers are sampled as they are, colours channel by
channel, and other texts run by run, provided that they all have the same number of
numeric runs; the first text then supplies everything between the runs.  Values that
have nothing in common are not sampled at all: the first one holds throughout.

The sampler is a parameter, and so is the monad it works in.  What holds for every
monad holds in particular for the calls a sampler can observe.
-/

namespace Montage

/-- What the values of keyframes have in common. -/
inductive Shape where
  /-- All are numbers. -/
  | numbers (amounts : List Float)
  /-- All are colours. -/
  | colors (shades : List Color)
  /-- All are texts, but not all of them colours. -/
  | texts (contents : List (List Char))
  /-- Nothing. -/
  | mixed

namespace Shape

/-- Finds out what values have in common. -/
def ofValues (values : List Value) : Shape :=
  match values.mapM Value.number? with
  | some amounts => .numbers amounts
  | none =>
      match values.mapM Value.text? with
      | none => .mixed
      | some strings =>
          let contents := strings.map String.toList
          match contents.mapM Color.ofText? with
          | some shades => .colors shades
          | none => .texts contents

end Shape

namespace Property

variable {m : Type → Type} [Monad m]

/-- Samples the three channels of colours, red first. -/
def sampleColors
    (sampler : Sampler m)
    (instants : List Float)
    (colors : List Color) : m Color := do
  let channel (part : Color → UInt8) : m UInt8 := do
    let amounts := colors.map fun color => Float.ofNat (part color).toNat
    return Color.channelOf (← sampler instants amounts .standard)
  let red ← channel Color.red
  let green ← channel Color.green
  let blue ← channel Color.blue
  return ⟨red, green, blue⟩

/-- Samples the numeric runs of texts from left to right: for each run of the first
text, the numbers that all texts have in its place. -/
def sampleRuns
    (sampler : Sampler m)
    (instants : List Float) : List Float → List (List Float) → m (List Float)
  | [], _ => return []
  | value :: values, others => do
      let column := value :: others.map fun other => other.headD 0
      let number ← sampler instants column .standard
      let later ← sampleRuns sampler instants values (others.map List.tail)
      return number :: later

/-- Samples texts; texts that do not all have the same number of runs give none. -/
def sampleTexts
    (sampler : Sampler m)
    (instants : List Float)
    (first : List Char)
    (others : List (List Char)) : m (Option (List Char)) :=
  let template := Template.scan first
  let columns := others.map fun other => (Template.scan other).values
  if columns.all fun column => column.length = template.values.length then do
    let numbers ← sampleRuns sampler instants template.values columns
    return some (template.render numbers)
  else
    return none

/-- Samples keyframes; without any value the outcome is zero. -/
def sampleKeyframes
    (sampler : Sampler m)
    (instants : List Float)
    (values : List Value) : m Value :=
  match values with
  | [] => return .number 0
  | first :: _ =>
      match Shape.ofValues values with
      | .numbers amounts =>
          return .number (← sampler instants amounts .standard)
      | .colors shades =>
          return .text (String.ofList (← sampleColors sampler instants shades).text)
      | .texts [] => return first
      | .texts (text :: others) => do
          match ← sampleTexts sampler instants text others with
          | some result => return .text (String.ofList result)
          | none => return first
      | .mixed => return first

/-- The value of a property as a sampler finds it. -/
def sample
    (sampler : Sampler m) : Property → m Value
  | .constant value => return value
  | .animated instants values => sampleKeyframes sampler instants values

end Property
end Montage
