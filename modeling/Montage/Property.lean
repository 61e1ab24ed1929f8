import Montage.Value

/-!
# Properties

A property is a constant value or an animation by keyframes.  Which of the two it is
gets decided when it is read and is never guessed again from the shape of the values.
-/

namespace Montage

/-- What an element says under one key. -/
inductive Property where
  /-- The same value at all times. -/
  | constant (value : Value)
  /-- Values at instants of the timeline, in seconds. -/
  | animated (instants : List Float) (values : List Value)

namespace Property

/-- Whether the property is animated. -/
def isAnimated : Property → Bool
  | .constant _ => false
  | .animated _ _ => true

/-- The value of a constant property. -/
def constant? : Property → Option Value
  | .constant value => some value
  | .animated _ _ => none

end Property
end Montage
