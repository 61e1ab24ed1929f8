import Montage.Ease
import Montage.Error
import Montage.Text.Blank

/-!
# Easing curves by name

Host programs name a curve by a text; blank characters around the name do not count.
-/

namespace Montage

/-- The curve that a text names. -/
def Ease.read (source : String) : Except Error Ease :=
  let name := String.ofList (Text.trim source.toList)
  match Ease.ofName? name with
  | some ease => .ok ease
  | none => .error (.unknownEase name)

end Montage
