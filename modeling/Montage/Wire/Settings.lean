import Montage.Ease
import Montage.FrameRate
import Montage.Wire.Record

/-!
# Easing curves and frame rates in documents

A curve is written as its name, a frame rate as a record of two whole numbers of 32
bits.
-/

namespace Montage

/-- Decodes an easing curve. -/
def Ease.ofJson? (json : Json) : Option Ease :=
  (json.choice? Json.maxDepth).bind Ease.ofName?

/-- The document of an easing curve. -/
def Ease.toJson (ease : Ease) : Json :=
  .text ease.name

namespace FrameRate

/-- Decodes a whole number of 32 bits. -/
def partOfJson? : Json → Option UInt32
  | .number numeral => (Json.toNat? UInt32.size numeral).map UInt32.ofNat
  | _ => none

/-- The document of a whole number of 32 bits. -/
def partToJson (part : UInt32) : Json :=
  .number ⟨false, Nat.toDigits 10 part.toNat, [], none⟩

/-- Decodes a frame rate; that its parts are positive is not asked for. -/
def ofJson? (json : Json) : Option FrameRate := do
  match ← json.fields? ["num", "den"] with
  | [some frames, some seconds] =>
      return ⟨← partOfJson? frames, ← partOfJson? seconds⟩
  | _ => none

/-- The document of a frame rate. -/
def toJson (rate : FrameRate) : Json :=
  Json.record [("num", partToJson rate.frames), ("den", partToJson rate.seconds)]

end FrameRate
end Montage
