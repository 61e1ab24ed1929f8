import Montage.Proofs.Number.Arithmetic

/-!
# Numbers that are not finite

What is put together from a number that is not finite is not finite either, unless that
number is divided by.
-/

namespace Montage
namespace Number

open Float.Model
open Float.Model.UnpackedFloat

/-- What a number that is not finite is taken apart into. -/
inductive IsUnbounded : UnpackedFloat → Prop where
  | infinity (sign : Sign) : IsUnbounded (.infinity sign)
  | notANumber : IsUnbounded .notANumber

section Unbounded

variable {unpacked : UnpackedFloat}

theorem IsUnbounded.packed_ne (unbounded : IsUnbounded unpacked) (value : Rat) :
    packed unpacked ≠ .finite value := by
  cases unbounded <;> simp

theorem IsUnbounded.neg (unbounded : IsUnbounded unpacked) : IsUnbounded unpacked.neg := by
  cases unbounded with
  | infinity sign => exact .infinity _
  | notANumber => exact .notANumber

theorem IsUnbounded.add_left
    (unbounded : IsUnbounded unpacked)
    (format : Format)
    (other : UnpackedFloat) :
    IsUnbounded (unpacked.add format other) := by
  cases unbounded with
  | notANumber => exact .notANumber
  | infinity sign =>
      cases other with
      | infinity sign' =>
          cases sign <;> cases sign' <;> first | exact .infinity _ | exact .notANumber
      | notANumber => exact .notANumber
      | zero sign' => exact .infinity sign
      | finite sign' mantissa exponent positive => exact .infinity sign

theorem IsUnbounded.add_right
    (unbounded : IsUnbounded unpacked)
    (format : Format)
    (other : UnpackedFloat) :
    IsUnbounded (other.add format unpacked) := by
  cases unbounded with
  | notANumber => cases other <;> exact .notANumber
  | infinity sign =>
      cases other with
      | infinity sign' => exact (IsUnbounded.infinity sign').add_left format _
      | notANumber => exact .notANumber
      | zero sign' => exact .infinity sign
      | finite sign' mantissa exponent positive => exact .infinity sign

theorem IsUnbounded.mul_left
    (unbounded : IsUnbounded unpacked)
    (format : Format)
    (other : UnpackedFloat) :
    IsUnbounded (unpacked.mul format other) := by
  cases unbounded <;> cases other <;> first | exact .infinity _ | exact .notANumber

theorem IsUnbounded.mul_right
    (unbounded : IsUnbounded unpacked)
    (format : Format)
    (other : UnpackedFloat) :
    IsUnbounded (other.mul format unpacked) := by
  cases unbounded <;> cases other <;> first | exact .infinity _ | exact .notANumber

theorem IsUnbounded.div_left
    (unbounded : IsUnbounded unpacked)
    (format : Format)
    (other : UnpackedFloat) :
    IsUnbounded (unpacked.div format other) := by
  cases unbounded <;> cases other <;> first | exact .infinity _ | exact .notANumber

variable {number other : Float}

theorem isUnbounded_unpack (notFinite : isFinite number = false) :
    IsUnbounded number.toModel.unpack := by
  cases reading : Readable.reading number with
  | finite value => rw [isFinite_of_reading reading] at notFinite; cases notFinite
  | infinite negative =>
      obtain ⟨sign, unpacked, -⟩ := unpack_of_infinite reading
      rw [unpacked]
      exact .infinity sign
  | undefined =>
      rw [unpack_of_undefined reading]
      exact .notANumber

/-- What is put together from no finite number is not finite. -/
theorem IsUnbounded.not_isFinite
    (unbounded : IsUnbounded unpacked)
    (reading : Readable.reading number = packed unpacked) :
    ¬ isFinite number = true := by
  intro finite
  exact unbounded.packed_ne _ (reading.symm.trans (isFinite_iff_reading.mp finite))

theorem isFinite_of_isFinite_add (finite : isFinite (number + other) = true) :
    isFinite number = true ∧ isFinite other = true := by
  constructor <;> by_contra notFinite <;> refine IsUnbounded.not_isFinite ?_ rfl finite
  · exact (isUnbounded_unpack (Bool.not_eq_true _ ▸ notFinite)).add_left _ _
  · exact (isUnbounded_unpack (Bool.not_eq_true _ ▸ notFinite)).add_right _ _

theorem isFinite_of_isFinite_sub (finite : isFinite (number - other) = true) :
    isFinite number = true ∧ isFinite other = true := by
  have reading : Readable.reading (number - other) =
      packed (number.toModel.unpack.add .binary64 other.toModel.unpack.neg) :=
    congrArg packed (sub_eq_add_opposite _ _)
  constructor <;> by_contra notFinite <;> refine IsUnbounded.not_isFinite ?_ reading finite
  · exact (isUnbounded_unpack (Bool.not_eq_true _ ▸ notFinite)).add_left _ _
  · exact (isUnbounded_unpack (Bool.not_eq_true _ ▸ notFinite)).neg.add_right _ _

theorem isFinite_of_isFinite_mul (finite : isFinite (number * other) = true) :
    isFinite number = true ∧ isFinite other = true := by
  constructor <;> by_contra notFinite <;> refine IsUnbounded.not_isFinite ?_ rfl finite
  · exact (isUnbounded_unpack (Bool.not_eq_true _ ▸ notFinite)).mul_left _ _
  · exact (isUnbounded_unpack (Bool.not_eq_true _ ▸ notFinite)).mul_right _ _

theorem isFinite_of_isFinite_div (finite : isFinite (number / other) = true) :
    isFinite number = true := by
  by_contra notFinite
  refine IsUnbounded.not_isFinite ?_ rfl finite
  exact (isUnbounded_unpack (Bool.not_eq_true _ ▸ notFinite)).div_left _ _

/-- A finite number divided by an infinity is zero. -/
theorem reading_div_of_infinite
    (finite : isFinite number = true)
    {negative : Bool}
    (infinite : Readable.reading other = .infinite negative) :
    Readable.reading (number / other) = .finite 0 := by
  obtain ⟨sign', unpacked', -⟩ := unpack_of_infinite infinite
  change packed (UnpackedFloat.div _ _ _) = _
  have unpacks := unpacks_of_isFinite finite
  generalize number.toModel.unpack = unpacked, exact number = value at unpacks
  rw [unpacked']
  cases unpacks <;> exact packed_zero _

/-- An infinity divided by an infinity is no number. -/
theorem reading_infinite_div_infinite
    {negative negative' : Bool}
    (infinite : Readable.reading number = .infinite negative)
    (infinite' : Readable.reading other = .infinite negative') :
    Readable.reading (number / other) = .undefined := by
  obtain ⟨sign, unpacked, -⟩ := unpack_of_infinite infinite
  obtain ⟨sign', unpacked', -⟩ := unpack_of_infinite infinite'
  change packed (UnpackedFloat.div _ _ _) = _
  rw [unpacked, unpacked']
  exact packed_notANumber

/-- A finite number is less than the infinity above. -/
theorem lt_of_infinite
    (finite : isFinite number = true)
    (infinite : Readable.reading other = .infinite false) :
    number < other ∧ ¬ other ≤ number := by
  obtain ⟨sign, unpacked', isPositive⟩ := unpack_of_infinite infinite
  obtain rfl : sign = .positive := by
    cases sign with
    | positive => rfl
    | negative => cases isPositive
  have unpacks := unpacks_of_isFinite finite
  generalize exact number = value at unpacks
  constructor
  · change decide (UnpackedFloat.lt _ _ = true) = true
    rw [unpacked', decide_eq_true_iff]
    generalize number.toModel.unpack = unpacked at unpacks
    cases unpacks <;> rfl
  · change ¬ decide (UnpackedFloat.le _ _ = true) = true
    rw [unpacked', decide_eq_true_iff]
    generalize number.toModel.unpack = unpacked at unpacks
    cases unpacks <;> exact Bool.false_ne_true

/-- What is no number compares with nothing. -/
theorem not_lt_of_undefined
    (undefined : Readable.reading number = .undefined)
    (other : Float) :
    ¬ number < other ∧ ¬ other < number := by
  have unpacked := unpack_of_undefined undefined
  constructor <;> change ¬ decide (UnpackedFloat.lt _ _ = true) = true <;>
    rw [unpacked, decide_eq_true_iff]
  · exact Bool.false_ne_true
  · cases other.toModel.unpack <;> exact Bool.false_ne_true

end Unbounded
end Number
end Montage
