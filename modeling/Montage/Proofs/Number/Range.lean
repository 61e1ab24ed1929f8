import Montage.Proofs.Number.Arithmetic

/-!
# Whole numbers and powers of ten in range

A whole number times a power of ten is what its decimal digits are rounded to
(`Number.rounds_ofScientific`).  Whole numbers of 64 bits are far from the end of the range,
and a finite number stays finite when it is divided by one or more.
-/

namespace Montage
namespace Number

open Float.Model
open Float.Model.UnpackedFloat

theorem float_isFinite (number : Float) : number.isFinite = isFinite number := by
  have known : number.isFinite = number.toModel.unpack.isFinite := rfl
  have reading : Readable.reading number = .ofUnpacked number.toModel.unpack := rfl
  unfold isFinite
  rw [known, reading]
  cases number.toModel.unpack <;> rfl

/-- Dividing by one or more stays in range. -/
theorem isFinite_div
    {number divisor : Float}
    (finite : isFinite number = true)
    (divisorFinite : isFinite divisor = true)
    (large : 1 ≤ exact divisor) :
    isFinite (number / divisor) = true := by
  have positive : 0 < exact divisor := zero_lt_one.trans_le large
  rw [(rounds_div finite divisorFinite positive.ne').isFinite_iff, abs_div, abs_of_pos positive]
  exact (div_le_self (abs_nonneg _) large).trans_lt (abs_exact_lt_overflow finite)

theorem isFinite_neg
    {number : Float}
    (finite : isFinite number = true) :
    isFinite (-number) = true :=
  isFinite_of_reading (unpacks_of_isFinite finite).neg.packed_eq

/-! ## Whole numbers -/

theorem ofScientific_natCast
    {number power : Nat}
    (nonzero : number ≠ 0)
    (small : power ≤ 2048) :
    UnpackedFloat.ofScientific Format.binary64 number power =
      roundWithAccuracy Format.binary64 .positive (number <<< 53 * 10 ^ power) (-53) .exact := by
  have notHuge : ¬ (power : Int) > 2 ^ Format.binary64.exponentBits := by
    change ¬ (power : Int) > 2048
    omega
  have notTiny :
      ¬ (power : Int) < -((2 ^ Format.binary64.exponentBits : Int) + number.log2) := by
    change ¬ (power : Int) < -(2048 + number.log2)
    omega
  unfold UnpackedFloat.ofScientific
  rw [dif_neg nonzero, if_neg notHuge, if_neg notTiny, if_pos (Int.natCast_nonneg power)]
  simp only [UnpackedFloat.mul, mantissaBits_binary64, Int.toNat_natCast, Int.add_zero]
  rfl

/-- Digits and a power of ten are rounded once. -/
theorem rounds_ofScientific
    {number power : Nat}
    (nonzero : number ≠ 0)
    (small : power ≤ 2048) :
    Rounds (number * 10 ^ power)
      (packed (UnpackedFloat.ofScientific Format.binary64 number power)) := by
  have long : 2 ^ 52 ≤ number <<< 53 * 10 ^ power := by
    rw [Nat.shiftLeft_eq]
    have one : 1 ≤ number * 10 ^ power :=
      Nat.mul_pos (Nat.pos_of_ne_zero nonzero) (by positivity)
    nlinarith
  have value : (number * 10 ^ power : Rat) =
      ((number <<< 53 * 10 ^ power : Nat) : Rat) * 2 ^ (-53 : Int) := by
    rw [Nat.shiftLeft_eq]
    push_cast
    ring
  rw [ofScientific_natCast nonzero small, value]
  exact rounds_roundWithAccuracy (locates_exact _)
    (Or.inl ((Nat.le_log2 (by omega)).mpr long)) .positive

theorem rounds_model_ofNat (number : Nat) :
    Rounds number (.ofUnpacked (Float.Model.ofNat number).unpack) := by
  have rounded := rounds_normalize number 0 .positive
  rw [zpow_zero, mul_one, Int.cast_natCast] at rounded
  exact rounded

/-- Whole numbers of 64 bits are far from the end of the range. -/
theorem isFinite_ofNat
    {number : Nat}
    (bounded : number < UInt64.size) :
    isFinite (Float.ofNat number) = true := by
  have inRange : ∀ {whole : Nat}, whole < UInt64.size → |(whole : Rat)| < overflow := by
    intro whole less
    have small : (whole : Rat) < 2 ^ (64 : Int) := by
      have : whole < 2 ^ 64 := less
      exact_mod_cast this
    rw [abs_of_nonneg (Nat.cast_nonneg whole)]
    exact small.trans (two_zpow_lt_overflow 64 (by decide))
  change isFinite (Float.ofScientific number false 0) = true
  unfold Float.ofScientific
  -- Numbers of up to 53 bits are converted and multiplied by one, longer ones are rounded.
  split
  · have whole : isFinite number.toUInt64.toFloat = true :=
      (rounds_model_ofNat _ : Rounds _ (Readable.reading number.toUInt64.toFloat)).isFinite_iff.mpr
        (inRange (UInt64.toNat_lt _))
    have one : exact (Float.ofBits 0x3FF0000000000000) = 1 :=
      exact_of_reading (by decide +kernel)
    have product := rounds_mul whole
      (show isFinite (Float.ofBits 0x3FF0000000000000) = true by decide +kernel)
    rw [one, mul_one] at product
    exact (product.exact_eq whole).1
  · by_cases zero : number = 0
    · rw [zero]
      decide +kernel
    · have rounded := rounds_ofScientific zero (Nat.zero_le 2048)
      rw [pow_zero, mul_one] at rounded
      exact (rounded : Rounds _ (Readable.reading
        (Float.ofModel (Float.Model.ofScientific number 0)))).isFinite_iff.mpr (inRange bounded)

end Number
end Montage
