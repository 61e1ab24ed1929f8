import Mathlib
import Montage.Number.Reading

/-!
# The bits of a floating-point number

A floating-point number is finite exactly when it is a mantissa of at most 53 bits times a
power of two that does not exceed 971.  The power stands in bits of its own, so that it can
be told from the number without its mantissa.
-/

namespace Montage
namespace Number

open Float.Model
open Float.Model.UnpackedFloat

/-- The bits of a number that hold its power of two. -/
def powerBits (number : Float.Model) : Nat :=
  (@unpackExponent Format.binary64 number.toBits.toBitVec).toNat

theorem exponentBias_binary64 : Format.binary64.exponentBias = 1023 := by
  decide

theorem mantissaBits_binary64 : Format.binary64.mantissaBits = 53 := by
  decide

theorem minExponent_binary64 : Format.binary64.minExponent = -1074 := by
  decide

/-- What the bits of a number stand for: nothing finite, zero, or a mantissa of up to 53
bits times a power of two, the mantissa having all its bits unless the power is the least. -/
theorem unpack_cases (number : Float.Model) :
    (powerBits number = 2047 ∧ number.unpack.isFinite = false) ∨
      (powerBits number = 0 ∧ ∃ sign, number.unpack = .zero sign) ∨
      ∃ sign mantissa exponent positive,
        number.unpack = .finite sign mantissa exponent positive ∧
          powerBits number < 2047 ∧ exponent = max (powerBits number : Int) 1 - 1075 ∧
          mantissa.log2 < 53 ∧ (0 < powerBits number → mantissa.log2 = 52) := by
  have range : powerBits number < 2048 := BitVec.isLt _
  generalize unpacked : number.unpack = content
  unfold Float.Model.unpack UnpackedFloat.unpack at unpacked
  simp only [exponentBias_binary64] at unpacked
  split_ifs at unpacked with ones noMantissa zeros noMantissa <;> subst unpacked
  · exact Or.inl ⟨congrArg BitVec.toNat ones, rfl⟩
  · exact Or.inl ⟨congrArg BitVec.toNat ones, rfl⟩
  · exact Or.inr (Or.inl ⟨congrArg BitVec.toNat zeros, _, rfl⟩)
  · have isZero : powerBits number = 0 := congrArg BitVec.toNat zeros
    have short : (@unpackMantissa Format.binary64 number.toBits.toBitVec).toNat < 2 ^ 53 :=
      Nat.lt_of_lt_of_le (BitVec.isLt _) (by decide)
    have nonzero : (@unpackMantissa Format.binary64 number.toBits.toBitVec).toNat ≠ 0 :=
      fun none => noMantissa (BitVec.eq_of_toNat_eq none)
    refine Or.inr (Or.inr ⟨_, _, _, _, rfl, by omega, ?_, (Nat.log2_lt nonzero).mpr short,
      by omega⟩)
    change (powerBits number : Int) - (1023 + 52) + 1 = _
    omega
  · have notLast : powerBits number ≠ 2047 := fun same => ones (BitVec.eq_of_toNat_eq same)
    have notFirst : powerBits number ≠ 0 := fun same => zeros (BitVec.eq_of_toNat_eq same)
    have short : (1#1 ++ @unpackMantissa Format.binary64 number.toBits.toBitVec).toNat < 2 ^ 53 :=
      BitVec.isLt _
    have long : 2 ^ 52 ≤ (1#1 ++ @unpackMantissa Format.binary64 number.toBits.toBitVec).toNat := by
      rw [BitVec.toNat_append]
      exact Nat.left_le_or
    have upper := (Nat.log2_lt (by omega)).mpr short
    have lower := (Nat.le_log2 (by omega)).mpr long
    refine Or.inr (Or.inr ⟨_, _, _, _, rfl, by omega, ?_, upper, fun _ => by omega⟩)
    change (powerBits number : Int) - (1023 + 52) = _
    omega

end Number
end Montage
