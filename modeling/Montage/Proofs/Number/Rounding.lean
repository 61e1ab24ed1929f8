import Montage.Proofs.Number.Exact

/-!
# Rounding to steps of a power of two

The bits that are dropped from a mantissa are remembered in two further bits, which tell where
the value lies between the mantissa and its successor (`Number.Locates`).  Rounding by these
bits gives the nearest multiple of a power of two (`Number.exists_isRounded`).  From half a
step above the largest finite number on, what is rounded becomes an infinity
(`Number.IsRounded.packed_of_lt`, `Number.IsRounded.packed_of_le`).
-/

namespace Montage
namespace Number

open Float.Model
open Float.Model.UnpackedFloat

/-! ## The dropped bits -/

theorem mantissa_shiftRight
    (extended : ExtendedMantissa)
    (amount : Nat) :
    (extended >>> amount).mantissa = extended.mantissa / 2 ^ amount := by
  induction amount with
  | zero => exact (Nat.div_one _).symm
  | succ amount inductionHypothesis =>
      change (extended >>> amount).mantissa / 2 = _
      rw [inductionHypothesis, Nat.div_div_eq_div_mul, Nat.pow_succ]

@[simp] theorem mantissa_ofMantissaAndAccuracy
    (mantissa : Nat)
    (accuracy : Accuracy) :
    (ExtendedMantissa.ofMantissaAndAccuracy mantissa accuracy).mantissa = mantissa := by
  rcases accuracy with _ | ordering
  · rfl
  · cases ordering <;> rfl

/-- The two bits behind a mantissa locate a value between the mantissa and its successor. -/
def Locates (extended : ExtendedMantissa) (value : Rat) : Prop :=
  match extended with
  | ⟨mantissa, false, false⟩ => value = mantissa
  | ⟨mantissa, false, true⟩ => mantissa < value ∧ value < mantissa + 1 / 2
  | ⟨mantissa, true, false⟩ => value = mantissa + 1 / 2
  | ⟨mantissa, true, true⟩ => mantissa + 1 / 2 < value ∧ value < mantissa + 1

section Bits

variable {extended : ExtendedMantissa} {value : Rat}

theorem Locates.mantissa_le (locates : Locates extended value) : extended.mantissa ≤ value := by
  obtain ⟨mantissa, round, sticky⟩ := extended
  cases round <;> cases sticky <;> simp only [Locates] at locates ⊢ <;> linarith

theorem Locates.lt_mantissa_add_one (locates : Locates extended value) :
    value < extended.mantissa + 1 := by
  obtain ⟨mantissa, round, sticky⟩ := extended
  cases round <;> cases sticky <;> simp only [Locates] at locates ⊢ <;> linarith

/-- Dropping one more bit halves the value. -/
theorem Locates.shiftRightOne (locates : Locates extended value) :
    Locates extended.shiftRightOne (value / 2) := by
  obtain ⟨mantissa, round, sticky⟩ := extended
  obtain ⟨half, rfl | rfl⟩ := Nat.even_or_odd' mantissa
  · have quotient : 2 * half / 2 = half := by omega
    have remainder : 2 * half % 2 = 0 := by omega
    cases round <;> cases sticky <;>
      simp only [Locates, ExtendedMantissa.shiftRightOne, quotient, remainder, Nat.cast_mul,
        Nat.cast_ofNat, bne_self_eq_false, Bool.or_false, Bool.or_true] at locates ⊢ <;>
      first | linarith | constructor <;> linarith
  · have quotient : (2 * half + 1) / 2 = half := by omega
    have remainder : (2 * half + 1) % 2 = 1 := by omega
    cases round <;> cases sticky <;>
      simp [Locates, ExtendedMantissa.shiftRightOne, quotient, remainder] at locates ⊢ <;>
      first | linarith | constructor <;> linarith

theorem Locates.shiftRight
    (locates : Locates extended value)
    (amount : Nat) :
    Locates (extended >>> amount) (value / 2 ^ amount) := by
  induction amount with
  | zero =>
      rw [pow_zero, div_one]
      exact locates
  | succ amount inductionHypothesis =>
      rw [pow_succ, ← div_div]
      exact inductionHypothesis.shiftRightOne

/-- Rounding by the bits gives the nearest whole number. -/
theorem Locates.abs_roundedMantissa_sub_le (locates : Locates extended value) :
    |extended.roundedMantissa - value| ≤ 1 / 2 := by
  obtain ⟨mantissa, round, sticky⟩ := extended
  rw [abs_le]
  cases round <;> cases sticky <;>
    simp only [Locates, ExtendedMantissa.roundedMantissa, ExtendedMantissa.accuracy,
      Accuracy.roundToNearestEven] at locates ⊢
  · constructor <;> linarith
  · constructor <;> linarith
  · obtain even | odd := Nat.mod_two_eq_zero_or_one mantissa
    · rw [even]
      constructor <;> push_cast <;> linarith
    · rw [odd]
      constructor <;> push_cast <;> linarith
  · constructor <;> push_cast <;> linarith

/-- Less than 53 bits by no more than a half is rounded up to one bit more. -/
theorem Locates.roundedMantissa_of_half_le
    (locates : Locates extended value)
    (less : value < 2 ^ 53)
    (half : 2 ^ 53 - 1 / 2 ≤ value) :
    extended.roundedMantissa = 2 ^ 53 := by
  have ones : extended.mantissa = 2 ^ 53 - 1 := by
    have lower := locates.mantissa_le.trans_lt less
    have upper := half.trans_lt locates.lt_mantissa_add_one
    have lower : extended.mantissa < 2 ^ 53 := by exact_mod_cast lower
    have upper : (2 : Rat) ^ 53 < extended.mantissa + 2 := by linarith
    have upper : 2 ^ 53 < extended.mantissa + 2 := by exact_mod_cast upper
    omega
  -- The mantissa is odd, so that the half itself is rounded up as well.
  obtain ⟨mantissa, round, sticky⟩ := extended
  subst ones
  cases round <;> cases sticky <;> simp only [Locates] at locates
  · norm_num [locates] at half
  · norm_num at locates half
    linarith
  · decide
  · decide

end Bits

/-! ## Steps -/

/-- A magnitude rounded to so many steps of a power of two. -/
structure IsRounded
    (magnitude : Rat)
    (kept : Nat)
    (power : Int) : Prop where
  /-- No step is smaller than the least one. -/
  least : -1074 ≤ power
  /-- No other number of steps is nearer. -/
  near : |kept - magnitude / 2 ^ power| ≤ 1 / 2
  /-- The magnitude has no more than 53 bits above the step. -/
  lt : magnitude / 2 ^ power < 2 ^ 53
  /-- It has no fewer, unless the step is the least one. -/
  full_or_least : 2 ^ 52 ≤ magnitude / 2 ^ power ∨ power = -1074
  /-- From the last half step on it is rounded to one bit more. -/
  carries : 2 ^ 53 - 1 / 2 ≤ magnitude / 2 ^ power → kept = 2 ^ 53

/-- The number of so many steps; one bit too many makes the step greater. -/
def ofSteps
    (sign : Sign)
    (kept : Nat)
    (power : Int) : UnpackedFloat :=
  if zero : kept = 0 then .zero sign
  else if kept < 2 ^ 53 then .finite sign kept power (Nat.pos_of_ne_zero zero)
  else .finite sign (2 ^ 52) (power + 1) (by decide)

theorem IsRounded.kept_le
    {magnitude : Rat}
    {kept : Nat}
    {power : Int}
    (rounded : IsRounded magnitude kept power) :
    kept ≤ 2 ^ 53 := by
  have near := abs_le.mp rounded.near
  have below := rounded.lt
  have less : (kept : Rat) < 2 ^ 53 + 1 := by linarith
  have less : kept < 2 ^ 53 + 1 := by exact_mod_cast less
  omega

theorem IsRounded.full_kept_or_least
    {magnitude : Rat}
    {kept : Nat}
    {power : Int}
    (rounded : IsRounded magnitude kept power) :
    2 ^ 52 ≤ kept ∨ power = -1074 := by
  rcases rounded.full_or_least with full | least
  · have near := abs_le.mp rounded.near
    have more : (2 : Rat) ^ 52 - 1 < kept := by linarith
    have more : 2 ^ 52 < kept + 1 := by
      have : (2 : Rat) ^ 52 < kept + 1 := by linarith
      exact_mod_cast this
    exact Or.inl (by omega)
  · exact Or.inr least

/-- Cutting the bits off after rounding changes nothing, but for a carry into a new bit. -/
theorem shiftToTargetExponent_of_le
    {kept : Nat}
    {power : Int}
    (bound : kept ≤ 2 ^ 53)
    (least : -1074 ≤ power) :
    (shiftToTargetExponent Format.binary64 kept power .exact).1.mantissa =
        (if kept < 2 ^ 53 then kept else 2 ^ 52) ∧
      (shiftToTargetExponent Format.binary64 kept power .exact).2 =
        (if kept < 2 ^ 53 then power else power + 1) := by
  simp only [shiftToTargetExponent, shiftToExponent, mantissa_shiftRight,
    mantissa_ofMantissaAndAccuracy, Format.targetExponent, mantissaBits_binary64,
    minExponent_binary64, totalExponent]
  split
  · next small =>
      have short : kept.log2 < 53 := by
        rcases Nat.eq_zero_or_pos kept with rfl | positive
        · decide
        · exact (Nat.log2_lt (Nat.ne_of_gt positive)).mpr small
      have none : (max ((kept.log2 : Int) + 1 + power - (53 : Nat)) (-1074) - power).toNat = 0 := by
        omega
      rw [none]
      simp
  · next large =>
      obtain rfl : kept = 2 ^ 53 := by omega
      have one : (max (((2 ^ 53 : Nat).log2 : Int) + 1 + power - (53 : Nat)) (-1074)
          - power).toNat = 1 := by
        rw [Nat.log2_two_pow]
        omega
      rw [one]
      simp

/-- After rounding to so many steps only a carry is left to be done. -/
theorem roundWithAccuracy_eq_ofSteps
    {mantissa : Nat}
    {exponent : Int}
    {accuracy : Accuracy}
    {kept : Nat}
    {power : Int}
    (rounded : (shiftToTargetExponent Format.binary64 mantissa exponent accuracy).1.roundedMantissa
      = kept)
    (shifted : (shiftToTargetExponent Format.binary64 mantissa exponent accuracy).2 = power)
    (bound : kept ≤ 2 ^ 53)
    (least : -1074 ≤ power)
    (sign : Sign) :
    roundWithAccuracy Format.binary64 sign mantissa exponent accuracy =
      ofSteps sign kept power := by
  obtain ⟨again, againPower⟩ := shiftToTargetExponent_of_le bound least
  unfold roundWithAccuracy ofSteps
  simp only [rounded, shifted, again, againPower]
  by_cases small : kept < 2 ^ 53
  · simp only [if_pos small]
  · have nonzero : kept ≠ 0 := by
      rintro rfl
      exact small (by decide)
    simp only [if_neg small, dif_neg nonzero]
    rfl

section Shifting

variable {mantissa : Nat} {exponent : Int} {accuracy : Accuracy} {part : Rat}

/-- Dropping bits down to 53 leaves less than 53 bits. -/
theorem Locates.div_two_pow_lt
    (locates : Locates (.ofMantissaAndAccuracy mantissa accuracy) part)
    (amount : Nat)
    (long : mantissa.log2 ≤ 52 + amount) :
    part / 2 ^ amount < 2 ^ 53 := by
  have above := locates.lt_mantissa_add_one
  rw [mantissa_ofMantissaAndAccuracy] at above
  have small : mantissa + 1 ≤ 2 ^ (53 + amount) :=
    Nat.lt_log2_self.trans_le (Nat.pow_le_pow_right (by decide) (by omega))
  have small : (mantissa : Rat) + 1 ≤ 2 ^ (53 + amount) := by exact_mod_cast small
  rw [div_lt_iff₀ (by positivity), ← pow_add]
  exact above.trans_le small

/-- Dropping no more bits than that leaves no fewer. -/
theorem Locates.le_div_two_pow
    (locates : Locates (.ofMantissaAndAccuracy mantissa accuracy) part)
    {amount : Nat}
    (long : mantissa.log2 = 52 + amount) :
    2 ^ 52 ≤ part / 2 ^ amount := by
  have below := locates.mantissa_le
  rw [mantissa_ofMantissaAndAccuracy] at below
  have nonzero : mantissa ≠ 0 := by
    rintro rfl
    rw [Nat.log2_zero] at long
    omega
  have large : 2 ^ (52 + amount) ≤ mantissa := long ▸ Nat.log2_self_le nonzero
  have large : (2 : Rat) ^ (52 + amount) ≤ mantissa := by exact_mod_cast large
  rw [le_div_iff₀ (by positivity), ← pow_add]
  exact large.trans below

/-- Rounding a value that is located by the dropped bits gives the nearest number of steps. -/
theorem exists_isRounded
    (locates : Locates (.ofMantissaAndAccuracy mantissa accuracy) part)
    (enough : 52 ≤ mantissa.log2 ∨ exponent ≤ -1074)
    (sign : Sign) :
    ∃ kept power, IsRounded (part * 2 ^ exponent) kept power ∧
      roundWithAccuracy Format.binary64 sign mantissa exponent accuracy =
        ofSteps sign kept power := by
  obtain ⟨amount, isAmount⟩ : ∃ amount : Nat, (amount : Int) =
      max ((mantissa.log2 : Int) + exponent - 52) (-1074) - exponent :=
    ⟨_, Int.toNat_of_nonneg (by omega)⟩
  have shift : shiftToTargetExponent Format.binary64 mantissa exponent accuracy =
      (ExtendedMantissa.ofMantissaAndAccuracy mantissa accuracy >>> amount,
        exponent + amount) := by
    simp only [shiftToTargetExponent, shiftToExponent, Format.targetExponent, totalExponent,
      mantissaBits_binary64, minExponent_binary64]
    rw [show (max ((mantissa.log2 : Int) + 1 + exponent - (53 : Nat)) (-1074) - exponent).toNat
      = amount by omega]
  have located := locates.shiftRight amount
  have less := locates.div_two_pow_lt amount (by omega)
  have scaled : part * 2 ^ exponent / (2 : Rat) ^ (exponent + amount) = part / 2 ^ amount := by
    rw [zpow_add₀ two_ne_zero, zpow_natCast]
    field_simp
  have isRounded : IsRounded (part * 2 ^ exponent)
      (ExtendedMantissa.ofMantissaAndAccuracy mantissa accuracy >>> amount).roundedMantissa
      (exponent + amount) := by
    refine ⟨by omega, ?_, ?_, ?_, ?_⟩ <;> rw [scaled]
    · exact located.abs_roundedMantissa_sub_le
    · exact less
    · by_cases least : exponent + amount = -1074
      · exact Or.inr least
      · exact Or.inl (locates.le_div_two_pow (by omega))
    · exact located.roundedMantissa_of_half_le less
  refine ⟨_, _, isRounded, ?_⟩
  exact roundWithAccuracy_eq_ofSteps (by rw [shift]) (by rw [shift]) isRounded.kept_le
    isRounded.least sign

end Shifting

/-! ## The range -/

/-- The largest finite number. -/
def largest : Rat :=
  (2 ^ 53 - 1) * 2 ^ (971 : Int)

/-- The least magnitude that is rounded to an infinity: half a step above the largest finite
number. -/
def overflow : Rat :=
  (2 ^ 53 - 1 / 2) * 2 ^ (971 : Int)

theorem largest_nonneg : 0 ≤ largest := by
  unfold largest
  exact mul_nonneg (by norm_num) (by positivity)

theorem largest_add_half_step : largest + 2 ^ (970 : Int) = overflow := by
  unfold largest overflow
  rw [show (971 : Int) = 970 + 1 by rfl, zpow_add_one₀ two_ne_zero]
  ring

theorem largest_lt_overflow : largest < overflow := by
  rw [← largest_add_half_step]
  exact lt_add_of_pos_right largest (by positivity)

theorem overflow_pos : 0 < overflow := by
  unfold overflow
  positivity

/-- All powers of two below the range are. -/
theorem two_zpow_lt_overflow
    (power : Int)
    (small : power ≤ 1023) :
    (2 : Rat) ^ power < overflow := by
  have step : (0 : Rat) < 2 ^ (971 : Int) := by positivity
  calc (2 : Rat) ^ power
    _ ≤ 2 ^ (1023 : Int) := zpow_le_zpow_right₀ (by norm_num) small
    _ = 2 ^ 52 * 2 ^ (971 : Int) := by rw [← zpow_natCast, ← zpow_add₀ two_ne_zero]; rfl
    _ < (2 ^ 53 - 1 / 2) * 2 ^ (971 : Int) := mul_lt_mul_of_pos_right (by norm_num) step

/-- All powers of two beyond the range are. -/
theorem overflow_lt_two_zpow
    (power : Int)
    (large : 1024 ≤ power) :
    overflow < (2 : Rat) ^ power := by
  have step : (0 : Rat) < 2 ^ (971 : Int) := by positivity
  calc (2 ^ 53 - 1 / 2) * (2 : Rat) ^ (971 : Int)
    _ < 2 ^ 53 * 2 ^ (971 : Int) := mul_lt_mul_of_pos_right (by norm_num) step
    _ = 2 ^ (1024 : Int) := by rw [← zpow_natCast, ← zpow_add₀ two_ne_zero]; rfl
    _ ≤ 2 ^ power := zpow_le_zpow_right₀ (by norm_num) large

section Range

variable {magnitude : Rat} {kept : Nat} {power : Int}

theorem IsRounded.lt_two_zpow (rounded : IsRounded magnitude kept power) :
    magnitude < 2 ^ (53 + power) := by
  have less := (div_lt_iff₀ (by positivity)).mp rounded.lt
  rwa [← zpow_natCast, ← zpow_add₀ two_ne_zero] at less

theorem IsRounded.two_zpow_le
    (rounded : IsRounded magnitude kept power)
    (notLeast : power ≠ -1074) :
    2 ^ (52 + power) ≤ magnitude := by
  have le := (le_div_iff₀ (by positivity)).mp (rounded.full_or_least.resolve_right notLeast)
  rwa [← zpow_natCast, ← zpow_add₀ two_ne_zero] at le

/-- A magnitude below the end of the range has steps in range. -/
theorem IsRounded.in_range
    (rounded : IsRounded magnitude kept power)
    (less : magnitude < overflow) :
    power ≤ 971 ∧ (kept < 2 ^ 53 ∨ power < 971) := by
  have bounded : power ≤ 971 := by
    by_contra large
    have far := overflow_lt_two_zpow (52 + power) (by omega)
    linarith [rounded.two_zpow_le (by omega)]
  refine ⟨bounded, or_iff_not_imp_right.mpr fun last => ?_⟩
  obtain rfl : power = 971 := by omega
  have short : magnitude / 2 ^ (971 : Int) < 2 ^ 53 - 1 / 2 := by
    rw [div_lt_iff₀ (by positivity)]
    exact less
  have near := abs_le.mp rounded.near
  have small : (kept : Rat) < 2 ^ 53 := by linarith
  exact_mod_cast small

/-- From the end of the range on, there is nothing but steps out of range. -/
theorem IsRounded.out_of_range
    (rounded : IsRounded magnitude kept power)
    (large : overflow ≤ magnitude) :
    971 < power ∧ kept ≠ 0 ∨ power = 971 ∧ kept = 2 ^ 53 := by
  have beyond : 971 ≤ power := by
    by_contra small
    have near := two_zpow_lt_overflow (53 + power) (by omega)
    linarith [rounded.lt_two_zpow]
  rcases beyond.lt_or_eq with greater | rfl
  · refine Or.inl ⟨greater, ?_⟩
    rintro rfl
    exact absurd rounded.full_kept_or_least (by omega)
  · refine Or.inr ⟨rfl, rounded.carries ?_⟩
    rw [le_div_iff₀ (by positivity)]
    exact large

/-- A magnitude below the end of the range is read as its steps. -/
theorem IsRounded.packed_of_lt
    (rounded : IsRounded magnitude kept power)
    (less : magnitude < overflow)
    (sign : Sign) :
    packed (ofSteps sign kept power) = .finite (signed sign (kept * 2 ^ power)) := by
  obtain ⟨bounded, small⟩ := rounded.in_range less
  have fullOrLeast := rounded.full_kept_or_least
  have least := rounded.least
  unfold ofSteps
  split_ifs with zero short
  · rw [packed_zero, zero]
    cases sign <;> simp [signed]
  · have canonical : IsCanonical kept power :=
      ⟨Nat.pos_of_ne_zero zero, short, fullOrLeast, least, bounded⟩
    exact (Unpacks.finite sign _ canonical).packed_eq
  · obtain rfl : kept = 2 ^ 53 := le_antisymm rounded.kept_le (not_lt.mp short)
    have canonical : IsCanonical (2 ^ 52) (power + 1) :=
      ⟨by decide, by decide, Or.inl le_rfl, by omega, by omega⟩
    rw [(Unpacks.finite sign _ canonical).packed_eq, zpow_add_one₀ two_ne_zero]
    congr 2
    push_cast
    ring

/-- A magnitude from the end of the range on is read as an infinity. -/
theorem IsRounded.packed_of_le
    (rounded : IsRounded magnitude kept power)
    (large : overflow ≤ magnitude)
    (sign : Sign) :
    packed (ofSteps sign kept power) = .infinite (sign == .negative) := by
  unfold ofSteps
  rcases rounded.out_of_range large with ⟨greater, nonzero⟩ | ⟨rfl, rfl⟩
  · rw [dif_neg nonzero]
    split_ifs
    · rw [packed, unpack_pack_of_lt greater]
      rfl
    · rw [packed, unpack_pack_of_lt (by omega)]
      rfl
  · rw [dif_neg (by decide), if_neg (by decide), packed, unpack_pack_of_lt (by decide)]
    rfl

end Range

end Number
end Montage
