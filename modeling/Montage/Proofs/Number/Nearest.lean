import Montage.Proofs.Number.Rounding

/-!
# The nearest floating-point number

No finite number is nearer to a value than the one that it is rounded to
(`Number.IsRounded.abs_sub_le`).  What values are rounded to is known from this and from the
distance alone (`Number.Rounds`): rounding passes no finite number, keeps the order and leaves
finite numbers as they are.
-/

namespace Montage
namespace Number

open Float.Model
open Float.Model.UnpackedFloat

/-! ## No finite number is nearer -/

/-- What a finite number can stand for, but for the end of the range: so many steps, in 53
bits, of a power of two no less than the least one. -/
def IsRepresentable (value : Rat) : Prop :=
  ∃ (count power : Int), |count| < 2 ^ 53 ∧ -1074 ≤ power ∧ value = count * 2 ^ power

/-- A multiple of a greater power is a multiple of a lesser one. -/
theorem exists_eq_mul_two_zpow
    (count : Int)
    {lower power : Int}
    (le : lower ≤ power) :
    ∃ multiple : Int, (count : Rat) * 2 ^ power = multiple * 2 ^ lower := by
  obtain ⟨amount, rfl⟩ := Int.le.dest le
  refine ⟨count * 2 ^ amount, ?_⟩
  rw [zpow_add₀ two_ne_zero, zpow_natCast]
  push_cast
  ring

theorem IsRepresentable.signed
    {value : Rat}
    (representable : IsRepresentable value)
    (sign : Sign) :
    IsRepresentable (signed sign value) := by
  obtain ⟨count, power, short, least, rfl⟩ := representable
  cases sign with
  | positive => exact ⟨count, power, short, least, rfl⟩
  | negative => exact ⟨-count, power, by rwa [abs_neg], least, by simp [Number.signed]⟩

theorem Unpacks.isRepresentable
    {unpacked : UnpackedFloat}
    {value : Rat}
    (unpacks : Unpacks unpacked value) :
    IsRepresentable value := by
  cases unpacks with
  | zero sign => exact ⟨0, 0, by decide, by decide, by simp⟩
  | @finite sign mantissa exponent positive canonical =>
      refine IsRepresentable.signed ⟨mantissa, exponent, ?_, canonical.least, rfl⟩ sign
      rw [Nat.abs_cast]
      exact_mod_cast canonical.lt

/-- Two of these values are not nearer to each other than the least one is to zero. -/
theorem IsRepresentable.two_zpow_le_sub
    {value value' : Rat}
    (representable : IsRepresentable value)
    (representable' : IsRepresentable value')
    (less : value < value') :
    2 ^ (-1074 : Int) ≤ value' - value := by
  obtain ⟨count, power, -, least, rfl⟩ := representable
  obtain ⟨count', power', -, least', rfl⟩ := representable'
  obtain ⟨multiple, same⟩ := exists_eq_mul_two_zpow count least
  obtain ⟨multiple', same'⟩ := exists_eq_mul_two_zpow count' least'
  have step : (0 : Rat) < 2 ^ (-1074 : Int) := by positivity
  rw [same, same'] at less ⊢
  have next : (multiple : Rat) + 1 ≤ multiple' := by
    exact_mod_cast Int.add_one_le_iff.mpr (Int.cast_lt.mp (lt_of_mul_lt_mul_right less step.le))
  rw [← sub_mul]
  exact le_mul_of_one_le_left step.le (by linarith)

/-- Below one there is a gap. -/
theorem IsRepresentable.le_of_lt_one
    {value : Rat}
    (representable : IsRepresentable value)
    (less : value < 1) :
    value ≤ 1 - 2 ^ (-53 : Int) := by
  obtain ⟨count, power, short, -, rfl⟩ := representable
  have step : (0 : Rat) < 2 ^ (-53 : Int) := by positivity
  have whole : (2 : Rat) ^ 53 * 2 ^ (-53 : Int) = 1 := by norm_num
  have bounded : ∀ steps : Int, steps < 2 ^ 53 →
      (steps : Rat) * 2 ^ (-53 : Int) ≤ 1 - 2 ^ (-53 : Int) := by
    intro steps fewer
    have fewer : (steps : Rat) + 1 ≤ 2 ^ 53 := by exact_mod_cast Int.add_one_le_iff.mpr fewer
    linarith [mul_le_mul_of_nonneg_right fewer step.le]
  by_cases coarse : -53 ≤ power
  · obtain ⟨multiple, same⟩ := exists_eq_mul_two_zpow count coarse
    rw [same] at less ⊢
    refine bounded multiple ?_
    rw [← whole] at less
    exact_mod_cast lt_of_mul_lt_mul_right less step.le
  · -- So few steps of less than this size do not reach one.
    have steps : (count : Rat) ≤ (2 ^ 53 - 1 : Int) := by
      exact_mod_cast Int.le_sub_one_of_lt ((le_abs_self count).trans_lt short)
    have finer : (2 : Rat) ^ power ≤ 2 ^ (-53 : Int) :=
      zpow_le_zpow_right₀ (by norm_num) (by omega)
    calc count * (2 : Rat) ^ power
      _ ≤ (2 ^ 53 - 1 : Int) * 2 ^ power := mul_le_mul_of_nonneg_right steps (by positivity)
      _ ≤ (2 ^ 53 - 1 : Int) * 2 ^ (-53 : Int) := mul_le_mul_of_nonneg_left finer (by norm_num)
      _ ≤ 1 - 2 ^ (-53 : Int) := bounded _ (by norm_num)

/-- A whole number within one half is a nearest one. -/
theorem abs_sub_le_of_abs_sub_le_half
    (whole : Int)
    {value : Rat}
    (near : |whole - value| ≤ 1 / 2)
    (other : Int) :
    |whole - value| ≤ |other - value| := by
  by_cases same : other = whole
  · rw [same]
  · have apart : (1 : Rat) ≤ |(other : Rat) - whole| := by
      exact_mod_cast Int.one_le_abs (sub_ne_zero.mpr same)
    have triangle := abs_sub_le (other : Rat) value whole
    rw [abs_sub_comm value] at triangle
    linarith

section Nearest

variable {magnitude : Rat} {kept : Nat} {power : Int}

theorem IsRounded.abs_sub_eq (magnitude : Rat) (kept : Int) (power : Int) :
    |kept * 2 ^ power - magnitude| = |kept - magnitude / 2 ^ power| * 2 ^ power := by
  have stepPos : (0 : Rat) < 2 ^ power := by positivity
  rw [← abs_of_pos stepPos, ← abs_mul, sub_mul, abs_of_pos stepPos,
    div_mul_cancel₀ _ stepPos.ne']

/-- Nothing that a number can stand for is nearer than the rounded steps. -/
theorem IsRounded.abs_sub_le
    (rounded : IsRounded magnitude kept power)
    {other : Rat}
    (representable : IsRepresentable other) :
    |kept * 2 ^ power - magnitude| ≤ |other - magnitude| := by
  have whole : ∀ count : Int,
      |kept * 2 ^ power - magnitude| ≤ |count * 2 ^ power - magnitude| := by
    intro count
    have nearest := abs_sub_le_of_abs_sub_le_half kept (by exact_mod_cast rounded.near) count
    have scaled := IsRounded.abs_sub_eq magnitude kept power
    rw [Int.cast_natCast] at scaled nearest
    rw [scaled, IsRounded.abs_sub_eq]
    exact mul_le_mul_of_nonneg_right nearest (by positivity)
  obtain ⟨count, lower, short, least, rfl⟩ := representable
  by_cases coarser : power ≤ lower
  · -- A multiple of a greater step is a multiple of this one.
    obtain ⟨multiple, same⟩ := exists_eq_mul_two_zpow count coarser
    rw [same]
    exact whole multiple
  · -- With smaller steps it lies below the least magnitude that has 53 bits above this one.
    have full := rounded.two_zpow_le (by omega)
    have below : (count : Rat) * 2 ^ lower < 2 ^ (52 + power) := by
      have short : (count : Rat) < 2 ^ 53 := by
        exact_mod_cast (le_abs_self count).trans_lt short
      calc (count : Rat) * 2 ^ lower
        _ < 2 ^ 53 * 2 ^ lower := mul_lt_mul_of_pos_right short (by positivity)
        _ = 2 ^ (53 + lower) := by rw [← zpow_natCast, ← zpow_add₀ two_ne_zero]; rfl
        _ ≤ 2 ^ (52 + power) := zpow_le_zpow_right₀ (by norm_num) (by omega)
    have bound := whole (2 ^ 52)
    have corner : ((2 ^ 52 : Int) : Rat) * 2 ^ power = 2 ^ (52 + power) := by
      rw [zpow_add₀ two_ne_zero]
      norm_num
    rw [corner, abs_of_nonpos (sub_nonpos.mpr full)] at bound
    rw [abs_of_neg (a := (count : Rat) * 2 ^ lower - magnitude) (by linarith)]
    linarith

/-- The distance to the rounded steps is at most half a step of any power that leaves 53
bits. -/
theorem IsRounded.abs_sub_le_half
    (rounded : IsRounded magnitude kept power)
    {bound : Int}
    (least : -1074 ≤ bound)
    (less : magnitude < 2 ^ (53 + bound)) :
    |kept * 2 ^ power - magnitude| ≤ 2 ^ bound / 2 := by
  have finer : power ≤ bound := by
    by_contra coarser
    have full := rounded.two_zpow_le (by omega)
    have powers : (2 : Rat) ^ (53 + bound) ≤ 2 ^ (52 + power) :=
      zpow_le_zpow_right₀ (by norm_num) (by omega)
    linarith
  have scaled := IsRounded.abs_sub_eq magnitude kept power
  rw [Int.cast_natCast] at scaled
  have steps : (2 : Rat) ^ power ≤ 2 ^ bound := zpow_le_zpow_right₀ (by norm_num) finer
  have near := mul_le_mul_of_nonneg_right rounded.near
    (show (0 : Rat) ≤ 2 ^ power by positivity)
  rw [scaled]
  linarith

end Nearest

/-- What a value is rounded to.  In range it is a nearest finite number, at a distance of at
most half a step; beyond it is an infinity. -/
inductive Rounds (value : Rat) : Reading → Prop where
  /-- The value is in range. -/
  | finite
      {nearest : Rat}
      (inRange : |value| < overflow)
      (closest : ∀ other : Float, isFinite other = true →
        |nearest - value| ≤ |exact other - value|)
      (close : ∀ power : Int, -1074 ≤ power → |value| < 2 ^ (53 + power) →
        |nearest - value| ≤ 2 ^ power / 2) :
      Rounds value (.finite nearest)
  /-- The value is out of range. -/
  | infinite (outOfRange : overflow ≤ |value|) :
      Rounds value (.infinite (decide (value < 0)))

/-- A value that is located by the dropped bits is rounded. -/
theorem rounds_roundWithAccuracy
    {mantissa : Nat}
    {exponent : Int}
    {accuracy : Accuracy}
    {part : Rat}
    (locates : Locates (.ofMantissaAndAccuracy mantissa accuracy) part)
    (enough : 52 ≤ mantissa.log2 ∨ exponent ≤ -1074)
    (sign : Sign) :
    Rounds (signed sign (part * 2 ^ exponent))
      (packed (roundWithAccuracy Format.binary64 sign mantissa exponent accuracy)) := by
  obtain ⟨kept, power, rounded, isSteps⟩ := exists_isRounded locates enough sign
  have nonneg : 0 ≤ part * 2 ^ exponent := by
    have := locates.mantissa_le
    have : (0 : Rat) ≤ part := (Nat.cast_nonneg _).trans this
    positivity
  generalize part * 2 ^ exponent = magnitude at *
  rw [isSteps]
  have same : |signed sign magnitude| = magnitude := by rw [abs_signed, abs_of_nonneg nonneg]
  have distance : ∀ value : Rat,
      |signed sign value - signed sign magnitude| = |value - magnitude| := by
    intro value
    cases sign with
    | positive => rfl
    | negative => simp only [signed]; rw [neg_sub_neg, abs_sub_comm]
  by_cases less : magnitude < overflow
  · rw [rounded.packed_of_lt less]
    refine .finite (by rwa [same]) (fun other finite => ?_) fun bound least small => ?_
    · have twice : signed sign (signed sign (exact other)) = exact other := by
        cases sign <;> simp [signed]
      rw [distance, ← twice, distance]
      exact rounded.abs_sub_le ((unpacks_of_isFinite finite).isRepresentable.signed sign)
    · rw [distance]
      exact rounded.abs_sub_le_half least (by rwa [← same])
  · have large := not_lt.mp less
    have negative : (sign == Sign.negative) = decide (signed sign magnitude < 0) := by
      have positive := overflow_pos.trans_le large
      cases sign with
      | positive =>
          rw [signed, decide_eq_false nonneg.not_gt]
          rfl
      | negative => simp [signed, positive]
    rw [rounded.packed_of_le large, negative]
    exact .infinite (by rwa [same])

/-! ## Numbers that values are rounded to -/

theorem Unpacks.abs_le_largest
    {unpacked : UnpackedFloat}
    {value : Rat}
    (unpacks : Unpacks unpacked value) :
    |value| ≤ largest := by
  cases unpacks with
  | zero sign => simpa using largest_nonneg
  | @finite sign mantissa exponent positive canonical =>
      have short : (mantissa : Rat) ≤ 2 ^ 53 - 1 := by
        have := canonical.lt
        have : mantissa + 1 ≤ 2 ^ 53 := by omega
        have : (mantissa : Rat) + 1 ≤ 2 ^ 53 := by exact_mod_cast this
        linarith
      have power : (2 : Rat) ^ exponent ≤ 2 ^ (971 : Int) :=
        zpow_le_zpow_right₀ (by norm_num) canonical.greatest
      rw [abs_signed, abs_of_nonneg (by positivity)]
      exact mul_le_mul short power (by positivity) (by norm_num)

theorem abs_exact_le_largest
    {number : Float}
    (finite : isFinite number = true) :
    |exact number| ≤ largest :=
  (unpacks_of_isFinite finite).abs_le_largest

theorem abs_exact_lt_overflow
    {number : Float}
    (finite : isFinite number = true) :
    |exact number| < overflow :=
  (abs_exact_le_largest finite).trans_lt largest_lt_overflow

/-- Put together as it was taken apart, a finite number is what its value is rounded to. -/
theorem Unpacks.rounds
    {unpacked : UnpackedFloat}
    {value : Rat}
    (unpacks : Unpacks unpacked value) :
    Rounds value (packed unpacked) := by
  rw [unpacks.packed_eq]
  refine .finite (unpacks.abs_le_largest.trans_lt largest_lt_overflow)
    (fun other finite => ?_) fun power least less => ?_
  · rw [sub_self, abs_zero]
    exact abs_nonneg _
  · rw [sub_self, abs_zero]
    positivity

section Rounds

variable {value : Rat} {number other : Float}

theorem Rounds.isFinite_iff (rounds : Rounds value (Readable.reading number)) :
    isFinite number = true ↔ |value| < overflow := by
  generalize reading : Readable.reading number = nearest at rounds
  cases rounds with
  | finite inRange closest close =>
      exact iff_of_true (isFinite_of_reading reading) inRange
  | infinite outOfRange =>
      rw [isFinite_iff_reading, reading]
      exact iff_of_false Reading.noConfusion outOfRange.not_gt

theorem Rounds.reading_of_le
    (rounds : Rounds value (Readable.reading number))
    (outOfRange : overflow ≤ |value|) :
    Readable.reading number = .infinite (decide (value < 0)) := by
  generalize Readable.reading number = nearest at rounds ⊢
  cases rounds with
  | finite inRange closest close => exact absurd outOfRange inRange.not_ge
  | infinite outOfRange => rfl

/-- No finite number is nearer than the one that a value is rounded to. -/
theorem Rounds.abs_exact_sub_le
    (rounds : Rounds value (Readable.reading number))
    (finite : isFinite number = true)
    (otherFinite : isFinite other = true) :
    |exact number - value| ≤ |exact other - value| := by
  rw [isFinite_iff_reading.mp finite] at rounds
  cases rounds with
  | finite inRange closest close => exact closest other otherFinite

/-- The distance is at most half a step of any power that leaves 53 bits. -/
theorem Rounds.abs_exact_sub_le_half
    (rounds : Rounds value (Readable.reading number))
    (finite : isFinite number = true)
    {power : Int}
    (least : -1074 ≤ power)
    (less : |value| < 2 ^ (53 + power)) :
    |exact number - value| ≤ 2 ^ power / 2 := by
  rw [isFinite_iff_reading.mp finite] at rounds
  cases rounds with
  | finite inRange closest close => exact close power least less

/-- The distance is at most half a step of the largest numbers. -/
theorem Rounds.abs_exact_sub_le_two_zpow
    (rounds : Rounds value (Readable.reading number))
    (finite : isFinite number = true) :
    |exact number - value| ≤ 2 ^ (970 : Int) := by
  have less := (rounds.isFinite_iff.mp finite).trans (overflow_lt_two_zpow (53 + 971) (by decide))
  have near := rounds.abs_exact_sub_le_half finite (by decide) less
  rwa [show (971 : Int) = 970 + 1 by rfl, zpow_add_one₀ two_ne_zero,
    mul_div_cancel_right₀ _ two_ne_zero] at near

/-- Rounding does not pass a finite number from below. -/
theorem Rounds.exact_le
    (rounds : Rounds value (Readable.reading number))
    (finite : isFinite number = true)
    (otherFinite : isFinite other = true)
    (below : value ≤ exact other) :
    exact number ≤ exact other := by
  by_contra above
  have near := rounds.abs_exact_sub_le finite otherFinite
  rw [abs_of_nonneg (by linarith), abs_of_nonneg (by linarith)] at near
  linarith

/-- Rounding does not pass a finite number from above. -/
theorem Rounds.le_exact
    (rounds : Rounds value (Readable.reading number))
    (finite : isFinite number = true)
    (otherFinite : isFinite other = true)
    (above : exact other ≤ value) :
    exact other ≤ exact number := by
  by_contra below
  have near := rounds.abs_exact_sub_le finite otherFinite
  rw [abs_of_nonpos (by linarith), abs_of_nonpos (by linarith)] at near
  linarith

/-- A greater value is not rounded to a lesser number. -/
theorem Rounds.exact_le_exact
    {value' : Rat}
    (rounds : Rounds value (Readable.reading number))
    (rounds' : Rounds value' (Readable.reading other))
    (finite : isFinite number = true)
    (otherFinite : isFinite other = true)
    (less : value < value') :
    exact number ≤ exact other := by
  by_contra greater
  have near := sq_le_sq.mpr (rounds.abs_exact_sub_le finite otherFinite)
  have near' := sq_le_sq.mpr (rounds'.abs_exact_sub_le otherFinite finite)
  -- The one value would lie above the middle of the two numbers, and the other one below.
  have above : exact number + exact other ≤ 2 * value := by nlinarith
  have below : 2 * value' ≤ exact number + exact other := by nlinarith
  linarith

/-- What lies between two finite numbers is rounded to a finite number between them. -/
theorem Rounds.mem_Icc
    (rounds : Rounds value (Readable.reading number))
    {lower upper : Float}
    (lowerFinite : isFinite lower = true)
    (upperFinite : isFinite upper = true)
    (inside : value ∈ Set.Icc (exact lower) (exact upper)) :
    isFinite number = true ∧ exact number ∈ Set.Icc (exact lower) (exact upper) := by
  have finite : isFinite number = true := by
    have above := (abs_lt.mp (abs_exact_lt_overflow lowerFinite)).1
    have below := (abs_lt.mp (abs_exact_lt_overflow upperFinite)).2
    exact rounds.isFinite_iff.mpr
      (abs_lt.mpr ⟨above.trans_le inside.1, inside.2.trans_lt below⟩)
  exact ⟨finite, rounds.le_exact finite lowerFinite inside.1,
    rounds.exact_le finite upperFinite inside.2⟩

/-- The value of a finite number is rounded to itself. -/
theorem Rounds.exact_eq
    (rounds : Rounds (exact other) (Readable.reading number))
    (otherFinite : isFinite other = true) :
    isFinite number = true ∧ exact number = exact other := by
  simpa using rounds.mem_Icc otherFinite otherFinite (Set.left_mem_Icc.mpr le_rfl)

end Rounds

end Number
end Montage
