import Montage.Proofs.Number.Nearest

/-!
# Sums, differences, products and quotients

Each of the four operations on finite numbers rounds the exact result (`Number.rounds_add`,
`Number.rounds_sub`, `Number.rounds_mul`, `Number.rounds_div`).
-/

namespace Montage
namespace Number

open Float.Model
open Float.Model.UnpackedFloat

/-! ## Putting mantissas together -/

/-- A whole mantissa is located without any further bits. -/
theorem locates_exact (mantissa : Nat) :
    Locates (.ofMantissaAndAccuracy mantissa .exact) mantissa :=
  rfl

theorem log2_shiftLeft
    {mantissa : Nat}
    (positive : 0 < mantissa)
    (amount : Nat) :
    (mantissa <<< amount).log2 = mantissa.log2 + amount := by
  have nonzero := Nat.ne_of_gt positive
  rw [Nat.shiftLeft_eq, Nat.log2_eq_iff (Nat.mul_ne_zero nonzero (by positivity)), pow_add,
    Nat.add_right_comm, pow_add]
  exact ⟨Nat.mul_le_mul_right _ (Nat.log2_self_le nonzero),
    Nat.mul_lt_mul_of_pos_right Nat.lt_log2_self (by positivity)⟩

theorem cast_shiftLeft_mul
    (mantissa amount : Nat)
    (exponent : Int) :
    ((mantissa <<< amount : Nat) : Rat) * 2 ^ (exponent - amount) = mantissa * 2 ^ exponent := by
  rw [Nat.shiftLeft_eq, zpow_sub₀ two_ne_zero, zpow_natCast]
  push_cast
  field_simp

/-- A whole mantissa with any power is rounded. -/
theorem rounds_round
    {mantissa : Nat}
    (positive : 0 < mantissa)
    (sign : Sign)
    (exponent : Int) :
    Rounds (signed sign (mantissa * 2 ^ exponent))
      (packed (UnpackedFloat.round .binary64 sign mantissa exponent)) := by
  unfold UnpackedFloat.round decreaseExponent
  simp only [Format.targetExponent, totalExponent, mantissaBits_binary64, minExponent_binary64]
  rw [← cast_shiftLeft_mul mantissa]
  refine rounds_roundWithAccuracy (locates_exact _) ?_ sign
  rw [log2_shiftLeft positive]
  omega

theorem rounds_normalize
    (mantissa exponent : Int)
    (zeroSign : Sign) :
    Rounds (mantissa * 2 ^ exponent)
      (packed (UnpackedFloat.normalize .binary64 mantissa exponent zeroSign)) := by
  unfold UnpackedFloat.normalize
  rcases lt_trichotomy mantissa 0 with negative | rfl | positive
  · rw [compare_lt_iff_lt.mpr negative]
    have isPositive : 0 < (-mantissa).toNat := by omega
    have rounded := rounds_round isPositive .negative exponent
    have magnitude : (((-mantissa).toNat : Nat) : Rat) = -mantissa := by
      have : ((-mantissa).toNat : Int) = -mantissa := Int.toNat_of_nonneg (by omega)
      exact_mod_cast this
    rwa [signed, magnitude, neg_mul, neg_neg] at rounded
  · simpa using (Unpacks.zero zeroSign).rounds
  · rw [compare_gt_iff_gt.mpr positive]
    have isPositive : 0 < mantissa.toNat := by omega
    have rounded := rounds_round isPositive .positive exponent
    have magnitude : ((mantissa.toNat : Nat) : Rat) = mantissa := by
      have : (mantissa.toNat : Int) = mantissa := Int.toNat_of_nonneg (by omega)
      exact_mod_cast this
    rwa [signed, magnitude] at rounded

/-! ## Finite numbers -/

section Finite

variable {unpacked unpacked' : UnpackedFloat} {value value' : Rat}

theorem Unpacks.neg (unpacks : Unpacks unpacked value) : Unpacks unpacked.neg (-value) := by
  cases unpacks with
  | zero sign =>
      rw [neg_zero]
      exact .zero _
  | @finite sign mantissa exponent positive canonical =>
      have opposite : -signed sign (mantissa * (2 : Rat) ^ exponent) =
          signed (-sign) (mantissa * 2 ^ exponent) := by
        cases sign with
        | positive => rfl
        | negative => exact neg_neg _
      rw [opposite]
      exact .finite (-sign) positive canonical

/-- Aligned to a lower power a mantissa stands for the same value. -/
theorem cast_decreaseExponent
    (sign : Sign)
    (mantissa : Nat)
    {exponent lower : Int}
    (le : lower ≤ exponent) :
    ((sign.apply (decreaseExponent mantissa exponent lower).1 : Int) : Rat) * 2 ^ lower =
      signed sign (mantissa * 2 ^ exponent) := by
  unfold decreaseExponent
  rw [cast_apply, signed_mul, ← cast_shiftLeft_mul mantissa (exponent - lower).toNat]
  congr 3
  omega

theorem Unpacks.rounds_add
    (unpacks : Unpacks unpacked value)
    (unpacks' : Unpacks unpacked' value') :
    Rounds (value + value') (packed (unpacked.add .binary64 unpacked')) := by
  cases unpacks with
  | zero sign =>
      rw [zero_add]
      cases unpacks' with
      | zero sign' =>
          obtain ⟨sum, isZero⟩ : ∃ sum, (UnpackedFloat.zero sign).add .binary64 (.zero sign') =
              .zero sum := by
            cases sign <;> cases sign' <;> exact ⟨_, rfl⟩
          rw [isZero]
          exact (Unpacks.zero sum).rounds
      | finite sign' positive' canonical' =>
          exact (Unpacks.finite sign' positive' canonical').rounds
  | @finite sign mantissa exponent positive canonical =>
      cases unpacks' with
      | zero sign' =>
          rw [add_zero]
          exact (Unpacks.finite sign positive canonical).rounds
      | @finite sign' mantissa' exponent' positive' canonical' =>
          rw [← cast_decreaseExponent sign mantissa (min_le_left exponent exponent'),
            ← cast_decreaseExponent sign' mantissa' (min_le_right exponent exponent'),
            ← add_mul, ← Int.cast_add]
          exact rounds_normalize _ _ .positive

/-- To subtract is to add with the other sign. -/
theorem sub_eq_add_opposite (unpacked unpacked' : UnpackedFloat) :
    unpacked.sub .binary64 unpacked' = unpacked.add .binary64 unpacked'.neg := by
  cases unpacked <;> cases unpacked' <;> try rfl
  next sign mantissa exponent positive sign' mantissa' exponent' positive' =>
  have opposite : ∀ number : Int, Sign.apply (-sign') number = -sign'.apply number := by
    cases sign' with
    | positive => exact fun _ => rfl
    | negative => exact fun _ => (neg_neg _).symm
  simp only [UnpackedFloat.sub, UnpackedFloat.add, UnpackedFloat.neg, opposite]
  rfl

theorem signed_mul_signed
    (sign sign' : Sign)
    (magnitude magnitude' : Rat) :
    signed sign magnitude * signed sign' magnitude' =
      signed (sign * sign') (magnitude * magnitude') := by
  cases sign <;> cases sign'
  · exact neg_mul_neg _ _
  · exact neg_mul _ _
  · exact mul_neg _ _
  · rfl

theorem signed_div_signed
    (sign sign' : Sign)
    (magnitude magnitude' : Rat) :
    signed sign magnitude / signed sign' magnitude' =
      signed (sign / sign') (magnitude / magnitude') := by
  cases sign <;> cases sign'
  · exact neg_div_neg_eq _ _
  · exact neg_div _ _
  · exact div_neg _
  · rfl

/-- A product of canonical numbers has bits enough. -/
theorem IsCanonical.le_log2_mul
    {mantissa mantissa' : Nat}
    {exponent exponent' : Int}
    (canonical : IsCanonical mantissa exponent)
    (canonical' : IsCanonical mantissa' exponent') :
    52 ≤ (mantissa * mantissa').log2 ∨ exponent + exponent' ≤ -1074 := by
  have nonzero := Nat.mul_ne_zero (Nat.ne_of_gt canonical.pos) (Nat.ne_of_gt canonical'.pos)
  rcases canonical.full_or_least with full | least
  · exact Or.inl ((Nat.le_log2 nonzero).mpr
      (full.trans (Nat.le_mul_of_pos_right _ canonical'.pos)))
  rcases canonical'.full_or_least with full' | least'
  · exact Or.inl ((Nat.le_log2 nonzero).mpr
      (full'.trans (Nat.le_mul_of_pos_left _ canonical.pos)))
  · exact Or.inr (by omega)

theorem Unpacks.rounds_mul
    (unpacks : Unpacks unpacked value)
    (unpacks' : Unpacks unpacked' value') :
    Rounds (value * value') (packed (unpacked.mul .binary64 unpacked')) := by
  cases unpacks with
  | zero sign =>
      rw [zero_mul]
      cases unpacks' with
      | zero sign' => exact (Unpacks.zero (sign * sign')).rounds
      | finite sign' positive' canonical' => exact (Unpacks.zero (sign * sign')).rounds
  | @finite sign mantissa exponent positive canonical =>
      cases unpacks' with
      | zero sign' =>
          rw [mul_zero]
          exact (Unpacks.zero (sign * sign')).rounds
      | @finite sign' mantissa' exponent' positive' canonical' =>
          rw [signed_mul_signed, mul_mul_mul_comm, ← zpow_add₀ two_ne_zero, ← Nat.cast_mul]
          exact rounds_roundWithAccuracy (locates_exact _) (canonical.le_log2_mul canonical') _

/-- The remainder of a division locates the quotient. -/
theorem locates_div
    (dividend : Nat)
    {divisor : Nat}
    (positive : 0 < divisor) :
    Locates (.ofMantissaAndAccuracy (dividend / divisor)
      (accuracyOfFraction (dividend % divisor) divisor)) (dividend / divisor) := by
  have divisorPos : (0 : Rat) < divisor := Nat.cast_pos.mpr positive
  have whole : (dividend : Rat) / divisor =
      (dividend / divisor : Nat) + (dividend % divisor : Nat) / divisor := by
    have : (dividend : Rat) =
        divisor * (dividend / divisor : Nat) + (dividend % divisor : Nat) := by
      exact_mod_cast (Nat.div_add_mod dividend divisor).symm
    field_simp
    linarith
  have less := Nat.mod_lt dividend positive
  rw [whole]
  generalize dividend / divisor = quotient, dividend % divisor = remainder at *
  have partLt : (remainder : Rat) / divisor < 1 :=
    (div_lt_one divisorPos).mpr (by exact_mod_cast less)
  unfold accuracyOfFraction
  split
  · next isZero => simp [isZero, Locates, ExtendedMantissa.ofMantissaAndAccuracy]
  · next nonzero =>
      have partPos : (0 : Rat) < remainder / divisor :=
        div_pos (Nat.cast_pos.mpr (Nat.pos_of_ne_zero nonzero)) divisorPos
      rcases lt_trichotomy (2 * remainder) divisor with low | middle | high
      · have low : (2 : Rat) * remainder < divisor := by exact_mod_cast low
        rw [compare_lt_iff_lt.mpr (by exact_mod_cast low)]
        have : (remainder : Rat) / divisor < 1 / 2 := by
          rw [div_lt_div_iff₀ divisorPos two_pos]
          linarith
        exact ⟨by linarith, by linarith⟩
      · have middle' : (2 : Rat) * remainder = divisor := by exact_mod_cast middle
        rw [compare_eq_iff_eq.mpr middle]
        have : (remainder : Rat) / divisor = 1 / 2 := by
          rw [div_eq_div_iff divisorPos.ne' two_ne_zero]
          linarith
        rw [this]
        rfl
      · have high' : (divisor : Rat) < 2 * remainder := by exact_mod_cast high
        rw [compare_gt_iff_gt.mpr high]
        have : 1 / 2 < (remainder : Rat) / divisor := by
          rw [div_lt_div_iff₀ two_pos divisorPos]
          linarith
        exact ⟨by linarith, by linarith⟩

/-- The quotient of mantissas has bits enough. -/
theorem le_log2_div
    {mantissa mantissa' : Nat}
    (positive : 0 < mantissa)
    (positive' : 0 < mantissa')
    {amount : Nat}
    (enough : 53 + mantissa'.log2 ≤ mantissa.log2 + amount) :
    52 ≤ ((mantissa <<< amount) / mantissa').log2 := by
  have long : 2 ^ (53 + mantissa'.log2) ≤ mantissa <<< amount := by
    rw [← Nat.le_log2 (by rw [Nat.shiftLeft_eq]; positivity), log2_shiftLeft positive]
    exact enough
  have short : mantissa' * 2 ^ 52 ≤ 2 ^ (53 + mantissa'.log2) := by
    calc mantissa' * 2 ^ 52
      _ ≤ 2 ^ (mantissa'.log2 + 1) * 2 ^ 52 := Nat.mul_le_mul_right _ Nat.lt_log2_self.le
      _ = 2 ^ (53 + mantissa'.log2) := by rw [← pow_add]; congr 1; omega
  have quotient : 2 ^ 52 ≤ (mantissa <<< amount) / mantissa' :=
    (Nat.le_div_iff_mul_le positive').mpr (by rw [mul_comm]; exact short.trans long)
  exact (Nat.le_log2 (by omega)).mpr quotient

theorem Unpacks.rounds_div
    (unpacks : Unpacks unpacked value)
    (unpacks' : Unpacks unpacked' value')
    (nonzero : value' ≠ 0) :
    Rounds (value / value') (packed (unpacked.div .binary64 unpacked')) := by
  cases unpacks' with
  | zero sign' => exact absurd rfl nonzero
  | @finite sign' mantissa' exponent' positive' canonical' =>
      cases unpacks with
      | zero sign =>
          rw [zero_div]
          exact (Unpacks.zero (sign / sign')).rounds
      | @finite sign mantissa exponent positive canonical =>
          obtain ⟨amount, target, enough, rfl, core⟩ : ∃ (amount : Nat) (target : Int),
              (53 + mantissa'.log2 ≤ mantissa.log2 + amount ∨ target ≤ -1074) ∧
              target = exponent - exponent' - amount ∧
              divCore .binary64 mantissa exponent mantissa' exponent' =
                (mantissa <<< amount / mantissa', target,
                  accuracyOfFraction (mantissa <<< amount % mantissa') mantissa') := by
            refine ⟨_, _, ?_, ?_, rfl⟩ <;>
              simp only [Format.targetExponent, totalExponent, mantissaBits_binary64,
                minExponent_binary64] <;>
              omega
          have rounded := rounds_roundWithAccuracy (locates_div (mantissa <<< amount) positive')
            (enough.imp_left (le_log2_div positive positive')) (sign / sign')
          have quotient : (mantissa * (2 : Rat) ^ exponent) / (mantissa' * 2 ^ exponent') =
              ((mantissa <<< amount : Nat) / mantissa' : Rat) *
                2 ^ (exponent - exponent' - amount) := by
            rw [div_mul_eq_mul_div, cast_shiftLeft_mul, mul_div_mul_comm, zpow_sub₀ two_ne_zero]
            field_simp
          rw [signed_div_signed, quotient]
          simpa only [UnpackedFloat.div, core] using rounded

end Finite

section Operations

variable {number other : Float}

theorem rounds_add
    (finite : isFinite number = true)
    (otherFinite : isFinite other = true) :
    Rounds (exact number + exact other) (Readable.reading (number + other)) :=
  (unpacks_of_isFinite finite).rounds_add (unpacks_of_isFinite otherFinite)

theorem rounds_sub
    (finite : isFinite number = true)
    (otherFinite : isFinite other = true) :
    Rounds (exact number - exact other) (Readable.reading (number - other)) := by
  change Rounds _ (packed (UnpackedFloat.sub _ _ _))
  rw [sub_eq_add_opposite, sub_eq_add_neg]
  exact (unpacks_of_isFinite finite).rounds_add (unpacks_of_isFinite otherFinite).neg

theorem rounds_mul
    (finite : isFinite number = true)
    (otherFinite : isFinite other = true) :
    Rounds (exact number * exact other) (Readable.reading (number * other)) :=
  (unpacks_of_isFinite finite).rounds_mul (unpacks_of_isFinite otherFinite)

theorem rounds_div
    (finite : isFinite number = true)
    (otherFinite : isFinite other = true)
    (nonzero : exact other ≠ 0) :
    Rounds (exact number / exact other) (Readable.reading (number / other)) :=
  (unpacks_of_isFinite finite).rounds_div (unpacks_of_isFinite otherFinite) nonzero

end Operations

/-! ## Small whole numbers -/

@[simp] theorem isFinite_zero : isFinite (0 : Float) = true := by decide

@[simp] theorem isFinite_one : isFinite (1 : Float) = true := by decide

@[simp] theorem isFinite_two : isFinite (2 : Float) = true := by decide

@[simp] theorem exact_zero : exact 0 = 0 :=
  exact_of_reading (by decide)

@[simp] theorem exact_one : exact 1 = 1 :=
  exact_of_reading (by decide +kernel)

@[simp] theorem exact_two : exact 2 = 2 :=
  exact_of_reading (by decide +kernel)

theorem Rounds.exact_eq_zero
    {number : Float}
    (rounds : Rounds 0 (Readable.reading number)) :
    exact number = 0 := by
  rw [← exact_zero] at rounds
  exact (rounds.exact_eq isFinite_zero).2.trans exact_zero

theorem Rounds.exact_eq_one
    {number : Float}
    (rounds : Rounds 1 (Readable.reading number)) :
    exact number = 1 := by
  rw [← exact_one] at rounds
  exact (rounds.exact_eq isFinite_one).2.trans exact_one

/-- The least number above zero. -/
theorem exact_least : exact 5e-324 = 2 ^ (-1074 : Int) :=
  exact_of_reading (by decide +kernel)

/-- A finite difference of unequal numbers is not rounded to zero. -/
theorem exact_sub_pos
    {number other : Float}
    (finite : isFinite number = true)
    (otherFinite : isFinite other = true)
    (less : exact other < exact number)
    (differenceFinite : isFinite (number - other) = true) :
    0 < exact (number - other) := by
  have apart := (unpacks_of_isFinite otherFinite).isRepresentable.two_zpow_le_sub
    (unpacks_of_isFinite finite).isRepresentable less
  rw [← exact_least] at apart
  have atLeast := (rounds_sub finite otherFinite).le_exact differenceFinite (by decide +kernel)
    apart
  rw [exact_least] at atLeast
  exact lt_of_lt_of_le (by positivity) atLeast

end Number
end Montage
