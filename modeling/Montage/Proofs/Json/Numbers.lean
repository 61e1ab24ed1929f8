import Montage.Proofs.Json.Numerals
import Montage.Proofs.Number.Digits
import Montage.Proofs.Number.Range
import Montage.Wire.Record

/-!
# Numbers of documents are finite

Every number that is read from a numeral is finite: a significand of 64 bits is, raising it
is refused where it would leave the range, and dividing it by powers of ten keeps it in
range.  In the other direction a number has a numeral exactly when it is finite, and that
numeral has a text.
-/

namespace Montage
namespace Json

open Number

open Float.Model
open Float.Model.UnpackedFloat

/-! ## Reading -/

theorem gather_lt
    (digits : List Char)
    {significand : Nat}
    (bounded : significand < UInt64.size) :
    (gather significand digits).1 < UInt64.size := by
  fun_induction gather significand digits with
  | case1 => exact bounded
  | case2 significand digit rest next fits inductionHypothesis => exact inductionHypothesis fits
  | case3 => exact bounded

theorem parts_lt (numeral : Numeral) : (parts numeral).1 < UInt64.size :=
  gather_lt _ (gather_lt _ (by decide))

/-- The greatest power of ten in range. -/
theorem ten_pow_lt_overflow
    {power : Nat}
    (bounded : power ≤ 308) :
    (10 : Rat) ^ power < overflow := by
  calc (10 : Rat) ^ power
    _ ≤ 10 ^ (77 * 4) := pow_le_pow_right₀ (by norm_num) bounded
    _ = (10 ^ 77) ^ 4 := pow_mul ..
    _ < (2 ^ 53 - 1 / 2) * ((2 ^ 242) ^ 4 * 2 ^ 3) := by norm_num
    _ = (2 ^ 53 - 1 / 2) * 2 ^ ((242 * 4 + 3 : Nat) : Int) := by
        rw [zpow_natCast, pow_add, pow_mul]
    _ = overflow := rfl

/-- The powers of ten in range are finite and at least one. -/
theorem one_le_powerOfTen
    {power : Nat}
    (bounded : power ≤ 308) :
    Number.isFinite (powerOfTen power) = true ∧ 1 ≤ exact (powerOfTen power) := by
  -- Small powers come from a table and are computed.
  by_cases tabled : power ≤ 22
  · have all : ∀ power ∈ List.range 23,
        Number.isFinite (powerOfTen power) = true ∧ 1 ≤ powerOfTen power := by
      decide +kernel
    obtain ⟨finite, large⟩ := all power (List.mem_range.mpr (by omega))
    rw [le_iff_exact_le isFinite_one finite, exact_one] at large
    exact ⟨finite, large⟩
  · have rounds : Rounds (10 ^ power) (Readable.reading (powerOfTen power)) := by
      have fromTable : ¬ (1 < 2 ^ 53 ∧ power ≤ 22) := by omega
      have rounded := rounds_ofScientific Nat.one_ne_zero (show power ≤ 2048 by omega)
      rw [Nat.cast_one, one_mul] at rounded
      unfold powerOfTen Float.ofScientific
      rw [dif_neg fromTable]
      exact rounded
    have least : (1 : Rat) ≤ 10 ^ power := one_le_pow₀ (by norm_num)
    have finite : Number.isFinite (powerOfTen power) = true :=
      rounds.isFinite_iff.mpr
        ((abs_of_nonneg (by positivity)).trans_lt (ten_pow_lt_overflow bounded))
    refine ⟨finite, ?_⟩
    rw [← exact_one] at least ⊢
    exact rounds.le_exact finite isFinite_one least

theorem isFinite_div_powerOfTen
    {amount : Float}
    (finite : amount.isFinite = true)
    {power : Nat}
    (bounded : power ≤ 308) :
    (amount / powerOfTen power).isFinite = true := by
  rw [float_isFinite] at finite ⊢
  obtain ⟨powerFinite, large⟩ := one_le_powerOfTen bounded
  exact isFinite_div finite powerFinite large

theorem isFinite_lower
    {amount : Float}
    (finite : amount.isFinite = true)
    (power : Nat) :
    (lower amount power).isFinite = true := by
  unfold lower
  split
  · next small => exact isFinite_div_powerOfTen finite small
  · split
    · next large small =>
        apply isFinite_div_powerOfTen
        · exact isFinite_div_powerOfTen finite (by decide)
        · omega
    · decide

theorem isFinite_raise
    {amount raised : Float}
    (finite : amount.isFinite = true)
    {power : Nat}
    (found : raise amount power = some raised) :
    raised.isFinite = true := by
  unfold raise at found
  split at found
  · simp only at found
    split at found
    · next inRange =>
        cases found
        exact inRange
    · cases found
  · split at found
    · cases found
      exact finite
    · cases found

/-- A numeral that is read gives a finite number. -/
theorem isFinite_of_toFloat?
    {numeral : Numeral}
    {amount : Float}
    (found : toFloat? numeral = some amount) :
    amount.isFinite = true := by
  have whole : (Float.ofNat (parts numeral).1).isFinite = true := by
    rw [float_isFinite]
    exact isFinite_ofNat (parts_lt numeral)
  unfold toFloat? at found
  simp only at found
  obtain ⟨magnitude, reached, rfl⟩ := Option.map_eq_some_iff.mp found
  have finite : magnitude.isFinite = true := by
    split at reached
    · exact isFinite_raise whole reached
    · cases reached
      exact isFinite_lower whole _
  split
  · rw [float_isFinite] at finite ⊢
    exact isFinite_neg finite
  · exact finite

theorem isFinite_of_float?
    {json : Json}
    {amount : Float}
    (found : json.float? = some amount) :
    amount.isFinite = true := by
  cases json with
  | number numeral => exact isFinite_of_toFloat? found
  | _ => cases found

/-! ## Writing -/

/-- The numbers with a numeral are the finite ones. -/
theorem numeralOf?_isSome (amount : Float) : (numeralOf? amount).isSome = amount.isFinite := by
  change _ = amount.toModel.unpack.isFinite
  unfold numeralOf?
  split <;> rename_i unpacked <;> rw [unpacked]
  · rfl
  · rfl
  · rfl
  · simp only
    split <;> rfl

/-- The numeral of a number has a text. -/
theorem isStandard_of_numeralOf?
    {amount : Float}
    {numeral : Numeral}
    (found : numeralOf? amount = some numeral) :
    numeral.IsStandard := by
  unfold numeralOf? at found
  split at found
  · cases found
  · cases found
  · cases found
    constructor <;> simp
  · next sign mantissa exponent positive _ =>
      simp only at found
      rcases Digits.shortest_eq_or_isProper positive .even exponent with none | proper
      · rw [none] at found
        cases found
        constructor <;> simp [Digits.positional]
      · generalize Digits.shortest .even mantissa exponent = digits at found proper
        split at found
        · cases found
          obtain ⟨nonempty, wholeDigits, notNeedless, fractionDigits⟩ := proper.positional
          refine ⟨nonempty, wholeDigits, notNeedless, ?_⟩
          simp only
          split
          · exact List.forall_mem_singleton.mpr (by decide)
          · exact fractionDigits
        · cases found
          obtain ⟨first, others, spelled, notZero⟩ := proper.first
          refine ⟨by simp [spelled], ?_, by simp [spelled], ?_⟩
          · exact fun digit member => proper.areDigits digit (List.mem_of_mem_take member)
          · exact fun digit member => proper.areDigits digit (List.mem_of_mem_drop member)

/-- What is written for a number is the empty document exactly when the number is not
finite. -/
theorem ofFloat_eq_null_iff (amount : Float) :
    ofFloat amount = .null ↔ amount.isFinite = false := by
  rw [← numeralOf?_isSome]
  unfold ofFloat
  cases numeralOf? amount <;> simp

end Json
end Montage
