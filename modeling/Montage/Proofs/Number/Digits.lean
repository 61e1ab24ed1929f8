import Mathlib.Data.List.DropRight
import Montage.Number.Shortest

/-!
# The shortest digits are proper digits

The decimals that round to a positive number are positive, so that the shortest of them
has a first digit other than zero.  Without such a decimal there are no digits at all, and
the point stands in front.
-/

namespace Montage
namespace Number

/-! ## The digits of a whole number -/

/-- A positive number does not start with a zero. -/
theorem exists_toDigits_eq_cons
    {value : Nat}
    (positive : 0 < value) :
    ∃ first others, Nat.toDigits 10 value = first :: others ∧ first ≠ '0' := by
  induction value using Nat.strongRecOn with
  | ind value inductionHypothesis =>
      by_cases single : value < 10
      · refine ⟨value.digitChar, [], Nat.toDigits_of_lt_base single, ?_⟩
        rw [Ne, Nat.digitChar_eq_zero]
        omega
      · obtain ⟨first, others, spelled, notZero⟩ :=
          inductionHypothesis (value / 10) (by omega) (by omega)
        refine ⟨first, others ++ [(value % 10).digitChar], ?_, notZero⟩
        rw [Nat.toDigits_of_base_le (by decide) (by omega), spelled, List.cons_append]

/-! ## Decimals in a cell -/

namespace Cell

theorem lower_pos
    {mantissa : Nat}
    (positive : 0 < mantissa)
    (exponent : Int) :
    0 < (ofParts mantissa exponent).lower := by
  have step : (0 : Rat) < 2 ^ exponent := Rat.zpow_pos (by decide)
  have whole : (1 : Rat) ≤ mantissa := by
    exact_mod_cast positive
  have value : (2 : Rat) ^ exponent ≤ mantissa * 2 ^ exponent := by
    have scaled := Rat.mul_le_mul_of_nonneg_right whole (Rat.le_of_lt step)
    rwa [Rat.one_mul] at scaled
  simp only [ofParts]
  split <;> grind

theorem pos_of_admits
    {cell : Cell}
    {decimal : Rat}
    (positive : 0 < cell.lower)
    (admitted : cell.admits decimal = true) :
    0 < decimal := by
  unfold admits at admitted
  split at admitted <;> grind

theorem pos_of_nearestMultiple
    {cell : Cell}
    (positive : 0 < cell.lower)
    {tie : Tie}
    {exponent : Int}
    {multiple : Nat}
    (found : cell.nearestMultiple tie exponent = some multiple) :
    0 < multiple := by
  have admitted : cell.admits (multiple * 10 ^ exponent) = true := by
    unfold nearestMultiple at found
    simp only at found
    split at found
    · cases found
    · next below above =>
        cases found
        exact below
    · next below above =>
        cases found
        exact above
    · next below above =>
        split at found
        · cases found
          exact below
        · split at found
          · cases found
            exact above
          · split at found
            · cases found
              exact above
            · cases found
              split
              · exact below
              · exact above
  have decimal := pos_of_admits positive admitted
  apply Nat.pos_of_ne_zero
  rintro rfl
  simp at decimal

end Cell

/-! ## Proper digits -/

namespace Digits

/-- Digits, and the first of them not a zero. -/
structure IsProper (number : Digits) : Prop where
  /-- There is a first digit, and it is not a zero. -/
  first : ∃ digit others, number.digits = digit :: others ∧ digit ≠ '0'
  /-- There are digits only. -/
  areDigits : ∀ digit ∈ number.digits, digit.isDigit = true

theorem isProper_ofMultiple
    {multiple : Nat}
    (positive : 0 < multiple)
    (exponent : Int) :
    (ofMultiple multiple exponent).IsProper := by
  obtain ⟨first, others, spelled, notZero⟩ := exists_toDigits_eq_cons positive
  have shortened : (ofMultiple multiple exponent).digits <+: first :: others := by
    rw [← spelled]
    exact List.rdropWhile_prefix _ _
  constructor
  · cases kept : (ofMultiple multiple exponent).digits with
    | nil =>
        have allZeros := List.rdropWhile_eq_nil_iff.mp kept
        rw [spelled] at allZeros
        exact absurd (of_decide_eq_true (allZeros first List.mem_cons_self)) notZero
    | cons digit digits =>
        rw [kept, List.cons_prefix_cons] at shortened
        exact ⟨digit, digits, rfl, shortened.1 ▸ notZero⟩
  · intro digit member
    have original := shortened.subset member
    rw [← spelled] at original
    exact Nat.isDigit_of_mem_toDigits (by decide) (by decide) original

/-- The shortest digits of a positive number, if any are found, are proper. -/
theorem shortest_eq_or_isProper
    {mantissa : Nat}
    (positive : 0 < mantissa)
    (tie : Tie)
    (exponent : Int) :
    shortest tie mantissa exponent = ⟨[], 0⟩ ∨
      (shortest tie mantissa exponent).IsProper := by
  unfold shortest
  simp only
  cases found : (List.range 17).findSome? _ with
  | none => exact Or.inl rfl
  | some digits =>
      obtain ⟨count, -, hit⟩ := List.exists_of_findSome?_eq_some found
      obtain ⟨multiple, nearest, rfl⟩ := Option.map_eq_some_iff.mp hit
      right
      exact isProper_ofMultiple
        (Cell.pos_of_nearestMultiple (Cell.lower_pos positive exponent) nearest) _

/-- Written without a power of ten, proper digits have digits on both sides of the point,
and in front of it no zero that is not alone. -/
theorem IsProper.positional
    {number : Digits}
    (proper : number.IsProper) :
    number.positional.1 ≠ [] ∧
      (∀ digit ∈ number.positional.1, digit.isDigit = true) ∧
      (∀ digits, number.positional.1 = '0' :: digits → digits = []) ∧
      ∀ digit ∈ number.positional.2, digit.isDigit = true := by
  obtain ⟨first, others, spelled, notZero⟩ := proper.first
  have zeros : ∀ count, ∀ digit ∈ List.replicate count '0', digit.isDigit = true := by
    intro count digit member
    rw [List.eq_of_mem_replicate member]
    decide
  unfold Digits.positional
  split
  · refine ⟨by simp, by simp, by simp, ?_⟩
    intro digit member
    rcases List.mem_append.mp member with zero | kept
    · exact zeros _ digit zero
    · exact proper.areDigits digit kept
  · next positive =>
      obtain ⟨before, given⟩ : ∃ before, number.point.toNat = before + 1 :=
        Nat.exists_eq_add_one.mpr (by omega)
      have starts : number.digits.take (before + 1) = first :: others.take before := by
        rw [spelled, List.take_succ_cons]
      simp only [given]
      refine ⟨by simp [starts], ?_, ?_, ?_⟩
      · intro digit member
        rcases List.mem_append.mp member with kept | zero
        · exact proper.areDigits digit (List.mem_of_mem_take kept)
        · exact zeros _ digit zero
      · intro digits needless
        rw [starts, List.cons_append] at needless
        exact absurd (List.cons.inj needless).1 notZero
      · intro digit member
        exact proper.areDigits digit (List.mem_of_mem_drop member)

end Digits
end Number
end Montage
