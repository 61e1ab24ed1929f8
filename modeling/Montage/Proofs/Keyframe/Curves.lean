import Mathlib
import Montage.Keyframe

/-!
# Easing curves between zero and one

Every easing curve starts at zero, ends at one and never falls on the way
(`Ease.monotone_apply`), the two pieces of the one that is slow at both ends included.  So a
passage from one value to another stays between these two, starts with the first, and goes
one way only.

All numbers are exact here.
-/

namespace Montage

namespace Ease

theorem clamp_eq (progress : Rat) : clamp progress = min (max progress 0) 1 := by
  have raised : (if progress < 0 then 0 else progress) = max progress 0 := by
    split
    · next negative => exact (max_eq_right negative.le).symm
    · next notNegative => exact (max_eq_left (not_lt.mp notNegative)).symm
  simp only [clamp, raised]
  split
  · next large => exact (min_eq_right large.le).symm
  · next small => exact (min_eq_left (not_lt.mp small)).symm

theorem monotone_clamp : Monotone (clamp : Rat → Rat) := by
  intro first last le
  rw [clamp_eq, clamp_eq]
  exact min_le_min_right 1 (max_le_max_right 0 le)

theorem clamp_nonneg (progress : Rat) : 0 ≤ clamp progress := by
  rw [clamp_eq]
  exact le_min (le_max_right progress 0) zero_le_one

theorem clamp_le_one (progress : Rat) : clamp progress ≤ 1 := by
  rw [clamp_eq]
  exact min_le_right _ _

variable (ease : Ease)

theorem apply_zero : ease.apply (0 : Rat) = 0 := by
  cases ease <;> norm_num [apply, clamp]

theorem apply_one : ease.apply (1 : Rat) = 1 := by
  cases ease <;> norm_num [apply, clamp]

/-- No easing curve ever falls. -/
theorem monotone_apply : Monotone (ease.apply : Rat → Rat) := by
  intro first last le
  have start := clamp_nonneg first
  have stop := clamp_le_one last
  have inOrder := monotone_clamp le
  cases ease with
  | linear => exact inOrder
  | easeIn =>
      simp only [apply]
      exact mul_le_mul inOrder inOrder start (start.trans inOrder)
  | easeOut =>
      simp only [apply]
      have rest : 0 ≤ 1 - clamp last := sub_nonneg.mpr stop
      have less : 1 - clamp last ≤ 1 - clamp first := sub_le_sub_left inOrder 1
      have squares := mul_le_mul less less rest (rest.trans less)
      linarith
  | easeInOut =>
      simp only [apply]
      generalize clamp first = earlier at *
      generalize clamp last = later at *
      -- The first piece stays below one half and the second piece above.
      split <;> split
      · nlinarith
      · nlinarith
      · linarith
      · nlinarith

theorem apply_clamp (progress : Rat) : ease.apply (clamp progress) = ease.apply progress := by
  have again : clamp (clamp progress) = clamp progress := by
    rw [clamp_eq (clamp progress), max_eq_left (clamp_nonneg progress),
      min_eq_left (clamp_le_one progress)]
  simp only [apply, again]

theorem apply_nonneg (progress : Rat) : 0 ≤ ease.apply progress := by
  rw [← ease.apply_zero, ← ease.apply_clamp progress]
  exact ease.monotone_apply (clamp_nonneg progress)

theorem apply_le_one (progress : Rat) : ease.apply progress ≤ 1 := by
  rw [← ease.apply_one, ← ease.apply_clamp progress]
  exact ease.monotone_apply (clamp_le_one progress)

end Ease

namespace Keyframe

section Between

variable {ease : Ease} {instant start stop startValue stopValue : Rat}

theorem between_eq
    (inOrder : start < stop) :
    between ease instant start stop startValue stopValue =
      startValue + (stopValue - startValue) *
        ease.apply ((instant - start) / (stop - start)) := by
  rw [between, if_neg (not_le.mpr (sub_pos.mpr inOrder))]

/-- A key that the next one does not follow in time holds its value. -/
theorem between_of_le
    (notInOrder : stop ≤ start) :
    between ease instant start stop startValue stopValue = startValue := by
  rw [between, if_pos (sub_nonpos.mpr notInOrder)]

theorem between_start : between ease start start stop startValue stopValue = startValue := by
  rcases lt_or_ge start stop with inOrder | notInOrder
  · rw [between_eq inOrder, sub_self, zero_div, ease.apply_zero, mul_zero, add_zero]
  · exact between_of_le notInOrder

/-- A passage stays between its two values. -/
theorem between_mem_uIcc
    (ease : Ease)
    (instant start stop startValue stopValue : Rat) :
    between ease instant start stop startValue stopValue ∈ Set.uIcc startValue stopValue := by
  rcases lt_or_ge start stop with inOrder | notInOrder
  · rw [between_eq inOrder]
    have least := ease.apply_nonneg ((instant - start) / (stop - start))
    have greatest := ease.apply_le_one ((instant - start) / (stop - start))
    generalize ease.apply ((instant - start) / (stop - start)) = share at least greatest
    rcases le_total startValue stopValue with rising | falling
    · rw [Set.uIcc_of_le rising]
      constructor <;> nlinarith
    · rw [Set.uIcc_of_ge falling]
      constructor <;> nlinarith
  · rw [between_of_le notInOrder]
    exact Set.left_mem_uIcc

/-- A passage to a value that is no less never falls. -/
theorem monotone_between
    (rising : startValue ≤ stopValue) :
    Monotone fun instant => between ease instant start stop startValue stopValue := by
  intro earlier later le
  rcases lt_or_ge start stop with inOrder | notInOrder
  · have shares : (earlier - start) / (stop - start) ≤ (later - start) / (stop - start) :=
      div_le_div_of_nonneg_right (sub_le_sub_right le start) (sub_nonneg.mpr inOrder.le)
    have eased := mul_le_mul_of_nonneg_left (ease.monotone_apply shares)
      (sub_nonneg.mpr rising)
    simp only [between_eq inOrder]
    linarith
  · simp only [between_of_le notInOrder]
    exact le_rfl

end Between
end Keyframe
end Montage
