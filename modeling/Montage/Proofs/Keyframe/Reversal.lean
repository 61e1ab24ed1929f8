import Montage.Proofs.Keyframe.Passage

/-!
# Keyframes in reversed time

When time runs backwards, instants change their sign and keyframes come in the opposite
order.  An easing curve that is slow at the start is then slow at the end, and the two curves
that treat both ends alike are their own mirror images (`Ease.reversed`).  Keyframes at
different instants stand for the same values as before (`Keyframe.sample_reversed`), although
a key belongs to the passage behind it, and so to different passages in the two directions.

All numbers are exact here.
-/

namespace Montage

namespace Ease

/-- The curve seen from its other end. -/
def reversed : Ease → Ease
  | .easeIn => .easeOut
  | .easeOut => .easeIn
  | .easeInOut => .easeInOut
  | .linear => .linear

@[simp] theorem reversed_reversed (ease : Ease) : ease.reversed.reversed = ease := by
  cases ease <;> rfl

theorem clamp_one_sub (progress : Rat) : clamp (1 - progress) = 1 - clamp progress := by
  simp only [clamp]
  split_ifs <;> linarith

/-- The reversed curve is the point reflection of the curve through the middle. -/
theorem apply_reversed
    (ease : Ease)
    (progress : Rat) :
    ease.reversed.apply (1 - progress) = 1 - ease.apply progress := by
  cases ease with
  | linear => exact clamp_one_sub progress
  | easeIn =>
      simp only [reversed, apply, clamp_one_sub]
      ring
  | easeOut =>
      simp only [reversed, apply, clamp_one_sub]
      ring
  | easeInOut =>
      simp only [reversed, apply, clamp_one_sub]
      generalize clamp progress = share
      -- Away from the middle the two pieces mirror each other, and there they meet.
      rcases lt_trichotomy (2 * share) 1 with early | middle | late
      · rw [if_neg (by linarith), if_pos early]
        ring
      · obtain rfl : share = 1 / 2 := by linarith
        norm_num
      · rw [if_pos (by linarith), if_neg late.le.not_gt]
        ring

end Ease

namespace Keyframe

/-- Instants in reversed time. -/
def backwards (instants : List Rat) : List Rat :=
  (instants.map (-·)).reverse

section Backwards

variable {instants : List Rat}

@[simp] theorem length_backwards : (backwards instants).length = instants.length := by
  simp [backwards]

@[simp] theorem backwards_backwards : backwards (backwards instants) = instants := by
  simp [backwards]

/-- An instant stands as far from the end as it stood from the start. -/
theorem getElem?_backwards
    {index opposite : Nat}
    (length : opposite + index + 1 = instants.length) :
    (backwards instants)[opposite]? = instants[index]?.map (-·) := by
  have whole : opposite + index + 1 = (instants.map (-·)).length := by
    rw [List.length_map, length]
  rw [backwards, List.getElem?_reverse' whole, List.getElem?_map]

theorem pairwise_backwards
    (increasing : instants.Pairwise (· < ·)) :
    (backwards instants).Pairwise (· < ·) := by
  rw [backwards, List.pairwise_reverse, List.pairwise_map]
  exact increasing.imp neg_lt_neg

end Backwards

section Reversal

variable {instant : Rat} {instants values : List Rat}

/-- A passage in reversed time starts with the value it used to end with. -/
theorem between_reversed
    {start stop : Rat}
    (inOrder : start < stop)
    (ease : Ease)
    (instant startValue stopValue : Rat) :
    between ease.reversed (-instant) (-stop) (-start) stopValue startValue =
      between ease instant start stop startValue stopValue := by
  have span : stop - start ≠ 0 := (sub_pos.mpr inOrder).ne'
  have progress : (-instant - -stop) / (-start - -stop) =
      1 - (instant - start) / (stop - start) := by
    rw [show -start - -stop = stop - start by ring, eq_sub_iff_add_eq, ← add_div]
    exact (div_eq_one_iff_eq span).mpr (by ring)
  rw [between_eq (neg_lt_neg inOrder), between_eq inOrder, progress, ease.apply_reversed]
  ring

/-- At the instant of a key, keyframes that share none stand for the value of this key. -/
theorem getElem?_eq_sample_of_key
    (increasing : instants.Pairwise (· < ·))
    (sameLength : instants.length = values.length)
    (ease : Ease)
    {index : Nat}
    (here : instants[index]? = some instant) :
    values[index]? = some (sample ease instant (instants.zip values)) := by
  obtain ⟨bound, rfl⟩ := List.getElem?_eq_some_iff.mp here
  rw [sample_eq_of_last (increasing.imp le_of_lt) sameLength bound rfl
    fun later laterBound after =>
      (List.pairwise_iff_getElem.mp increasing index later bound laterBound after).ne']
  exact List.getElem?_eq_getElem (sameLength ▸ bound)

theorem length_backwards_eq
    (sameLength : instants.length = values.length) :
    (backwards instants).length = values.reverse.length := by
  rw [length_backwards, List.length_reverse, sameLength]

/-- At a key, both directions find its value. -/
theorem sample_reversed_at_key
    (increasing : instants.Pairwise (· < ·))
    (sameLength : instants.length = values.length)
    (ease : Ease)
    {index : Nat}
    (here : instants[index]? = some instant) :
    sample ease.reversed (-instant) ((backwards instants).zip values.reverse) =
      sample ease instant (instants.zip values) := by
  obtain ⟨bound, -⟩ := List.getElem?_eq_some_iff.mp here
  obtain ⟨opposite, length⟩ : ∃ opposite, opposite + index + 1 = values.length :=
    ⟨values.length - 1 - index, by omega⟩
  have hereOpposite : (backwards instants)[opposite]? = some (-instant) := by
    rw [getElem?_backwards (length.trans sameLength.symm), here, Option.map_some]
  have value := getElem?_eq_sample_of_key increasing sameLength ease here
  have valueOpposite := getElem?_eq_sample_of_key (pairwise_backwards increasing)
    (length_backwards_eq sameLength) ease.reversed hereOpposite
  rw [List.getElem?_reverse' length, value] at valueOpposite
  exact (Option.some.inj valueOpposite).symm

/-- The first value, which stands in front of all keys, stands behind them in reversed
time. -/
theorem sample_reversed_early
    (increasing : instants.Pairwise (· < ·))
    (sameLength : instants.length = values.length)
    (ease : Ease)
    {start : Rat}
    (here : instants[0]? = some start)
    (early : instant < start) :
    sample ease.reversed (-instant) ((backwards instants).zip values.reverse) =
      sample ease instant (instants.zip values) := by
  obtain ⟨positive, rfl⟩ := List.getElem?_eq_some_iff.mp here
  have last : (backwards instants)[instants.length - 1]? = instants[0]?.map (-·) :=
    getElem?_backwards (by omega)
  rw [here, Option.map_some, ← length_backwards] at last
  obtain ⟨lastBound, isLast⟩ := List.getElem?_eq_some_iff.mp last
  rw [sample_eq_first (increasing.imp le_of_lt) sameLength positive early,
    sample_eq_last ((pairwise_backwards increasing).imp le_of_lt)
      (length_backwards_eq sameLength) (by omega) (isLast.trans_le (neg_le_neg early.le))]
  simp [sameLength]

theorem sample_eq_of_inside
    (sorted : instants.Pairwise (· ≤ ·))
    (sameLength : instants.length = values.length)
    {ease : Ease}
    {index : Nat}
    {start stop startValue stopValue : Rat}
    (here : instants[index]? = some start)
    (there : instants[index + 1]? = some stop)
    (value : values[index]? = some startValue)
    (nextValue : values[index + 1]? = some stopValue)
    (after : start ≤ instant)
    (before : instant < stop) :
    sample ease instant (instants.zip values) =
      between ease instant start stop startValue stopValue := by
  obtain ⟨_, rfl⟩ := List.getElem?_eq_some_iff.mp here
  obtain ⟨bound, rfl⟩ := List.getElem?_eq_some_iff.mp there
  obtain ⟨_, rfl⟩ := List.getElem?_eq_some_iff.mp value
  obtain ⟨_, rfl⟩ := List.getElem?_eq_some_iff.mp nextValue
  exact sample_eq_between sorted sameLength bound after before

/-- Between two keys, both directions are on the same passage. -/
theorem sample_reversed_between
    (increasing : instants.Pairwise (· < ·))
    (sameLength : instants.length = values.length)
    (ease : Ease)
    {index : Nat}
    {start stop : Rat}
    (here : instants[index]? = some start)
    (there : instants[index + 1]? = some stop)
    (after : start < instant)
    (before : instant < stop) :
    sample ease.reversed (-instant) ((backwards instants).zip values.reverse) =
      sample ease instant (instants.zip values) := by
  obtain ⟨bound, -⟩ := List.getElem?_eq_some_iff.mp there
  obtain ⟨startValue, value⟩ : ∃ value, values[index]? = some value :=
    ⟨_, List.getElem?_eq_getElem (by omega)⟩
  obtain ⟨stopValue, nextValue⟩ : ∃ value, values[index + 1]? = some value :=
    ⟨_, List.getElem?_eq_getElem (by omega)⟩
  obtain ⟨opposite, length⟩ : ∃ opposite, opposite + (index + 1) + 1 = values.length :=
    ⟨values.length - 1 - (index + 1), by omega⟩
  have nextLength : opposite + 1 + index + 1 = values.length := by omega
  have hereOpposite : (backwards instants)[opposite]? = some (-stop) := by
    rw [getElem?_backwards (length.trans sameLength.symm), there, Option.map_some]
  have thereOpposite : (backwards instants)[opposite + 1]? = some (-start) := by
    rw [getElem?_backwards (nextLength.trans sameLength.symm), here, Option.map_some]
  have valueOpposite := (List.getElem?_reverse' length).trans nextValue
  have nextValueOpposite := (List.getElem?_reverse' nextLength).trans value
  rw [sample_eq_of_inside (increasing.imp le_of_lt) sameLength here there value nextValue
      after.le before,
    sample_eq_of_inside ((pairwise_backwards increasing).imp le_of_lt)
      (length_backwards_eq sameLength) hereOpposite thereOpposite valueOpposite
      nextValueOpposite (neg_le_neg before.le) (neg_lt_neg after)]
  exact between_reversed (after.trans before) ease instant startValue stopValue

theorem sample_reversed
    (increasing : instants.Pairwise (· < ·))
    (sameLength : instants.length = values.length)
    (ease : Ease)
    (instant : Rat) :
    sample ease.reversed (-instant) ((backwards instants).zip values.reverse) =
      sample ease instant (instants.zip values) := by
  rcases instants.length.eq_zero_or_pos with empty | positive
  · obtain rfl := List.length_eq_zero_iff.mp empty
    rfl
  · obtain ⟨previous, next, bracket⟩ :=
      exists_isBracket (increasing.imp le_of_lt) positive instant
    cases bracket with
    | front here early => exact sample_reversed_early increasing sameLength ease here early
    | inside here there after before =>
        rcases after.lt_or_eq with strictly | rfl
        · exact sample_reversed_between increasing sameLength ease here there strictly before
        · exact sample_reversed_at_key increasing sameLength ease here
    | back here last late =>
        rcases late.lt_or_eq with strictly | rfl
        · -- Behind the last key is in front of the first one in reversed time.
          have first : (backwards instants)[0]? = instants[previous]?.map (-·) :=
            getElem?_backwards (by omega)
          rw [here, Option.map_some] at first
          have turned := sample_reversed_early (pairwise_backwards increasing)
            (length_backwards_eq sameLength) ease.reversed first (neg_lt_neg strictly)
          simpa using turned.symm
        · exact sample_reversed_at_key increasing sameLength ease here

end Reversal

/-- For keys at different instants, in order, with as many values: what they stand for at some
instant along an easing curve is what the reversed keys stand for at the opposite instant along
the reversed curve, be the instant in front of all keys, at one of them, between two or behind
the last.  Searching by position finds this value in both directions. -/
theorem sample_time_reversal
    (ease : Ease)
    (instant : Rat)
    {instants values : List Rat}
    (increasing : instants.Pairwise (· < ·))
    (sameLength : instants.length = values.length) :
    let sampled := sample ease instant (instants.zip values)
    sample ease.reversed (-instant) ((backwards instants).zip values.reverse) = sampled ∧
    search? ease instant instants values = some sampled ∧
    search? ease.reversed (-instant) (backwards instants) values.reverse = some sampled := by
  have reversal := sample_reversed increasing sameLength ease instant
  refine ⟨reversal, search?_eq_sample (increasing.imp le_of_lt) ease instant values, ?_⟩
  rw [search?_eq_sample ((pairwise_backwards increasing).imp le_of_lt), reversal]

/-- A quarter of the way along the curve that is slow at the start is three quarters of the
way along the one that is slow at the end, and the key in the middle belongs to the second
passage in both directions. -/
theorem sample_time_reversal_quarter :
    let instants : List Rat := [0, 1, 5]
    let values : List Rat := [7, 10, 26]
    instants.Pairwise (· < ·) ∧
    backwards instants = [-5, -1, 0] ∧
    sample .easeIn 2 (instants.zip values) = 11 ∧
    sample .easeOut (-2) ((backwards instants).zip values.reverse) = 11 ∧
    search? .easeIn 1 instants values = some 10 ∧
    search? .easeOut (-1) (backwards instants) values.reverse = some 10 := by
  intro instants values
  have increasing : instants.Pairwise (· < ·) := by decide
  have sameLength : instants.length = values.length := rfl
  have quarter : sample .easeIn 2 (instants.zip values) = 11 := by
    norm_num [instants, values, sample, sampleFrom, between, Ease.apply, Ease.clamp]
  have middle : sample .easeIn 1 (instants.zip values) = 10 := by
    norm_num [instants, values, sample, sampleFrom, between, Ease.apply, Ease.clamp]
  obtain ⟨mirrored, -, -⟩ := sample_time_reversal .easeIn 2 increasing sameLength
  obtain ⟨-, found, foundBackwards⟩ := sample_time_reversal .easeIn 1 increasing sameLength
  rw [middle] at found foundBackwards
  exact ⟨increasing, by norm_num [backwards, instants], quarter, mirrored.trans quarter, found,
    foundBackwards⟩

end Keyframe
end Montage
