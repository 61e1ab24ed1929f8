import Montage.Proofs.Keyframe.Curves
import Montage.Proofs.Keyframe.Position

/-!
# The keyframes around an instant

Instants stand in order, and several keyframes may share one.  Before the first instant
keyframes stand for the first value, from the last one on for the last value, at the instant
of a key for the value of the last key that has it, and everywhere else for an eased value
between the two keyframes around, which never share an instant.  When the two lists differ in
length, the rest of the longer one does not count, and searching by position does not read it
(`Keyframe.sample_selects_bracket`).

All numbers are exact here.
-/

namespace Montage
namespace Keyframe

section Keys

variable {ease : Ease} {instant : Rat} {instants values : List Rat}

theorem HasReached.getElem_le_iff
    {reached : Nat}
    (hasReached : HasReached instants instant reached)
    {index : Nat}
    (bound : index < instants.length) :
    instants[index] ≤ instant ↔ index < reached :=
  hasReached.le_iff index _ (List.getElem?_eq_getElem bound)

/-- Between two instants, the earlier one is the last that has been reached. -/
theorem HasReached.eq_of_bracket
    {reached : Nat}
    (hasReached : HasReached instants instant reached)
    {index : Nat}
    (bound : index + 1 < instants.length)
    (after : instants[index] ≤ instant)
    (before : instant < instants[index + 1]) :
    reached = index + 1 := by
  have less := (hasReached.getElem_le_iff (Nat.lt_of_succ_lt bound)).mp after
  have notMore := (hasReached.getElem_le_iff bound).not.mp (not_le.mpr before)
  omega

theorem sample_eq_first
    (sorted : instants.Pairwise (· ≤ ·))
    (sameLength : instants.length = values.length)
    (positive : 0 < instants.length)
    (early : instant < instants[0]) :
    sample ease instant (instants.zip values) = values[0] := by
  obtain ⟨reached, hasReached⟩ := exists_hasReached sorted instant
  have none := (hasReached.getElem_le_iff positive).not.mp (not_le.mpr early)
  obtain rfl : reached = 0 := by omega
  exact sample_of_hasReached_zero hasReached (List.getElem?_eq_getElem positive)
    (List.getElem?_eq_getElem (sameLength ▸ positive))

theorem sample_eq_last
    (sorted : instants.Pairwise (· ≤ ·))
    (sameLength : instants.length = values.length)
    (positive : 0 < instants.length)
    (late : instants[instants.length - 1] ≤ instant) :
    sample ease instant (instants.zip values) = values[instants.length - 1] := by
  obtain ⟨reached, hasReached⟩ := exists_hasReached sorted instant
  have all := (hasReached.getElem_le_iff (by omega)).mp late
  have bound := hasReached.le_length
  obtain rfl : reached = instants.length - 1 + 1 := by omega
  have nothing : (instants.zip values)[instants.length - 1 + 1]? = none :=
    List.getElem?_eq_none (by rw [List.length_zip]; omega)
  rw [sample_of_hasReached_succ sameLength hasReached (List.getElem?_eq_getElem (by omega))
    (List.getElem?_eq_getElem (by omega)), nothing]

theorem sample_eq_between
    (sorted : instants.Pairwise (· ≤ ·))
    (sameLength : instants.length = values.length)
    {index : Nat}
    (bound : index + 1 < instants.length)
    (after : instants[index] ≤ instant)
    (before : instant < instants[index + 1]) :
    sample ease instant (instants.zip values) =
      between ease instant instants[index] instants[index + 1] values[index]
        values[index + 1] := by
  obtain ⟨reached, hasReached⟩ := exists_hasReached sorted instant
  obtain rfl := hasReached.eq_of_bracket bound after before
  have next : (instants.zip values)[index + 1]? =
      some (instants[index + 1], values[index + 1]) :=
    List.getElem?_zip_eq_some.mpr
      ⟨List.getElem?_eq_getElem bound, List.getElem?_eq_getElem (by omega)⟩
  rw [sample_of_hasReached_succ sameLength hasReached (List.getElem?_eq_getElem (by omega))
    (List.getElem?_eq_getElem (by omega)), next]

/-- At the instant of a key, keyframes stand for the last value with this instant. -/
theorem sample_eq_of_last
    (sorted : instants.Pairwise (· ≤ ·))
    (sameLength : instants.length = values.length)
    {index : Nat}
    (bound : index < instants.length)
    (here : instants[index] = instant)
    (last : ∀ later, (laterBound : later < instants.length) → index < later →
      instants[later] ≠ instant) :
    sample ease instant (instants.zip values) = values[index] := by
  by_cases more : index + 1 < instants.length
  · have before : instant < instants[index + 1] :=
      lt_of_le_of_ne
        (here ▸ List.pairwise_iff_getElem.mp sorted index (index + 1) bound more (by omega))
        (last (index + 1) more (by omega)).symm
    rw [sample_eq_between sorted sameLength more here.le before, here, between_start]
  · obtain rfl : index = instants.length - 1 := by omega
    exact sample_eq_last sorted sameLength (by omega) here.le

/-- Between the first and the last instant there are two keyframes around. -/
theorem existsUnique_bracket
    (sorted : instants.Pairwise (· ≤ ·))
    (positive : 0 < instants.length)
    (after : instants[0] ≤ instant)
    (before : instant < instants[instants.length - 1]) :
    ∃! index, ∃ bound : index + 1 < instants.length,
      instants[index] ≤ instant ∧ instant < instants[index + 1] := by
  obtain ⟨reached, hasReached⟩ := exists_hasReached sorted instant
  have some := (hasReached.getElem_le_iff positive).mp after
  have notAll := (hasReached.getElem_le_iff (by omega)).not.mp (not_le.mpr before)
  refine ⟨reached - 1, ⟨by omega, ?_, ?_⟩, ?_⟩
  · exact (hasReached.getElem_le_iff (by omega)).mpr (by omega)
  · exact not_le.mp ((hasReached.getElem_le_iff (by omega)).not.mpr (by omega))
  · rintro index ⟨bound, isAfter, isBefore⟩
    have same := hasReached.eq_of_bracket bound isAfter isBefore
    omega

end Keys

/-- Of instants in order and values, as many count as there are of both.  Before the first
instant the first value is sampled, from the last one on the last value, and at the instant of a
key the value of the last key with this instant.  Between the first and the last instant there
is exactly one pair of neighbours around, the later one after the earlier one, and between their
values there is an eased passage.  Searching by position finds the same value, without reading
any further entry and without a division by anything but a positive number. -/
theorem sample_selects_bracket
    (ease : Ease)
    (instant : Rat)
    {instants values : List Rat}
    {count : Nat}
    (sorted : instants.Pairwise (· ≤ ·))
    (length : min instants.length values.length = count)
    (positive : 0 < count) :
    let sampled := sample ease instant (instants.zip values)
    (instant < instants[0] → sampled = values[0]) ∧
    (instants[count - 1] ≤ instant → sampled = values[count - 1]) ∧
    (∀ index, (bound : index < count) → instants[index] = instant →
      (∀ later, (laterBound : later < count) → index < later → instants[later] ≠ instant) →
        sampled = values[index]) ∧
    (instants[0] ≤ instant → instant < instants[count - 1] →
      ∃! index, ∃ bound : index + 1 < count,
        instants[index] ≤ instant ∧ instant < instants[index + 1]) ∧
    (∀ index, (bound : index + 1 < count) →
      instants[index] ≤ instant → instant < instants[index + 1] →
        0 < instants[index + 1] - instants[index] ∧
        sampled = values[index] + (values[index + 1] - values[index]) *
          ease.apply ((instant - instants[index]) /
            (instants[index + 1] - instants[index]))) ∧
    search? ease instant instants values = some sampled := by
  have instantsLength : (instants.take count).length = count :=
    List.length_take_of_le (by omega)
  have valuesLength : (values.take count).length = count :=
    List.length_take_of_le (by omega)
  have sameLength := instantsLength.trans valuesLength.symm
  have sortedTake := sorted.sublist (List.take_sublist count instants)
  have truncated : instants.zip values = (instants.take count).zip (values.take count) := by
    rw [← length]
    exact List.zip_eq_zip_take_min
  refine ⟨fun early => ?_, fun late => ?_, fun index bound here last => ?_,
    fun after before => ?_, fun index bound after before => ⟨?_, ?_⟩,
    search?_eq_sample sorted ease instant values⟩
  · rw [truncated]
    simpa using sample_eq_first sortedTake sameLength (by omega) (by simpa using early)
  · rw [truncated]
    simpa [instantsLength] using
      sample_eq_last sortedTake sameLength (by omega) (by simpa [instantsLength] using late)
  · rw [truncated]
    simpa using sample_eq_of_last sortedTake sameLength (by omega) (by simpa using here)
      (by simpa [instantsLength] using last)
  · simpa [instantsLength] using
      existsUnique_bracket sortedTake (by omega) (by simpa using after)
        (by simpa [instantsLength] using before)
  · exact sub_pos.mpr (after.trans_lt before)
  · have inside : index + 1 < (instants.take count).length := bound.trans_eq instantsLength.symm
    rw [truncated, ← between_eq (after.trans_lt before)]
    simpa using sample_eq_between sortedTake sameLength inside (by simpa using after)
      (by simpa using before)

/-- Two of four keyframes share an instant, and a fifth value has none: at this instant the
second one of the two is sampled, and from there on it is left for the fourth value. -/
theorem sample_selects_bracket_shared_instant :
    let instants : List Rat := [0, 1, 1, 2]
    let values : List Rat := [10, 20, 30, 40, 50]
    instants.Pairwise (· ≤ ·) ∧
    sample .easeIn 1 (instants.zip values) = 30 ∧
    sample .easeIn (3 / 2) (instants.zip values) = 30 + 10 * Ease.easeIn.apply (1 / 2) ∧
    sample .easeIn 5 (instants.zip values) = 40 ∧
    search? .easeIn (3 / 2) instants values = some (65 / 2) := by
  intro instants values
  have sorted : instants.Pairwise (· ≤ ·) := by decide
  have length : min instants.length values.length = 4 := rfl
  have shared := sample_selects_bracket .easeIn 1 sorted length (by decide)
  have within := sample_selects_bracket .easeIn (3 / 2) sorted length (by decide)
  have late := sample_selects_bracket .easeIn 5 sorted length (by decide)
  obtain ⟨-, passage⟩ := within.2.2.2.2.1 2 (by decide)
    (by norm_num [instants]) (by norm_num [instants])
  have eased : sample .easeIn (3 / 2) (instants.zip values) =
      30 + 10 * Ease.easeIn.apply (1 / 2) := by
    rw [passage]
    norm_num [instants, values]
  refine ⟨sorted, ?_, eased, late.2.1 (by norm_num [instants]), ?_⟩
  · refine shared.2.2.1 2 (by decide) rfl fun later bound after => ?_
    obtain rfl : later = 3 := by omega
    norm_num [instants]
  · rw [within.2.2.2.2.2, eased]
    norm_num [Ease.apply, Ease.clamp]

end Keyframe
end Montage
