import Montage.Proofs.Keyframe.Position
import Montage.Proofs.Keyframe.RoundedPassage

/-!
# Keyframes at the end of the range of numbers

Comparing finite floating-point numbers is comparing their exact values, so that finite keys
in order are reached in order, and halving finds the step that an instant is in.  What the keys
stand for is finite before the first and from the last one on, but in a step only when the
passage is in range (`Keyframe.search?_isFinite_iff_passesInRange`).
-/

namespace Montage
namespace Keyframe

open Number

/-! ## Searching -/

/-- At a finite instant a value is found among finite instants, whatever order they are in. -/
theorem isSome_search?_of_isFinite
    {instants values : List Float}
    {instant : Float}
    (instantsFinite : ∀ start ∈ instants, isFinite start = true)
    (finite : isFinite instant = true)
    (ease : Ease) :
    (search? ease instant instants values).isSome = true := by
  rw [Option.isSome_iff_ne_none]
  intro nothing
  obtain ⟨index, start, stop, here, there, reached, notReached, -, notPositive⟩ :=
    exists_span_of_search?_eq_none nothing
  have startFinite := instantsFinite start (List.mem_of_getElem? here)
  have stopFinite := instantsFinite stop (List.mem_of_getElem? there)
  rw [le_iff_exact_le startFinite finite] at reached
  rw [le_iff_exact_le stopFinite finite, not_le] at notReached
  have within : IsWithin instant start stop :=
    ⟨finite, startFinite, stopFinite, reached, notReached⟩
  exact notPositive within.span_pos.1

/-- Keys of finite numbers in order, with a value for each instant. -/
structure AreKeys (instants values : List Float) : Prop where
  /-- The instants are finite. -/
  instantsFinite : ∀ start ∈ instants, isFinite start = true
  /-- So are the values. -/
  valuesFinite : ∀ value ∈ values, isFinite value = true
  /-- There are as many of both. -/
  sameLength : instants.length = values.length
  /-- Each instant lies before those behind it. -/
  increasing : instants.Pairwise (· < ·)

namespace AreKeys

variable {instants values : List Float} {instant start stop : Float} {index : Nat}

theorem isWithin
    (keys : AreKeys instants values)
    (finite : isFinite instant = true)
    (here : instants[index]? = some start)
    (there : instants[index + 1]? = some stop)
    (reached : start ≤ instant)
    (before : instant < stop) :
    IsWithin instant start stop where
  finite := finite
  startFinite := keys.instantsFinite start (List.mem_of_getElem? here)
  stopFinite := keys.instantsFinite stop (List.mem_of_getElem? there)
  reached := (le_iff_exact_le (keys.instantsFinite start (List.mem_of_getElem? here)) finite).mp
    reached
  before := (lt_iff_exact_lt finite (keys.instantsFinite stop (List.mem_of_getElem? there))).mp
    before

theorem lt_of_getElem?
    (keys : AreKeys instants values)
    (here : instants[index]? = some start)
    (there : instants[index + 1]? = some stop) :
    start < stop := by
  obtain ⟨bound, rfl⟩ := List.getElem?_eq_some_iff.mp here
  obtain ⟨bound', rfl⟩ := List.getElem?_eq_some_iff.mp there
  exact List.pairwise_iff_getElem.mp keys.increasing index (index + 1) bound bound'
    (Nat.lt_succ_self index)

theorem reachesInOrder
    (keys : AreKeys instants values)
    (finite : isFinite instant = true) :
    ReachesInOrder instants instant := by
  refine keys.increasing.imp_of_mem fun {start stop} member stopMember less reached => ?_
  have startFinite := keys.instantsFinite start member
  have stopFinite := keys.instantsFinite stop stopMember
  rw [lt_iff_exact_lt startFinite stopFinite] at less
  rw [le_iff_exact_le stopFinite finite] at reached
  exact (le_iff_exact_le startFinite finite).mpr (less.le.trans reached)

/-- The instants that have been reached are the first so many. -/
theorem exists_hasReached
    (keys : AreKeys instants values)
    (nonempty : 0 < values.length)
    (finite : isFinite instant = true) :
    ∃ reached, HasReached instants instant reached := by
  obtain ⟨reached, -, isBorder⟩ := exists_reachedWithin?_length instant
    (keys.sameLength ▸ nonempty)
  exact ⟨reached, isBorder.hasReached (keys.reachesInOrder finite)⟩

/-- Searching by position finds the value that the keys stand for. -/
theorem search?_eq_sample
    (keys : AreKeys instants values)
    (finite : isFinite instant = true)
    (ease : Ease) :
    search? ease instant instants values =
      some (sample ease instant (instants.zip values)) := by
  refine search?_eq_sample_of_reachesInOrder keys.sameLength (keys.reachesInOrder finite)
    fun index start stop here there _ => ?_
  have startFinite := keys.instantsFinite start (List.mem_of_getElem? here)
  have reflexive : start ≤ start := (le_iff_exact_le startFinite startFinite).mpr le_rfl
  exact (keys.isWithin startFinite here there reflexive (keys.lt_of_getElem? here there)).span_pos.1

/-! ## What keys stand for -/

variable {startValue stopValue : Float} (ease : Ease)

theorem sample_of_lt
    (keys : AreKeys instants values)
    (finite : isFinite instant = true)
    (first : instants[0]? = some start)
    (firstValue : values[0]? = some startValue)
    (before : instant < start) :
    sample ease instant (instants.zip values) = startValue := by
  have nonempty := (List.getElem?_eq_some_iff.mp firstValue).1
  obtain ⟨reached, hasReached⟩ := keys.exists_hasReached nonempty finite
  have startFinite := keys.instantsFinite start (List.mem_of_getElem? first)
  rw [lt_iff_exact_lt finite startFinite] at before
  have notReached := (hasReached.le_iff 0 start first).not.mp
    (by rw [le_iff_exact_le startFinite finite]; exact before.not_ge)
  obtain rfl : reached = 0 := by omega
  exact sample_of_hasReached_zero hasReached first firstValue

theorem sample_of_last
    (keys : AreKeys instants values)
    (finite : isFinite instant = true)
    (last : instants.getLast? = some start)
    (lastValue : values.getLast? = some startValue)
    (reachedLast : start ≤ instant) :
    sample ease instant (instants.zip values) = startValue := by
  rw [List.getLast?_eq_getElem?] at last lastValue
  have nonempty := (List.getElem?_eq_some_iff.mp lastValue).1
  obtain ⟨reached, hasReached⟩ := keys.exists_hasReached (by omega) finite
  have after := (hasReached.le_iff _ start last).mp reachedLast
  have bound := hasReached.le_length
  have sameLength := keys.sameLength
  obtain rfl : reached = instants.length - 1 + 1 := by omega
  rw [← sameLength] at lastValue
  rw [sample_of_hasReached_succ sameLength hasReached last lastValue,
    List.getElem?_eq_none (by rw [List.length_zip]; omega)]

theorem sample_of_step
    (keys : AreKeys instants values)
    (finite : isFinite instant = true)
    (here : instants[index]? = some start)
    (there : instants[index + 1]? = some stop)
    (hereValue : values[index]? = some startValue)
    (thereValue : values[index + 1]? = some stopValue)
    (reachedStart : start ≤ instant)
    (before : instant < stop) :
    sample ease instant (instants.zip values) =
      between ease instant start stop startValue stopValue := by
  have nonempty := (List.getElem?_eq_some_iff.mp hereValue).1
  obtain ⟨reached, hasReached⟩ := keys.exists_hasReached (by omega) finite
  have stopFinite := keys.instantsFinite stop (List.mem_of_getElem? there)
  rw [lt_iff_exact_lt finite stopFinite] at before
  have notReached := (hasReached.le_iff _ stop there).not.mp
    (by rw [le_iff_exact_le stopFinite finite]; exact before.not_ge)
  have after := (hasReached.le_iff _ start here).mp reachedStart
  obtain rfl : reached = index + 1 := by omega
  have next : (instants.zip values)[index + 1]? = some (stop, stopValue) :=
    List.getElem?_zip_eq_some.mpr ⟨there, thereValue⟩
  rw [sample_of_hasReached_succ keys.sameLength hasReached here hereValue, next]

/-- Every finite instant lies before the first key, behind the last one or in a step between
two of them. -/
theorem exists_place
    (keys : AreKeys instants values)
    (nonempty : 0 < values.length)
    (finite : isFinite instant = true) :
    (∃ start startValue, instants[0]? = some start ∧ values[0]? = some startValue ∧
        instant < start) ∨
      (∃ start startValue, instants.getLast? = some start ∧ values.getLast? = some startValue ∧
        start ≤ instant) ∨
      ∃ index start stop startValue stopValue, instants[index]? = some start ∧
        instants[index + 1]? = some stop ∧ values[index]? = some startValue ∧
        values[index + 1]? = some stopValue ∧ start ≤ instant ∧ instant < stop := by
  obtain ⟨reached, hasReached⟩ := keys.exists_hasReached nonempty finite
  have sameLength := keys.sameLength
  have notReached : ∀ index start, instants[index]? = some start → ¬ index < reached →
      instant < start := by
    intro index start here notLess
    have startFinite := keys.instantsFinite start (List.mem_of_getElem? here)
    rw [lt_iff_exact_lt finite startFinite, ← not_le, ← le_iff_exact_le startFinite finite]
    exact (hasReached.le_iff index start here).not.mpr notLess
  cases reached with
  | zero =>
      obtain ⟨start, value, here, hereValue⟩ := exists_entry sameLength 0 nonempty
      exact Or.inl ⟨start, value, here, hereValue, notReached 0 start here (Nat.lt_irrefl 0)⟩
  | succ index =>
      have bound := hasReached.le_length
      obtain ⟨start, startValue, here, hereValue⟩ :=
        exists_entry sameLength index (by omega)
      have reachedStart := (hasReached.le_iff index start here).mpr (Nat.lt_succ_self index)
      by_cases last : index + 1 = values.length
      · refine Or.inr (Or.inl ⟨start, startValue, ?_, ?_, reachedStart⟩)
        · rw [List.getLast?_eq_getElem?, show instants.length - 1 = index by omega, here]
        · rw [List.getLast?_eq_getElem?, show values.length - 1 = index by omega, hereValue]
      · obtain ⟨stop, stopValue, there, thereValue⟩ :=
          exists_entry sameLength (index + 1) (by omega)
        exact Or.inr (Or.inr ⟨index, start, stop, startValue, stopValue, here, there, hereValue,
          thereValue, reachedStart, notReached _ stop there (Nat.lt_irrefl _)⟩)

/-- At the first instant the first value stands, if the difference to the next one is in
range. -/
theorem exact_sample_of_first
    (keys : AreKeys instants values)
    (finite : isFinite instant = true)
    (first : instants[0]? = some start)
    (firstValue : values[0]? = some startValue)
    (same : exact instant = exact start)
    (inRange : ∀ next, values[1]? = some next →
      |exact next - exact startValue| < overflow) :
    exact (sample ease instant (instants.zip values)) = exact startValue := by
  have startFinite := keys.instantsFinite start (List.mem_of_getElem? first)
  have reachedStart : start ≤ instant := (le_iff_exact_le startFinite finite).mpr same.ge
  have sameLength := keys.sameLength
  cases there : instants[1]? with
  | none =>
      have short := List.getElem?_eq_none_iff.mp there
      have nonempty := (List.getElem?_eq_some_iff.mp first).1
      rw [keys.sample_of_last ease finite _ _ reachedStart]
      · rw [List.getLast?_eq_getElem?, show instants.length - 1 = 0 by omega, first]
      · rw [List.getLast?_eq_getElem?, show values.length - 1 = 0 by omega, firstValue]
  | some stop =>
      have inside := (List.getElem?_eq_some_iff.mp there).1
      obtain ⟨stopValue, thereValue⟩ : ∃ stopValue, values[1]? = some stopValue :=
        ⟨_, List.getElem?_eq_getElem (by omega)⟩
      have stopFinite := keys.instantsFinite stop (List.mem_of_getElem? there)
      have before : instant < stop := by
        rw [lt_iff_exact_lt finite stopFinite, same, ← lt_iff_exact_lt startFinite stopFinite]
        exact keys.lt_of_getElem? first there
      rw [keys.sample_of_step ease finite first there firstValue thereValue reachedStart before]
      exact (exact_between_of_start (keys.isWithin finite first there reachedStart before)
        (keys.valuesFinite _ (List.mem_of_getElem? firstValue))
        (keys.valuesFinite _ (List.mem_of_getElem? thereValue)) same
        (inRange stopValue thereValue)).2

end AreKeys

/-- A number whose magnitude is less than half of the range. -/
def IsModerate (number : Float) : Prop :=
  |exact number| < overflow / 2

/-- The difference of moderate numbers is in range. -/
theorem IsModerate.abs_sub_lt
    {number other : Float}
    (moderate : IsModerate number)
    (otherModerate : IsModerate other) :
    |exact number - exact other| < overflow := by
  have triangle := abs_sub (exact number) (exact other)
  unfold IsModerate at moderate otherModerate
  linarith

/-- Between moderate keys everything is in range. -/
theorem IsModerate.passesInRange
    {ease : Ease}
    {instant start stop startValue stopValue : Float}
    (instantModerate : IsModerate instant)
    (startModerate : IsModerate start)
    (valueModerate : IsModerate startValue)
    (stopModerate : IsModerate stopValue)
    (startFinite : isFinite startValue = true)
    (stopFinite : isFinite stopValue = true) :
    PassesInRange ease instant start stop startValue stopValue where
  instants := (le_abs_self _).trans_lt (instantModerate.abs_sub_lt startModerate)
  values := stopModerate.abs_sub_lt valueModerate
  sum _ := by
    have difference := rounds_sub stopFinite startFinite
    have finite := difference.isFinite_iff.mpr (stopModerate.abs_sub_lt valueModerate)
    have close := difference.abs_exact_sub_le_two_zpow finite
    have small := two_zpow_lt_overflow (970 + 1) (by decide)
    rw [zpow_add_one₀ two_ne_zero] at small
    have sum : exact startValue + exact (stopValue - startValue) = exact stopValue +
        (exact (stopValue - startValue) - (exact stopValue - exact startValue)) := by ring
    unfold IsModerate at stopModerate
    generalize (2 : Rat) ^ (970 : Int) = step at close small
    rw [sum]
    refine (abs_add_le _ _).trans_lt ?_
    linarith

variable {instants values : List Float} {instant : Float}

/-- Among keys of finite numbers in order the search finds what the keys stand for: before the
first instant the first value, from the last instant on the last value, each exactly.  From one
instant on and before the next one the value is finite exactly when the two differences that are
formed are in range, and the sum too when all of the difference is added; at the instant itself
it is then the value of the key.  Hence everything is finite, and exact at both ends, as long as
no magnitude reaches half of the range. -/
theorem search?_isFinite_iff_passesInRange
    (keys : AreKeys instants values)
    (nonempty : 0 < values.length)
    (finite : isFinite instant = true)
    (ease : Ease) :
    ∃ sampled, search? ease instant instants values = some sampled ∧
      sample ease instant (instants.zip values) = sampled ∧
      (∀ start value, instants.head? = some start → values.head? = some value →
        instant < start → sampled = value) ∧
      (∀ stop value, instants.getLast? = some stop → values.getLast? = some value →
        stop ≤ instant → sampled = value) ∧
      (∀ index start stop startValue stopValue,
        instants[index]? = some start → instants[index + 1]? = some stop →
        values[index]? = some startValue → values[index + 1]? = some stopValue →
        start ≤ instant → instant < stop →
          (isFinite sampled = true ↔
            PassesInRange ease instant start stop startValue stopValue) ∧
          (exact instant = exact start → |exact stopValue - exact startValue| < overflow →
            exact sampled = exact startValue)) ∧
      ((∀ number ∈ instant :: instants ++ values, IsModerate number) →
        isFinite sampled = true ∧
        ∀ start value, instants.head? = some start → values.head? = some value →
          exact instant = exact start → exact sampled = exact value) := by
  have found := keys.search?_eq_sample finite ease
  have valueFinite : ∀ {index : Nat} {value : Float}, values[index]? = some value →
      isFinite value = true := fun here => keys.valuesFinite _ (List.mem_of_getElem? here)
  refine ⟨_, found, rfl, ?_, ?_, ?_, ?_⟩
  · intro start value first firstValue before
    rw [List.head?_eq_getElem?] at first firstValue
    exact keys.sample_of_lt ease finite first firstValue before
  · intro stop value last lastValue after
    exact keys.sample_of_last ease finite last lastValue after
  · intro index start stop startValue stopValue here there hereValue thereValue after before
    have within := keys.isWithin finite here there after before
    rw [keys.sample_of_step ease finite here there hereValue thereValue after before]
    exact ⟨isFinite_between_iff within (valueFinite hereValue) (valueFinite thereValue),
      fun same inRange => (exact_between_of_start within (valueFinite hereValue)
        (valueFinite thereValue) same inRange).2⟩
  · intro moderate
    have isModerate : ∀ {index : Nat} {value : Float}, values[index]? = some value →
        IsModerate value := fun here => moderate _ (by simp [List.mem_of_getElem? here])
    refine ⟨?_, fun start value first firstValue same => ?_⟩
    · obtain ⟨start, value, first, firstValue, before⟩ |
        ⟨stop, value, last, lastValue, after⟩ |
        ⟨index, start, stop, startValue, stopValue, here, there, hereValue, thereValue, after,
          before⟩ := keys.exists_place nonempty finite
      · rw [keys.sample_of_lt ease finite first firstValue before]
        exact valueFinite firstValue
      · rw [keys.sample_of_last ease finite last lastValue after]
        exact keys.valuesFinite value (List.mem_of_getLast? lastValue)
      · rw [keys.sample_of_step ease finite here there hereValue thereValue after before]
        refine (isFinite_between_iff (keys.isWithin finite here there after before)
          (valueFinite hereValue) (valueFinite thereValue)).mpr ?_
        exact (moderate instant (by simp)).passesInRange
          (moderate start (by simp [List.mem_of_getElem? here])) (isModerate hereValue)
          (isModerate thereValue) (valueFinite hereValue) (valueFinite thereValue)
    · rw [List.head?_eq_getElem?] at first firstValue
      exact keys.exact_sample_of_first ease finite first firstValue same fun next thereValue =>
        (isModerate thereValue).abs_sub_lt (isModerate firstValue)

/-- The greatest number. -/
def greatest : Float :=
  1.7976931348623157e308

/-- The number opposite to it. -/
def lowest : Float :=
  -1.7976931348623157e308

theorem areKeys_lowest_greatest : AreKeys [0, 1] [lowest, greatest] :=
  ⟨by decide +kernel, by decide +kernel, by simp, by decide +kernel⟩

/-- Between the two the difference is infinite, and taken zero times it is no number. -/
theorem sample_lowest_greatest :
    (AreKeys [0, 1] [lowest, greatest] ∧ isFinite (0 : Float) = true) ∧
    isFinite (sample .linear 0 [(0, lowest), (1, greatest)]) = false ∧
    ¬ PassesInRange .linear 0 0 1 lowest greatest := by
  obtain ⟨sampled, -, isSampled, -, -, step, -⟩ :=
    search?_isFinite_iff_passesInRange areKeys_lowest_greatest (by decide) isFinite_zero .linear
  have notFinite : isFinite (sample .linear 0 [(0, lowest), (1, greatest)]) = false := by
    decide +kernel
  refine ⟨⟨areKeys_lowest_greatest, isFinite_zero⟩, notFinite, fun passes => ?_⟩
  have finite := (step 0 0 1 lowest greatest rfl rfl rfl rfl (by decide) (by decide)).1.mpr passes
  rw [← isSampled] at finite
  exact absurd finite (Bool.eq_false_iff.mp notFinite)

/-- What is found among finite keys need not be finite, nor be the first value at the first
instant. -/
theorem not_forall_isFinite_sample :
    ¬ ∀ (ease : Ease) (instant : Float) (instants values : List Float),
      AreKeys instants values → 0 < values.length → isFinite instant = true →
        isFinite (sample ease instant (instants.zip values)) = true ∧
        (∀ start value, instants.head? = some start → values.head? = some value →
          instant = start → exact (sample ease instant (instants.zip values)) = exact value) ∧
        (∀ stop value, instants.getLast? = some stop → values.getLast? = some value →
          instant = stop → exact (sample ease instant (instants.zip values)) = exact value) := by
  intro all
  have finite := (all .linear 0 [0, 1] [lowest, greatest] areKeys_lowest_greatest (by decide)
    isFinite_zero).1
  exact absurd finite (by decide +kernel)

end Keyframe
end Montage
