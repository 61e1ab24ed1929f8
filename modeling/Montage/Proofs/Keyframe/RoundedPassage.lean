import Montage.Keyframe
import Montage.Proofs.Number.Unbounded

/-!
# Passages of floating-point numbers

Between two keys the differences of their instants and of their values are formed before
anything is scaled, so that a difference may be out of range although both numbers and what
is to be found between them are finite.  In range, the progress and the eased progress are
shares between zero and one (`Keyframe.IsWithin.isShare_progress`, `Ease.isShare_apply`), and
nothing but the last addition can go wrong: the difference that is added may have been rounded
up by as much as the largest number is below the end of the range.  This settles when a
passage is finite (`Keyframe.isFinite_between_iff`).
-/

namespace Montage

open Number

/-- A finite number between zero and one. -/
structure IsShare (number : Float) : Prop where
  /-- It is finite. -/
  finite : isFinite number = true
  /-- It is not negative. -/
  nonneg : 0 ≤ exact number
  /-- It is no more than the whole. -/
  le_one : exact number ≤ 1

namespace IsShare

variable {share other : Float}

/-- What lies between zero and one is rounded to a share. -/
theorem of_rounds
    {value : Rat}
    (rounds : Rounds value (Readable.reading share))
    (nonneg : 0 ≤ value)
    (leOne : value ≤ 1) :
    IsShare share := by
  obtain ⟨finite, lower, upper⟩ := rounds.mem_Icc isFinite_zero isFinite_one
    (by rw [exact_zero, exact_one]; exact ⟨nonneg, leOne⟩)
  rw [exact_zero] at lower
  rw [exact_one] at upper
  exact ⟨finite, lower, upper⟩

theorem mul (isShare : IsShare share) (otherShare : IsShare other) : IsShare (share * other) :=
  .of_rounds (rounds_mul isShare.finite otherShare.finite)
    (mul_nonneg isShare.nonneg otherShare.nonneg)
    (mul_le_one₀ isShare.le_one otherShare.nonneg otherShare.le_one)

theorem one_sub (isShare : IsShare share) : IsShare (1 - share) := by
  have rounds := rounds_sub isFinite_one isShare.finite
  rw [exact_one] at rounds
  exact .of_rounds rounds (by linarith [isShare.le_one]) (by linarith [isShare.nonneg])

theorem half (isShare : IsShare share) : IsShare (share / 2) := by
  have rounds := rounds_div isShare.finite isFinite_two (by simp)
  rw [exact_two] at rounds
  exact .of_rounds rounds (by linarith [isShare.nonneg]) (by linarith [isShare.le_one])

theorem twice (isShare : IsShare share) :
    isFinite (2 * share) = true ∧ 0 ≤ exact (2 * share) ∧ exact (2 * share) ≤ 2 := by
  have rounds := rounds_mul isFinite_two isShare.finite
  rw [exact_two] at rounds
  have inside : 2 * exact share ∈ Set.Icc (exact 0) (exact 2) := by
    rw [exact_zero, exact_two]
    constructor
    · linarith [isShare.nonneg]
    · linarith [isShare.le_one]
  obtain ⟨finite, lower, upper⟩ := rounds.mem_Icc isFinite_zero isFinite_two inside
  rw [exact_zero] at lower
  rw [exact_two] at upper
  exact ⟨finite, lower, upper⟩

/-- Twice a share that is less than one half. -/
theorem two_mul
    (isShare : IsShare share)
    (less : 2 * share < 1) :
    IsShare (2 * share) := by
  obtain ⟨finite, lower, -⟩ := isShare.twice
  rw [lt_iff_exact_lt finite isFinite_one, exact_one] at less
  exact ⟨finite, lower, less.le⟩

/-- What remains to two of twice a share that is no less than one half. -/
theorem two_sub_two_mul
    (isShare : IsShare share)
    (notLess : ¬ 2 * share < 1) :
    IsShare (2 - 2 * share) := by
  obtain ⟨finite, -, upper⟩ := isShare.twice
  rw [lt_iff_exact_lt finite isFinite_one, exact_one, not_lt] at notLess
  have rounds := rounds_sub isFinite_two finite
  rw [exact_two] at rounds
  exact .of_rounds rounds (by linarith) (by linarith)

/-- A share of a finite number lies between zero and the number. -/
theorem mul_mem
    {number : Float}
    (isShare : IsShare share)
    (finite : isFinite number = true) :
    isFinite (number * share) = true ∧
      exact (number * share) ≤ max 0 (exact number) ∧
        -exact (number * share) ≤ max 0 (-exact number) := by
  have rounds := rounds_mul finite isShare.finite
  rcases le_total 0 (exact number) with nonneg | nonpos
  · obtain ⟨productFinite, lower, upper⟩ := rounds.mem_Icc isFinite_zero finite
      (by
        rw [exact_zero]
        exact ⟨mul_nonneg nonneg isShare.nonneg, mul_le_of_le_one_right nonneg isShare.le_one⟩)
    rw [exact_zero] at lower
    exact ⟨productFinite, upper.trans (le_max_right _ _),
      (neg_nonpos.mpr lower).trans (le_max_left _ _)⟩
  · obtain ⟨productFinite, lower, upper⟩ := rounds.mem_Icc finite isFinite_zero
      (by
        rw [exact_zero]
        exact ⟨le_mul_of_le_one_right nonpos isShare.le_one,
          mul_nonpos_of_nonpos_of_nonneg nonpos isShare.nonneg⟩)
    rw [exact_zero] at upper
    exact ⟨productFinite, upper.trans (le_max_left _ _),
      (neg_le_neg lower).trans (le_max_right _ _)⟩

/-- Shares are not bent back into the range from zero to one. -/
theorem clamp_eq (isShare : IsShare share) : Ease.clamp share = share := by
  have notNegative : ¬ share < 0 := by
    rw [lt_iff_exact_lt isShare.finite isFinite_zero, exact_zero]
    exact isShare.nonneg.not_gt
  have notLarge : ¬ 1 < share := by
    rw [lt_iff_exact_lt isFinite_one isShare.finite, exact_one]
    exact isShare.le_one.not_gt
  simp only [Ease.clamp, if_neg notNegative, if_neg notLarge]

end IsShare

namespace Ease

variable {progress : Float}

/-- Eased, a share is a share. -/
theorem isShare_apply
    (ease : Ease)
    (isShare : IsShare progress) :
    IsShare (ease.apply progress) := by
  unfold apply
  simp only [isShare.clamp_eq]
  cases ease with
  | linear => exact isShare
  | easeIn => exact isShare.mul isShare
  | easeOut => exact (isShare.one_sub.mul isShare.one_sub).one_sub
  | easeInOut =>
      simp only
      split
      · next less => exact (isShare.two_mul less).mul isShare
      · next notLess =>
          have rest := isShare.two_sub_two_mul notLess
          exact (rest.mul rest).half.one_sub

/-- Every easing curve starts at zero. -/
theorem exact_apply_of_zero
    (ease : Ease)
    (isShare : IsShare progress)
    (isZero : exact progress = 0) :
    exact (ease.apply progress) = 0 := by
  unfold apply
  simp only [isShare.clamp_eq]
  cases ease with
  | linear => exact isZero
  | easeIn =>
      have square := rounds_mul isShare.finite isShare.finite
      rw [isZero, mul_zero] at square
      exact square.exact_eq_zero
  | easeOut =>
      have rest := isShare.one_sub
      have isOne : exact (1 - progress) = 1 := by
        have rounds := rounds_sub isFinite_one isShare.finite
        rw [isZero, exact_one, sub_zero] at rounds
        exact rounds.exact_eq_one
      have squareOne : exact ((1 - progress) * (1 - progress)) = 1 := by
        have rounds := rounds_mul rest.finite rest.finite
        rw [isOne, mul_one] at rounds
        exact rounds.exact_eq_one
      have rounds := rounds_sub isFinite_one (rest.mul rest).finite
      rw [squareOne, exact_one, sub_self] at rounds
      exact rounds.exact_eq_zero
  | easeInOut =>
      have finite := isShare.twice.1
      have twiceZero : exact (2 * progress) = 0 := by
        have rounds := rounds_mul isFinite_two isShare.finite
        rw [isZero, mul_zero] at rounds
        exact rounds.exact_eq_zero
      have less : 2 * progress < 1 := by
        rw [lt_iff_exact_lt finite isFinite_one, twiceZero, exact_one]
        exact zero_lt_one
      have rounds := rounds_mul finite isShare.finite
      rw [isZero, mul_zero] at rounds
      simp only [if_pos less]
      exact rounds.exact_eq_zero

/-- Undefined progress is not eased to a finite number. -/
theorem not_isFinite_apply
    (ease : Ease)
    (undefined : Readable.reading progress = .undefined) :
    ¬ isFinite (ease.apply progress) = true := by
  have notFinite : ¬ isFinite progress = true := by
    rw [isFinite_iff_reading, undefined]
    exact Reading.noConfusion
  have kept : clamp progress = progress := by
    simp only [clamp, if_neg (not_lt_of_undefined undefined 0).1,
      if_neg (not_lt_of_undefined undefined 1).2]
  unfold apply
  simp only [kept]
  intro finite
  cases ease with
  | linear => exact notFinite finite
  | easeIn => exact notFinite (isFinite_of_isFinite_mul finite).1
  | easeOut =>
      have square := (isFinite_of_isFinite_sub finite).2
      exact notFinite (isFinite_of_isFinite_sub (isFinite_of_isFinite_mul square).1).2
  | easeInOut =>
      simp only at finite
      split at finite
      · exact notFinite (isFinite_of_isFinite_mul finite).2
      · have square := isFinite_of_isFinite_div (isFinite_of_isFinite_sub finite).2
        have twice := (isFinite_of_isFinite_sub (isFinite_of_isFinite_mul square).1).2
        exact notFinite (isFinite_of_isFinite_mul twice).2

end Ease

namespace Keyframe

/-! ## Progress -/

/-- A finite instant from a key on and before the next one. -/
structure IsWithin (instant start stop : Float) : Prop where
  /-- The instant is finite. -/
  finite : isFinite instant = true
  /-- So is the key. -/
  startFinite : isFinite start = true
  /-- So is the next one. -/
  stopFinite : isFinite stop = true
  /-- The key has been reached. -/
  reached : exact start ≤ exact instant
  /-- The next one has not. -/
  before : exact instant < exact stop

section Progress

variable {instant start stop : Float}

theorem IsWithin.span_cases (within : IsWithin instant start stop) :
    (exact stop - exact start < overflow ∧ isFinite (stop - start) = true ∧
        0 < exact (stop - start)) ∨
      Readable.reading (stop - start) = .infinite false := by
  have inOrder := within.reached.trans_lt within.before
  have rounds := rounds_sub within.stopFinite within.startFinite
  have magnitude : |exact stop - exact start| = exact stop - exact start :=
    abs_of_pos (sub_pos.mpr inOrder)
  rcases lt_or_ge (exact stop - exact start) overflow with inRange | outOfRange
  · have finite := rounds.isFinite_iff.mpr (magnitude.trans_lt inRange)
    exact Or.inl ⟨inRange, finite,
      exact_sub_pos within.stopFinite within.startFinite inOrder finite⟩
  · have reading := rounds.reading_of_le (outOfRange.trans_eq magnitude.symm)
    rw [decide_eq_false (sub_pos.mpr inOrder).not_gt] at reading
    exact Or.inr reading

/-- The span between the keys is found to be positive. -/
theorem IsWithin.span_pos (within : IsWithin instant start stop) :
    0 < stop - start ∧ ¬ stop - start ≤ 0 := by
  rcases within.span_cases with ⟨-, finite, positive⟩ | infinite
  · rw [lt_iff_exact_lt isFinite_zero finite, le_iff_exact_le finite isFinite_zero, exact_zero]
    exact ⟨positive, positive.not_ge⟩
  · exact lt_of_infinite isFinite_zero infinite

/-- From so far behind a key there is no progress to be told. -/
theorem IsWithin.reading_progress
    (within : IsWithin instant start stop)
    (outOfRange : overflow ≤ exact instant - exact start) :
    Readable.reading ((instant - start) / (stop - start)) = .undefined := by
  have infinite := (rounds_sub within.finite within.startFinite).reading_of_le
    (outOfRange.trans (le_abs_self _))
  rcases within.span_cases with ⟨inRange, -, -⟩ | spanInfinite
  · linarith [within.before]
  · exact reading_infinite_div_infinite infinite spanInfinite

/-- In range the progress is a share, which is zero at the key itself. -/
theorem IsWithin.isShare_progress
    (within : IsWithin instant start stop)
    (inRange : exact instant - exact start < overflow) :
    IsShare ((instant - start) / (stop - start)) ∧
      (exact instant = exact start → exact ((instant - start) / (stop - start)) = 0) := by
  have rounds := rounds_sub within.finite within.startFinite
  have nonneg : 0 ≤ exact instant - exact start := sub_nonneg.mpr within.reached
  have finite : isFinite (instant - start) = true :=
    rounds.isFinite_iff.mpr ((abs_of_nonneg nonneg).trans_lt inRange)
  rcases within.span_cases with ⟨-, spanFinite, spanPos⟩ | infinite
  · have quotient := rounds_div finite spanFinite spanPos.ne'
    have lower : 0 ≤ exact (instant - start) := by
      rw [← exact_zero]
      exact rounds.le_exact finite isFinite_zero (exact_zero ▸ nonneg)
    have upper : exact (instant - start) ≤ exact (stop - start) :=
      rounds.exact_le_exact (rounds_sub within.stopFinite within.startFinite) finite spanFinite
        (sub_lt_sub_right within.before _)
    refine ⟨.of_rounds quotient (div_nonneg lower spanPos.le) ((div_le_one spanPos).mpr upper),
      fun same => ?_⟩
    rw [same, sub_self] at rounds
    rw [rounds.exact_eq_zero, zero_div] at quotient
    exact quotient.exact_eq_zero
  · have isZero := reading_div_of_infinite finite infinite
    have value := exact_of_reading isZero
    exact ⟨⟨isFinite_of_reading isZero, value.ge, value.trans_le zero_le_one⟩, fun _ => value⟩

end Progress

/-! ## The passage between two keys -/

section Rounded

variable {top step startValue stopValue difference share added : Rat}

/-- What is added to the value of a key does not lead half a step above the largest number,
as long as it is not all of the difference.  The difference may have been rounded up by that
half step, but then it is so large that the product is at least as much smaller. -/
theorem add_lt_of_rounded
    (stepPos : 0 < step)
    (startLe : startValue ≤ top)
    (stopLe : stopValue ≤ top)
    (close : |difference - (stopValue - startValue)| ≤ step)
    (closer : |stopValue - startValue| < 2 ^ 53 * step →
      |difference - (stopValue - startValue)| ≤ step / 2)
    (less : share ≤ 1 - 2 ^ (-53 : Int))
    (addedLe : added ≤ max 0 difference)
    (addedClose : |added - difference * share| ≤ step) :
    startValue + added < top + step := by
  by_contra large
  have positive : 0 < difference := by
    by_contra negative
    rw [max_eq_left (not_lt.mp negative)] at addedLe
    linarith
  rw [max_eq_right positive.le] at addedLe
  -- The sum is only reached when the difference has been rounded up by the whole half step.
  have far : 2 ^ 53 * step ≤ |stopValue - startValue| := by
    by_contra short
    have near := abs_le.mp (closer (not_le.mp short))
    linarith
  have near := abs_le.mp close
  have rising : 2 ^ 53 * step ≤ stopValue - startValue := by
    rcases le_abs.mp far with rising | falling
    · exact rising
    · linarith
  -- What the share leaves of such a difference is more than this half step.
  have left : step < difference * 2 ^ (-53 : Int) := by
    have whole : (2 : Rat) ^ 53 * 2 ^ (-53 : Int) = 1 := by norm_num
    have more : (2 : Rat) ^ 53 * step < difference := by linarith
    calc step
      _ = 2 ^ 53 * step * 2 ^ (-53 : Int) := by rw [mul_right_comm, whole, one_mul]
      _ < difference * 2 ^ (-53 : Int) := mul_lt_mul_of_pos_right more (by positivity)
  have scaled := mul_le_mul_of_nonneg_left less positive.le
  have above := (abs_le.mp addedClose).2
  linarith

/-- The same at both ends of the range. -/
theorem abs_add_lt_of_rounded
    (stepPos : 0 < step)
    (startLe : |startValue| ≤ top)
    (stopLe : |stopValue| ≤ top)
    (close : |difference - (stopValue - startValue)| ≤ step)
    (closer : |stopValue - startValue| < 2 ^ 53 * step →
      |difference - (stopValue - startValue)| ≤ step / 2)
    (less : share ≤ 1 - 2 ^ (-53 : Int))
    (above : added ≤ max 0 difference)
    (below : -added ≤ max 0 (-difference))
    (addedClose : |added - difference * share| ≤ step) :
    |startValue + added| < top + step := by
  have startBounds := abs_le.mp startLe
  have stopBounds := abs_le.mp stopLe
  have spread : |-stopValue - -startValue| = |stopValue - startValue| := by
    rw [← abs_neg]
    ring_nf
  have rounding : |-difference - (-stopValue - -startValue)| =
      |difference - (stopValue - startValue)| := by
    rw [← abs_neg]
    ring_nf
  have product : |-added - -difference * share| = |added - difference * share| := by
    rw [← abs_neg]
    ring_nf
  have opposite : -startValue + -added < top + step :=
    add_lt_of_rounded stepPos (by linarith) (show -stopValue ≤ top by linarith)
      (rounding.trans_le close)
      (fun short => rounding.trans_le (closer (spread.symm.trans_lt short))) less below
      (product.trans_le addedClose)
  refine abs_lt.mpr ⟨by linarith, ?_⟩
  exact add_lt_of_rounded stepPos startBounds.2 stopBounds.2 close closer less above addedClose

end Rounded

section Between

variable {ease : Ease} {instant start stop startValue stopValue : Float}

/-- On the way from one key to the next no difference is out of range, nor is the sum when
all of the difference of the values is added. -/
structure PassesInRange
    (ease : Ease)
    (instant start stop startValue stopValue : Float) : Prop where
  /-- The instant is not too far behind the key. -/
  instants : exact instant - exact start < overflow
  /-- The values are not too far from each other. -/
  values : |exact stopValue - exact startValue| < overflow
  /-- The rounded difference does not lead out of range. -/
  sum : exact (ease.apply ((instant - start) / (stop - start))) = 1 →
    |exact startValue + exact (stopValue - startValue)| < overflow

theorem IsWithin.between_eq (within : IsWithin instant start stop) :
    between ease instant start stop startValue stopValue =
      startValue + (stopValue - startValue) *
        ease.apply ((instant - start) / (stop - start)) := by
  simp only [between, if_neg within.span_pos.2]

variable (within : IsWithin instant start stop)
  (startFinite : isFinite startValue = true) (stopFinite : isFinite stopValue = true)

include startFinite stopFinite in
/-- A share of the difference of two values is added without leaving the range, if it is less
than all of it. -/
theorem abs_add_lt_overflow
    {share : Float}
    (isShare : IsShare share)
    (notAll : exact share < 1)
    (differenceFinite : isFinite (stopValue - startValue) = true) :
    |exact startValue + exact ((stopValue - startValue) * share)| < overflow := by
  have difference := rounds_sub stopFinite startFinite
  have product := rounds_mul differenceFinite isShare.finite
  obtain ⟨productFinite, above, below⟩ := isShare.mul_mem differenceFinite
  have less := (unpacks_of_isFinite isShare.finite).isRepresentable.le_of_lt_one notAll
  have close := difference.abs_exact_sub_le_two_zpow differenceFinite
  have closer : |exact stopValue - exact startValue| < 2 ^ 53 * 2 ^ (970 : Int) →
      |exact (stopValue - startValue) - (exact stopValue - exact startValue)| ≤
        2 ^ (970 : Int) / 2 := by
    intro short
    refine difference.abs_exact_sub_le_half differenceFinite (by decide) ?_
    rw [zpow_add₀ two_ne_zero]
    exact short
  have productClose := product.abs_exact_sub_le_two_zpow productFinite
  rw [← largest_add_half_step]
  exact abs_add_lt_of_rounded (by positivity) (abs_exact_le_largest startFinite)
    (abs_exact_le_largest stopFinite) close closer less above below productClose

include within startFinite stopFinite

/-- What keys pass through is finite as long as they pass in range. -/
theorem isFinite_between_iff :
    isFinite (between ease instant start stop startValue stopValue) = true ↔
      PassesInRange ease instant start stop startValue stopValue := by
  have difference := rounds_sub stopFinite startFinite
  have allAdded : ∀ share : Float, isFinite share = true → exact share = 1 →
      isFinite (stopValue - startValue) = true →
        exact ((stopValue - startValue) * share) = exact (stopValue - startValue) := by
    intro share shareFinite all finite
    have product := rounds_mul finite shareFinite
    rw [all, mul_one] at product
    exact (product.exact_eq finite).2
  rw [within.between_eq]
  constructor
  · intro finite
    have productFinite := (isFinite_of_isFinite_add finite).2
    obtain ⟨differenceFinite, easedFinite⟩ := isFinite_of_isFinite_mul productFinite
    refine ⟨?_, difference.isFinite_iff.mp differenceFinite, fun all => ?_⟩
    · by_contra outOfRange
      exact ease.not_isFinite_apply (within.reading_progress (not_lt.mp outOfRange)) easedFinite
    · rw [← allAdded _ easedFinite all differenceFinite]
      exact (rounds_add startFinite productFinite).isFinite_iff.mp finite
  · rintro ⟨instants, values, sum⟩
    have differenceFinite := difference.isFinite_iff.mpr values
    have isShare := ease.isShare_apply (within.isShare_progress instants).1
    have productFinite := (isShare.mul_mem differenceFinite).1
    refine (rounds_add startFinite productFinite).isFinite_iff.mpr ?_
    by_cases all : exact (ease.apply ((instant - start) / (stop - start))) = 1
    · rw [allAdded _ isShare.finite all differenceFinite]
      exact sum all
    · exact abs_add_lt_overflow startFinite stopFinite isShare
        (lt_of_le_of_ne isShare.le_one all) differenceFinite

/-- At the first one of two keys its own value stands, if the difference to the next one is
in range. -/
theorem exact_between_of_start
    (same : exact instant = exact start)
    (inRange : |exact stopValue - exact startValue| < overflow) :
    isFinite (between ease instant start stop startValue stopValue) = true ∧
      exact (between ease instant start stop startValue stopValue) = exact startValue := by
  have differenceFinite := (rounds_sub stopFinite startFinite).isFinite_iff.mpr inRange
  obtain ⟨isShare, none⟩ := within.isShare_progress
    (by rw [same, sub_self]; exact overflow_pos)
  have easedShare := ease.isShare_apply isShare
  have product := rounds_mul differenceFinite easedShare.finite
  rw [ease.exact_apply_of_zero isShare (none same), mul_zero] at product
  have sum := rounds_add startFinite (easedShare.mul_mem differenceFinite).1
  rw [product.exact_eq_zero, add_zero] at sum
  rw [within.between_eq]
  exact sum.exact_eq startFinite

end Between

end Keyframe
end Montage
