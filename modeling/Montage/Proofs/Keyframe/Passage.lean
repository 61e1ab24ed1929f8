import Montage.Proofs.Keyframe.Brackets

/-!
# Keyframes pass without overshooting

What is sampled lies between the values of the two keyframes around, and so never leaves the
range of all values.  When the values go one way only, so does the sampling, over the whole
time: within one pair of neighbours the easing curve carries it, and across pairs the values
in between do (`Keyframe.sample_never_overshoots`).

All numbers are exact here.
-/

namespace Montage
namespace Keyframe

/-- The positions of the keyframe before an instant and of the one after it.  In front of the
first instant and from the last one on, a single keyframe is on both sides. -/
inductive IsBracket (instants : List Rat) (instant : Rat) : Nat → Nat → Prop
  | front
      {start : Rat}
      (here : instants[0]? = some start)
      (early : instant < start) : IsBracket instants instant 0 0
  | inside
      {index : Nat}
      {start stop : Rat}
      (here : instants[index]? = some start)
      (there : instants[index + 1]? = some stop)
      (after : start ≤ instant)
      (before : instant < stop) : IsBracket instants instant index (index + 1)
  | back
      {index : Nat}
      {start : Rat}
      (here : instants[index]? = some start)
      (last : index + 1 = instants.length)
      (late : start ≤ instant) : IsBracket instants instant index index

section Passage

variable {instant : Rat} {instants values : List Rat}

theorem exists_isBracket
    (sorted : instants.Pairwise (· ≤ ·))
    (positive : 0 < instants.length)
    (instant : Rat) :
    ∃ previous next, IsBracket instants instant previous next := by
  rcases lt_or_ge instant instants[0] with early | after
  · exact ⟨_, _, .front (List.getElem?_eq_getElem positive) early⟩
  · rcases lt_or_ge instant instants[instants.length - 1] with before | late
    · obtain ⟨index, ⟨bound, isAfter, isBefore⟩, -⟩ :=
        existsUnique_bracket sorted positive after before
      exact ⟨_, _, .inside (List.getElem?_eq_getElem (Nat.lt_of_succ_lt bound))
        (List.getElem?_eq_getElem bound) isAfter isBefore⟩
    · exact ⟨_, _, .back (List.getElem?_eq_getElem (by omega)) (by omega) late⟩

theorem IsBracket.previous_le_next
    {previous next : Nat}
    (bracket : IsBracket instants instant previous next) :
    previous ≤ next := by
  cases bracket with
  | front => exact le_rfl
  | inside => exact Nat.le_succ previous
  | back => exact le_rfl

/-- What is sampled lies between the values of the keyframes around. -/
theorem IsBracket.exists_sample_mem_uIcc
    {previous next : Nat}
    (bracket : IsBracket instants instant previous next)
    (sorted : instants.Pairwise (· ≤ ·))
    (sameLength : instants.length = values.length)
    (ease : Ease) :
    ∃ startValue stopValue, values[previous]? = some startValue ∧
      values[next]? = some stopValue ∧
      sample ease instant (instants.zip values) ∈ Set.uIcc startValue stopValue := by
  cases bracket with
  | front here early =>
      obtain ⟨positive, rfl⟩ := List.getElem?_eq_some_iff.mp here
      have value := List.getElem?_eq_getElem (sameLength ▸ positive)
      rw [sample_eq_first sorted sameLength positive early]
      exact ⟨_, _, value, value, Set.left_mem_uIcc⟩
  | inside here there after before =>
      obtain ⟨_, rfl⟩ := List.getElem?_eq_some_iff.mp here
      obtain ⟨bound, rfl⟩ := List.getElem?_eq_some_iff.mp there
      rw [sample_eq_between sorted sameLength bound after before]
      exact ⟨_, _, List.getElem?_eq_getElem (by omega), List.getElem?_eq_getElem (by omega),
        between_mem_uIcc ..⟩
  | back here last late =>
      obtain ⟨bound, rfl⟩ := List.getElem?_eq_some_iff.mp here
      obtain rfl : previous = instants.length - 1 := by omega
      have value : values[instants.length - 1]? = some values[instants.length - 1] :=
        List.getElem?_eq_getElem (by omega)
      rw [sample_eq_last sorted sameLength (by omega) late]
      exact ⟨_, _, value, value, Set.left_mem_uIcc⟩

/-- What is sampled stays within the range of all values. -/
theorem exists_min?_le_sample_le_max?
    (sorted : instants.Pairwise (· ≤ ·))
    (sameLength : instants.length = values.length)
    (positive : 0 < instants.length)
    (ease : Ease)
    (instant : Rat) :
    ∃ least greatest, values.min? = some least ∧ values.max? = some greatest ∧
      sample ease instant (instants.zip values) ∈ Set.Icc least greatest := by
  obtain ⟨previous, next, bracket⟩ := exists_isBracket sorted positive instant
  obtain ⟨startValue, stopValue, here, there, within⟩ :=
    bracket.exists_sample_mem_uIcc sorted sameLength ease
  have start := List.mem_of_getElem? here
  have stop := List.mem_of_getElem? there
  obtain ⟨least, isLeast⟩ := Option.isSome_iff_exists.mp (List.isSome_min?_of_mem start)
  obtain ⟨greatest, isGreatest⟩ := Option.isSome_iff_exists.mp (List.isSome_max?_of_mem start)
  have above := (List.min?_eq_some_iff.mp isLeast).2
  have below := (List.max?_eq_some_iff.mp isGreatest).2
  exact ⟨least, greatest, isLeast, isGreatest,
    Set.uIcc_subset_Icc ⟨above _ start, below _ start⟩ ⟨above _ stop, below _ stop⟩ within⟩

/-! ## One way only -/

/-- A keyframe that has been reached stands in front of each that is not even reached
later. -/
theorem lt_of_reached_of_ahead
    (sorted : instants.Pairwise (· ≤ ·))
    {earlier later : Rat}
    (le : earlier ≤ later)
    {first last : Nat}
    {start stop : Rat}
    (here : instants[first]? = some start)
    (there : instants[last]? = some stop)
    (reached : start ≤ earlier)
    (ahead : later < stop) :
    first < last := by
  by_contra notBefore
  have inOrder := le_of_getElem?_eq_some sorted (not_lt.mp notBefore) there here
  exact lt_irrefl later ((ahead.trans_le inOrder).trans_le (reached.trans le))

/-- Two instants either lie between the same two keyframes, or the keyframe after the one
comes no later than the keyframe before the other. -/
theorem IsBracket.next_le_previous_or_inside
    (sorted : instants.Pairwise (· ≤ ·))
    {earlier later : Rat}
    (le : earlier ≤ later)
    {first next previous last : Nat}
    (around : IsBracket instants earlier first next)
    (laterAround : IsBracket instants later previous last) :
    next ≤ previous ∨ ∃ index start stop, instants[index]? = some start ∧
      instants[index + 1]? = some stop ∧ start ≤ earlier ∧ later < stop := by
  cases around with
  | front => exact .inl (Nat.zero_le previous)
  | inside here there after _ =>
      cases laterAround with
      | front laterHere ahead =>
          exact absurd (lt_of_reached_of_ahead sorted le here laterHere after ahead)
            (Nat.not_lt_zero _)
      | inside _ laterThere _ ahead =>
          have less := lt_of_reached_of_ahead sorted le here laterThere after ahead
          rcases Nat.lt_succ_iff_lt_or_eq.mp less with apart | rfl
          · exact .inl apart
          · exact .inr ⟨_, _, _, here, laterThere, after, ahead⟩
      | back =>
          have bound := (List.getElem?_eq_some_iff.mp there).1
          exact .inl (by omega)
  | back here isLast late =>
      cases laterAround with
      | front laterHere ahead =>
          exact absurd (lt_of_reached_of_ahead sorted le here laterHere late ahead)
            (Nat.not_lt_zero _)
      | inside _ laterThere _ ahead =>
          have less := lt_of_reached_of_ahead sorted le here laterThere late ahead
          exact .inl (Nat.le_of_lt_succ less)
      | back => exact .inl (by omega)

/-- Rising values are sampled between the values of the keyframes around. -/
theorem IsBracket.exists_le_sample_le
    {previous next : Nat}
    (bracket : IsBracket instants instant previous next)
    (sorted : instants.Pairwise (· ≤ ·))
    (sameLength : instants.length = values.length)
    (rising : values.Pairwise (· ≤ ·))
    (ease : Ease) :
    ∃ startValue stopValue, values[previous]? = some startValue ∧
      values[next]? = some stopValue ∧
      startValue ≤ sample ease instant (instants.zip values) ∧
      sample ease instant (instants.zip values) ≤ stopValue := by
  obtain ⟨startValue, stopValue, start, stop, within⟩ :=
    bracket.exists_sample_mem_uIcc sorted sameLength ease
  rw [Set.uIcc_of_le (le_of_getElem?_eq_some rising bracket.previous_le_next start stop)]
    at within
  exact ⟨startValue, stopValue, start, stop, within.1, within.2⟩

/-- Over rising values, sampling never falls. -/
theorem monotone_sample
    (sorted : instants.Pairwise (· ≤ ·))
    (sameLength : instants.length = values.length)
    (positive : 0 < instants.length)
    (rising : values.Pairwise (· ≤ ·))
    (ease : Ease) :
    Monotone fun instant => sample ease instant (instants.zip values) := by
  intro earlier later le
  obtain ⟨first, next, around⟩ := exists_isBracket sorted positive earlier
  obtain ⟨previous, last, laterAround⟩ := exists_isBracket sorted positive later
  rcases around.next_le_previous_or_inside sorted le laterAround with
    apart | ⟨index, _, _, here, there, after, before⟩
  · obtain ⟨_, highest, -, there, -, below⟩ :=
      around.exists_le_sample_le sorted sameLength rising ease
    obtain ⟨lowest, _, here, -, above, -⟩ :=
      laterAround.exists_le_sample_le sorted sameLength rising ease
    exact below.trans ((le_of_getElem?_eq_some rising apart there here).trans above)
  · obtain ⟨_, rfl⟩ := List.getElem?_eq_some_iff.mp here
    obtain ⟨bound, rfl⟩ := List.getElem?_eq_some_iff.mp there
    have step := List.pairwise_iff_getElem.mp rising index (index + 1) (by omega) (by omega)
      (Nat.lt_succ_self index)
    dsimp only
    rw [sample_eq_between sorted sameLength bound after (le.trans_lt before),
      sample_eq_between sorted sameLength bound (after.trans le) before]
    exact monotone_between step le

end Passage

/-! ## Values turned around -/

section Negation

variable {ease : Ease} {instant : Rat}

theorem between_neg
    (start stop startValue stopValue : Rat) :
    between ease instant start stop (-startValue) (-stopValue) =
      -between ease instant start stop startValue stopValue := by
  simp only [between]
  split <;> ring

theorem sampleFrom_map_neg
    (start startValue : Rat)
    (later : List (Rat × Rat)) :
    sampleFrom ease instant start (-startValue) (later.map (Prod.map id (-·))) =
      -sampleFrom ease instant start startValue later := by
  induction later generalizing start startValue with
  | nil => rfl
  | cons next rest inductionHypothesis =>
      simp only [List.map_cons, Prod.map, id_eq, sampleFrom, inductionHypothesis, between_neg]
      split <;> rfl

theorem sample_map_neg (keys : List (Rat × Rat)) :
    sample ease instant (keys.map (Prod.map id (-·))) = -sample ease instant keys := by
  cases keys with
  | nil => rfl
  | cons first later =>
      simp only [List.map_cons, Prod.map, id_eq, sample, sampleFrom_map_neg]
      split <;> rfl

variable {instants values : List Rat}

/-- Over falling values, sampling never rises. -/
theorem antitone_sample
    (sorted : instants.Pairwise (· ≤ ·))
    (sameLength : instants.length = values.length)
    (positive : 0 < instants.length)
    (falling : values.Pairwise (· ≥ ·))
    (ease : Ease) :
    Antitone fun instant => sample ease instant (instants.zip values) := by
  have rising : (values.map (-·)).Pairwise (· ≤ ·) :=
    falling.map _ fun _ _ => neg_le_neg
  have turned := monotone_sample sorted (by simpa using sameLength) positive rising
    ease
  intro earlier later le
  have less := turned le
  simp only [List.zip_map_right, sample_map_neg] at less
  exact neg_le_neg_iff.mp less

end Negation

/-- There are keyframes around every instant, and what is sampled lies between their two values,
hence between the least and the greatest of all values.  When the values never fall in the order
of the keyframes, neither does the sampling over the whole time, and when they never rise, it
does not either; instants that several keyframes share make no exception. -/
theorem sample_never_overshoots
    (ease : Ease)
    {instants values : List Rat}
    (sorted : instants.Pairwise (· ≤ ·))
    (sameLength : instants.length = values.length)
    (positive : 0 < instants.length) :
    let sampled := fun instant => sample ease instant (instants.zip values)
    (∀ instant, ∃ previous next, IsBracket instants instant previous next) ∧
    (∀ instant previous next, IsBracket instants instant previous next →
      ∃ startValue stopValue, values[previous]? = some startValue ∧
        values[next]? = some stopValue ∧ sampled instant ∈ Set.uIcc startValue stopValue) ∧
    (∀ instant, ∃ least greatest, values.min? = some least ∧ values.max? = some greatest ∧
      sampled instant ∈ Set.Icc least greatest) ∧
    (values.Pairwise (· ≤ ·) → Monotone sampled) ∧
    (values.Pairwise (· ≥ ·) → Antitone sampled) :=
  ⟨fun instant => exists_isBracket sorted positive instant,
    fun _ _ _ bracket => bracket.exists_sample_mem_uIcc sorted sameLength ease,
    fun instant => exists_min?_le_sample_le_max? sorted sameLength positive ease instant,
    fun rising => monotone_sample sorted sameLength positive rising ease,
    fun falling => antitone_sample sorted sameLength positive falling ease⟩

/-- Two of four keyframes share an instant, where the value jumps. -/
theorem sample_never_overshoots_at_jump :
    let instants : List Rat := [0, 1, 1, 3]
    let rising : List Rat := [0, 10, 20, 25]
    let falling : List Rat := [25, 20, 10, 0]
    instants.Pairwise (· ≤ ·) ∧
    IsBracket instants 2 2 3 ∧
    sample .easeInOut 2 (instants.zip rising) ∈ Set.uIcc 20 25 ∧
    Monotone (fun instant => sample .easeInOut instant (instants.zip rising)) ∧
    Antitone (fun instant => sample .easeInOut instant (instants.zip falling)) := by
  intro instants rising falling
  have sorted : instants.Pairwise (· ≤ ·) := by decide
  have bracket : IsBracket instants 2 2 3 :=
    .inside rfl rfl (by decide) (by decide)
  have ascent := sample_never_overshoots .easeInOut sorted
    (show instants.length = rising.length from rfl) (by decide)
  have descent := sample_never_overshoots .easeInOut sorted
    (show instants.length = falling.length from rfl) (by decide)
  obtain ⟨startValue, stopValue, start, stop, within⟩ := ascent.2.1 2 2 3 bracket
  cases start
  cases stop
  exact ⟨sorted, bracket, within, ascent.2.2.2.1 (by decide), descent.2.2.2.2 (by decide)⟩

end Keyframe
end Montage
