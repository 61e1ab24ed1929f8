import Mathlib
import Montage.Keyframe.Search

/-!
# Keyframes that have been reached

When instants stand in order, the ones that have been reached at some instant are the first
so many of them (`Keyframe.HasReached`).  How many they are settles what keyframes stand for:
the first value when there are none, the last one when they are all, and otherwise a value
between the last one that has been reached and the next one.

Searching by position finds a border between an instant that has been reached and one that has
not, whatever order they are in (`Keyframe.exists_reachedWithin?`).  It reads nothing but the
two keyframes around it, and finds no value only where their span cannot be told from zero
(`Keyframe.exists_span_of_search?_eq_none`).  In order there is no more than one border, and the
value is what the keyframes stand for (`Keyframe.search?_eq_sample`).
-/

namespace Montage
namespace Keyframe

/-- The instants that have been reached are the first so many of them. -/
structure HasReached
    {ν : Type} [LE ν]
    (instants : List ν)
    (instant : ν)
    (reached : Nat) : Prop where
  /-- There are as many of them. -/
  le_length : reached ≤ instants.length
  /-- They are the ones that lie no later. -/
  le_iff : ∀ index start, instants[index]? = some start →
    (start ≤ instant ↔ index < reached)

theorem HasReached.tail
    {ν : Type} [LE ν]
    {start instant : ν}
    {later : List ν}
    {reached : Nat}
    (hasReached : HasReached (start :: later) instant (reached + 1)) :
    HasReached later instant reached where
  le_length := Nat.le_of_succ_le_succ hasReached.le_length
  le_iff index next here :=
    (hasReached.le_iff (index + 1) next here).trans Nat.succ_lt_succ_iff

theorem map_fst_zip
    {ν : Type}
    {instants values : List ν}
    (sameLength : instants.length = values.length) :
    (instants.zip values).map Prod.fst = instants :=
  List.map_fst_zip sameLength.le

/-- There are as many instants with a partner as values with one. -/
theorem length_take_min
    {ν : Type}
    (instants values : List ν) :
    (instants.take (min instants.length values.length)).length =
      (values.take (min instants.length values.length)).length := by
  simp

theorem exists_entry
    {ν : Type}
    {instants values : List ν}
    (sameLength : instants.length = values.length)
    (index : Nat)
    (inside : index < values.length) :
    ∃ start value, instants[index]? = some start ∧ values[index]? = some value :=
  ⟨_, _, List.getElem?_eq_getElem (by omega), List.getElem?_eq_getElem inside⟩

section Sampling

variable {ν : Type} [Add ν] [Sub ν] [Mul ν] [Div ν] [LT ν] [LE ν]
  [DecidableLT ν] [DecidableLE ν] [OfNat ν 0] [OfNat ν 1] [OfNat ν 2]
  {ease : Ease} {instant : ν} {reached : Nat}

/-- From a key on that has been reached, keys stand for the last one that has been reached,
or for something between that one and the next. -/
theorem sampleFrom_eq
    {start startValue : ν}
    {later : List (ν × ν)}
    (hasReached : HasReached (later.map Prod.fst) instant reached)
    {key : ν × ν}
    (last : ((start, startValue) :: later)[reached]? = some key) :
    sampleFrom ease instant start startValue later =
      match later[reached]? with
      | none => key.2
      | some next => between ease instant key.1 next.1 key.2 next.2 := by
  induction later generalizing start startValue reached with
  | nil =>
      obtain rfl : reached = 0 := Nat.le_zero.mp hasReached.le_length
      cases last
      rfl
  | cons next rest inductionHypothesis =>
      have first := hasReached.le_iff 0 next.1 rfl
      rw [sampleFrom]
      cases reached with
      | zero =>
          cases last
          rw [if_neg (by simpa using first)]
          rfl
      | succ reached =>
          rw [if_pos (first.mpr (Nat.succ_pos reached))]
          exact inductionHypothesis hasReached.tail last

variable {instants values : List ν}

/-- Before the first instant the first value stands. -/
theorem sample_of_hasReached_zero
    (hasReached : HasReached instants instant 0)
    {start value : ν}
    (first : instants[0]? = some start)
    (firstValue : values[0]? = some value) :
    sample ease instant (instants.zip values) = value := by
  have early := (hasReached.le_iff 0 start first).not.mpr (Nat.not_lt_zero 0)
  obtain ⟨_, laterInstants, rfl, rfl⟩ : ∃ here later, instants = here :: later ∧ here = start := by
    cases instants with
    | nil => cases first
    | cons here later => exact ⟨here, later, rfl, Option.some.inj first⟩
  cases values with
  | nil => cases firstValue
  | cons here laterValues =>
      cases firstValue
      rw [List.zip_cons_cons, sample, if_neg early]

/-- From the last instant on the last value stands, and between two instants that have been
reached and not reached there is a passage. -/
theorem sample_of_hasReached_succ
    (sameLength : instants.length = values.length)
    (hasReached : HasReached instants instant (reached + 1))
    {start startValue : ν}
    (last : instants[reached]? = some start)
    (lastValue : values[reached]? = some startValue) :
    sample ease instant (instants.zip values) =
      match (instants.zip values)[reached + 1]? with
      | none => startValue
      | some next => between ease instant start next.1 startValue next.2 := by
  have key : (instants.zip values)[reached]? = some (start, startValue) :=
    List.getElem?_zip_eq_some.mpr ⟨last, lastValue⟩
  rw [← map_fst_zip sameLength] at hasReached
  generalize instants.zip values = keys at hasReached key ⊢
  cases keys with
  | nil => cases key
  | cons first later =>
      have reachedFirst := (hasReached.le_iff 0 first.1 rfl).mpr (Nat.succ_pos reached)
      rw [sample, if_pos reachedFirst]
      exact sampleFrom_eq hasReached.tail key

/-- What is found when no instant has been reached. -/
theorem valueAfter?_zero : valueAfter? ease instant instants values 0 = values[0]? := by
  rw [valueAfter?, if_pos rfl]

/-- What is found around a position, if a span that is not found to be zero or negative is
found to be positive. -/
theorem valueAfter?_succ
    (sameLength : instants.length = values.length)
    {start startValue : ν}
    (last : instants[reached]? = some start)
    (lastValue : values[reached]? = some startValue)
    (divides : ∀ stop, instants[reached + 1]? = some stop →
      ¬ stop - start ≤ 0 → 0 < stop - start) :
    valueAfter? ease instant instants values (reached + 1) =
      some (match (instants.zip values)[reached + 1]? with
        | none => startValue
        | some next => between ease instant start next.1 startValue next.2) := by
  have bound := (List.getElem?_eq_some_iff.mp lastValue).1
  rw [valueAfter?, if_neg (Nat.succ_ne_zero reached), Nat.add_sub_cancel]
  split
  · next all =>
      have nothing : (instants.zip values)[reached + 1]? = none :=
        List.getElem?_eq_none (by rw [List.length_zip]; omega)
      rw [nothing, show values.length - 1 = reached by omega, lastValue]
  · next more =>
      obtain ⟨stop, stopValue, next, nextValue⟩ :=
        exists_entry sameLength _ (Nat.lt_of_not_le more)
      have here : (instants.zip values)[reached + 1]? = some (stop, stopValue) :=
        List.getElem?_zip_eq_some.mpr ⟨next, nextValue⟩
      simp only [here, last, next, lastValue, nextValue, Option.bind_eq_bind, Option.bind_some,
        between]
      split
      · rfl
      · next positive =>
          rw [quotient?, if_pos (divides stop next positive)]
          rfl

end Sampling

/-! ## Searching by position -/

/-- Within a stretch of positions, the instant in front of the border has been reached and
the one behind it has not, as far as there are any. -/
structure IsBorder
    {ν : Type} [LE ν]
    (instants : List ν)
    (instant : ν)
    (first last border : Nat) : Prop where
  /-- The stretch starts no later. -/
  first_le : first ≤ border
  /-- It ends no earlier. -/
  le_last : border ≤ last
  /-- The instant in front of the border has been reached. -/
  front : ∀ index start, first ≤ index → index + 1 = border →
    instants[index]? = some start → start ≤ instant
  /-- The one behind it has not. -/
  back : ∀ stop, border < last → instants[border]? = some stop → ¬ stop ≤ instant

/-- An instant is reached only when those in front of it have been. -/
def ReachesInOrder
    {ν : Type} [LE ν]
    (instants : List ν)
    (instant : ν) : Prop :=
  instants.Pairwise fun start stop => stop ≤ instant → start ≤ instant

section Searching

variable {ν : Type} [LE ν] {instants : List ν} {instant : ν}

theorem ReachesInOrder.le_of_le
    (inOrder : ReachesInOrder instants instant)
    {first last : Nat}
    (apart : first ≤ last)
    {start stop : ν}
    (here : instants[first]? = some start)
    (there : instants[last]? = some stop)
    (reached : stop ≤ instant) :
    start ≤ instant := by
  rcases apart.lt_or_eq with less | rfl
  · obtain ⟨firstBound, rfl⟩ := List.getElem?_eq_some_iff.mp here
    obtain ⟨lastBound, rfl⟩ := List.getElem?_eq_some_iff.mp there
    exact List.pairwise_iff_getElem.mp inOrder first last firstBound lastBound less reached
  · rw [Option.some.inj (here.symm.trans there)]
    exact reached

/-- In order, what is in front of a border is all that has been reached. -/
theorem IsBorder.hasReached
    {border : Nat}
    (isBorder : IsBorder instants instant 0 instants.length border)
    (inOrder : ReachesInOrder instants instant) :
    HasReached instants instant border where
  le_length := isBorder.le_last
  le_iff index start here := by
    have bound := (List.getElem?_eq_some_iff.mp here).1
    constructor
    · intro reached
      by_contra beyond
      have inside : border < instants.length := by omega
      have there := List.getElem?_eq_getElem inside
      exact isBorder.back _ inside there (inOrder.le_of_le (not_lt.mp beyond) there here reached)
    · intro less
      have within := isBorder.le_last
      have there := List.getElem?_eq_getElem (show border - 1 < instants.length by omega)
      exact inOrder.le_of_le (by omega) here there
        (isBorder.front (border - 1) _ (Nat.zero_le _) (by omega) there)

variable [DecidableLE ν]

/-- Halving a stretch finds a border in it. -/
theorem exists_reachedWithin?
    (base : Nat)
    {size : Nat}
    (positive : 0 < size)
    (inside : base + size ≤ instants.length) :
    ∃ border, reachedWithin? instants instant base size = some border ∧
      IsBorder instants instant base (base + size) border := by
  induction size using Nat.strong_induction_on generalizing base with
  | h size inductionHypothesis =>
      rw [reachedWithin?]
      split
      · next long =>
          obtain ⟨middle, isMiddle⟩ : ∃ middle, instants[base + size / 2]? = some middle :=
            ⟨_, List.getElem?_eq_getElem (by omega)⟩
          simp only [isMiddle, Option.bind_eq_bind, Option.bind_some]
          by_cases before : middle ≤ instant
          · rw [if_pos before]
            obtain ⟨border, found, isBorder⟩ := inductionHypothesis (size - size / 2) (by omega)
              (base + size / 2) (by omega) (by omega)
            -- The middle has been reached, so that it is not behind the border.
            have notFirst : border ≠ base + size / 2 := by
              rintro rfl
              exact isBorder.back middle (by omega) isMiddle before
            have first := isBorder.first_le
            have last := isBorder.le_last
            exact ⟨border, found, by omega, by omega,
              fun index start _ next here => isBorder.front index start (by omega) next here,
              fun stop less there => isBorder.back stop (by omega) there⟩
          · rw [if_neg before]
            obtain ⟨border, found, isBorder⟩ := inductionHypothesis (size - size / 2) (by omega)
              base (by omega) (by omega)
            -- When the size is odd, the middle is left in the stretch, but not in front of the
            -- border.
            have notNext : border ≠ base + size / 2 + 1 := by
              rintro rfl
              exact before (isBorder.front _ middle (by omega) rfl isMiddle)
            have last := isBorder.le_last
            refine ⟨border, found, isBorder.first_le, by omega, isBorder.front,
              fun stop less there => ?_⟩
            by_cases short : border < base + (size - size / 2)
            · exact isBorder.back stop short there
            · obtain rfl : border = base + size / 2 := by omega
              rw [Option.some.inj (there.symm.trans isMiddle)]
              exact before
      · next short =>
          obtain rfl : size = 1 := by omega
          obtain ⟨only, isOnly⟩ : ∃ only, instants[base]? = some only :=
            ⟨_, List.getElem?_eq_getElem (by omega)⟩
          refine ⟨if only ≤ instant then base + 1 else base, by simp [isOnly], ?_⟩
          split
          · next before =>
              refine ⟨by omega, le_rfl, fun index start _ next here => ?_, by omega⟩
              obtain rfl : index = base := by omega
              rw [Option.some.inj (here.symm.trans isOnly)]
              exact before
          · next after =>
              refine ⟨le_rfl, by omega, by omega, fun stop _ there => ?_⟩
              rw [Option.some.inj (there.symm.trans isOnly)]
              exact after

/-- Halving the whole list finds a border in it. -/
theorem exists_reachedWithin?_length
    (instant : ν)
    (positive : 0 < instants.length) :
    ∃ border, reachedWithin? instants instant 0 instants.length = some border ∧
      IsBorder instants instant 0 instants.length border := by
  obtain ⟨border, found, isBorder⟩ :=
    exists_reachedWithin? 0 positive (Nat.zero_add instants.length).le
  exact ⟨border, found, Nat.zero_add instants.length ▸ isBorder⟩

/-- Out of order there may be several borders.  Here halving comes to the later one. -/
example : reachedWithin? [0, 2, 0, 3] (1 : Rat) 0 4 = some 3 := by
  decide +kernel

end Searching

section Search

variable {ν : Type} [Add ν] [Sub ν] [Mul ν] [Div ν] [LT ν] [LE ν]
  [DecidableLT ν] [DecidableLE ν] [OfNat ν 0] [OfNat ν 1] [OfNat ν 2]
  {ease : Ease} {instant : ν} {instants values : List ν}

/-- Entries without a partner in the other list are left out of account. -/
theorem search?_take :
    search? ease instant (instants.take (min instants.length values.length))
        (values.take (min instants.length values.length)) =
      search? ease instant instants values := by
  simp [search?, List.take_take]

/-- What is found is the value at a border. -/
theorem exists_search?_eq_valueAfter?
    (ease : Ease)
    (instant : ν)
    (sameLength : instants.length = values.length)
    (nonempty : 0 < values.length) :
    ∃ border, IsBorder instants instant 0 instants.length border ∧
      search? ease instant instants values =
        valueAfter? ease instant instants values border := by
  obtain ⟨border, found, isBorder⟩ :=
    exists_reachedWithin?_length instant (sameLength ▸ nonempty)
  have count : min instants.length values.length = instants.length := min_eq_left sameLength.le
  have whole : values.take instants.length = values := List.take_of_length_le sameLength.ge
  refine ⟨border, isBorder, ?_⟩
  rw [search?, count, List.take_length, whole, if_neg (by omega)]
  simp only [found, Option.bind_eq_bind, Option.bind_some]

/-- At a border a value is missing only when the span there cannot be told from zero. -/
theorem exists_span_of_valueAfter?_eq_none
    (sameLength : instants.length = values.length)
    (nonempty : 0 < values.length)
    {border : Nat}
    (isBorder : IsBorder instants instant 0 instants.length border)
    (nothing : valueAfter? ease instant instants values border = none) :
    ∃ index start stop, instants[index]? = some start ∧ instants[index + 1]? = some stop ∧
      start ≤ instant ∧ ¬ stop ≤ instant ∧ ¬ stop - start ≤ 0 ∧ ¬ 0 < stop - start := by
  have bound := isBorder.le_last
  cases border with
  | zero =>
      rw [valueAfter?_zero, List.getElem?_eq_none_iff] at nothing
      omega
  | succ index =>
      obtain ⟨start, startValue, last, lastValue⟩ := exists_entry sameLength index (by omega)
      by_contra absent
      have divides : ∀ stop, instants[index + 1]? = some stop → ¬ stop - start ≤ 0 →
          0 < stop - start := by
        intro stop next notEmpty
        by_contra notPositive
        exact absent ⟨index, start, stop, last, next,
          isBorder.front index start (Nat.zero_le _) rfl last,
          isBorder.back stop (List.getElem?_eq_some_iff.mp next).1 next, notEmpty, notPositive⟩
      rw [valueAfter?_succ sameLength last lastValue divides] at nothing
      cases nothing

/-- No value is found only where keys follow upon each other, one reached and one not, whose
span cannot be told from zero. -/
theorem exists_span_of_search?_eq_none
    (nothing : search? ease instant instants values = none) :
    ∃ index start stop, instants[index]? = some start ∧ instants[index + 1]? = some stop ∧
      start ≤ instant ∧ ¬ stop ≤ instant ∧ ¬ stop - start ≤ 0 ∧ ¬ 0 < stop - start := by
  rcases (min instants.length values.length).eq_zero_or_pos with empty | nonempty
  · simp [search?, empty] at nothing
  · have sameLength := length_take_min instants values
    have someValue : 0 < (values.take (min instants.length values.length)).length := by
      rw [List.length_take]
      omega
    obtain ⟨border, isBorder, found⟩ :=
      exists_search?_eq_valueAfter? ease instant sameLength someValue
    obtain ⟨index, start, stop, here, there, around⟩ := exists_span_of_valueAfter?_eq_none
      sameLength someValue isBorder (found.symm.trans (search?_take.trans nothing))
    rw [List.getElem?_take, Option.ite_none_right_eq_some] at here there
    exact ⟨index, start, stop, here.2, there.2, around⟩

/-- When the instants of keys are reached in order and every span can be told from zero, the
value that the keys stand for is found. -/
theorem search?_eq_sample_of_reachesInOrder
    (sameLength : instants.length = values.length)
    (inOrder : ReachesInOrder instants instant)
    (divides : ∀ index start stop, instants[index]? = some start →
      instants[index + 1]? = some stop → ¬ stop - start ≤ 0 → 0 < stop - start) :
    search? ease instant instants values =
      some (sample ease instant (instants.zip values)) := by
  rcases values.length.eq_zero_or_pos with empty | nonempty
  · simp [search?, List.length_eq_zero_iff.mp empty, sample]
  · obtain ⟨border, isBorder, found⟩ :=
      exists_search?_eq_valueAfter? ease instant sameLength nonempty
    have hasReached := isBorder.hasReached inOrder
    have bound := isBorder.le_last
    rw [found]
    cases border with
    | zero =>
        obtain ⟨start, value, first, firstValue⟩ := exists_entry sameLength 0 nonempty
        rw [valueAfter?_zero, firstValue, sample_of_hasReached_zero hasReached first firstValue]
    | succ index =>
        obtain ⟨start, startValue, last, lastValue⟩ := exists_entry sameLength index (by omega)
        rw [valueAfter?_succ sameLength last lastValue (divides index start · last),
          sample_of_hasReached_succ sameLength hasReached last lastValue]

end Search

/-! ## Exact numbers in order -/

section Exact

variable {instants : List Rat}

theorem reachesInOrder_of_pairwise
    (sorted : instants.Pairwise (· ≤ ·))
    (instant : Rat) :
    ReachesInOrder instants instant :=
  sorted.imp fun le reached => le.trans reached

theorem le_of_getElem?_eq_some
    (sorted : instants.Pairwise (· ≤ ·))
    {first last : Nat}
    (apart : first ≤ last)
    {start stop : Rat}
    (here : instants[first]? = some start)
    (there : instants[last]? = some stop) :
    start ≤ stop :=
  (reachesInOrder_of_pairwise sorted stop).le_of_le apart here there le_rfl

/-- In order, the reached instants are the first so many. -/
theorem exists_hasReached
    (sorted : instants.Pairwise (· ≤ ·))
    (instant : Rat) :
    ∃ reached, HasReached instants instant reached := by
  rcases instants.length.eq_zero_or_pos with empty | positive
  · refine ⟨0, Nat.zero_le _, fun index start here => ?_⟩
    rw [List.length_eq_zero_iff.mp empty] at here
    cases here
  · obtain ⟨reached, -, isBorder⟩ := exists_reachedWithin?_length instant positive
    exact ⟨reached, isBorder.hasReached (reachesInOrder_of_pairwise sorted instant)⟩

/-- Searching by position finds the value that keyframes stand for. -/
theorem search?_eq_sample
    (sorted : instants.Pairwise (· ≤ ·))
    (ease : Ease)
    (instant : Rat)
    (values : List Rat) :
    search? ease instant instants values =
      some (sample ease instant (instants.zip values)) := by
  rw [← search?_take, List.zip_eq_zip_take_min]
  exact search?_eq_sample_of_reachesInOrder (length_take_min instants values)
    ((reachesInOrder_of_pairwise sorted instant).sublist (List.take_sublist _ _))
    fun _ _ _ _ _ => not_le.mp

end Exact
end Keyframe
end Montage
