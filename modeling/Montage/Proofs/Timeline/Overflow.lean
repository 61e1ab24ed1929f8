import Montage.Proofs.Number.Unbounded
import Montage.Timeline.Duration

/-!
# Timelines at the end of the range of numbers

A timeline of floating-point numbers ends where the last of those clips ends that count
(`Timeline.finish_counts_clips_in_range`).  A clip counts when its end is finite and stays in range
after half of its passage has been added (`Clip.IsCounted`).  Durations that are negative,
infinite or undefined add nothing, but a finite duration may be long enough to take the sum
out of range, and then the clip is left out with its own end.
-/

namespace Montage

open Number

/-- Half of a passage is finite, and no longer than the passage. -/
theorem Transition.isFinite_extension (transition : Transition Float) :
    isFinite transition.extension = true ∧
      0 ≤ exact transition.extension ∧
        (exact transition.extension ≤ 0 ∨
          isFinite transition.duration = true ∧
            exact transition.extension ≤ exact transition.duration) := by
  unfold Transition.extension
  split
  · next finite =>
      split
      · next positive =>
          rw [lt_iff_exact_lt isFinite_zero finite, exact_zero] at positive
          have rounds := rounds_div finite isFinite_two (by simp)
          rw [exact_two] at rounds
          obtain ⟨halfFinite, lower, upper⟩ := rounds.mem_Icc isFinite_zero finite
            (by rw [exact_zero]; constructor <;> linarith)
          rw [exact_zero] at lower
          exact ⟨halfFinite, lower, Or.inr ⟨finite, upper⟩⟩
      · simp
  · simp

namespace Clip

variable {clip : Clip Float}

/-- The end of a clip is finite, and with half of the passage it stays in range. -/
def IsCounted (clip : Clip Float) : Prop :=
  isFinite clip.finish = true ∧ exact clip.finish + exact clip.extension < overflow

theorem isFinite_extension (clip : Clip Float) :
    isFinite clip.extension = true ∧ 0 ≤ exact clip.extension := by
  unfold extension
  cases clip.toNext with
  | none => simp
  | some passage => exact ⟨passage.isFinite_extension.1, passage.isFinite_extension.2.1⟩

theorem rounds_extendedFinish (finite : isFinite clip.finish = true) :
    Rounds (exact clip.finish + exact clip.extension) (Readable.reading clip.extendedFinish) :=
  rounds_add finite clip.isFinite_extension.1

/-- The ends that count are the finite ones. -/
theorem isFinite_extendedFinish_iff : isFinite clip.extendedFinish = true ↔ clip.IsCounted := by
  constructor
  · intro extendedFinite
    have finite : isFinite clip.finish = true := (isFinite_of_isFinite_add extendedFinite).1
    have inRange := (rounds_extendedFinish finite).isFinite_iff.mp extendedFinite
    exact ⟨finite, (abs_lt.mp inRange).2⟩
  · rintro ⟨finite, inRange⟩
    have lower := (abs_lt.mp (abs_exact_lt_overflow finite)).1
    have nonneg := clip.isFinite_extension.2
    exact (rounds_extendedFinish finite).isFinite_iff.mpr (abs_lt.mpr ⟨by linarith, inRange⟩)

/-- A passage does not make its clip end earlier. -/
theorem IsCounted.finish_le (counted : clip.IsCounted) :
    exact clip.finish ≤ exact clip.extendedFinish :=
  (rounds_extendedFinish counted.1).le_exact (isFinite_extendedFinish_iff.mpr counted) counted.1
    (le_add_of_nonneg_right clip.isFinite_extension.2)

/-- It takes a passage of a long, finite duration to take a finite end out of range. -/
theorem exists_long_of_not_isCounted
    (finite : isFinite clip.finish = true)
    (notCounted : ¬ clip.IsCounted) :
    ∃ passage, clip.toNext = some passage ∧ isFinite passage.duration = true ∧
      2 ^ (970 : Int) ≤ exact passage.duration := by
  have long : 2 ^ (970 : Int) ≤ exact clip.extension := by
    have large := not_lt.mp fun inRange => notCounted ⟨finite, inRange⟩
    have largestLe := (abs_le.mp (abs_exact_le_largest finite)).2
    rw [← largest_add_half_step] at large
    linarith
  have positive : (0 : Rat) < exact clip.extension := lt_of_lt_of_le (by positivity) long
  unfold extension at long positive
  cases here : clip.toNext with
  | none => simp [here] at positive
  | some passage =>
      rw [here] at long positive
      obtain ⟨-, -, none | ⟨durationFinite, le⟩⟩ := passage.isFinite_extension
      · exact absurd positive none.not_gt
      · exact ⟨passage, rfl, durationFinite, long.trans le⟩

end Clip

namespace Timeline

/-- The later one of two finite instants. -/
theorem isFinite_later
    {first second : Float}
    (finite : isFinite first = true)
    (secondFinite : isFinite second = true) :
    isFinite (later first second) = true ∧
      exact (later first second) = max (exact first) (exact second) := by
  unfold later
  split
  · next less =>
      rw [lt_iff_exact_lt finite secondFinite] at less
      exact ⟨secondFinite, (max_eq_right less.le).symm⟩
  · next notLess =>
      rw [lt_iff_exact_lt finite secondFinite] at notLess
      exact ⟨finite, (max_eq_left (not_lt.mp notLess)).symm⟩

/-- The latest one of finite instants. -/
theorem foldl_later_isGreatest
    {first : Float}
    (finite : isFinite first = true)
    {instants : List Float}
    (allFinite : ∀ instant ∈ instants, isFinite instant = true) :
    isFinite (instants.foldl later first) = true ∧
      IsGreatest {value | value ∈ (first :: instants).map exact}
        (exact (instants.foldl later first)) := by
  induction instants generalizing first with
  | nil => exact ⟨finite, by simp⟩
  | cons instant rest inductionHypothesis =>
      rw [List.forall_mem_cons] at allFinite
      obtain ⟨laterFinite, isMax⟩ := isFinite_later finite allFinite.1
      obtain ⟨foldFinite, member, upper⟩ := inductionHypothesis laterFinite allFinite.2
      rw [List.foldl_cons]
      refine ⟨foldFinite, ?_, ?_⟩
      · simp only [List.map_cons, List.mem_cons, Set.mem_ofPred_eq, isMax] at member ⊢
        rcases member with isLater | isRest
        · rcases max_choice (exact first) (exact instant) with isFirst | isSecond
          · exact Or.inl (isLater.trans isFirst)
          · exact Or.inr (Or.inl (isLater.trans isSecond))
        · exact Or.inr (Or.inr isRest)
      · have bound : max (exact first) (exact instant) ≤
            exact (rest.foldl later (later first instant)) := isMax ▸ upper (by simp)
        intro value among
        simp only [List.map_cons, List.mem_cons, Set.mem_ofPred_eq] at among
        rcases among with rfl | rfl | isRest
        · exact (le_max_left _ _).trans bound
        · exact (le_max_right _ _).trans bound
        · exact upper (List.mem_cons_of_mem _ isRest)

variable {timeline : Timeline Float}

theorem mem_filter_extendedFinish_iff
    {clips : List (Clip Float)}
    {instant : Float} :
    instant ∈ (clips.map Clip.extendedFinish).filter isFinite ↔
      ∃ clip ∈ clips, clip.IsCounted ∧ clip.extendedFinish = instant := by
  simp only [List.mem_filter, List.mem_map, ← Clip.isFinite_extendedFinish_iff]
  constructor
  · rintro ⟨⟨clip, member, rfl⟩, finite⟩
    exact ⟨clip, member, finite, rfl⟩
  · rintro ⟨clip, member, finite, rfl⟩
    exact ⟨⟨clip, member, rfl⟩, finite⟩

/-- A timeline ends with the last clip that counts, or at zero. -/
theorem finish_isGreatest (timeline : Timeline Float) :
    isFinite timeline.finish = true ∧
      IsGreatest
        {instant | instant = 0 ∨
          ∃ clip ∈ timeline.clips, clip.IsCounted ∧ instant = exact clip.extendedFinish}
        (exact timeline.finish) := by
  have among : ∀ instant : Rat,
      instant ∈ (0 :: (timeline.clips.map Clip.extendedFinish).filter isFinite).map exact ↔
        instant = 0 ∨
          ∃ clip ∈ timeline.clips, clip.IsCounted ∧ instant = exact clip.extendedFinish := by
    intro instant
    simp only [List.map_cons, List.mem_cons, exact_zero, List.mem_map,
      mem_filter_extendedFinish_iff]
    refine or_congr_right ⟨?_, ?_⟩
    · rintro ⟨_, ⟨clip, member, counted, rfl⟩, rfl⟩
      exact ⟨clip, member, counted, rfl⟩
    · rintro ⟨clip, member, counted, rfl⟩
      exact ⟨_, ⟨clip, member, counted, rfl⟩, rfl⟩
  have allFinite : ∀ instant ∈ (timeline.clips.map Clip.extendedFinish).filter isFinite,
      isFinite instant = true := fun instant kept => (List.mem_filter.mp kept).2
  obtain ⟨finite, greatest⟩ := foldl_later_isGreatest isFinite_zero allFinite
  simp only [among] at greatest
  exact ⟨finite, greatest⟩

theorem finish_le_finish
    {clip : Clip Float}
    (member : clip ∈ timeline.clips)
    (counted : clip.IsCounted) :
    clip.finish ≤ timeline.finish := by
  obtain ⟨finite, greatest⟩ := timeline.finish_isGreatest
  rw [le_iff_exact_le counted.1 finite]
  exact counted.finish_le.trans (greatest.2 (Or.inr ⟨clip, member, counted, rfl⟩))

/-- Clips that do not count may as well be left out. -/
theorem finish_eq_of_not_isCounted
    {before after : List (Clip Float)}
    {clip : Clip Float}
    (isClips : timeline.clips = before ++ clip :: after)
    (notCounted : ¬ clip.IsCounted)
    {other : Timeline Float}
    (isOther : other.clips = before ++ after) :
    other.finish = timeline.finish := by
  have left : ¬ isFinite clip.extendedFinish = true :=
    Clip.isFinite_extendedFinish_iff.not.mpr notCounted
  unfold finish
  rw [isClips, isOther, List.map_append, List.map_append, List.filter_append, List.filter_append,
    List.map_cons, List.filter_cons_of_neg left]

/-- A timeline ends at a finite instant: the greatest one of zero and of the ends of the clips
that count, each with half of its passage.  A clip with a finite end that counts does not end
later than the timeline.  One that does not count has a passage of a finite duration of at least
`2 ^ 970`, and the timeline ends as if the clip were not there. -/
theorem finish_counts_clips_in_range (timeline : Timeline Float) :
    isFinite timeline.finish = true ∧
    IsGreatest
      {instant | instant = 0 ∨
        ∃ clip ∈ timeline.clips, clip.IsCounted ∧ instant = exact clip.extendedFinish}
      (exact timeline.finish) ∧
    (∀ clip ∈ timeline.clips, isFinite clip.finish = true →
      (clip.IsCounted → clip.finish ≤ timeline.finish) ∧
      (¬ clip.IsCounted →
        ∃ passage, clip.toNext = some passage ∧ isFinite passage.duration = true ∧
          2 ^ (970 : Int) ≤ exact passage.duration)) ∧
    ∀ (before : List (Clip Float)) (clip : Clip Float) (after : List (Clip Float)),
      timeline.clips = before ++ clip :: after → ¬ clip.IsCounted →
        ∀ other : Timeline Float, other.clips = before ++ after →
          other.finish = timeline.finish := by
  obtain ⟨finite, greatest⟩ := timeline.finish_isGreatest
  refine ⟨finite, greatest, fun clip member clipFinite => ⟨?_, ?_⟩, ?_⟩
  · exact finish_le_finish member
  · exact Clip.exists_long_of_not_isCounted clipFinite
  · exact fun before clip after isClips notCounted other isOther =>
      finish_eq_of_not_isCounted isClips notCounted isOther

/-- A clip with the largest end and the longest passage that there are. -/
def longest : Clip Float where
  id := "longest"
  start := 0
  finish := 1.7976931348623157e308
  toNext := some ⟨"fade", 1.7976931348623157e308⟩

/-- A clip of two seconds with a passage that is undefined. -/
def short : Clip Float where
  id := "short"
  start := 0
  finish := 2
  toNext := some ⟨"fade", 0 / 0⟩

/-- A timeline with both. -/
def longestAndShort : Timeline Float where
  tracks := [{ clips := [longest] }, { clips := [short] }]

/-- The short clip counts, and the longest one is left out. -/
theorem finish_longestAndShort :
    (isFinite longest.finish = true ∧ ¬ longest.IsCounted ∧ short.IsCounted) ∧
    short.finish ≤ longestAndShort.finish ∧
    Timeline.finish { tracks := [{ clips := [short] }] } = longestAndShort.finish ∧
    longestAndShort.finish = 2 := by
  have notCounted : ¬ longest.IsCounted :=
    Clip.isFinite_extendedFinish_iff.not.mp (by decide +kernel)
  have counted : short.IsCounted := Clip.isFinite_extendedFinish_iff.mp (by decide +kernel)
  have main := finish_counts_clips_in_range longestAndShort
  exact ⟨⟨by decide +kernel, notCounted, counted⟩,
    (main.2.2.1 short (by decide +kernel) counted.1).1 counted,
    main.2.2.2 [] longest [short] rfl notCounted _ rfl, by decide +kernel⟩

/-- The end of a timeline may lie before the finite end of one of its clips. -/
theorem not_forall_finish_le_finish :
    ¬ ∀ timeline : Timeline Float, ∀ clip ∈ timeline.clips,
      isFinite clip.finish = true → clip.finish ≤ timeline.finish := by
  intro all
  have le := all { tracks := [{ clips := [longest] }] } longest (List.mem_singleton_self _)
    (by decide +kernel)
  exact absurd le (by decide +kernel)

end Timeline
end Montage
