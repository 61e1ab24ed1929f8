import Mathlib
import Montage.Timeline.Duration

/-!
# The frames that cover a timeline

A number of frames covers a timeline when no clip lasts longer than these frames by a
billionth of a frame or more.  Snapping to the nearest whole number and rounding up turn
out to be one operation: together they give the least whole number that is not exceeded by
the tolerance (`FrameRate.wholeFrames_le_iff`).  The number of frames of a timeline is then
the least one that covers it, and everything else follows from what it means to be covered:
neither the order of the clips nor their tracks matter, and more or longer clips never need
fewer frames.

All times are exact here.
-/

namespace Montage

open Number

namespace FrameRate

/-! ## Whole frames -/

/-- The nearest whole number is at most one half away. -/
theorem abs_sub_roundHalfAway_le (value : Rat) :
    |value - roundHalfAway value| ≤ 1 / 2 := by
  rw [abs_le]
  unfold roundHalfAway
  split
  · have below := Rat.floor_le (value + 1 / 2)
    have above := Rat.lt_floor_add_one (value + 1 / 2)
    push_cast at *
    constructor <;> linarith
  · have below := Rat.floor_le (-value + 1 / 2)
    have above := Rat.lt_floor_add_one (-value + 1 / 2)
    push_cast at *
    constructor <;> linarith

/-- Snapping and rounding up together give the least whole number that is not exceeded by
the tolerance. -/
theorem wholeFrames_le_iff
    {frames : Rat}
    {number : Int} :
    wholeFrames frames ≤ number ↔ frames - number < 1 / 1000000000 := by
  unfold wholeFrames
  simp only
  split
  · next near =>
      constructor
      · intro le
        have le : (roundHalfAway frames : Rat) ≤ number := by exact_mod_cast le
        linarith [near.2]
      · intro short
        -- One frame less than the nearest one would be exceeded by almost a whole frame.
        by_contra less
        have less : (number : Rat) + 1 ≤ roundHalfAway frames := by
          exact_mod_cast Int.not_le.mp less
        linarith [near.1]
  · next far =>
      rw [Rat.ceil_le_iff]
      constructor
      · intro le
        linarith
      · intro short
        by_contra less
        -- A number that close would be the nearest one.
        have half := abs_le.mp (abs_sub_roundHalfAway_le frames)
        have lower : (roundHalfAway frames : Rat) < number + 1 := by linarith
        have upper : (number : Rat) < roundHalfAway frames + 1 := by linarith
        have same : roundHalfAway frames = number :=
          le_antisymm (Int.lt_add_one_iff.mp (by exact_mod_cast lower))
            (Int.lt_add_one_iff.mp (by exact_mod_cast upper))
        apply far
        rw [same]
        constructor <;> linarith

/-- A reported count suffices when it is the largest there is or is not exceeded by the
tolerance. -/
theorem count_finite_le_iff
    {frames : Rat}
    {number : Nat} :
    count (.finite frames) ≤ number ↔
      maxCount ≤ number ∨ frames - number < 1 / 1000000000 := by
  rw [count, clampTo, min_le_iff, Int.toNat_le, wholeFrames_le_iff, Int.cast_natCast]

theorem perSecond_nonneg (rate : FrameRate) : (0 : Rat) ≤ rate.perSecond := by
  unfold perSecond
  positivity

end FrameRate

/-! ## Clips and timelines -/

/-- The instant until which a clip lasts: its end, and half of the passage into the next
clip where that takes any time. -/
def Clip.lastsUntil (clip : Clip Rat) : Rat :=
  clip.finish + (clip.toNext.elim 0 fun passage => max 0 passage.duration) / 2

/-- The other clip ends no earlier and, if this one has a passage into the next clip, has
one that takes no less time. -/
def Clip.IsLengthenedTo (clip other : Clip Rat) : Prop :=
  clip.finish ≤ other.finish ∧
    ∀ passage, clip.toNext = some passage →
      ∃ longer, other.toNext = some longer ∧ passage.duration ≤ longer.duration

namespace Clip

variable {clip other : Clip Rat}

theorem extendedFinish_eq_lastsUntil : clip.extendedFinish = clip.lastsUntil := by
  unfold extendedFinish extension lastsUntil
  cases clip.toNext with
  | none => simp
  | some passage =>
      simp only [Transition.extension, isFinite_rat, if_true, Option.elim_some]
      split
      · next positive => rw [max_eq_right positive.le]
      · next negative => rw [max_eq_left (not_lt.mp negative), zero_div]

/-- A clip that is made longer lasts no shorter. -/
theorem IsLengthenedTo.lastsUntil_le
    (lengthened : clip.IsLengthenedTo other) :
    clip.lastsUntil ≤ other.lastsUntil := by
  obtain ⟨finish, passages⟩ := lengthened
  have extension : (clip.toNext.elim 0 fun passage => max 0 passage.duration) ≤
      other.toNext.elim 0 fun passage => max 0 passage.duration := by
    cases here : clip.toNext with
    | none =>
        cases other.toNext with
        | none => exact le_rfl
        | some passage => exact le_max_left 0 passage.duration
    | some passage =>
        obtain ⟨longer, there, le⟩ := passages passage here
        rw [there]
        exact max_le_max_left 0 le
  unfold lastsUntil
  linarith

end Clip

namespace Timeline

/-- No clip of any track lasts longer than these frames by a billionth of a frame or
more. -/
def IsCoveredBy
    (timeline : Timeline Rat)
    (rate : FrameRate)
    (number : Int) : Prop :=
  ∀ track ∈ timeline.tracks, ∀ clip ∈ track.clips,
    clip.lastsUntil * rate.frames.toNat / rate.seconds.toNat - number < 1 / 1000000000

instance
    (timeline : Timeline Rat)
    (rate : FrameRate)
    (number : Int) :
    Decidable (timeline.IsCoveredBy rate number) :=
  inferInstanceAs (Decidable (∀ track ∈ timeline.tracks, ∀ clip ∈ track.clips, _))

variable {timeline other : Timeline Rat} {rate : FrameRate}

theorem isCoveredBy_iff
    {number : Int} :
    timeline.IsCoveredBy rate number ↔
      ∀ clip ∈ timeline.clips,
        clip.lastsUntil * rate.perSecond - number < 1 / 1000000000 := by
  simp only [IsCoveredBy, clips, List.forall_mem_flatMap, FrameRate.perSecond, mul_div_assoc]

theorem later_eq_max (first second : Rat) : later first second = max first second := by
  unfold later
  split
  · next less => exact (max_eq_right less.le).symm
  · next notLess => exact (max_eq_left (not_lt.mp notLess)).symm

/-- The latest instant, in frames, lies before a bound when all of them do. -/
theorem foldl_later_mul_lt_iff
    {factor bound : Rat}
    (factorNonneg : 0 ≤ factor)
    {first : Rat}
    {instants : List Rat} :
    instants.foldl later first * factor < bound ↔
      first * factor < bound ∧ ∀ instant ∈ instants, instant * factor < bound := by
  induction instants generalizing first with
  | nil => simp
  | cons instant rest inductionHypothesis =>
      rw [List.foldl_cons, inductionHypothesis, later_eq_max,
        max_mul_of_nonneg first instant factorNonneg, max_lt_iff, List.forall_mem_cons,
        and_assoc]

/-- The frames up to the end of the timeline are covered when the timeline is. -/
theorem finish_mul_sub_lt_iff
    {number : Nat} :
    timeline.finish * rate.perSecond - number < 1 / 1000000000 ↔
      timeline.IsCoveredBy rate number := by
  have numberNonneg : (0 : Rat) ≤ number := Nat.cast_nonneg number
  have finite : (timeline.clips.map Clip.extendedFinish).filter isFinite =
      timeline.clips.map Clip.lastsUntil := by
    rw [List.filter_eq_self.mpr fun instant _ => isFinite_rat instant]
    exact List.map_congr_left fun clip _ => Clip.extendedFinish_eq_lastsUntil
  rw [isCoveredBy_iff, finish, finite, sub_lt_iff_lt_add,
    foldl_later_mul_lt_iff rate.perSecond_nonneg, zero_mul, List.forall_mem_map]
  simp only [sub_lt_iff_lt_add, Int.cast_natCast]
  constructor
  · exact And.right
  · exact fun each => ⟨by linarith, each⟩

/-- A timeline has no more frames than a number when this is at least one and covers the
timeline, or is beyond the largest count. -/
theorem frameCount_le_iff
    {number : Nat} :
    timeline.frameCount rate ≤ number ↔
      1 ≤ number ∧ (FrameRate.maxCount ≤ number ∨ timeline.IsCoveredBy rate number) := by
  have reading : Readable.reading (timeline.finish * rate.perSecond) =
      .finite (timeline.finish * rate.perSecond) := rfl
  rw [frameCount, max_le_iff, FrameRate.framesCovering, isFinite_rat, if_pos rfl, reading,
    FrameRate.count_finite_le_iff, finish_mul_sub_lt_iff]
  rfl

theorem frameCount_le_maxCount : timeline.frameCount rate ≤ FrameRate.maxCount :=
  frameCount_le_iff.mpr ⟨by decide, Or.inl le_rfl⟩

/-- The frames of a timeline cover it, if the largest count does. -/
theorem isCoveredBy_frameCount
    (fits : timeline.IsCoveredBy rate FrameRate.maxCount) :
    timeline.IsCoveredBy rate (timeline.frameCount rate) := by
  obtain ⟨-, largest | covered⟩ := frameCount_le_iff.mp (le_refl (timeline.frameCount rate))
  · -- Nothing is reported beyond the largest count, so this is the count itself.
    rw [le_antisymm frameCount_le_maxCount largest]
    exact fits
  · exact covered

/-- Whatever covers longer clips covers shorter ones. -/
theorem IsCoveredBy.of_longer
    {number : Int}
    (covered : other.IsCoveredBy rate number)
    (longer : ∀ clip ∈ timeline.clips, ∃ held ∈ other.clips,
      clip.lastsUntil ≤ held.lastsUntil) :
    timeline.IsCoveredBy rate number := by
  rw [isCoveredBy_iff] at covered ⊢
  intro clip member
  obtain ⟨held, heldMember, le⟩ := longer clip member
  have scaled := mul_le_mul_of_nonneg_right le rate.perSecond_nonneg
  linarith [covered held heldMember]

/-- A timeline needs no more frames than one with longer clips. -/
theorem frameCount_le_of_longer
    (longer : ∀ clip ∈ timeline.clips, ∃ held ∈ other.clips,
      clip.lastsUntil ≤ held.lastsUntil) :
    timeline.frameCount rate ≤ other.frameCount rate := by
  obtain ⟨positive, covers⟩ := frameCount_le_iff.mp (le_refl (other.frameCount rate))
  refine frameCount_le_iff.mpr ⟨positive, covers.imp_right ?_⟩
  exact fun covered => covered.of_longer longer

/-- If the largest count covers a timeline at all, then its number of frames is the least number
from one on that does.  Timelines with the same clips, in whatever order and in whatever tracks,
have the same number of frames, and a timeline to which clips are added, or whose clips or
passages are made longer, has no fewer. -/
theorem frameCount_isLeast
    (timeline : Timeline Rat)
    (rate : FrameRate) :
    (timeline.IsCoveredBy rate FrameRate.maxCount →
      IsLeast {number : ℤ | 1 ≤ number ∧ timeline.IsCoveredBy rate number}
        (timeline.frameCount rate)) ∧
    (∀ other : Timeline Rat, other.clips.Perm timeline.clips →
      other.frameCount rate = timeline.frameCount rate) ∧
    ∀ other : Timeline Rat,
      (∀ clip ∈ timeline.clips, ∃ longer ∈ other.clips, clip.IsLengthenedTo longer) →
        timeline.frameCount rate ≤ other.frameCount rate := by
  refine ⟨fun fits => ⟨?_, ?_⟩, fun other rearranged => ?_, fun other lengthened => ?_⟩
  · have positive := (frameCount_le_iff.mp (le_refl (timeline.frameCount rate))).1
    exact ⟨by exact_mod_cast positive, isCoveredBy_frameCount fits⟩
  · rintro number ⟨positive, covered⟩
    lift number to ℕ using by omega
    have least : timeline.frameCount rate ≤ number :=
      frameCount_le_iff.mpr ⟨by exact_mod_cast positive, Or.inr covered⟩
    exact_mod_cast least
  · apply le_antisymm
    · apply frameCount_le_of_longer
      exact fun clip member => ⟨clip, rearranged.mem_iff.mp member, le_rfl⟩
    · apply frameCount_le_of_longer
      exact fun clip member => ⟨clip, rearranged.mem_iff.mpr member, le_rfl⟩
  · apply frameCount_le_of_longer
    intro clip member
    obtain ⟨longer, longerMember, isLonger⟩ := lengthened clip member
    exact ⟨longer, longerMember, isLonger.lastsUntil_le⟩

/-- Two tracks whose latest clip lasts, with its passage, for a little more than half a
second, by less than the tolerance. -/
def closeTracks : Timeline Rat where
  tracks :=
    [ { clips :=
          [ { id := "first", start := 0, finish := 1 / 10 + 1 / 1000000000000,
              toNext := some ⟨"fade", 4 / 5⟩ } ] },
      { clips :=
          [{ id := "second", start := 0, finish := 1 / 3, toNext := some ⟨"fade", -2⟩ }] } ]

/-- The same clips in one track, the other way round. -/
def oneTrack : Timeline Rat where
  tracks :=
    [ { clips :=
          [ { id := "second", start := 0, finish := 1 / 3, toNext := some ⟨"fade", -2⟩ },
            { id := "first", start := 0, finish := 1 / 10 + 1 / 1000000000000,
              toNext := some ⟨"fade", 4 / 5⟩ } ] } ]

/-- The same tracks, with a longer passage and one more clip. -/
def longerTracks : Timeline Rat where
  tracks :=
    [ { clips :=
          [ { id := "first", start := 0, finish := 1 / 10 + 1 / 1000000000000,
              toNext := some ⟨"fade", 1⟩ } ] },
      { clips :=
          [ { id := "third", start := 1, finish := 3 / 2 },
            { id := "second", start := 0, finish := 1 / 3,
              toNext := some ⟨"fade", -2⟩ } ] } ]

/-- The two tracks snap to fifteen frames, in either arrangement. -/
theorem frameCount_closeTracks :
    (closeTracks.IsCoveredBy .playback FrameRate.maxCount ∧
      oneTrack.clips.Perm closeTracks.clips ∧
      ∀ clip ∈ closeTracks.clips, ∃ longer ∈ longerTracks.clips,
        clip.IsLengthenedTo longer) ∧
    closeTracks.frameCount .playback = 15 ∧
    IsLeast {number : ℤ | 1 ≤ number ∧ closeTracks.IsCoveredBy .playback number}
      (closeTracks.frameCount .playback) ∧
    oneTrack.frameCount .playback = closeTracks.frameCount .playback ∧
    closeTracks.frameCount .playback ≤ longerTracks.frameCount .playback := by
  have fits : closeTracks.IsCoveredBy .playback FrameRate.maxCount := by
    decide +kernel
  have rearranged : oneTrack.clips.Perm closeTracks.clips := List.Perm.swap _ _ []
  have lengthened : ∀ clip ∈ closeTracks.clips, ∃ longer ∈ longerTracks.clips,
      clip.IsLengthenedTo longer := by
    norm_num [closeTracks, longerTracks, clips, Clip.IsLengthenedTo]
  have main := frameCount_isLeast closeTracks .playback
  exact ⟨⟨fits, rearranged, lengthened⟩, by decide +kernel, main.1 fits,
    main.2.1 oneTrack rearranged, main.2.2 longerTracks lengthened⟩

end Timeline
end Montage
