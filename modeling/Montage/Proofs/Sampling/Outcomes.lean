import Mathlib
import Montage.Sampling

/-!
# What sampling can come to

A sampler works in a monad, and sampling does too.  `Yields` says of a computation that
whatever it comes to has some property.  A pure computation has one result, a stateful
one has a result for every state that it may start in; what is shown for every monad
holds for both.  Of a sampler it says what the sampler gives for a list of values, and
sampled colours and runs are made of what is given for their channels and columns.
-/

namespace Montage

open Std.Do

section Computations

variable {m : Type → Type} {shape : PostShape} [Monad m] [WPMonad m shape] {α β : Type}

/-- Everything that a computation comes to has the property. -/
def Yields
    (computation : m α)
    (holds : α → Prop) : Prop :=
  ⦃⌜True⌝⦄ computation ⦃⇓ result => ⌜holds result⌝⦄

theorem yields_pure
    {holds : α → Prop}
    {result : α}
    (isHeld : holds result) :
    Yields (pure result : m α) holds := by
  apply Triple.pure
  exact SPred.pure_mono fun _ => isHeld

theorem Yields.mono
    {computation : m α}
    {before after : α → Prop}
    (yields : Yields computation before)
    (implies : ∀ result, before result → after result) :
    Yields computation after := by
  apply Triple.entails_wp_of_post yields
  rw [PostCond.entails_noThrow]
  intro result
  exact SPred.pure_mono (implies result)

/-- What comes after a first computation may rely on what that one comes to. -/
theorem Yields.bind
    {first : m α}
    {next : α → m β}
    {before : α → Prop}
    {after : β → Prop}
    (firstYields : Yields first before)
    (nextYields : ∀ result, before result → Yields (next result) after) :
    Yields (first >>= next) after := by
  refine Triple.bind first next firstYields fun result => Triple.iff.mpr ?_
  apply SPred.pure_elim'
  intro isHeld
  exact Triple.iff.mp (nextYields result isHeld)

theorem Yields.map
    {computation : m α}
    {before : α → Prop}
    {after : β → Prop}
    (yields : Yields computation before)
    {function : α → β}
    (implies : ∀ result, before result → after (function result)) :
    Yields (function <$> computation) after := by
  rw [map_eq_pure_bind]
  exact yields.bind fun result isHeld => yields_pure (implies result isHeld)

/-- A pure computation comes to its result. -/
@[simp] theorem yields_id_iff
    {computation : Id α}
    {holds : α → Prop} :
    Yields computation holds ↔ holds computation.run := by
  simp [Yields, Triple.iff, wp]

/-- A stateful computation comes to one result from each state. -/
@[simp] theorem yields_state_iff
    {σ : Type}
    {computation : StateM σ α}
    {holds : α → Prop} :
    Yields computation holds ↔ ∀ state, holds (computation.run state).1 := by
  simp only [Yields, Triple.iff, wp]
  simp [Id.run]

/-- A stateful computation that is worked on has one result, if all that it comes to leads
to this result. -/
theorem Yields.fst_run_map_eq
    {σ : Type}
    {computation : StateM σ α}
    {holds : α → Prop}
    (yields : Yields computation holds)
    {function : α → β}
    {result : β}
    (leads : ∀ outcome, holds outcome → function outcome = result)
    (state : σ) :
    ((function <$> computation).run state).1 = result :=
  leads _ (yields_state_iff.mp yields state)

end Computations

namespace Property

/-! ## Colours and runs -/

/-- A channel is rounded from a number that is given for the channels of colours. -/
def IsChannelOf
    (gives : List Float → Float → Prop)
    (colors : List Color)
    (part : Color → UInt8)
    (channel : UInt8) : Prop :=
  ∃ number, gives (colors.map fun color => Float.ofNat (part color).toNat) number ∧
    channel = Color.channelOf number

/-- The numbers that texts have in the place of each run of the first one. -/
def columns : List Float → List (List Float) → List (List Float)
  | [], _ => []
  | value :: values, others =>
      (value :: others.map fun other => other.headD 0) :: columns values (others.map List.tail)

theorem getElem?_columns
    (values : List Float)
    (others : List (List Float))
    (index : Nat) :
    (columns values others)[index]? =
      values[index]?.map fun value => value :: others.map fun other => other.getD index 0 := by
  induction values generalizing others index with
  | nil => simp [columns]
  | cons value rest inductionHypothesis =>
      cases index with
      | zero => simp [columns, List.head?_eq_getElem?]
      | succ index => simp [columns, inductionHypothesis, Function.comp_def]

theorem length_columns
    (values : List Float)
    (others : List (List Float)) :
    (columns values others).length = values.length := by
  induction values generalizing others with
  | nil => rfl
  | cons value rest inductionHypothesis => simp [columns, inductionHypothesis]

variable {m : Type → Type} {shape : PostShape} [Monad m] [WPMonad m shape]
  {sampler : Sampler m} {instants : List Float} {gives : List Float → Float → Prop}

/-- The channels of a sampled colour come from what the sampler gives for them. -/
theorem yields_sampleColors
    (answers : ∀ values, Yields (sampler instants values .standard) (gives values))
    (colors : List Color) :
    Yields (sampleColors sampler instants colors) fun color =>
      IsChannelOf gives colors Color.red color.red ∧
        IsChannelOf gives colors Color.green color.green ∧
          IsChannelOf gives colors Color.blue color.blue := by
  have channel : ∀ part : Color → UInt8,
      Yields
        (do
          let amounts := colors.map fun color => Float.ofNat (part color).toNat
          return Color.channelOf (← sampler instants amounts .standard))
        (IsChannelOf gives colors part) :=
    fun part => (answers _).bind fun number given => yields_pure ⟨number, given, rfl⟩
  apply (channel Color.red).bind
  intro red redGiven
  apply (channel Color.green).bind
  intro green greenGiven
  apply (channel Color.blue).bind
  intro blue blueGiven
  exact yields_pure ⟨redGiven, greenGiven, blueGiven⟩

/-- The numbers of sampled runs are what the sampler gives for their columns. -/
theorem yields_sampleRuns
    (answers : ∀ values, Yields (sampler instants values .standard) (gives values))
    (values : List Float)
    (others : List (List Float)) :
    Yields (sampleRuns sampler instants values others)
      (List.Forall₂ gives (columns values others)) := by
  induction values generalizing others with
  | nil => exact yields_pure .nil
  | cons value rest inductionHypothesis =>
      apply (answers _).bind
      intro number given
      apply (inductionHypothesis (others.map List.tail)).bind
      intro numbers later
      exact yields_pure (.cons given later)

end Property
end Montage
