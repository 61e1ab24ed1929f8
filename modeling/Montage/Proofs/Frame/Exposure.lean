import Mathlib
import Montage.Frame
import Montage.Proofs.Sampling.Queries

/-!
# What a sampler gets to see of a tree

The exposed properties of a tree are those that go to a component or into a style and are
no offsets into media, each node's own before those below it.  Sampling a tree asks the
queries of its exposed properties, one after the other, and nothing else
(`Tree.asks_sample`).  So no dropped property and no offset into media is ever shown to the
sampler, and all that the frame owes to the sampler are its answers to these queries.
-/

namespace Montage
namespace Tree

/-- The properties of a component that are shown to the sampler. -/
def exposedProps
    (name : String)
    (props : Dict Property) : List Property :=
  (props.filter fun prop =>
    (Schema.ofName name).route prop.1 ≠ .dropped ∧
      Schema.isMediaOffset name prop.1 = false).map Prod.snd

mutual

/-- The properties of a tree that are shown to the sampler, a node's own before those
below it. -/
def exposed : Tree → List Property
  | ⟨name, props, children⟩ => exposedProps name props ++ exposedBelow children

/-- The exposed properties of the nodes among children. -/
def exposedBelow : List (Child Tree) → List Property
  | [] => []
  | .element tree :: rest => exposed tree ++ exposedBelow rest
  | .text _ :: rest => exposedBelow rest

end

/-- What a sampler is asked for a tree. -/
def queries (tree : Tree) : List Query :=
  tree.exposed.flatMap Property.queries

/-! ## Sampling asks the queries of exposed properties -/

/-- A property that is not dropped is sampled unless it is an offset into media. -/
theorem asks_sampleProp
    (name key : String)
    (property : Property) :
    Asks (if Schema.isMediaOffset name key then [] else property.queries)
      fun _ _ sampler => sampleProp sampler name key property := by
  unfold sampleProp
  split
  · exact asks_pure _
  · exact property.asks_sample.map Sampled.value

theorem asks_sampleProps
    (name : String)
    (props : Dict Property) :
    Asks ((exposedProps name props).flatMap Property.queries)
      fun _ _ sampler => sampleProps sampler name props := by
  induction props with
  | nil => exact asks_pure []
  | cons prop rest inductionHypothesis =>
      obtain ⟨key, property⟩ := prop
      by_cases isDropped : (Schema.ofName name).route key = .dropped
      · have hidden : exposedProps name ((key, property) :: rest) = exposedProps name rest := by
          simp [exposedProps, isDropped]
        simp only [hidden, sampleProps, isDropped]
        exact inductionHypothesis
      · have shown : (exposedProps name ((key, property) :: rest)).flatMap Property.queries =
            (if Schema.isMediaOffset name key then [] else property.queries) ++
              (exposedProps name rest).flatMap Property.queries := by
          cases isOffset : Schema.isMediaOffset name key <;>
            simp [exposedProps, isDropped, isOffset]
        simp only [shown, sampleProps]
        exact (asks_sampleProp name key property).bind fun sampled =>
          inductionHypothesis.map _

mutual

/-- Sampling a tree asks the queries of its exposed properties and nothing else. -/
theorem asks_sample : ∀ tree : Tree, Asks tree.queries fun _ _ sampler => tree.sample sampler
  | ⟨name, props, children⟩ => by
      simp only [queries, exposed, List.flatMap_append, sample]
      exact (asks_sampleProps name props).bind fun sampled =>
        (asks_sampleChildren children).map _

/-- Sampling the children of a node asks the queries of what is exposed below it. -/
theorem asks_sampleChildren :
    ∀ children : List (Child Tree),
      Asks ((exposedBelow children).flatMap Property.queries)
        fun _ _ sampler => sampleChildren sampler children
  | [] => by
      simp only [exposedBelow, sampleChildren]
      exact asks_pure []
  | .element tree :: rest => by
      simp only [exposedBelow, List.flatMap_append, sampleChildren]
      exact (asks_sample tree).bind fun frame => (asks_sampleChildren rest).map _
  | .text content :: rest => by
      simp only [exposedBelow, sampleChildren]
      exact (asks_sampleChildren rest).map _

end

/-- In whatever monad and with whatever sampler, sampling a tree asks the queries of its exposed
properties, one after the other and always with the curve for slow starts and ends, and nothing
else; how the answers make up the frame is settled beforehand.  So samplers that agree on these
queries give the same frame, whatever they answer for other curves, and so do samplers with
states as long as they agree from states that are alike.  If no exposed property is animated,
then every sampler gives the same frame, without being asked for anything. -/
theorem sample_sees_only_exposed (tree : Tree) :
    (∃ settle : List Float → Frame,
      ∀ (m : Type → Type) [Monad m] [LawfulMonad m] (sampler : Sampler m),
        tree.sample sampler =
          settle <$> (tree.exposed.flatMap Property.queries).mapM fun query =>
            sampler query.instants query.values .easeInOut) ∧
    (∀ (m : Type → Type) [Monad m] [LawfulMonad m] (left right : Sampler m),
      (∀ query ∈ tree.queries, left query.instants query.values .easeInOut =
        right query.instants query.values .easeInOut) →
      tree.sample left = tree.sample right) ∧
    (∀ (σ τ : Type) (alike : σ → τ → Prop) (left : Sampler (StateM σ))
        (right : Sampler (StateM τ)),
      (∀ query ∈ tree.queries, ∀ state other, alike state other →
        ((left query.instants query.values .easeInOut).run state).1 =
            ((right query.instants query.values .easeInOut).run other).1 ∧
          alike ((left query.instants query.values .easeInOut).run state).2
            ((right query.instants query.values .easeInOut).run other).2) →
      ∀ state other, alike state other →
        ((tree.sample left).run state).1 = ((tree.sample right).run other).1) ∧
    ((∀ property ∈ tree.exposed, property.isAnimated = false) →
      ∃ frame : Frame, ∀ (m : Type → Type) [Monad m] [LawfulMonad m] (sampler : Sampler m),
        tree.sample sampler = pure frame) := by
  obtain ⟨settle, settled⟩ := (asks_sample tree).exists_eq_map
  refine ⟨⟨settle, settled⟩, fun m _ _ left right agree => ?_,
    fun σ τ alike left right agree state other areAlike => ?_, fun still => ?_⟩
  · rw [settled, settled, mapM_ask_congr agree]
  · rw [settled, settled]
    exact congrArg settle (run_mapM_ask_alike agree areAlike)
  · have nothing : tree.queries = [] := by
      apply List.flatMap_eq_nil_iff.mpr
      exact fun property member => Property.queries_of_not_isAnimated (still property member)
    refine ⟨settle [], fun m _ _ sampler => ?_⟩
    rw [settled, nothing, List.mapM_nil, map_pure]

/-- A piece of sound whose volume fades, with an animated colour, which sound does not
have, an animated offset into its file, and a nested node that stands still. -/
def fadingSound : Tree where
  name := "Audio"
  props :=
    [ ("color", .animated [0.0, 1.0] [.number 1.0, .number 2.0]),
      ("startFrom", .animated [0.0, 2.0] [.number 3.0, .number 4.0]),
      ("volume", .animated [0.0, 3.0] [.number 0.0, .number 1.0]) ]
  children := [.element ⟨"div", [("width", .constant (.number 10.0))], []⟩, .text "la"]

/-- The same piece without fading. -/
def steadySound : Tree where
  name := "Audio"
  props :=
    [ ("color", .animated [0.0, 1.0] [.number 1.0, .number 2.0]),
      ("startFrom", .animated [0.0, 2.0] [.number 3.0, .number 4.0]) ]
  children := [.text "la"]

/-- Answers how often it has been asked before; for other curves it answers zero. -/
def countingSampler : Sampler (StateM Nat) :=
  fun _ _ ease => do
    let count ← getModify (· + 1)
    return if ease = .easeInOut then Float.ofNat count else 0

/-- Keeps the curves it has been asked for, and answers how many they were. -/
def notingSampler : Sampler (StateM (List Ease)) :=
  fun _ _ ease => do
    let noted ← getModify (ease :: ·)
    return Float.ofNat noted.length

/-- Answers as if it stood at one second, whatever the curve. -/
def stubbornSampler : Sampler Id :=
  fun instants values _ => Sampler.standingAt 1.0 instants values .easeInOut

/-- Of the fading sound only the volume is seen, and samplers that agree on one curve sample
it alike, with or without states.  Of the steady sound nothing is seen. -/
theorem sample_sees_only_exposed_sounds :
    ((∀ query ∈ fadingSound.queries,
        Sampler.standingAt 1.0 query.instants query.values .easeInOut =
          stubbornSampler query.instants query.values .easeInOut) ∧
      (∀ query ∈ fadingSound.queries, ∀ state other, state = other.length →
        ((countingSampler query.instants query.values .easeInOut).run state).1 =
            ((notingSampler query.instants query.values .easeInOut).run other).1 ∧
          ((countingSampler query.instants query.values .easeInOut).run state).2 =
            ((notingSampler query.instants query.values .easeInOut).run other).2.length) ∧
      ∀ property ∈ steadySound.exposed, property.isAnimated = false) ∧
    fadingSound.queries = [⟨[0.0, 3.0], [0.0, 1.0]⟩] ∧
    fadingSound.sample (Sampler.standingAt 1.0) = fadingSound.sample stubbornSampler ∧
    ((fadingSound.sample countingSampler).run 0).1 =
      ((fadingSound.sample notingSampler).run []).1 ∧
    ∃ frame : Frame, ∀ (m : Type → Type) [Monad m] [LawfulMonad m] (sampler : Sampler m),
      steadySound.sample sampler = pure frame := by
  have stateless : ∀ query ∈ fadingSound.queries,
      Sampler.standingAt 1.0 query.instants query.values .easeInOut =
        stubbornSampler query.instants query.values .easeInOut := fun _ _ => rfl
  have stateful : ∀ query ∈ fadingSound.queries, ∀ state other, state = other.length →
      ((countingSampler query.instants query.values .easeInOut).run state).1 =
          ((notingSampler query.instants query.values .easeInOut).run other).1 ∧
        ((countingSampler query.instants query.values .easeInOut).run state).2 =
          ((notingSampler query.instants query.values .easeInOut).run other).2.length := by
    rintro query - state other rfl
    exact ⟨rfl, rfl⟩
  have still : ∀ property ∈ steadySound.exposed, property.isAnimated = false := by
    have nothing : steadySound.exposed = [] := by rfl
    simp [nothing]
  obtain ⟨-, agreeing, alike, -⟩ := sample_sees_only_exposed fadingSound
  exact ⟨⟨stateless, stateful, still⟩, by rfl, agreeing Id _ _ stateless,
    alike Nat (List Ease) _ countingSampler notingSampler stateful 0 [] rfl,
    (sample_sees_only_exposed steadySound).2.2.2 still⟩

end Tree
end Montage
