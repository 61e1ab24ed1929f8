import Montage.Frame
import Montage.Proofs.Sampling.Outcomes

/-!
# What a frame depicts

Sampling keeps a tree as it is: its nodes with their names, and the order of nested nodes
and texts.  At every node it divides the properties by the schema of the component: each
key is found among the properties of the component or among those of the style, where the
schema routes it, and a dropped key in neither.  Under a key stands the property itself
when it is an offset into media, and otherwise a value that sampling this property gives.
`Frame.Depicts` says so, for any notion of what sampling gives.
-/

namespace Montage

/-- What one property looks like in a frame: an offset into media as it is written, and
anything else as a value that it gives. -/
def Sampled.Shows
    (gives : Property → Value → Prop)
    (name key : String)
    (property : Property) : Sampled → Prop
  | .source written => (name, key) ∈ Schema.mediaOffsets ∧ written = property
  | .value given => (name, key) ∉ Schema.mediaOffsets ∧ gives property given

/-- The properties of a component that its schema routes one way. -/
structure Frame.ShowsRouted
    (gives : Property → Value → Prop)
    (name : String)
    (props : Dict Property)
    (route : Route)
    (shown : Dict Sampled) : Prop where
  /-- A key is found exactly when it is a key of the component and routed this way. -/
  isSome_find?_iff : ∀ key, (shown.find? key).isSome = true ↔
    (props.find? key).isSome = true ∧ (Schema.ofName name).route key = route
  /-- What is found under a key shows the property under the same key. -/
  shows : ∀ key property looks, props.find? key = some property →
    shown.find? key = some looks → looks.Shows gives name key property
  /-- The keys stay in order. -/
  ordered : props.Ordered → shown.Ordered

/-- The properties of a component, divided into those of the component itself and those
of its style. -/
structure Frame.ShowsProps
    (gives : Property → Value → Prop)
    (name : String)
    (props : Dict Property)
    (componentProps styleProps : Dict Sampled) : Prop where
  /-- What is handed to the component. -/
  component : ShowsRouted gives name props .component componentProps
  /-- What is folded into the style. -/
  style : ShowsRouted gives name props .style styleProps
  /-- No key is found twice. -/
  apart : ∀ key, componentProps.find? key = none ∨ styleProps.find? key = none
  /-- A dropped key is not found at all. -/
  dropped : ∀ key, (Schema.ofName name).route key = .dropped →
    componentProps.find? key = none ∧ styleProps.find? key = none

mutual

/-- A frame depicts a tree, when each node of it shows the same name, the kind of its
schema, its properties divided by the schema, and frames of what is below it. -/
inductive Frame.Depicts (gives : Property → Value → Prop) : Tree → Frame → Prop where
  /-- A node shows itself and what is below it. -/
  | node
      {name : String}
      {props : Dict Property}
      {children : List (Child Tree)}
      {componentProps styleProps : Dict Sampled}
      {below : List (Child Frame)}
      (showsProps : Frame.ShowsProps gives name props componentProps styleProps)
      (depictsBelow : Frame.DepictsAll gives children below) :
      Frame.Depicts gives ⟨name, props, children⟩
        ⟨name, (Schema.ofName name).kind, componentProps, styleProps, below⟩

/-- Frames and texts depict the children of a node, one by one and in order. -/
inductive Frame.DepictsAll
    (gives : Property → Value → Prop) : List (Child Tree) → List (Child Frame) → Prop where
  /-- Nothing is below. -/
  | nil : Frame.DepictsAll gives [] []
  /-- A nested node has a frame in its place. -/
  | element
      {tree : Tree}
      {frame : Frame}
      {children : List (Child Tree)}
      {below : List (Child Frame)}
      (first : Frame.Depicts gives tree frame)
      (others : Frame.DepictsAll gives children below) :
      Frame.DepictsAll gives (.element tree :: children) (.element frame :: below)
  /-- A text stays as it is. -/
  | text
      {content : String}
      {children : List (Child Tree)}
      {below : List (Child Frame)}
      (others : Frame.DepictsAll gives children below) :
      Frame.DepictsAll gives (.text content :: children) (.text content :: below)

end

namespace Tree

/-! ## The properties of one node -/

/-- What sampling the properties of a component comes to: those that are not dropped,
each with its route and its look. -/
inductive SamplesProps
    (gives : Property → Value → Prop)
    (name : String) : Dict Property → List (Route × String × Sampled) → Prop where
  /-- There is no property. -/
  | nil : SamplesProps gives name [] []
  /-- A dropped property leaves no trace. -/
  | dropped
      {key : String}
      {property : Property}
      {props : Dict Property}
      {sampled : List (Route × String × Sampled)}
      (isDropped : (Schema.ofName name).route key = .dropped)
      (others : SamplesProps gives name props sampled) :
      SamplesProps gives name ((key, property) :: props) sampled
  /-- Any other property is there with its route. -/
  | kept
      {key : String}
      {property : Property}
      {looks : Sampled}
      {props : Dict Property}
      {sampled : List (Route × String × Sampled)}
      (notDropped : (Schema.ofName name).route key ≠ .dropped)
      (shows : looks.Shows gives name key property)
      (others : SamplesProps gives name props sampled) :
      SamplesProps gives name ((key, property) :: props)
        (((Schema.ofName name).route key, key, looks) :: sampled)

section Routed

variable {gives : Property → Value → Prop} {name : String} {props : Dict Property}
  {sampled : List (Route × String × Sampled)} {route : Route}

theorem routed_cons_self
    (key : String)
    (looks : Sampled) :
    routed route ((route, key, looks) :: sampled) = (key, looks) :: routed route sampled := by
  simp [routed]

theorem routed_cons_of_ne
    {other : Route}
    (different : other ≠ route)
    (key : String)
    (looks : Sampled) :
    routed route ((other, key, looks) :: sampled) = routed route sampled := by
  simp [routed, different]

/-- Looking a key up among the properties that go one way, either nothing is found and
the key is no key of the component or goes another way, or the look of its property is
found. -/
theorem SamplesProps.find?_routed
    (samples : SamplesProps gives name props sampled)
    (isRoute : route ≠ .dropped)
    (key : String) :
    ((routed route sampled).find? key = none ∧
        (props.find? key = none ∨ (Schema.ofName name).route key ≠ route)) ∨
      ∃ property looks, props.find? key = some property ∧
        (Schema.ofName name).route key = route ∧
          (routed route sampled).find? key = some looks ∧
            looks.Shows gives name key property := by
  induction samples with
  | nil => exact Or.inl ⟨rfl, Or.inl rfl⟩
  | @dropped held property props sampled isDropped others inductionHypothesis =>
      by_cases same : held = key
      · subst same
        have elsewhere : (Schema.ofName name).route held ≠ route := by
          rw [isDropped]
          exact isRoute.symm
        rcases inductionHypothesis with ⟨absent, -⟩ | ⟨_, _, _, here, _⟩
        · exact Or.inl ⟨absent, Or.inr elsewhere⟩
        · exact absurd here elsewhere
      · simpa [Dict.find?, same] using inductionHypothesis
  | @kept held property looks props sampled notDropped shows others inductionHypothesis =>
      by_cases here : (Schema.ofName name).route held = route
      · rw [here, routed_cons_self]
        by_cases same : held = key
        · subst same
          exact Or.inr ⟨property, looks, by simp [Dict.find?], here, by simp [Dict.find?],
            shows⟩
        · simpa [Dict.find?, same] using inductionHypothesis
      · rw [routed_cons_of_ne here]
        by_cases same : held = key
        · subst same
          rcases inductionHypothesis with ⟨absent, -⟩ | ⟨_, _, _, isHere, _⟩
          · exact Or.inl ⟨absent, Or.inr here⟩
          · exact absurd isHere here
        · simpa [Dict.find?, same] using inductionHypothesis

/-- The keys that go one way stand in the order of all keys. -/
theorem SamplesProps.keys_routed_sublist
    (samples : SamplesProps gives name props sampled)
    (route : Route) :
    ((routed route sampled).map Prod.fst).Sublist (props.map Prod.fst) := by
  induction samples with
  | nil => exact List.Sublist.refl _
  | dropped isDropped others inductionHypothesis => exact inductionHypothesis.cons _
  | @kept held property looks props sampled notDropped shows others inductionHypothesis =>
      by_cases here : (Schema.ofName name).route held = route
      · rw [here, routed_cons_self]
        exact inductionHypothesis.cons_cons _
      · rw [routed_cons_of_ne here]
        exact inductionHypothesis.cons _

theorem SamplesProps.showsRouted
    (samples : SamplesProps gives name props sampled)
    (isRoute : route ≠ .dropped) :
    Frame.ShowsRouted gives name props route (routed route sampled) where
  isSome_find?_iff key := by
    rcases samples.find?_routed isRoute key with
      ⟨absent, nowhere | elsewhere⟩ | ⟨property, looks, held, here, found, -⟩
    · simp [absent, nowhere]
    · simp [absent, elsewhere]
    · simp [held, here, found]
  shows key property looks held found := by
    rcases samples.find?_routed isRoute key with
      ⟨absent, -⟩ | ⟨other, otherLooks, otherHeld, -, otherFound, shows⟩
    · rw [absent] at found
      cases found
    · obtain rfl := Option.some.inj (held.symm.trans otherHeld)
      obtain rfl := Option.some.inj (found.symm.trans otherFound)
      exact shows
  ordered ordered := by
    unfold Dict.Ordered at ordered ⊢
    rw [← List.pairwise_map (f := Prod.fst) (R := fun earlier later : String =>
      earlier < later)] at ordered ⊢
    exact ordered.sublist (samples.keys_routed_sublist route)

theorem SamplesProps.showsProps
    (samples : SamplesProps gives name props sampled) :
    Frame.ShowsProps gives name props (routed .component sampled)
      (routed .style sampled) := by
  have component : Frame.ShowsRouted gives name props .component _ :=
    samples.showsRouted (by decide)
  have style : Frame.ShowsRouted gives name props .style _ := samples.showsRouted (by decide)
  have absentFromComponent : ∀ key, (Schema.ofName name).route key ≠ .component →
      (routed .component sampled).find? key = none := by
    intro key elsewhere
    rw [← Option.not_isSome_iff_eq_none, component.isSome_find?_iff]
    exact fun present => elsewhere present.2
  have absentFromStyle : ∀ key, (Schema.ofName name).route key ≠ .style →
      (routed .style sampled).find? key = none := by
    intro key elsewhere
    rw [← Option.not_isSome_iff_eq_none, style.isSome_find?_iff]
    exact fun present => elsewhere present.2
  refine ⟨component, style, fun key => ?_, fun key isDropped => ?_⟩
  · by_cases here : (Schema.ofName name).route key = .component
    · exact Or.inr (absentFromStyle key (by simp [here]))
    · exact Or.inl (absentFromComponent key here)
  · exact ⟨absentFromComponent key (by simp [isDropped]),
      absentFromStyle key (by simp [isDropped])⟩

end Routed

/-! ## Sampling in any monad -/

section Sampling

open Std.Do

variable {m : Type → Type} {shape : PostShape} [Monad m] [WPMonad m shape]
  {sampler : Sampler m} {gives : Property → Value → Prop}

theorem yields_sampleProp
    (samples : ∀ property : Property, Yields (property.sample sampler) (gives property))
    (name key : String)
    (property : Property) :
    Yields (sampleProp sampler name key property)
      fun looks => looks.Shows gives name key property := by
  unfold sampleProp
  split
  · next isOffset => exact yields_pure ⟨Schema.isMediaOffset_eq_true_iff.mp isOffset, rfl⟩
  · next noOffset =>
      apply (samples property).bind
      intro value given
      exact yields_pure ⟨Schema.isMediaOffset_eq_true_iff.not.mp noOffset, given⟩

theorem yields_sampleProps
    (samples : ∀ property : Property, Yields (property.sample sampler) (gives property))
    (name : String)
    (props : Dict Property) :
    Yields (sampleProps sampler name props) (SamplesProps gives name props) := by
  induction props with
  | nil => exact yields_pure .nil
  | cons prop rest inductionHypothesis =>
      obtain ⟨key, property⟩ := prop
      rw [sampleProps]
      split
      · next isDropped =>
          exact inductionHypothesis.mono fun sampled others => .dropped isDropped others
      · next route notDropped =>
          apply (yields_sampleProp samples name key property).bind
          intro looks shows
          apply inductionHypothesis.bind
          intro sampled others
          exact yields_pure (.kept notDropped shows others)

mutual

/-- Whatever sampling a tree comes to depicts the tree. -/
theorem yields_sample
    (samples : ∀ property : Property, Yields (property.sample sampler) (gives property)) :
    ∀ tree : Tree, Yields (tree.sample sampler) (Frame.Depicts gives tree)
  | ⟨name, props, children⟩ => by
      rw [sample]
      apply (yields_sampleProps samples name props).bind
      intro sampled samplesProps
      apply (yields_sampleChildren samples children).bind
      intro below depictsBelow
      exact yields_pure (.node samplesProps.showsProps depictsBelow)

/-- Whatever sampling the children of a node comes to depicts them in order. -/
theorem yields_sampleChildren
    (samples : ∀ property : Property, Yields (property.sample sampler) (gives property)) :
    ∀ children : List (Child Tree),
      Yields (sampleChildren sampler children) (Frame.DepictsAll gives children)
  | [] => by
      rw [sampleChildren]
      exact yields_pure .nil
  | .element tree :: rest => by
      rw [sampleChildren]
      apply (yields_sample samples tree).bind
      intro frame first
      apply (yields_sampleChildren samples rest).bind
      intro below others
      exact yields_pure (.element first others)
  | .text content :: rest => by
      rw [sampleChildren]
      apply (yields_sampleChildren samples rest).bind
      intro below others
      exact yields_pure (.text others)

end

end Sampling

/-- The frame of a tree depicts the tree.  For a pure sampler the value under a key is
that of sampling the property under the same key; for a sampler with a state it is that
of sampling this property in some state, whatever state the whole tree is sampled in. -/
theorem sample_depicts (tree : Tree) :
    (∀ sampler : Sampler Id,
      Frame.Depicts (fun property value => value = Id.run (property.sample sampler)) tree
        (Id.run (tree.sample sampler))) ∧
    ∀ (σ : Type) (sampler : Sampler (StateM σ)) (state : σ),
      Frame.Depicts
        (fun property value =>
          ∃ reached, value = ((property.sample sampler).run reached).1)
        tree ((tree.sample sampler).run state).1 := by
  refine ⟨fun sampler => ?_, fun σ sampler state => ?_⟩
  · refine yields_id_iff.mp (yields_sample (fun property => ?_) tree)
    exact yields_id_iff.mpr rfl
  · refine yields_state_iff.mp (yields_sample (fun property => ?_) tree) state
    exact yields_state_iff.mpr fun reached => ⟨reached, rfl⟩

/-- A film keeps the instant that it starts from as it is written, and a box below it has its
colour in its style and loses its text. -/
example :
    Id.run (sample (Sampler.standingAt 0.5)
      ⟨"Video", [("startFrom", .animated [0, 1] [.number 2, .number 4])],
        [.element ⟨"div",
          [("color", .constant (.text "red")), ("text", .constant (.text "lost"))], []⟩]⟩) =
    { name := "Video"
      kind := .component
      componentProps := [("startFrom", .source (.animated [0, 1] [.number 2, .number 4]))]
      styleProps := []
      children :=
        [.element ⟨"div", .html, [], [("color", .value (.text "red"))], []⟩] } := by
  rfl

end Tree
end Montage
