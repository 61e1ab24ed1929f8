import Montage.Proofs.Frame.Depiction
import Montage.Proofs.Wire.Separation
import Montage.Wire.Frame

/-!
# Frames can be told from their texts

The document of a frame does not say which of its properties are offsets into media.  A
value can even have the same document as such an offset, so that not all frames can be told
apart.  But sampling settles by the name of a node and the key of a property whether the
property is an offset (`Frame.IsMarked`), and these two do stand in the document.  Hence the
frames that sampling comes to can be told from their texts, as far as their numbers can.
-/

namespace Montage

/-! ## Properties of frames -/

namespace Sampled

/-- Whether the property stands in the frame as it was written. -/
def isSource : Sampled → Bool
  | .value _ => false
  | .source _ => true

/-- The numbers in a property of a frame. -/
def numbers : Sampled → List Float
  | .value sampled => sampled.numbers
  | .source written => written.numbers

theorem isWritable_toJson (sampled : Sampled) : sampled.toJson.IsWritable := by
  cases sampled with
  | value sampled => exact sampled.isWritable_toJson
  | source written => exact written.isWritable_toJson

theorem Shows.isSource_eq
    {gives : Property → Value → Prop}
    {name key : String}
    {property : Property}
    {looks : Sampled}
    (shows : looks.Shows gives name key property) :
    looks.isSource = Schema.isMediaOffset name key := by
  cases looks with
  | value given => exact (Schema.isMediaOffset_eq_false_iff.mpr shows.1).symm
  | source written => exact (Schema.isMediaOffset_eq_true_iff.mpr shows.1).symm

/-- A property of a frame can be told from its document, once it is known whether it stands
there as it was written. -/
theorem eq_of_toJson_eq
    {left right : Sampled}
    (alike : left.isSource = right.isSource)
    (separates : Json.Separates left.numbers right.numbers)
    (same : left.toJson = right.toJson) :
    left = right := by
  match left, right, alike with
  | .value sampled, .value other, _ => rw [Value.eq_of_toJson_eq separates same]
  | .source written, .source other, _ => rw [Property.eq_of_toJson_eq separates same]

/-- The document alone does not tell a value from an offset. -/
example :
    (value (.map [("kind", .text "constant"), ("value", .bool true)])).toJson =
      (source (.constant (.bool true))).toJson := by
  rfl

end Sampled

theorem ComponentKind.name_injective : Function.Injective ComponentKind.name := by
  intro left right same
  cases left <;> cases right <;> simp [name] at same ⊢

namespace Frame

/-! ## Documents of frames -/

/-- The numbers in the properties that go one way. -/
def propsNumbers (props : List (String × Sampled)) : List Float :=
  props.flatMap fun prop => prop.2.numbers

mutual

/-- The numbers in the properties of all nodes of a frame. -/
def numbers : Frame → List Float
  | ⟨_, _, componentProps, styleProps, below⟩ =>
      propsNumbers componentProps ++ propsNumbers styleProps ++ childrenNumbers below

/-- The numbers in the nodes among children. -/
def childrenNumbers : List (Child Frame) → List Float
  | [] => []
  | .element frame :: rest => numbers frame ++ childrenNumbers rest
  | .text _ :: rest => childrenNumbers rest

end

theorem isWritable_propsToJson (props : List (String × Sampled)) :
    (propsToJson props).IsWritable := by
  apply Json.isWritable_record
  intro member isMember
  obtain ⟨prop, -, rfl⟩ := List.mem_map.mp isMember
  exact prop.2.isWritable_toJson

mutual

/-- The document of a frame has a text. -/
theorem isWritable_toJson (frame : Frame) : frame.toJson.IsWritable := by
  match frame with
  | ⟨name, kind, componentProps, styleProps, below⟩ =>
      have belowWritable := Json.isWritable_array (isWritable_childrenToJson below)
      apply Json.isWritable_record
      simpa using ⟨Json.isWritable_text _, Json.isWritable_text _,
        isWritable_propsToJson componentProps, isWritable_propsToJson styleProps, belowWritable⟩

theorem isWritable_childrenToJson (children : List (Child Frame)) :
    ∀ json ∈ childrenToJson children, json.IsWritable := by
  match children with
  | [] => exact List.forall_mem_nil _
  | .element frame :: rest =>
      exact List.forall_mem_cons.mpr ⟨isWritable_toJson frame, isWritable_childrenToJson rest⟩
  | .text content :: rest =>
      exact List.forall_mem_cons.mpr
        ⟨Json.isWritable_text _, isWritable_childrenToJson rest⟩

end

/-! ## What is an offset is settled by name and key -/

/-- Of the properties of a node, exactly those stand as they were written that the schemas
list as offsets into media. -/
def PropsMarked
    (name : String)
    (props : List (String × Sampled)) : Prop :=
  ∀ prop ∈ props, prop.2.isSource = Schema.isMediaOffset name prop.1

mutual

/-- In all nodes of a frame, exactly the offsets into media stand as they were written. -/
def IsMarked : Frame → Prop
  | ⟨name, _, componentProps, styleProps, below⟩ =>
      PropsMarked name componentProps ∧ PropsMarked name styleProps ∧ ChildrenMarked below

/-- In all nodes among children, exactly the offsets into media stand as they were
written. -/
def ChildrenMarked : List (Child Frame) → Prop
  | [] => True
  | .element frame :: rest => IsMarked frame ∧ ChildrenMarked rest
  | .text _ :: rest => ChildrenMarked rest

end

theorem propsMarked_routed
    {gives : Property → Value → Prop}
    {name : String}
    {props : Dict Property}
    {sampled : List (Route × String × Sampled)}
    (samples : Tree.SamplesProps gives name props sampled)
    (route : Route) :
    PropsMarked name (Tree.routed route sampled) := by
  have marked : ∀ prop ∈ sampled, prop.2.2.isSource = Schema.isMediaOffset name prop.2.1 := by
    induction samples with
    | nil => exact List.forall_mem_nil _
    | dropped isDropped others inductionHypothesis => exact inductionHypothesis
    | kept notDropped shows others inductionHypothesis =>
        exact List.forall_mem_cons.mpr ⟨shows.isSource_eq, inductionHypothesis⟩
  intro prop member
  obtain ⟨given, isGiven, rfl⟩ := List.mem_map.mp member
  exact marked given (List.mem_of_mem_filter isGiven)

section Sampling

open Std.Do

variable {m : Type → Type} {shape : PostShape} [Monad m] [WPMonad m shape]
  {sampler : Sampler m}

mutual

/-- In whatever sampling a tree comes to, exactly the offsets into media stand as they were
written. -/
theorem yields_isMarked
    (samples : ∀ property : Property, Yields (property.sample sampler) fun _ => True) :
    ∀ tree : Tree, Yields (tree.sample sampler) IsMarked
  | ⟨name, props, children⟩ => by
      rw [Tree.sample]
      have propsSampled : Yields (Tree.sampleProps sampler name props)
          (Tree.SamplesProps (fun _ _ => True) name props) :=
        Tree.yields_sampleProps samples name props
      apply propsSampled.bind
      intro sampled samplesProps
      apply (yields_childrenMarked samples children).bind
      intro below marked
      exact yields_pure
        ⟨propsMarked_routed samplesProps _, propsMarked_routed samplesProps _, marked⟩

theorem yields_childrenMarked
    (samples : ∀ property : Property, Yields (property.sample sampler) fun _ => True) :
    ∀ children : List (Child Tree),
      Yields (Tree.sampleChildren sampler children) ChildrenMarked
  | [] => by
      rw [Tree.sampleChildren]
      exact yields_pure trivial
  | .element tree :: rest => by
      rw [Tree.sampleChildren]
      apply (yields_isMarked samples tree).bind
      intro frame first
      apply (yields_childrenMarked samples rest).bind
      intro below others
      exact yields_pure ⟨first, others⟩
  | .text content :: rest => by
      rw [Tree.sampleChildren]
      apply (yields_childrenMarked samples rest).bind
      intro below others
      exact yields_pure others

end

end Sampling

/-- The frames that sampling comes to, for a pure sampler or for one with a state. -/
inductive IsSampled : Frame → Prop where
  /-- A pure sampler samples a tree. -/
  | pure
      (tree : Tree)
      (sampler : Sampler Id) :
      IsSampled (Id.run (tree.sample sampler))
  /-- A sampler with a state samples a tree from some state. -/
  | stateful
      {σ : Type}
      (tree : Tree)
      (sampler : Sampler (StateM σ))
      (state : σ) :
      IsSampled ((tree.sample sampler).run state).1

theorem IsSampled.isMarked
    {frame : Frame}
    (sampled : frame.IsSampled) :
    frame.IsMarked := by
  cases sampled with
  | pure tree sampler =>
      exact yields_id_iff.mp (yields_isMarked (fun _ => yields_id_iff.mpr trivial) tree)
  | stateful tree sampler state =>
      exact yields_state_iff.mp
        (yields_isMarked (fun _ => yields_state_iff.mpr fun _ => trivial) tree) state

/-! ## Marked frames can be told apart -/

theorem eq_of_propsToJson_eq
    {name : String}
    {left right : List (String × Sampled)}
    (leftMarked : PropsMarked name left)
    (rightMarked : PropsMarked name right)
    (separates : Json.Separates (propsNumbers left) (propsNumbers right))
    (same : propsToJson left = propsToJson right) :
    left = right := by
  apply eq_of_map_eq_map ?_ (Json.record_injective same)
  rintro ⟨key, looks⟩ member ⟨otherKey, otherLooks⟩ otherMember sameEntry
  obtain ⟨rfl, sameLooks⟩ := Prod.mk.inj sameEntry
  have alike : looks.isSource = otherLooks.isSource :=
    (leftMarked _ member).trans (rightMarked _ otherMember).symm
  have looksSeparate : Json.Separates looks.numbers otherLooks.numbers :=
    separates.of_flatMap member otherMember
  rw [Sampled.eq_of_toJson_eq alike looksSeparate sameLooks]

/-- A nested node is an object and a text is a string. -/
theorem toJson_ne_text
    (frame : Frame)
    (content : String) :
    frame.toJson ≠ .text content := by
  intro same
  cases frame
  simp [toJson, Json.record, Json.text] at same

mutual

/-- A marked frame can be told from its document, if its numbers can. -/
theorem eq_of_toJson_eq
    {left right : Frame}
    (leftMarked : left.IsMarked)
    (rightMarked : right.IsMarked)
    (separates : Json.Separates left.numbers right.numbers)
    (same : left.toJson = right.toJson) :
    left = right := by
  match left, right with
  | ⟨name, kind, componentProps, styleProps, below⟩,
      ⟨otherName, otherKind, otherComponentProps, otherStyleProps, otherBelow⟩ =>
      obtain ⟨rfl, sameKind, sameComponent, sameStyle, sameBelow⟩ :
          name = otherName ∧ kind.name = otherKind.name ∧
            propsToJson componentProps = propsToJson otherComponentProps ∧
            propsToJson styleProps = propsToJson otherStyleProps ∧
            childrenToJson below = childrenToJson otherBelow := by
        simpa [toJson, Json.record, Json.text] using same
      obtain ⟨componentMarked, styleMarked, belowMarked⟩ := leftMarked
      obtain ⟨otherComponentMarked, otherStyleMarked, otherBelowMarked⟩ := rightMarked
      obtain ⟨propsSeparate, belowSeparate⟩ := separates.parts
      have component := eq_of_propsToJson_eq componentMarked otherComponentMarked
        propsSeparate.parts.1 sameComponent
      have style := eq_of_propsToJson_eq styleMarked otherStyleMarked
        propsSeparate.parts.2 sameStyle
      have children := eq_of_childrenToJson_eq belowMarked otherBelowMarked
        belowSeparate sameBelow
      rw [ComponentKind.name_injective sameKind, component, style, children]

theorem eq_of_childrenToJson_eq
    {left right : List (Child Frame)}
    (leftMarked : ChildrenMarked left)
    (rightMarked : ChildrenMarked right)
    (separates : Json.Separates (childrenNumbers left) (childrenNumbers right))
    (same : childrenToJson left = childrenToJson right) :
    left = right := by
  match left, right with
  | [], [] => rfl
  | [], .element _ :: _ | [], .text _ :: _ => cases same
  | .element _ :: _, [] | .text _ :: _, [] => cases same
  | .element frame :: rest, .element other :: others =>
      obtain ⟨sameFrame, sameRest⟩ := List.cons.inj same
      rw [eq_of_toJson_eq leftMarked.1 rightMarked.1 separates.parts.1 sameFrame,
        eq_of_childrenToJson_eq leftMarked.2 rightMarked.2 separates.parts.2 sameRest]
  | .text content :: rest, .text other :: others =>
      obtain ⟨sameContent, sameRest⟩ := List.cons.inj same
      rw [ChildrenMarked] at leftMarked rightMarked
      rw [childrenNumbers, childrenNumbers] at separates
      rw [Json.text_injective sameContent,
        eq_of_childrenToJson_eq leftMarked rightMarked separates sameRest]
  | .element frame :: _, .text content :: _ =>
      exact absurd (List.cons.inj same).1 (frame.toJson_ne_text content)
  | .text content :: _, .element frame :: _ =>
      exact absurd (List.cons.inj same).1.symm (frame.toJson_ne_text content)

end

/-! ## Sampled frames can be told from their texts -/

/-- Whatever trees two frames come from and whatever samplers they are sampled by: if all their
numbers are finite, different ones having different texts, then frames with the same text are
the same, down to which of their properties are values and which stand as they were written, and
which of their children are nodes and which are texts. -/
theorem eq_of_write_toJson_eq
    {left right : Frame}
    (leftSampled : left.IsSampled)
    (rightSampled : right.IsSampled)
    (leftFinite : ∀ amount ∈ left.numbers, amount.isFinite = true)
    (rightFinite : ∀ amount ∈ right.numbers, amount.isFinite = true)
    (textsDiffer : ∀ amount ∈ left.numbers, ∀ other ∈ right.numbers,
      amount.isFinite = true → other.isFinite = true →
        (Json.ofFloat amount).write = (Json.ofFloat other).write → amount = other)
    (same : left.toJson.write = right.toJson.write) :
    left = right := by
  have sameJson : left.toJson = right.toJson := by
    apply Option.some.inj
    rw [← Json.ofText?_write left.isWritable_toJson, same,
      Json.ofText?_write right.isWritable_toJson]
  have separates : Json.Separates left.numbers right.numbers := by
    intro amount member other otherMember sameNumeral
    exact textsDiffer amount member other otherMember (leftFinite amount member)
      (rightFinite other otherMember) (congrArg Json.write sameNumeral)
  exact eq_of_toJson_eq leftSampled.isMarked rightSampled.isMarked separates sameJson

/-- A moving picture with a value that has the same document as its offset, and with a
nested node that is half visible. -/
def halfVisible : Tree where
  name := "Video"
  props :=
    [ ("data", .constant (.map [("kind", .text "constant"), ("value", .number 1.5)])),
      ("startFrom", .constant (.number 1.5)) ]
  children := [.text "title", .element ⟨"div", [("opacity", .constant (.number 0.5))], []⟩]

/-- The same with a nested node that fades, and that has a text in its properties, which
plain tags drop. -/
def fading : Tree where
  name := "Video"
  props :=
    [ ("data", .constant (.map [("kind", .text "constant"), ("value", .number 1.5)])),
      ("startFrom", .constant (.number 1.5)) ]
  children :=
    [ .text "title",
      .element
        ⟨"div",
          [ ("opacity", .animated [0.0, 1.0] [.number 0.0, .number 1.0]),
            ("text", .constant (.text "title")) ],
          []⟩ ]

/-- Answers one half when it is asked for the first time, and later one. -/
def tiringSampler : Sampler (StateM Bool) :=
  fun _ _ _ => do
    let asked ← getModify fun _ => true
    return if asked then 1.0 else 0.5

/-- The frame of the half visible picture two seconds in. -/
def stillFrame : Frame :=
  Id.run (halfVisible.sample (Sampler.standingAt 2.0))

/-- The frame of the fading picture, for a sampler that has not been asked yet. -/
def fadedFrame : Frame :=
  ((fading.sample tiringSampler).run false).1

/-- The two frames have the same text, and so they are the same. -/
theorem eq_of_write_toJson_eq_faded :
    (stillFrame.IsSampled ∧ fadedFrame.IsSampled ∧
      (∀ amount ∈ stillFrame.numbers, amount.isFinite = true) ∧
      (∀ amount ∈ fadedFrame.numbers, amount.isFinite = true) ∧
      (∀ amount ∈ stillFrame.numbers, ∀ other ∈ fadedFrame.numbers,
        amount.isFinite = true → other.isFinite = true →
          (Json.ofFloat amount).write = (Json.ofFloat other).write → amount = other) ∧
      stillFrame.toJson.write = fadedFrame.toJson.write) ∧
    stillFrame = fadedFrame := by
  have stillSampled : stillFrame.IsSampled := .pure _ _
  have fadedSampled : fadedFrame.IsSampled := .stateful _ _ _
  have stillNumbers : stillFrame.numbers = [1.5, 1.5, 0.5] := by rfl
  have fadedNumbers : fadedFrame.numbers = [1.5, 1.5, 0.5] := by rfl
  have stillFinite : ∀ amount ∈ stillFrame.numbers, amount.isFinite = true := by
    rw [stillNumbers]
    decide +kernel
  have fadedFinite : ∀ amount ∈ fadedFrame.numbers, amount.isFinite = true := by
    rw [fadedNumbers]
    decide +kernel
  have differ : (Json.ofFloat 1.5).write ≠ (Json.ofFloat 0.5).write := by
    decide +kernel
  have textsDiffer : ∀ amount ∈ stillFrame.numbers, ∀ other ∈ fadedFrame.numbers,
      amount.isFinite = true → other.isFinite = true →
        (Json.ofFloat amount).write = (Json.ofFloat other).write → amount = other := by
    simp [stillNumbers, fadedNumbers, differ, differ.symm]
  have same : stillFrame.toJson.write = fadedFrame.toJson.write := by
    rfl
  exact ⟨⟨stillSampled, fadedSampled, stillFinite, fadedFinite, textsDiffer, same⟩,
    eq_of_write_toJson_eq stillSampled fadedSampled stillFinite fadedFinite textsDiffer same⟩

end Frame
end Montage
