import Montage.Proofs.Frame.Depiction

/-!
# How schemas divide the keys

A schema has a set of keys for the component and a set of keys for the style, and the two
are kept apart from each other.  It divides the keys, when no key is in both sets; what is
in neither is lost (`Schema.Divides`).  A registered schema lists its keys twice, once to
include them and once to exclude them, and loses the key of the text only, if the two lists
agree up to this key.  Sound has no style and loses every key that is not its own, and
unregistered components lose nothing.
-/

namespace Montage
namespace KeySet

theorem contains_only_iff
    {keys : List String}
    {key : String} :
    (only keys).contains key = true ↔ key ∈ keys := by
  simp [contains]

theorem contains_allExcept_iff
    {keys : List String}
    {key : String} :
    (allExcept keys).contains key = true ↔ key ∉ keys := by
  simp [contains]

theorem not_contains_none {key : String} : ¬ KeySet.none.contains key = true := by
  simp [none, contains]

end KeySet

namespace Schema

/-- A schema divides the keys, when none of them is in both of its sets; the lost ones are
in neither. -/
structure Divides
    (schema : Schema)
    (IsLost : String → Prop) : Prop where
  /-- No key is in both sets. -/
  apart : ∀ key,
    ¬ (schema.component.contains key = true ∧ schema.style.contains key = true)
  /-- The lost keys are in neither set. -/
  lost_iff : ∀ key, IsLost key ↔
    ¬ schema.component.contains key = true ∧ ¬ schema.style.contains key = true

section Division

variable {schema : Schema} {IsLost : String → Prop}

theorem route_eq_component_iff
    {key : String} :
    schema.route key = .component ↔ schema.component.contains key = true := by
  unfold route
  split <;> simp_all
  split <;> simp

/-- Where no key is in both sets, the style gets all of its keys. -/
theorem Divides.route_eq_style_iff
    (divides : schema.Divides IsLost)
    {key : String} :
    schema.route key = .style ↔ schema.style.contains key = true := by
  have apart := divides.apart key
  unfold route
  split
  · next inComponent => simpa [inComponent] using apart
  · split <;> simp_all

theorem Divides.route_eq_dropped_iff
    (divides : schema.Divides IsLost)
    {key : String} :
    schema.route key = .dropped ↔ IsLost key := by
  rw [divides.lost_iff]
  unfold route
  split <;> simp_all

theorem Divides.of_iff
    (divides : schema.Divides IsLost)
    {IsLost' : String → Prop}
    (same : ∀ key, IsLost' key ↔ IsLost key) :
    schema.Divides IsLost' where
  apart := divides.apart
  lost_iff key := (same key).trans (divides.lost_iff key)

variable {kind : ComponentKind} {keys excluded : List String}

/-- Two lists that agree up to the key of the text lose this key only. -/
theorem divides_of_perm
    (noText : "text" ∉ keys)
    (agree : excluded.Perm ("text" :: keys)) :
    Divides ⟨kind, .only keys, .allExcept excluded⟩ (· = "text") where
  apart key := by
    rw [KeySet.contains_only_iff, KeySet.contains_allExcept_iff, agree.mem_iff]
    exact fun both => both.2 (List.mem_cons_of_mem _ both.1)
  lost_iff key := by
    rw [KeySet.contains_only_iff, KeySet.contains_allExcept_iff, agree.mem_iff, List.mem_cons,
      not_not]
    constructor
    · rintro rfl
      exact ⟨noText, Or.inl rfl⟩
    · rintro ⟨notListed, isText | listed⟩
      · exact isText
      · exact absurd listed notListed

/-- Without a style, all keys but the listed ones are lost. -/
theorem divides_of_none : Divides ⟨kind, .only keys, .none⟩ (· ∉ keys) where
  apart _ both := KeySet.not_contains_none both.2
  lost_iff key := by simp [KeySet.contains_only_iff, KeySet.not_contains_none]

/-- A component that takes every key loses none. -/
theorem divides_unregistered : unregistered.Divides fun _ => False where
  apart _ both := KeySet.not_contains_none both.2
  lost_iff key := by simp [unregistered, KeySet.contains]

end Division

/-! ## The registry -/

/-- The names that the registry knows. -/
def registered : List String :=
  tags ++ ["AbsoluteFill", "Img", "Video", "OffthreadVideo", "Audio"]

/-- The keys that the schema of a name loses: the text of a registered component, anything
that is not its own for sound, and otherwise nothing. -/
def Loses (name key : String) : Prop :=
  (name ∈ registered ∧ name ≠ "Audio" ∧ key = "text") ∨
    (name = "Audio" ∧ ¬ audio.component.contains key = true)

theorem divides_tag : tag.Divides (· = "text") :=
  divides_of_perm (by decide) (by decide)

theorem divides_fill : fill.Divides (· = "text") :=
  divides_of_perm (by decide) (by decide)

theorem divides_picture : picture.Divides (· = "text") :=
  divides_of_perm (by decide) (by decide)

theorem divides_video : video.Divides (· = "text") :=
  divides_of_perm (by decide) (by decide)

theorem loses_iff_of_mem
    {name : String}
    (isRegistered : name ∈ registered)
    (noSound : name ≠ "Audio")
    (key : String) :
    Loses name key ↔ key = "text" := by
  simp [Loses, isRegistered, noSound]

/-- The schema of every name divides the keys. -/
theorem divides_ofName (name : String) : (ofName name).Divides (Loses name) := by
  unfold ofName
  split_ifs with isTag isFill isPicture isVideo isSound
  · have listed : name ∈ tags := by simpa using isTag
    have noSound : name ≠ "Audio" := by
      rintro rfl
      exact absurd listed (by decide)
    exact divides_tag.of_iff (loses_iff_of_mem (List.mem_append_left _ listed) noSound)
  · subst isFill
    exact divides_fill.of_iff (loses_iff_of_mem (by decide) (by decide))
  · subst isPicture
    exact divides_picture.of_iff (loses_iff_of_mem (by decide) (by decide))
  · obtain rfl | rfl := isVideo <;>
      exact divides_video.of_iff (loses_iff_of_mem (by decide) (by decide))
  · subst isSound
    refine divides_of_none.of_iff fun key => ?_
    simp [Loses, audio, KeySet.contains]
  · refine divides_unregistered.of_iff fun key => ?_
    simp only [Loses, isSound, false_and, or_false, iff_false]
    rintro ⟨isRegistered, -⟩
    simp_all [registered]

/-- Offsets into media go to the component. -/
theorem route_of_isMediaOffset
    {name key : String}
    (isOffset : isMediaOffset name key = true) :
    (ofName name).route key = .component := by
  have listed := isMediaOffset_eq_true_iff.mp isOffset
  have all : ∀ entry ∈ mediaOffsets, (ofName entry.1).route entry.2 = .component := by
    decide
  exact all _ listed

/-- A frame that depicts a node has the offsets into media among the properties of the
component, as they are written. -/
theorem find?_of_isMediaOffset
    {name key : String}
    (isOffset : isMediaOffset name key = true)
    {gives : Property → Value → Prop}
    {props : Dict Property}
    {children : List (Child Tree)}
    {frame : Frame}
    (depicts : Frame.Depicts gives ⟨name, props, children⟩ frame)
    {property : Property}
    (held : props.find? key = some property) :
    Dict.find? key frame.componentProps = some (.source property) := by
  obtain ⟨shows, -⟩ := depicts
  have present := (shows.component.isSome_find?_iff key).mpr
    ⟨by rw [held]; rfl, route_of_isMediaOffset isOffset⟩
  obtain ⟨looks, found⟩ := Option.isSome_iff_exists.mp present
  have shown := shows.component.shows key property looks held found
  cases looks with
  | source written => rw [found, shown.2]
  | value given => exact absurd (isMediaOffset_eq_true_iff.mp isOffset) shown.1

/-- Whatever the name of a component and the key of a property, the key is not among those of
the component and those of the style at once, so that it makes no difference which of the two
comes first.  It is dropped exactly when it is the key of the text and the component is a
registered one other than sound, or when the component is sound and the key is not one of its
own; hence unregistered components lose nothing.  Offsets into media go to the component, and
are found there, as they are written, in every frame of a node that has them. -/
theorem routes_apart_and_lossless (name key : String) :
    ¬ ((ofName name).component.contains key = true ∧
      (ofName name).style.contains key = true) ∧
    ((ofName name).route key = .component ↔
      (ofName name).component.contains key = true) ∧
    ((ofName name).route key = .style ↔ (ofName name).style.contains key = true) ∧
    ((ofName name).route key = .dropped ↔
      (name ∈ registered ∧ name ≠ "Audio" ∧ key = "text") ∨
        (name = "Audio" ∧ ¬ audio.component.contains key = true)) ∧
    (name ∉ registered → (ofName name).route key ≠ .dropped) ∧
    (isMediaOffset name key = true →
      (ofName name).route key = .component ∧
      ∀ (props : Dict Property) (children : List (Child Tree)) (property : Property),
        props.find? key = some property →
          (∀ sampler : Sampler Id,
            Dict.find? key
              (Id.run (Tree.sample sampler ⟨name, props, children⟩)).componentProps =
                some (.source property)) ∧
          ∀ (σ : Type) (sampler : Sampler (StateM σ)) (state : σ),
            Dict.find? key
              ((Tree.sample sampler ⟨name, props, children⟩).run state).1.componentProps =
                some (.source property)) := by
  have divides := divides_ofName name
  refine ⟨divides.apart key, route_eq_component_iff, divides.route_eq_style_iff,
    divides.route_eq_dropped_iff, fun unknown isDropped => ?_, fun isOffset => ?_⟩
  · obtain ⟨isRegistered, -⟩ | ⟨rfl, -⟩ := divides.route_eq_dropped_iff.mp isDropped
    · exact unknown isRegistered
    · exact unknown (by decide)
  · refine ⟨route_of_isMediaOffset isOffset, fun props children property held => ?_⟩
    -- It is of no account here what sampling a property comes to.
    refine ⟨fun sampler => ?_, fun σ sampler state => ?_⟩
    · have samples : ∀ property : Property, Yields (property.sample sampler) fun _ => True :=
        fun property => yields_id_iff.mpr trivial
      have depicts := Tree.yields_sample samples ⟨name, props, children⟩
      exact find?_of_isMediaOffset isOffset (yields_id_iff.mp depicts) held
    · have samples : ∀ property : Property, Yields (property.sample sampler) fun _ => True :=
        fun property => yields_state_iff.mpr fun _ => trivial
      have depicts := Tree.yields_sample samples ⟨name, props, children⟩
      exact find?_of_isMediaOffset isOffset (yields_state_iff.mp depicts state) held

/-- Where a film starts from belongs to the component, and a component that the registry does
not know keeps its text. -/
theorem routes_startFrom_and_unknownText :
    isMediaOffset "Video" "startFrom" = true ∧
    (ofName "Video").route "startFrom" = .component ∧
    "Caption" ∉ registered ∧
    (ofName "Caption").route "text" ≠ .dropped := by
  have isOffset : isMediaOffset "Video" "startFrom" = true := by decide
  have unknown : "Caption" ∉ registered := by decide
  exact ⟨isOffset, ((routes_apart_and_lossless "Video" "startFrom").2.2.2.2.2 isOffset).1,
    unknown, (routes_apart_and_lossless "Caption" "text").2.2.2.2.1 unknown⟩

end Schema
end Montage
