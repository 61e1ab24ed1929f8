import Montage.Proofs.Wire.Record
import Montage.Wire.Timeline

/-!
# Timelines come back

Timelines are nested to a fixed depth, so that every timeline fits.  Fields that may be
absent are written whenever they hold anything.
-/

namespace Montage

/-! ## Fields that may be absent -/

namespace Json

variable {α : Type} {decode : Json → Option α}

theorem optional?_eq_some
    {field : Option Json}
    {value : α}
    (read : optional? decode field = some (some value)) :
    ∃ json, decode json = some value := by
  unfold optional? at read
  split at read
  · cases read
  · cases read
  · next json _ =>
      obtain ⟨found, decoded, same⟩ := Option.map_eq_some_iff.mp read
      cases same
      exact ⟨json, decoded⟩

theorem mem_of_listed?
    {field : Option Json}
    {values : List α}
    (read : listed? decode field = some values)
    {value : α}
    (member : value ∈ values) :
    ∃ json, decode json = some value := by
  unfold listed? at read
  split at read
  · cases read
    cases member
  · obtain ⟨items, -, decoded⟩ := Option.bind_eq_some_iff.mp read
    obtain ⟨json, -, found⟩ := exists_of_mem_of_mapM decoded member
    exact ⟨json, found⟩

end Json

/-! ## Transitions -/

namespace Transition

/-- The numbers in a transition. -/
def numbers (transition : Transition Float) : List Float :=
  [transition.duration]

theorem isWritable_toJson (transition : Transition Float) : transition.toJson.IsWritable := by
  apply Json.isWritable_record
  simpa using ⟨Json.isWritable_text _, Json.isWritable_ofFloat transition.duration⟩

theorem isFinite_of_ofJson?
    {json : Json}
    {transition : Transition Float}
    (read : ofJson? json = some transition) :
    ∀ amount ∈ transition.numbers, amount.isFinite = true := by
  simp only [ofJson?, Option.bind_eq_bind, Option.bind_eq_some_iff] at read
  obtain ⟨fields, -, read⟩ := read
  split at read
  · simp only [Option.bind_eq_some_iff, Option.pure_def, Option.some.injEq] at read
    obtain ⟨kind, -, duration, durationRead, rfl⟩ := read
    simpa [numbers] using Json.isFinite_of_float? durationRead
  · cases read

theorem ofJson?_toJson
    {transition : Transition Float}
    (survive : ∀ amount ∈ transition.numbers, Json.Survives amount) :
    ofJson? transition.toJson = some transition := by
  have durationRead : (Json.ofFloat transition.duration).float? = some transition.duration :=
    survive _ List.mem_cons_self
  simp [toJson, ofJson?, Json.fields?_record, List.lookup, Json.text, Json.string?,
    durationRead]

end Transition

/-! ## Clips -/

namespace Clip

/-- The numbers in a clip. -/
def numbers (clip : Clip Float) : List Float :=
  [clip.start, clip.finish] ++ clip.toNext.toList.flatMap Transition.numbers ++
    clip.fromPrevious.toList.flatMap Transition.numbers

theorem isWritable_transitionMember
    (key : String)
    (transition : Option (Transition Float)) :
    ∀ member ∈ transitionMember key transition, member.2.IsWritable := by
  cases transition with
  | none => exact List.forall_mem_nil _
  | some given => simpa [transitionMember] using given.isWritable_toJson

theorem isWritable_toJson (clip : Clip Float) : clip.toJson.IsWritable := by
  have descriptionsWritable : (Json.array (clip.descriptions.map Json.text)).IsWritable := by
    apply Json.isWritable_array
    simpa using fun description _ => Json.isWritable_text description
  apply Json.isWritable_record
  simp only [List.forall_mem_append, List.forall_mem_cons]
  exact ⟨⟨⟨Json.isWritable_text _, Json.isWritable_ofFloat _, Json.isWritable_ofFloat _,
    descriptionsWritable, List.forall_mem_nil _⟩, isWritable_transitionMember _ _⟩,
    isWritable_transitionMember _ _⟩

theorem isFinite_of_ofJson?
    {json : Json}
    {clip : Clip Float}
    (read : ofJson? json = some clip) :
    ∀ amount ∈ clip.numbers, amount.isFinite = true := by
  simp only [ofJson?, Option.bind_eq_bind, Option.bind_eq_some_iff] at read
  obtain ⟨fields, -, read⟩ := read
  split at read
  · simp only [Option.bind_eq_some_iff, Option.pure_def, Option.some.injEq] at read
    obtain ⟨id, -, start, startRead, finish, finishRead, descriptions, -, toNext, toNextRead,
      fromPrevious, fromPreviousRead, rfl⟩ := read
    intro amount member
    simp only [numbers, List.mem_append, List.mem_cons, List.not_mem_nil, or_false,
      List.mem_flatMap, Option.mem_toList] at member
    rcases member with ((rfl | rfl) | ⟨transition, rfl, inNext⟩) | ⟨transition, rfl, inPrevious⟩
    · exact Json.isFinite_of_float? startRead
    · exact Json.isFinite_of_float? finishRead
    · obtain ⟨document, found⟩ := Json.optional?_eq_some toNextRead
      exact Transition.isFinite_of_ofJson? found amount inNext
    · obtain ⟨document, found⟩ := Json.optional?_eq_some fromPreviousRead
      exact Transition.isFinite_of_ofJson? found amount inPrevious
  · cases read

theorem optional?_toJson
    {transition : Transition Float}
    (survive : ∀ amount ∈ transition.numbers, Json.Survives amount) :
    Json.optional? Transition.ofJson? (some transition.toJson) = some (some transition) := by
  have found := Transition.ofJson?_toJson survive
  simp only [Transition.toJson, Json.record] at found ⊢
  rw [Json.optional?, found, Option.map_some]
  exact fun impossible => by cases impossible

/-- A clip whose numbers survive is read from its own document. -/
theorem ofJson?_toJson
    {clip : Clip Float}
    (survive : ∀ amount ∈ clip.numbers, Json.Survives amount) :
    ofJson? clip.toJson = some clip := by
  obtain ⟨id, start, finish, descriptions, toNext, fromPrevious⟩ := clip
  have startRead : (Json.ofFloat start).float? = some start := survive _ (by simp [numbers])
  have finishRead : (Json.ofFloat finish).float? = some finish := survive _ (by simp [numbers])
  have descriptionsRead : Json.listed? Json.string?
      (some (.array (descriptions.map Json.text))) = some descriptions := by
    rw [Json.listed?, Json.items?, Option.bind_some, List.mapM_map]
    exact mapM_eq_some_self fun description _ => rfl
  have nextRead : ∀ transition, toNext = some transition →
      Json.optional? Transition.ofJson? (some transition.toJson) = some (some transition) := by
    rintro transition rfl
    exact optional?_toJson fun amount inNext => survive amount (by simp [numbers, inNext])
  have previousRead : ∀ transition, fromPrevious = some transition →
      Json.optional? Transition.ofJson? (some transition.toJson) = some (some transition) := by
    rintro transition rfl
    exact optional?_toJson fun amount inPrevious => survive amount (by simp [numbers, inPrevious])
  have absent : Json.optional? Transition.ofJson? none = some none := rfl
  cases toNext <;> cases fromPrevious <;>
    simp [toJson, transitionMember, ofJson?, Json.fields?_record, fieldNames, List.lookup,
      Json.text, Json.string?, startRead, finishRead, descriptionsRead, nextRead, previousRead,
      absent]

end Clip

/-! ## Tracks and timelines -/

namespace Track

/-- The numbers in the clips of a track. -/
def numbers (track : Track Float) : List Float :=
  track.clips.flatMap Clip.numbers

theorem isWritable_toJson (track : Track Float) : track.toJson.IsWritable := by
  have clipsWritable : (Json.array (track.clips.map Clip.toJson)).IsWritable := by
    apply Json.isWritable_array
    simpa using fun clip _ => Clip.isWritable_toJson clip
  apply Json.isWritable_record
  simpa using clipsWritable

theorem isFinite_of_ofJson?
    {json : Json}
    {track : Track Float}
    (read : ofJson? json = some track) :
    ∀ amount ∈ track.numbers, amount.isFinite = true := by
  simp only [ofJson?, Option.bind_eq_bind, Option.bind_eq_some_iff] at read
  obtain ⟨fields, -, read⟩ := read
  split at read
  · simp only [Option.bind_eq_some_iff, Option.pure_def, Option.some.injEq] at read
    obtain ⟨clips, clipsRead, rfl⟩ := read
    rw [numbers, List.forall_mem_flatMap]
    intro clip member
    obtain ⟨document, found⟩ := Json.mem_of_listed? clipsRead member
    exact Clip.isFinite_of_ofJson? found
  · cases read

/-- A track whose numbers survive is read from its own document. -/
theorem ofJson?_toJson
    {track : Track Float}
    (survive : ∀ amount ∈ track.numbers, Json.Survives amount) :
    ofJson? track.toJson = some track := by
  rw [numbers, List.forall_mem_flatMap] at survive
  have clipsRead : Json.listed? Clip.ofJson? (some (.array (track.clips.map Clip.toJson))) =
      some track.clips := by
    rw [Json.listed?, Json.items?, Option.bind_some, List.mapM_map]
    apply mapM_eq_some_self
    intro clip member
    exact Clip.ofJson?_toJson (survive clip member)
  simp [toJson, ofJson?, Json.fields?_record, List.lookup, clipsRead]

end Track

namespace Timeline

/-- The numbers in the tracks of a timeline. -/
def numbers (timeline : Timeline Float) : List Float :=
  timeline.tracks.flatMap Track.numbers

theorem isWritable_toJson (timeline : Timeline Float) : timeline.toJson.IsWritable := by
  apply Json.isWritable_array
  simpa using fun track _ => Track.isWritable_toJson track

theorem isFinite_of_ofJson?
    {json : Json}
    {timeline : Timeline Float}
    (read : ofJson? json = some timeline) :
    ∀ amount ∈ timeline.numbers, amount.isFinite = true := by
  obtain ⟨tracks, tracksRead, rfl⟩ := Option.map_eq_some_iff.mp read
  obtain ⟨items, -, decoded⟩ := Option.bind_eq_some_iff.mp tracksRead
  rw [numbers, List.forall_mem_flatMap]
  intro track member
  obtain ⟨document, -, found⟩ := exists_of_mem_of_mapM decoded member
  exact Track.isFinite_of_ofJson? found

/-- A timeline whose numbers survive is read from its own document. -/
theorem ofJson?_toJson
    {timeline : Timeline Float}
    (survive : ∀ amount ∈ timeline.numbers, Json.Survives amount) :
    ofJson? timeline.toJson = some timeline := by
  rw [numbers, List.forall_mem_flatMap] at survive
  have tracksRead :
      (timeline.tracks.map Track.toJson).mapM Track.ofJson? = some timeline.tracks := by
    rw [List.mapM_map]
    apply mapM_eq_some_self
    intro track member
    exact Track.ofJson?_toJson (survive track member)
  rw [ofJson?, toJson, Json.items?, Option.bind_some, tracksRead, Option.map_some]

end Timeline
end Montage
