import Montage.Proofs.Element.Batches
import Montage.Proofs.Wire.Element

/-!
# Elements read from descriptions fit into documents

A description spells plain values, lists and dictionaries of plain values, and animations
with plain values, so that the elements of a batch are nested to a small depth.  Whether
they can be stored in a document therefore hangs on their numbers alone.  The instants of
an animation are asked to be finite, but a numeric literal is not: with enough digits it
stands for an infinite number, for which documents have no numeral.
-/

namespace Montage

open Text

namespace Value

/-- A plain value is not nested. -/
theorem fits_ofPlainText
    (source : List Char)
    (room : Nat) :
    (ofPlainText source).Fits room := by
  unfold ofPlainText
  simp only
  split
  · simp [Fits]
  · split
    · simp [Fits]
    · split <;> simp [Fits]

theorem exists_of_entry?
    {source : List Char}
    {entry : String × Value}
    (found : entry? source = some entry) :
    ∃ plain, entry.2 = ofPlainText plain := by
  unfold entry? at found
  split at found
  · cases found
  · next key plain _ =>
      split at found
      · cases found
      · cases found
        exact ⟨plain, rfl⟩

/-- A value that is not animated is nested one level deep at most. -/
theorem fits_ofText
    (source : List Char)
    (room : Nat) :
    (ofText source).Fits (room + 1) := by
  unfold ofText
  simp only
  split
  · intro item member
    obtain ⟨plain, -, rfl⟩ := List.mem_map.mp member
    exact fits_ofPlainText plain room
  · split
    · refine ⟨Dict.ordered_ofList _, ?_⟩
      intro entry member
      obtain ⟨text, -, found⟩ := List.mem_filterMap.mp (Dict.mem_of_mem_ofList member)
      obtain ⟨plain, same⟩ := exists_of_entry? found
      rw [same]
      exact fits_ofPlainText plain room
    · exact fits_ofPlainText _ _

end Value

namespace Property

theorem fits_of_readAnimation
    {key : String}
    {afterMark : List Char}
    {property : Property}
    (read : readAnimation key afterMark = .ok property)
    (room : Nat) :
    property.Fits (room + 3) := by
  unfold readAnimation at read
  split at read
  · cases read
  · next instantsBody valuesBody _ =>
      simp only [bind_eq_ok_iff] at read
      obtain ⟨instants, -, read⟩ := read
      split at read
      · cases read
      · split at read
        · cases read
        · cases read
          intro value member
          obtain ⟨plain, -, rfl⟩ := List.mem_map.mp member
          exact Value.fits_ofPlainText plain room

theorem fits_of_read
    {key : String}
    {source : List Char}
    {property : Property}
    (read : Property.read key source = .ok property)
    (room : Nat) :
    property.Fits (room + 3) := by
  unfold Property.read at read
  simp only at read
  split at read
  · exact fits_of_readAnimation read room
  · cases read
    exact Value.fits_ofText _ _

end Property

namespace Element

/-- The properties gathered so far are in order, and each fits. -/
def Draft.PropsFit
    (room : Nat)
    (draft : Draft) : Prop :=
  draft.props.Ordered ∧ ∀ prop ∈ draft.props, prop.2.Fits (room + 3)

theorem Draft.PropsFit.insert
    {room : Nat}
    {draft : Draft}
    (fit : draft.PropsFit room)
    {key : String}
    {property : Property}
    (propertyFits : property.Fits (room + 3)) :
    (draft.props.insert key property).Ordered ∧
      ∀ prop ∈ draft.props.insert key property, prop.2.Fits (room + 3) := by
  refine ⟨Dict.ordered_insert key property fit.1, ?_⟩
  intro prop member
  rcases Dict.mem_of_mem_insert member with rfl | older
  · exact propertyFits
  · exact fit.2 prop older

/-- Each segment keeps the properties in order and fitting. -/
theorem Draft.propsFit_add
    {room : Nat}
    {draft next : Draft}
    {segment : List Char × List Char}
    (fit : draft.PropsFit room)
    (added : draft.add segment = .ok next) :
    next.PropsFit room := by
  obtain ⟨-, rfl⟩ | ⟨-, rfl⟩ | ⟨-, rfl⟩ | ⟨-, property, read, rfl⟩ := cases_of_add added
  · exact fit
  · exact fit
  · exact fit.insert (by simp [Property.Fits, Value.Fits])
  · exact fit.insert (Property.fits_of_read read room)

/-- An element that is read from a description is nested to a small depth. -/
theorem fits_of_ofDescription
    {source : List Char}
    {element : Element}
    (read : ofDescription source = .ok element)
    (room : Nat) :
    element.Fits (room + 5) := by
  obtain ⟨segments, draft, id, folded, -, -, -, props, -⟩ := exists_draft_of_ofDescription read
  have fit : draft.PropsFit room := by
    apply Draft.foldlM_add_induction Draft.propsFit_add _ folded
    exact ⟨Dict.ordered_nil, List.forall_mem_nil _⟩
  change Property.DictFits (room + 4) element.props
  rw [props]
  exact fit

/-- The elements of a batch fit into a document. -/
theorem listFits_of_readAll
    {sources : List String}
    {elements : List Element}
    (read : readAll sources = .ok elements) :
    ListFits Json.maxDepth elements := by
  intro element member
  obtain ⟨source, -, found⟩ := exists_source_of_mem_readAll read member
  exact fits_of_ofDescription found 121

/-- The document of a batch that was read from descriptions is read as the same batch when all
its numbers are finite, and otherwise is refused, provided that the numerals of finite numbers
are read as these numbers. -/
theorem readText?_write_listToJson
    {sources : List String}
    {elements : List Element}
    (read : readAll sources = .ok elements)
    (survive : ∀ amount ∈ listNumbers elements, amount.isFinite = true →
      Json.Survives amount) :
    Json.readText? listOfJson? (listToJson elements).write =
      if (listNumbers elements).all Float.isFinite then some elements else none := by
  rw [Json.readText?, Json.ofText?_write (isWritable_listToJson elements), Option.bind_some]
  split
  · next finite =>
      rw [List.all_eq_true] at finite
      apply listOfJsonWithin?_listToJson (listFits_of_readAll read)
      exact fun amount member => survive amount member (finite amount member)
  · next infinite =>
      -- Reading anything at all would need a numeral for each number.
      apply Option.eq_none_iff_forall_ne_some.mpr
      intro other reread
      apply infinite
      rw [List.all_eq_true]
      exact isFinite_of_listOfJsonWithin?_listToJson reread

/-- A batch with a list, a dictionary and an animation. -/
def storedBatch : List String :=
  ["div;id:a;size:[1.5,big];place:{y:-2,x:left}",
    "p;id:b;parent:a;alpha:@animate[0,1.5]:[0,1]"]

/-- The elements of the batch. -/
def storedElements : List Element :=
  [{ id := "a", name := "div", parent := some "root", text := none,
     props :=
      [("place", .constant (.map [("x", .text "left"), ("y", .number (-2.0))])),
        ("size", .constant (.list [.number 1.5, .text "big"]))] },
    { id := "b", name := "p", parent := some "a", text := none,
      props := [("alpha", .animated [0.0, 1.5] [.number 0.0, .number 1.0])] }]

theorem readText?_write_storedElements :
    (readAll storedBatch = .ok storedElements ∧
      ∀ amount ∈ listNumbers storedElements, amount.isFinite = true → Json.Survives amount) ∧
    Json.readText? listOfJson? (listToJson storedElements).write =
      if (listNumbers storedElements).all Float.isFinite then some storedElements else none := by
  have read : readAll storedBatch = .ok storedElements := by rfl
  have survive : ∀ amount ∈ listNumbers storedElements, amount.isFinite = true →
      Json.Survives amount := by
    have each : ∀ amount ∈ listNumbers storedElements,
        (Json.ofFloat amount).float? = some amount := by
      decide +kernel
    exact fun amount member _ => each amount member
  exact ⟨⟨read, survive⟩, readText?_write_listToJson read survive⟩

/-- A description with a whole number of three hundred and ten digits. -/
def overlongDescription : List Char :=
  "div;id:a;x:".toList ++ List.replicate 310 '9'

/-- The number is read as an infinite one. -/
theorem exists_of_overlongDescription :
    ∃ element, ofDescription overlongDescription = .ok element ∧
      element.numbers = [Float.ofBits 0x7FF0000000000000] := by
  have checked : (ofDescription overlongDescription).toOption.map numbers =
      some [Float.ofBits 0x7FF0000000000000] := by
    decide +kernel
  cases read : ofDescription overlongDescription with
  | ok element =>
      rw [read] at checked
      exact ⟨element, rfl, Option.some.inj checked⟩
  | error fault =>
      rw [read] at checked
      cases checked

/-- The infinite number of an accepted batch keeps it from being stored, although there is
no finite number whose numeral could have gone wrong. -/
theorem readText?_write_overlongBatch :
    ∃ elements, readAll [String.ofList overlongDescription] = .ok elements ∧
      (∀ amount ∈ listNumbers elements, amount.isFinite = true → Json.Survives amount) ∧
      Json.readText? listOfJson? (listToJson elements).write ≠ some elements := by
  obtain ⟨element, read, infinite⟩ := exists_of_overlongDescription
  have only : listNumbers [element] = [Float.ofBits 0x7FF0000000000000] := by
    simp [listNumbers, infinite]
  have notFinite : (Float.ofBits 0x7FF0000000000000).isFinite = false := by
    decide +kernel
  refine ⟨[element], ?_, ?_, ?_⟩
  · exact readAll_singleton read
  · intro amount member finite
    rw [only, List.mem_singleton] at member
    simp [member, notFinite] at finite
  · rw [Json.readText?, Json.ofText?_write (isWritable_listToJson [element]), Option.bind_some]
    intro reread
    have finite := isFinite_of_listOfJsonWithin?_listToJson reread
      (Float.ofBits 0x7FF0000000000000) (by simp [only])
    simp [notFinite] at finite

end Element
end Montage
