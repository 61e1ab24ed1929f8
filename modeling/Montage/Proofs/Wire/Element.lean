import Montage.Proofs.Wire.Property
import Montage.Wire.Element

/-!
# Elements come back

An absent parent is written as the empty document and an absent text not at all; reading
takes both for the absence they stand for.
-/

namespace Montage
namespace Element

/-- The numbers in the properties of an element. -/
def numbers (element : Element) : List Float :=
  Property.dictNumbers element.props

/-- The properties of the element fit the room in its record. -/
def Fits : Nat → Element → Prop
  | room + 1, element => Property.DictFits room element.props
  | 0, _ => False

/-- The document of an element has a text. -/
theorem isWritable_toJson (element : Element) : element.toJson.IsWritable := by
  have parentWritable : ((element.parent.map Json.text).getD .null).IsWritable := by
    cases element.parent with
    | none => exact Json.isWritable_null
    | some parent => exact Json.isWritable_text _
  apply Json.isWritable_record
  cases element.text <;>
    simp [Json.isWritable_text, parentWritable, Property.isWritable_dictToJson]

/-- An element that is read fits, and its numbers are finite. -/
theorem fits_of_ofJsonWithin?
    {room : Nat}
    {json : Json}
    {element : Element}
    (read : ofJsonWithin? room json = some element) :
    element.Fits room ∧ ∀ amount ∈ element.numbers, amount.isFinite = true := by
  unfold ofJsonWithin? at read
  split at read
  · simp only [Option.bind_eq_bind, Option.bind_eq_some_iff] at read
    obtain ⟨fields, -, read⟩ := read
    split at read
    · simp only [Option.bind_eq_some_iff, Option.pure_def, Option.some.injEq] at read
      obtain ⟨id, -, name, -, parent, -, props, propsRead, text, -, rfl⟩ := read
      exact Property.fits_of_dictOfJsonWithin? propsRead
    · cases read
  · cases read

/-- All of the document of an element is read without fail, its properties apart. -/
theorem ofJsonWithin?_succ_toJson
    (room : Nat)
    (element : Element) :
    ofJsonWithin? (room + 1) element.toJson =
      (Property.dictOfJsonWithin? false room (Property.dictToJson element.props)).map
        fun props => { element with props := props } := by
  obtain ⟨id, name, parent, props, text⟩ := element
  cases parent <;> cases text <;>
    simp [toJson, ofJsonWithin?, Json.fields?_record, fieldNames, List.lookup, Json.text,
      Json.string?, Json.optional?, Option.map_eq_bind, Function.comp_def]

/-- An element that fits, and whose numbers survive, is read from its own document. -/
theorem ofJsonWithin?_toJson
    {room : Nat}
    {element : Element}
    (fits : element.Fits room)
    (survive : ∀ amount ∈ element.numbers, Json.Survives amount) :
    ofJsonWithin? room element.toJson = some element := by
  cases room with
  | zero => exact fits.elim
  | succ room =>
      rw [ofJsonWithin?_succ_toJson, Property.dictOfJsonWithin?_dictToJson false fits survive,
        Option.map_some]

/-- The document of an element is read as one only if all its numbers are finite. -/
theorem isFinite_of_ofJsonWithin?_toJson
    {room : Nat}
    {element other : Element}
    (read : ofJsonWithin? room element.toJson = some other) :
    ∀ amount ∈ element.numbers, amount.isFinite = true := by
  cases room with
  | zero => simp [ofJsonWithin?] at read
  | succ room =>
      rw [ofJsonWithin?_succ_toJson] at read
      obtain ⟨props, propsRead, -⟩ := Option.map_eq_some_iff.mp read
      exact Property.isFinite_of_dictOfJsonWithin?_dictToJson propsRead

/-! ## Lists of elements -/

/-- The numbers in the elements of a list. -/
def listNumbers (elements : List Element) : List Float :=
  elements.flatMap numbers

/-- The elements fit the room in their list. -/
def ListFits : Nat → List Element → Prop
  | room + 1, elements => ∀ element ∈ elements, element.Fits room
  | 0, _ => False

theorem isWritable_listToJson (elements : List Element) : (listToJson elements).IsWritable := by
  apply Json.isWritable_array
  intro json member
  obtain ⟨element, -, rfl⟩ := List.mem_map.mp member
  exact element.isWritable_toJson

/-- The elements of a list that is read fit, and their numbers are finite. -/
theorem fits_of_listOfJsonWithin?
    {room : Nat}
    {json : Json}
    {elements : List Element}
    (read : listOfJsonWithin? room json = some elements) :
    ListFits room elements ∧ ∀ amount ∈ listNumbers elements, amount.isFinite = true := by
  unfold listOfJsonWithin? at read
  split at read
  · next room items =>
      have each : ∀ element ∈ elements,
          element.Fits room ∧ ∀ amount ∈ element.numbers, amount.isFinite = true := by
        intro element member
        obtain ⟨document, -, found⟩ := exists_of_mem_of_mapM read member
        exact fits_of_ofJsonWithin? found
      refine ⟨fun element member => (each element member).1, ?_⟩
      rw [listNumbers, List.forall_mem_flatMap]
      exact fun element member => (each element member).2
  · cases read

/-- Elements that fit, and whose numbers survive, are read from their own document. -/
theorem listOfJsonWithin?_listToJson
    {room : Nat}
    {elements : List Element}
    (fits : ListFits room elements)
    (survive : ∀ amount ∈ listNumbers elements, Json.Survives amount) :
    listOfJsonWithin? room (listToJson elements) = some elements := by
  cases room with
  | zero => exact fits.elim
  | succ room =>
      rw [listNumbers, List.forall_mem_flatMap] at survive
      rw [listToJson, listOfJsonWithin?, List.mapM_map]
      apply mapM_eq_some_self
      intro element member
      exact ofJsonWithin?_toJson (fits element member) (survive element member)

/-- The document of a list is read as one only if all its numbers are finite. -/
theorem isFinite_of_listOfJsonWithin?_listToJson
    {room : Nat}
    {elements other : List Element}
    (read : listOfJsonWithin? room (listToJson elements) = some other) :
    ∀ amount ∈ listNumbers elements, amount.isFinite = true := by
  cases room with
  | zero => cases read
  | succ room =>
      rw [listToJson, listOfJsonWithin?] at read
      rw [listNumbers, List.forall_mem_flatMap]
      intro element member
      obtain ⟨held, found⟩ := exists_of_mapM_eq_some read (List.mem_map_of_mem member)
      exact isFinite_of_ofJsonWithin?_toJson found

end Element
end Montage
