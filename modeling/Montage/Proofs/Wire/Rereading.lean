import Montage.Proofs.Wire.Element
import Montage.Proofs.Wire.Timeline
import Montage.Proofs.Wire.Tree

/-!
# Writing loses nothing that was read

Everything that can be read from a document, in whatever form the document states it, is
read again from the document that is written for it.  The one condition is that the numbers
survive: of each finite number on its own, the numeral that is written for it must be read
as this number.
-/

namespace Montage

/-- The types that stand in documents of their own. -/
inductive Wire : Type → Type 1 where
  /-- A value without any mark of what it is. -/
  | value : Wire Value
  /-- A property with its kind. -/
  | property : Wire Property
  /-- An element of a flat batch. -/
  | element : Wire Element
  /-- A flat batch. -/
  | elements : Wire (List Element)
  /-- A tree. -/
  | tree : Wire Tree
  /-- A passage between two clips. -/
  | transition : Wire (Transition Float)
  /-- A clip of a track. -/
  | clip : Wire (Clip Float)
  /-- A track of a timeline. -/
  | track : Wire (Track Float)
  /-- A timeline. -/
  | timeline : Wire (Timeline Float)

namespace Wire

variable {α : Type}

/-- What a document is read as. -/
def decode? : Wire α → Json → Option α
  | .value => Value.ofJson?
  | .property => Property.ofJson?
  | .element => Element.ofJson?
  | .elements => Element.listOfJson?
  | .tree => Tree.ofJson?
  | .transition => Transition.ofJson?
  | .clip => Clip.ofJson?
  | .track => Track.ofJson?
  | .timeline => Timeline.ofJson?

/-- The document that is written. -/
def encode : Wire α → α → Json
  | .value => Value.toJson
  | .property => Property.toJson
  | .element => Element.toJson
  | .elements => Element.listToJson
  | .tree => Tree.toJson
  | .transition => Transition.toJson
  | .clip => Clip.toJson
  | .track => Track.toJson
  | .timeline => Timeline.toJson

/-- The numbers that the document holds. -/
def numbers : Wire α → α → List Float
  | .value => Value.numbers
  | .property => Property.numbers
  | .element => Element.numbers
  | .elements => Element.listNumbers
  | .tree => Tree.numbers
  | .transition => Transition.numbers
  | .clip => Clip.numbers
  | .track => Track.numbers
  | .timeline => Timeline.numbers

theorem isWritable_encode
    (wire : Wire α)
    (content : α) :
    (wire.encode content).IsWritable := by
  cases wire with
  | value => exact content.isWritable_toJson
  | property => exact content.isWritable_toJson
  | element => exact content.isWritable_toJson
  | elements => exact Element.isWritable_listToJson content
  | tree => exact content.isWritable_toJson
  | transition => exact content.isWritable_toJson
  | clip => exact content.isWritable_toJson
  | track => exact content.isWritable_toJson
  | timeline => exact content.isWritable_toJson

/-- No document holds an infinite number. -/
theorem isFinite_of_decode?
    (wire : Wire α)
    {json : Json}
    {content : α}
    (read : wire.decode? json = some content) :
    ∀ amount ∈ wire.numbers content, amount.isFinite = true := by
  cases wire with
  | value => exact (Value.fits_of_ofJsonWithin? read).2
  | property =>
      change Property.ofJsonWithin? false Json.maxDepth json = some content at read
      exact (Property.fits_of_ofJsonWithin? read).2
  | element =>
      change Element.ofJsonWithin? Json.maxDepth json = some content at read
      exact (Element.fits_of_ofJsonWithin? read).2
  | elements => exact (Element.fits_of_listOfJsonWithin? read).2
  | tree => exact (Tree.fits_of_ofJsonWithin? read).2
  | transition => exact Transition.isFinite_of_ofJson? read
  | clip => exact Clip.isFinite_of_ofJson? read
  | track => exact Track.isFinite_of_ofJson? read
  | timeline => exact Timeline.isFinite_of_ofJson? read

/-- What was read from any document is read from its own. -/
theorem decode?_encode
    (wire : Wire α)
    {json : Json}
    {content : α}
    (read : wire.decode? json = some content)
    (survive : ∀ amount ∈ wire.numbers content, Json.Survives amount) :
    wire.decode? (wire.encode content) = some content := by
  cases wire with
  | value =>
      exact Value.ofJsonWithin?_toJson (Value.fits_of_ofJsonWithin? read).1 survive
  | property =>
      change Property.ofJsonWithin? false Json.maxDepth json = some content at read
      exact Property.ofJsonWithin?_toJson false (Property.fits_of_ofJsonWithin? read).1 survive
  | element =>
      change Element.ofJsonWithin? Json.maxDepth json = some content at read
      exact Element.ofJsonWithin?_toJson (Element.fits_of_ofJsonWithin? read).1 survive
  | elements =>
      exact Element.listOfJsonWithin?_listToJson (Element.fits_of_listOfJsonWithin? read).1
        survive
  | tree => exact Tree.ofJsonWithin?_toJson false (Tree.fits_of_ofJsonWithin? read).1 survive
  | transition => exact Transition.ofJson?_toJson survive
  | clip => exact Clip.ofJson?_toJson survive
  | track => exact Track.ofJson?_toJson survive
  | timeline => exact Timeline.ofJson?_toJson survive

/-- Whatever the symbols of a document are, a text or bytes, and however they state what is read
from them: what was read is read again, as the same, from the text that is written for it,
provided that the numerals of its finite numbers are read as these numbers. -/
theorem readText?_write_encode
    (wire : Wire α)
    {symbols : List Json.Symbol}
    {content : α}
    (read : (Json.ofSymbols? symbols).bind wire.decode? = some content)
    (survive : ∀ amount ∈ wire.numbers content, amount.isFinite = true →
      Json.Survives amount) :
    Json.readText? wire.decode? (wire.encode content).write = some content := by
  obtain ⟨json, -, decoded⟩ := Option.bind_eq_some_iff.mp read
  have finite := wire.isFinite_of_decode? decoded
  rw [Json.readText?, Json.ofText?_write (wire.isWritable_encode content), Option.bind_some]
  apply wire.decode?_encode decoded
  exact fun amount member => survive amount member (finite amount member)

/-- A tree written in unusual ways: nodes as lists of their fields and with the fields in
another order, a property with its value first and a member that no property has, and keys
out of order, one of them twice. -/
def scrambledTree : Json :=
  .array [.text "Card",
    .record
      [("width", .record
        [("value", .array
            [.number ⟨false, ['1'], ['5'], none⟩,
              .record [("b", .bool true), ("a", .text "\"q\""), ("b", .bool false)]]),
          ("note", .null), ("kind", .text "constant")])],
    .array
      [.text "hi",
        .record [("children", .array []), ("name", .text "Inner"), ("props", .record [])]]]

/-- What the scrambled document is read as. -/
def unscrambledTree : Tree where
  name := "Card"
  props :=
    [("width", .constant (.list
      [.number 1.5, .map [("a", .text "\"q\""), ("b", .bool false)]]))]
  children := [.text "hi", .element ⟨"Inner", [], []⟩]

theorem isWritable_scrambledTree : scrambledTree.IsWritable := by
  intro numeral member
  have same : numeral = ⟨false, ['1'], ['5'], none⟩ := by
    simpa [scrambledTree, Json.record, Json.text, Json.tokens, Json.itemTokens,
      Json.memberTokens] using member
  subst same
  constructor <;> simp

theorem readText?_write_encode_unscrambledTree :
    ((Json.ofSymbols? (Json.symbolsOfText scrambledTree.write)).bind tree.decode? =
        some unscrambledTree ∧
      ∀ amount ∈ unscrambledTree.numbers, amount.isFinite = true → Json.Survives amount) ∧
    Json.readText? tree.decode? (tree.encode unscrambledTree).write = some unscrambledTree := by
  have read : (Json.ofSymbols? (Json.symbolsOfText scrambledTree.write)).bind tree.decode? =
      some unscrambledTree := by
    change (Json.ofText? scrambledTree.write).bind tree.decode? = _
    rw [Json.ofText?_write isWritable_scrambledTree]
    rfl
  have survive : ∀ amount ∈ unscrambledTree.numbers, amount.isFinite = true →
      Json.Survives amount := by
    intro amount member _
    have same : amount = 1.5 := List.mem_singleton.mp member
    subst same
    unfold Json.Survives
    decide +kernel
  exact ⟨⟨read, survive⟩, readText?_write_encode tree read survive⟩

end Wire
end Montage
