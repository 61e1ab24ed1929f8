import Montage.Proofs.Wire.Property

/-!
# Different values have different documents

The kind of a value can be told from its document, since the kinds of values are written as
different kinds of documents; and a property says of itself what it is.  So a value or a
property can be told from its document as far as its numbers can be told from their
numerals.  Nothing is read here: values of any depth are told apart, also those that are
nested too deeply to be read.
-/

namespace Montage

namespace Json

/-- No number of the one list has the document of another number of the other list. -/
def Separates (first second : List Float) : Prop :=
  ∀ amount ∈ first, ∀ other ∈ second, ofFloat amount = ofFloat other → amount = other

theorem Separates.parts
    {first second firstRest secondRest : List Float}
    (separates : Separates (first ++ firstRest) (second ++ secondRest)) :
    Separates first second ∧ Separates firstRest secondRest := by
  constructor
  · exact fun amount member other otherMember => separates amount
      (List.mem_append_left _ member) other (List.mem_append_left _ otherMember)
  · exact fun amount member other otherMember => separates amount
      (List.mem_append_right _ member) other (List.mem_append_right _ otherMember)

theorem Separates.of_flatMap
    {α : Type}
    {numbers : α → List Float}
    {left right : List α}
    (separates : Separates (left.flatMap numbers) (right.flatMap numbers))
    {item other : α}
    (isLeft : item ∈ left)
    (isRight : other ∈ right) :
    Separates (numbers item) (numbers other) :=
  fun amount member otherAmount otherMember => separates amount
    (List.mem_flatMap_of_mem isLeft member) otherAmount
    (List.mem_flatMap_of_mem isRight otherMember)

theorem text_injective : Function.Injective text :=
  fun _ _ same => Option.some.inj (Json.string.inj same)

theorem record_injective : Function.Injective record := by
  intro left right same
  apply List.map_injective_iff.mpr _ (Json.object.inj same)
  rintro ⟨key, json⟩ ⟨otherKey, otherJson⟩ sameMember
  simpa using sameMember

end Json

/-- Lists with the same documents are the same, if their items are. -/
theorem eq_of_map_eq_map
    {α β : Type}
    {encode : α → β}
    {left right : List α}
    (each : ∀ item ∈ left, ∀ other ∈ right, encode item = encode other → item = other)
    (same : left.map encode = right.map encode) :
    left = right := by
  induction left generalizing right with
  | nil => exact (List.map_eq_nil_iff.mp same.symm).symm
  | cons item rest inductionHypothesis =>
      obtain ⟨other, others, rfl, here, later⟩ := List.map_eq_cons_iff.mp same.symm
      obtain rfl := each item List.mem_cons_self other List.mem_cons_self here.symm
      rw [inductionHypothesis (fun first member second secondMember =>
        each first (List.mem_cons_of_mem _ member) second (List.mem_cons_of_mem _ secondMember))
        later.symm]

namespace Value

/-! ## Values -/

/-- The kind of the values that have a document of this form; the empty document stands for
a number that is not finite. -/
def kindOfJson : Json → Kind
  | .null => .number
  | .bool _ => .bool
  | .number _ => .number
  | .string _ => .text
  | .array _ => .list
  | .object _ => .map

theorem kindOfJson_toJson (value : Value) : kindOfJson value.toJson = value.kind := by
  cases value with
  | number amount =>
      rw [toJson, Json.ofFloat]
      split <;> rfl
  | bool | text | list | map => rfl

theorem kind_eq_of_toJson_eq
    {left right : Value}
    (same : left.toJson = right.toJson) :
    left.kind = right.kind := by
  rw [← kindOfJson_toJson, same, kindOfJson_toJson]

mutual

/-- A value can be told from its document, if its numbers can. -/
theorem eq_of_toJson_eq
    {left right : Value}
    (separates : Json.Separates left.numbers right.numbers)
    (same : left.toJson = right.toJson) :
    left = right := by
  match left, right, kind_eq_of_toJson_eq same with
  | .bool truth, .bool other, _ =>
      rw [toJson, toJson, Json.bool.injEq] at same
      rw [same]
  | .number amount, .number other, _ =>
      rw [separates amount List.mem_cons_self other List.mem_cons_self same]
  | .text content, .text other, _ =>
      rw [Json.text_injective same]
  | .list items, .list others, _ =>
      rw [toJson, toJson, Json.array.injEq] at same
      rw [eq_of_itemsToJson_eq separates same]
  | .map entries, .map others, _ =>
      rw [toJson, toJson, Json.object.injEq] at same
      rw [eq_of_entriesToJson_eq separates same]

theorem eq_of_itemsToJson_eq
    {left right : List Value}
    (separates : Json.Separates (itemNumbers left) (itemNumbers right))
    (same : itemsToJson left = itemsToJson right) :
    left = right := by
  match left, right with
  | [], [] => rfl
  | [], _ :: _ => cases same
  | _ :: _, [] => cases same
  | item :: rest, other :: others =>
      obtain ⟨sameItem, sameRest⟩ := List.cons.inj same
      rw [eq_of_toJson_eq separates.parts.1 sameItem,
        eq_of_itemsToJson_eq separates.parts.2 sameRest]

theorem eq_of_entriesToJson_eq
    {left right : List (String × Value)}
    (separates : Json.Separates (entryNumbers left) (entryNumbers right))
    (same : entriesToJson left = entriesToJson right) :
    left = right := by
  match left, right with
  | [], [] => rfl
  | [], _ :: _ => cases same
  | _ :: _, [] => cases same
  | (key, value) :: rest, (otherKey, other) :: others =>
      rw [entriesToJson, entriesToJson, List.cons.injEq, Prod.mk.injEq, Option.some.injEq]
        at same
      obtain ⟨⟨sameKey, sameValue⟩, sameRest⟩ := same
      rw [sameKey, eq_of_toJson_eq separates.parts.1 sameValue,
        eq_of_entriesToJson_eq separates.parts.2 sameRest]

end

end Value

namespace Property

/-! ## Properties -/

/-- A property can be told from its document, if its numbers can. -/
theorem eq_of_toJson_eq
    {left right : Property}
    (separates : Json.Separates left.numbers right.numbers)
    (same : left.toJson = right.toJson) :
    left = right := by
  match left, right with
  | .constant value, .constant other =>
      have sameValue : value.toJson = other.toJson := by
        simpa [toJson, Json.record] using same
      rw [Value.eq_of_toJson_eq separates sameValue]
  | .animated instants values, .animated otherInstants others =>
      have sameParts : instants.map Json.ofFloat = otherInstants.map Json.ofFloat ∧
          values.map Value.toJson = others.map Value.toJson := by
        simpa [toJson, Json.record] using same
      have sameInstants : instants = otherInstants :=
        eq_of_map_eq_map separates.parts.1 sameParts.1
      have sameValues : values = others := by
        refine eq_of_map_eq_map (fun value member other otherMember => ?_) sameParts.2
        exact Value.eq_of_toJson_eq (separates.parts.2.of_flatMap member otherMember)
      rw [sameInstants, sameValues]
  | .constant _, .animated _ _ | .animated _ _, .constant _ =>
      simp [toJson, Json.record, Json.text, constantName, animatedName] at same

end Property
end Montage
