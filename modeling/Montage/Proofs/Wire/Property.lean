import Montage.Proofs.Wire.Value
import Montage.Wire.Property

/-!
# Properties come back

A written property names its kind first, so that nothing has to be kept while it is read,
and it is read in the same way whether the document around it is kept or not.
-/

namespace Montage
namespace Property

/-- The numbers in a property, instants included. -/
def numbers : Property → List Float
  | .constant value => value.numbers
  | .animated instants values => instants ++ values.flatMap Value.numbers

/-- The document of a property has a text. -/
theorem isWritable_toJson (property : Property) : property.toJson.IsWritable := by
  cases property with
  | constant value =>
      apply Json.isWritable_record
      simpa using ⟨Json.isWritable_text _, value.isWritable_toJson⟩
  | animated instants values =>
      have instantsWritable : (Json.array (instants.map Json.ofFloat)).IsWritable := by
        apply Json.isWritable_array
        simpa using fun instant _ => Json.isWritable_ofFloat instant
      have valuesWritable : (Json.array (values.map Value.toJson)).IsWritable := by
        apply Json.isWritable_array
        simpa using fun value _ => Value.isWritable_toJson value
      apply Json.isWritable_record
      simp only [List.forall_mem_cons]
      refine ⟨Json.isWritable_text _, Json.isWritable_record ?_, List.forall_mem_nil _⟩
      simpa using ⟨instantsWritable, valuesWritable⟩

/-- The values of the property are nested no deeper than the room allows. -/
def Fits : Nat → Property → Prop
  | room + 1, .constant value => value.Fits room
  | room + 3, .animated _ values => ∀ value ∈ values, value.Fits room
  | _, _ => False

theorem fits_of_animationOfJsonWithin?
    {room : Nat}
    {json : Json}
    {property : Property}
    (read : animationOfJsonWithin? room json = some property) :
    property.Fits (room + 1) ∧ ∀ amount ∈ property.numbers, amount.isFinite = true := by
  unfold animationOfJsonWithin? at read
  split at read
  · next room members =>
      simp only [Option.bind_eq_bind, Option.bind_eq_some_iff, Option.pure_def] at read
      obtain ⟨fields, -, read⟩ := read
      split at read
      · next instantsJson valuesJson =>
          simp only [Option.bind_eq_some_iff, Option.some.injEq] at read
          obtain ⟨instantItems, -, instants, instantsRead, valueItems, -, values, valuesRead,
            rfl⟩ := read
          have each : ∀ value ∈ values,
              value.Fits room ∧ ∀ amount ∈ value.numbers, amount.isFinite = true := by
            intro value member
            obtain ⟨document, -, found⟩ := exists_of_mem_of_mapM valuesRead member
            exact Value.fits_of_ofJsonWithin? found
          refine ⟨fun value member => (each value member).1, ?_⟩
          rw [numbers, List.forall_mem_append, List.forall_mem_flatMap]
          refine ⟨?_, fun value member => (each value member).2⟩
          intro instant member
          obtain ⟨document, -, found⟩ := exists_of_mem_of_mapM instantsRead member
          exact Json.isFinite_of_float? found
      · cases read
  · cases read

/-- A property that is read fits, and its numbers are finite. -/
theorem fits_of_ofJsonWithin?
    {kept : Bool}
    {room : Nat}
    {json : Json}
    {property : Property}
    (read : ofJsonWithin? kept room json = some property) :
    property.Fits room ∧ ∀ amount ∈ property.numbers, amount.isFinite = true := by
  unfold ofJsonWithin? at read
  split at read
  · next room =>
      simp only [Option.bind_eq_bind, Option.bind_eq_some_iff] at read
      obtain ⟨fields, -, read⟩ := read
      split at read
      · next kindJson valueJson =>
          split at read
          · cases read
          · simp only [Option.bind_eq_some_iff] at read
            obtain ⟨kind, -, read⟩ := read
            unfold ofKind? at read
            split at read
            · obtain ⟨value, valueRead, rfl⟩ := Option.map_eq_some_iff.mp read
              exact Value.fits_of_ofJsonWithin? valueRead
            · split at read
              · exact fits_of_animationOfJsonWithin? read
              · cases read
      · cases read
  · cases read

/-- The kind that is written first decides how the value is read. -/
theorem ofJsonWithin?_record
    (kept : Bool)
    (room : Nat)
    (kind : String)
    (value : Json) :
    ofJsonWithin? kept (room + 1) (Json.record [("kind", .text kind), ("value", value)]) =
      ofKind? kind room value := by
  have fields := Json.fields?_record [("kind", .text kind), ("value", value)] (by simp)
    ["kind", "value"]
  rw [ofJsonWithin?, fields]
  simp [Json.record, Json.members?, valueFirst, kind?, Json.text, Json.choice?, List.lookup]

/-- An animation is read from the record that is written for its instants and values. -/
theorem animationOfJsonWithin?_record
    (room : Nat)
    (instants values : List Json) :
    animationOfJsonWithin? (room + 2)
        (Json.record [("timestamps", .array instants), ("values", .array values)]) =
      (instants.mapM Json.float?).bind fun instants =>
        (values.mapM (Value.ofJsonWithin? room)).map fun values =>
          .animated instants values := by
  have fields := Json.fields?_record
    [("timestamps", .array instants), ("values", .array values)] (by simp)
    ["timestamps", "values"]
  rw [Json.record] at fields ⊢
  rw [animationOfJsonWithin?, fields]
  simp [List.lookup, Json.items?, Option.map_eq_bind]

/-- A property that fits, and whose numbers survive, is read from its own document. -/
theorem ofJsonWithin?_toJson
    (kept : Bool)
    {room : Nat}
    {property : Property}
    (fits : property.Fits room)
    (survive : ∀ amount ∈ property.numbers, Json.Survives amount) :
    ofJsonWithin? kept room property.toJson = some property := by
  unfold Fits at fits
  split at fits
  · next room value =>
      rw [toJson, ofJsonWithin?_record, ofKind?, if_pos rfl,
        Value.ofJsonWithin?_toJson fits survive, Option.map_some]
  · next room instants values =>
      rw [numbers, List.forall_mem_append, List.forall_mem_flatMap] at survive
      have instantsRead : (instants.map Json.ofFloat).mapM Json.float? = some instants := by
        rw [List.mapM_map]
        exact mapM_eq_some_self survive.1
      have valuesRead :
          (values.map Value.toJson).mapM (Value.ofJsonWithin? room) = some values := by
        rw [List.mapM_map]
        apply mapM_eq_some_self
        intro value member
        exact Value.ofJsonWithin?_toJson (fits value member) (survive.2 value member)
      rw [toJson, ofJsonWithin?_record, ofKind?, if_neg (by decide), if_pos rfl,
        animationOfJsonWithin?_record, instantsRead, valuesRead]
      rfl
  · exact fits.elim

/-- The document of a property that fits, and whose numbers survive, can be kept. -/
theorem isSound_toJson
    {room : Nat}
    {property : Property}
    (fits : property.Fits room)
    (survive : ∀ amount ∈ property.numbers, Json.Survives amount) :
    property.toJson.isSound room = true := by
  unfold Fits at fits
  split at fits
  · next room value =>
      have sound := Value.isSound_of_ofJsonWithin? (Value.ofJsonWithin?_toJson fits survive)
      rw [toJson, Json.isSound_record]
      simp [Json.text, Json.isSound, sound]
  · next room instants values =>
      rw [numbers, List.forall_mem_append, List.forall_mem_flatMap] at survive
      have instantsSound : ∀ instant ∈ instants, (Json.ofFloat instant).isSound room = true :=
        fun instant member => (survive.1 instant member).isSound_ofFloat room
      have valuesSound : ∀ value ∈ values, value.toJson.isSound room = true := by
        intro value member
        apply Value.isSound_of_ofJsonWithin?
        exact Value.ofJsonWithin?_toJson (fits value member) (survive.2 value member)
      rw [toJson, Json.isSound_record]
      simpa [Json.text, Json.isSound_record, Json.isSound] using ⟨instantsSound, valuesSound⟩
  · exact fits.elim

/-- The document of a property is read as a property only if all its numbers are finite. -/
theorem isFinite_of_ofJsonWithin?_toJson
    {kept : Bool}
    {room : Nat}
    {property other : Property}
    (read : ofJsonWithin? kept room property.toJson = some other) :
    ∀ amount ∈ property.numbers, amount.isFinite = true := by
  cases room with
  | zero => simp [ofJsonWithin?] at read
  | succ room =>
      cases property with
      | constant value =>
          rw [toJson, ofJsonWithin?_record, ofKind?, if_pos rfl] at read
          obtain ⟨held, found, -⟩ := Option.map_eq_some_iff.mp read
          exact Value.isFinite_of_ofJsonWithin?_toJson found
      | animated instants values =>
          rw [toJson, ofJsonWithin?_record, ofKind?, if_neg (by decide), if_pos rfl] at read
          match room with
          | 0 | 1 => cases read
          | room + 2 =>
              rw [animationOfJsonWithin?_record] at read
              obtain ⟨instantsHeld, instantsRead, read⟩ := Option.bind_eq_some_iff.mp read
              obtain ⟨valuesHeld, valuesRead, -⟩ := Option.map_eq_some_iff.mp read
              rw [numbers, List.forall_mem_append, List.forall_mem_flatMap]
              constructor
              · intro instant member
                obtain ⟨held, found⟩ :=
                  exists_of_mapM_eq_some instantsRead (List.mem_map_of_mem member)
                exact Json.isFinite_of_float?_ofFloat found
              · intro value member
                obtain ⟨held, found⟩ :=
                  exists_of_mapM_eq_some valuesRead (List.mem_map_of_mem member)
                exact Value.isFinite_of_ofJsonWithin?_toJson found

/-! ## Dictionaries of properties -/

/-- The numbers in the properties of a dictionary. -/
def dictNumbers (props : Dict Property) : List Float :=
  props.flatMap fun prop => prop.2.numbers

/-- The keys are in order, and all properties fit the room in the dictionary. -/
def DictFits : Nat → Dict Property → Prop
  | room + 1, props => props.Ordered ∧ ∀ prop ∈ props, prop.2.Fits room
  | 0, _ => False

theorem isWritable_dictToJson (props : Dict Property) : (dictToJson props).IsWritable := by
  apply Json.isWritable_record
  intro member isMember
  obtain ⟨prop, -, rfl⟩ := List.mem_map.mp isMember
  exact isWritable_toJson prop.2

/-- A dictionary that is read fits, and its numbers are finite. -/
theorem fits_of_dictOfJsonWithin?
    {kept : Bool}
    {room : Nat}
    {json : Json}
    {props : Dict Property}
    (read : dictOfJsonWithin? kept room json = some props) :
    DictFits room props ∧ ∀ amount ∈ dictNumbers props, amount.isFinite = true := by
  unfold dictOfJsonWithin? at read
  split at read
  · next room members =>
      simp only [Option.bind_eq_bind, Option.bind_eq_some_iff, Option.pure_def,
        Option.some.injEq] at read
      obtain ⟨entries, decoded, rfl⟩ := read
      have each : ∀ prop ∈ Dict.ofList entries,
          prop.2.Fits room ∧ ∀ amount ∈ prop.2.numbers, amount.isFinite = true := by
        intro prop member
        obtain ⟨document, -, found⟩ :=
          exists_of_mem_of_mapM decoded (Dict.mem_of_mem_ofList member)
        simp only [Option.bind_eq_some_iff, Option.some.injEq] at found
        obtain ⟨key, -, property, propertyRead, rfl⟩ := found
        exact fits_of_ofJsonWithin? propertyRead
      refine ⟨⟨Dict.ordered_ofList entries, fun prop member => (each prop member).1⟩, ?_⟩
      rw [dictNumbers, List.forall_mem_flatMap]
      exact fun prop member => (each prop member).2
  · cases read

/-- A dictionary that fits, and whose numbers survive, is read from its own document. -/
theorem dictOfJsonWithin?_dictToJson
    (kept : Bool)
    {room : Nat}
    {props : Dict Property}
    (fits : DictFits room props)
    (survive : ∀ amount ∈ dictNumbers props, Json.Survives amount) :
    dictOfJsonWithin? kept room (dictToJson props) = some props := by
  cases room with
  | zero => exact fits.elim
  | succ room =>
      rw [dictNumbers, List.forall_mem_flatMap] at survive
      rw [dictToJson, Json.record, List.map_map, dictOfJsonWithin?, List.mapM_map,
        mapM_eq_some_self]
      · simp [Dict.ofList_of_ordered fits.1]
      · intro prop member
        have found := ofJsonWithin?_toJson kept (fits.2 prop member) (survive prop member)
        simp [found]

/-- The document of a dictionary that fits, and whose numbers survive, can be kept. -/
theorem isSound_dictToJson
    {room : Nat}
    {props : Dict Property}
    (fits : DictFits room props)
    (survive : ∀ amount ∈ dictNumbers props, Json.Survives amount) :
    (dictToJson props).isSound room = true := by
  cases room with
  | zero => exact fits.elim
  | succ room =>
      rw [dictNumbers, List.forall_mem_flatMap] at survive
      rw [dictToJson, Json.isSound_record, List.all_map, List.all_eq_true]
      intro prop member
      exact isSound_toJson (fits.2 prop member) (survive prop member)

/-- The document of a dictionary is read as one only if all its numbers are finite. -/
theorem isFinite_of_dictOfJsonWithin?_dictToJson
    {kept : Bool}
    {room : Nat}
    {props other : Dict Property}
    (read : dictOfJsonWithin? kept room (dictToJson props) = some other) :
    ∀ amount ∈ dictNumbers props, amount.isFinite = true := by
  cases room with
  | zero => cases read
  | succ room =>
      rw [dictToJson, Json.record, List.map_map, dictOfJsonWithin?] at read
      obtain ⟨entries, decoded, -⟩ := Option.bind_eq_some_iff.mp read
      rw [dictNumbers, List.forall_mem_flatMap]
      intro prop member
      obtain ⟨entry, found⟩ := exists_of_mapM_eq_some decoded (List.mem_map_of_mem member)
      simp only [Function.comp_apply, Option.bind_eq_bind, Option.bind_some,
        Option.bind_eq_some_iff] at found
      obtain ⟨held, propertyRead, -⟩ := found
      exact isFinite_of_ofJsonWithin?_toJson propertyRead

end Property
end Montage
