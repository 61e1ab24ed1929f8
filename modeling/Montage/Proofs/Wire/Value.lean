import Montage.Proofs.Wire.Record
import Montage.Wire.Value

/-!
# Values come back

A value fits a room when it is nested no deeper and the keys of its dictionaries are in
order.  Every value that is read fits the room it was read in, and its numbers are finite.
Every value that fits and whose numbers survive is read again from its own document.  There
is nothing in such a document that is passed over, so that it may also be kept.
-/

namespace Montage
namespace Value

/-! ## Documents of values -/

theorem itemsToJson_eq_map (items : List Value) : itemsToJson items = items.map toJson := by
  induction items with
  | nil => rfl
  | cons item rest inductionHypothesis => rw [itemsToJson, inductionHypothesis, List.map_cons]

theorem entriesToJson_eq_map (entries : List (String × Value)) :
    entriesToJson entries = entries.map fun entry => (some entry.1, entry.2.toJson) := by
  induction entries with
  | nil => rfl
  | cons entry rest inductionHypothesis =>
      rw [entriesToJson, inductionHypothesis, List.map_cons]

mutual

/-- The numbers in a value. -/
def numbers : Value → List Float
  | .bool _ => []
  | .number amount => [amount]
  | .text _ => []
  | .list items => itemNumbers items
  | .map entries => entryNumbers entries

/-- The numbers in the items of a list. -/
def itemNumbers : List Value → List Float
  | [] => []
  | item :: rest => numbers item ++ itemNumbers rest

/-- The numbers in the entries of a dictionary. -/
def entryNumbers : List (String × Value) → List Float
  | [] => []
  | (_, value) :: rest => numbers value ++ entryNumbers rest

end

theorem itemNumbers_eq_flatMap (items : List Value) :
    itemNumbers items = items.flatMap numbers := by
  induction items with
  | nil => rfl
  | cons item rest inductionHypothesis =>
      rw [itemNumbers, inductionHypothesis, List.flatMap_cons]

theorem entryNumbers_eq_flatMap (entries : List (String × Value)) :
    entryNumbers entries = entries.flatMap fun entry => entry.2.numbers := by
  induction entries with
  | nil => rfl
  | cons entry rest inductionHypothesis =>
      rw [entryNumbers, inductionHypothesis, List.flatMap_cons]

theorem numbers_list (items : List Value) : (list items).numbers = items.flatMap numbers := by
  rw [numbers, itemNumbers_eq_flatMap]

theorem numbers_map (entries : List (String × Value)) :
    (map entries).numbers = entries.flatMap fun entry => entry.2.numbers := by
  rw [numbers, entryNumbers_eq_flatMap]

mutual

/-- The document of a value has a text. -/
theorem isWritable_toJson (value : Value) : value.toJson.IsWritable := by
  match value with
  | .bool truth => exact Json.isWritable_bool truth
  | .number amount => exact Json.isWritable_ofFloat amount
  | .text content => exact Json.isWritable_text _
  | .list items => exact Json.isWritable_array (isWritable_itemsToJson items)
  | .map entries => exact Json.isWritable_object (isWritable_entriesToJson entries)

theorem isWritable_itemsToJson (items : List Value) :
    ∀ json ∈ itemsToJson items, json.IsWritable := by
  match items with
  | [] => exact List.forall_mem_nil _
  | item :: rest =>
      exact List.forall_mem_cons.mpr ⟨isWritable_toJson item, isWritable_itemsToJson rest⟩

theorem isWritable_entriesToJson (entries : List (String × Value)) :
    ∀ member ∈ entriesToJson entries, member.2.IsWritable := by
  match entries with
  | [] => exact List.forall_mem_nil _
  | (key, value) :: rest =>
      exact List.forall_mem_cons.mpr ⟨isWritable_toJson value, isWritable_entriesToJson rest⟩

end

/-! ## Values that fit -/

/-- The value is nested no deeper than the room allows, and its keys are in order. -/
def Fits : Nat → Value → Prop
  | _, .bool _ => True
  | _, .number _ => True
  | _, .text _ => True
  | 0, .list _ => False
  | 0, .map _ => False
  | room + 1, .list items => ∀ item ∈ items, Fits room item
  | room + 1, .map entries => Dict.Ordered entries ∧ ∀ entry ∈ entries, Fits room entry.2

/-- A value that is read fits, and its numbers are finite. -/
theorem fits_of_ofJsonWithin?
    {room : Nat}
    {json : Json}
    {value : Value}
    (read : ofJsonWithin? room json = some value) :
    value.Fits room ∧ ∀ amount ∈ value.numbers, amount.isFinite = true := by
  -- The recursion is on the room, since the items of a list are reached through a traversal.
  induction room using Nat.strongRecOn generalizing json value with
  | ind room inductionHypothesis =>
  cases json with
  | null => simp [ofJsonWithin?] at read
  | bool truth =>
      simp only [ofJsonWithin?, Option.some.injEq] at read
      subst read
      simp [Fits, numbers]
  | number numeral =>
      simp only [ofJsonWithin?, Option.map_eq_some_iff] at read
      obtain ⟨amount, found, rfl⟩ := read
      simpa [Fits, numbers] using Json.isFinite_of_toFloat? found
  | string spelled =>
      simp only [ofJsonWithin?, Option.map_eq_some_iff] at read
      obtain ⟨content, -, rfl⟩ := read
      simp [Fits, numbers]
  | array items =>
      cases room with
      | zero => simp [ofJsonWithin?] at read
      | succ room =>
          simp only [ofJsonWithin?, Option.map_eq_some_iff] at read
          obtain ⟨values, decoded, rfl⟩ := read
          have each : ∀ item ∈ values,
              item.Fits room ∧ ∀ amount ∈ item.numbers, amount.isFinite = true := by
            intro item member
            obtain ⟨document, -, found⟩ := exists_of_mem_of_mapM decoded member
            exact inductionHypothesis room (Nat.lt_succ_self room) found
          refine ⟨fun item member => (each item member).1, ?_⟩
          rw [numbers_list, List.forall_mem_flatMap]
          exact fun item member => (each item member).2
  | object members =>
      cases room with
      | zero => simp [ofJsonWithin?] at read
      | succ room =>
          simp only [ofJsonWithin?, Option.bind_eq_bind, Option.bind_eq_some_iff,
            Option.pure_def, Option.some.injEq] at read
          obtain ⟨entries, decoded, rfl⟩ := read
          have each : ∀ entry ∈ Dict.ofList entries,
              entry.2.Fits room ∧ ∀ amount ∈ entry.2.numbers, amount.isFinite = true := by
            intro entry member
            obtain ⟨document, -, found⟩ :=
              exists_of_mem_of_mapM decoded (Dict.mem_of_mem_ofList member)
            simp only [Option.bind_eq_some_iff, Option.some.injEq] at found
            obtain ⟨key, -, value, valueRead, rfl⟩ := found
            exact inductionHypothesis room (Nat.lt_succ_self room) valueRead
          refine ⟨⟨Dict.ordered_ofList entries, fun entry member => (each entry member).1⟩, ?_⟩
          rw [numbers_map, List.forall_mem_flatMap]
          exact fun entry member => (each entry member).2

/-- A value that fits, and whose numbers survive, is read from its own document. -/
theorem ofJsonWithin?_toJson
    {room : Nat}
    {value : Value}
    (fits : value.Fits room)
    (survive : ∀ amount ∈ value.numbers, Json.Survives amount) :
    ofJsonWithin? room value.toJson = some value := by
  induction room using Nat.strongRecOn generalizing value with
  | ind room inductionHypothesis =>
  cases value with
  | bool truth => simp [toJson, ofJsonWithin?]
  | number amount =>
      obtain ⟨numeral, written, found⟩ := (survive amount List.mem_cons_self).exists_numeral
      rw [toJson, written, ofJsonWithin?, found, Option.map_some]
  | text content => simp [toJson, Json.text, ofJsonWithin?]
  | list items =>
      cases room with
      | zero => exact fits.elim
      | succ room =>
          rw [numbers_list, List.forall_mem_flatMap] at survive
          rw [toJson, itemsToJson_eq_map, ofJsonWithin?, List.mapM_map, mapM_eq_some_self,
            Option.map_some]
          intro item member
          exact inductionHypothesis room (Nat.lt_succ_self room) (fits item member)
            (survive item member)
  | map entries =>
      cases room with
      | zero => exact fits.elim
      | succ room =>
          rw [numbers_map, List.forall_mem_flatMap] at survive
          rw [toJson, entriesToJson_eq_map, ofJsonWithin?, List.mapM_map, mapM_eq_some_self]
          · simp [Dict.ofList_of_ordered fits.1]
          · intro entry member
            have found := inductionHypothesis room (Nat.lt_succ_self room)
              (fits.2 entry member) (survive entry member)
            simp [found]

/-- What is read as a value can be kept. -/
theorem isSound_of_ofJsonWithin?
    {room : Nat}
    {json : Json}
    {value : Value}
    (read : ofJsonWithin? room json = some value) :
    json.isSound room = true := by
  induction room using Nat.strongRecOn generalizing json value with
  | ind room inductionHypothesis =>
  cases json with
  | null | bool truth => simp [Json.isSound]
  | number numeral =>
      simp only [ofJsonWithin?, Option.map_eq_some_iff] at read
      obtain ⟨amount, found, -⟩ := read
      rw [Json.isSound, found, Option.isSome_some]
  | string spelled =>
      simp only [ofJsonWithin?, Option.map_eq_some_iff] at read
      obtain ⟨content, rfl, -⟩ := read
      simp [Json.isSound]
  | array items =>
      cases room with
      | zero => simp [ofJsonWithin?] at read
      | succ room =>
          simp only [ofJsonWithin?, Option.map_eq_some_iff] at read
          obtain ⟨values, decoded, -⟩ := read
          rw [Json.isSound, List.all_eq_true]
          intro item member
          obtain ⟨itemValue, itemRead⟩ := exists_of_mapM_eq_some decoded member
          exact inductionHypothesis room (Nat.lt_succ_self room) itemRead
  | object members =>
      cases room with
      | zero => simp [ofJsonWithin?] at read
      | succ room =>
          simp only [ofJsonWithin?, Option.bind_eq_bind, Option.bind_eq_some_iff,
            Option.pure_def, Option.some.injEq] at read
          obtain ⟨entries, decoded, -⟩ := read
          rw [Json.isSound, List.all_eq_true]
          intro member isMember
          obtain ⟨entry, entryRead⟩ := exists_of_mapM_eq_some decoded isMember
          simp only [Option.bind_eq_some_iff, Option.some.injEq] at entryRead
          obtain ⟨key, spelled, entryValue, valueRead, -⟩ := entryRead
          rw [spelled, Option.isSome_some, Bool.true_and]
          exact inductionHypothesis room (Nat.lt_succ_self room) valueRead

/-- The document of a value is read as a value only if all its numbers are finite. -/
theorem isFinite_of_ofJsonWithin?_toJson
    {room : Nat}
    {value other : Value}
    (read : ofJsonWithin? room value.toJson = some other) :
    ∀ amount ∈ value.numbers, amount.isFinite = true := by
  induction room using Nat.strongRecOn generalizing value other with
  | ind room inductionHypothesis =>
  cases value with
  | bool truth => exact List.forall_mem_nil _
  | number amount =>
      rw [numbers, List.forall_mem_singleton]
      apply Bool.eq_true_of_not_eq_false
      intro infinite
      rw [toJson, (Json.ofFloat_eq_null_iff amount).mpr infinite] at read
      simp [ofJsonWithin?] at read
  | text content => exact List.forall_mem_nil _
  | list items =>
      cases room with
      | zero => simp [toJson, ofJsonWithin?] at read
      | succ room =>
          rw [toJson, itemsToJson_eq_map, ofJsonWithin?] at read
          obtain ⟨values, decoded, -⟩ := Option.map_eq_some_iff.mp read
          rw [numbers_list, List.forall_mem_flatMap]
          intro item member
          obtain ⟨value, found⟩ := exists_of_mapM_eq_some decoded (List.mem_map_of_mem member)
          exact inductionHypothesis room (Nat.lt_succ_self room) found
  | map entries =>
      cases room with
      | zero => simp [toJson, ofJsonWithin?] at read
      | succ room =>
          rw [toJson, entriesToJson_eq_map, ofJsonWithin?] at read
          obtain ⟨values, decoded, -⟩ := Option.bind_eq_some_iff.mp read
          rw [numbers_map, List.forall_mem_flatMap]
          intro entry member
          obtain ⟨value, found⟩ := exists_of_mapM_eq_some decoded (List.mem_map_of_mem member)
          simp only [Option.bind_eq_bind, Option.bind_some, Option.bind_eq_some_iff] at found
          obtain ⟨held, valueRead, -⟩ := found
          exact inductionHypothesis room (Nat.lt_succ_self room) valueRead

end Value
end Montage
