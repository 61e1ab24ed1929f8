import Montage.Proofs.Element.Gathering
import Montage.Proofs.Number.Literals
import Montage.Proofs.Property.Animations

/-!
# What the text of a value denotes

A text without the mark of animations always denotes one constant value (`Value.Denotes`):
brackets around it make it a list, braces a dictionary, and every other text is a truth
value, a strict literal or itself (`Value.PlainlyDenotes`).  Values are nested one level deep
at most, whether they are constant or those of an animation, so that whoever samples an
accepted property need not look further down (`Property.IsWellFormed`).
-/

namespace Montage

open Text Number

/-! ## Lookup in a dictionary -/

namespace Dict

variable {α : Type}

theorem ofList_concat
    (entries : List (String × α))
    (entry : String × α) :
    ofList (entries ++ [entry]) = insert entry.1 entry.2 (ofList entries) := by
  simp [ofList]

/-- Of several entries with one key the last one is found. -/
theorem find?_ofList
    (key : String)
    (entries : List (String × α)) :
    find? key (ofList entries) =
      (entries.filter fun entry => entry.1 = key).getLast?.map Prod.snd := by
  induction entries using List.reverseRecOn with
  | nil => rfl
  | append_singleton front entry inductionHypothesis =>
      rw [ofList_concat]
      by_cases same : entry.1 = key
      · subst same
        simp
      · rw [find?_insert_of_ne (Ne.symm same), inductionHypothesis]
        simp [same]

theorem find?_of_mem
    {entries : Dict α}
    (ordered : Ordered entries)
    {entry : String × α}
    (member : entry ∈ entries) :
    find? entry.1 entries = some entry.2 := by
  induction entries with
  | nil => cases member
  | cons first rest inductionHypothesis =>
      obtain ⟨firstBelow, restOrdered⟩ := List.pairwise_cons.mp ordered
      rcases List.mem_cons.mp member with rfl | later
      · exact if_pos rfl
      · have different : first.1 ≠ entry.1 := by
          intro same
          have below := firstBelow entry later
          rw [same] at below
          exact String.lt_irrefl _ below
        exact (if_neg different).trans (inductionHypothesis restOrdered later)

end Dict

namespace Value

open Property (entriesOf items_eq_entriesOf)
open Element (pairOf? pairOf?_eq_some_iff segment? segment?_eq_pairOf? lastValue?)

/-! ## Grammar -/

/-- What a trimmed text denotes where brackets and braces have no meaning. -/
inductive PlainlyDenotes (text : List Char) : Value → Prop
  /-- The word for what is true. -/
  | yes :
      text = "true".toList →
      PlainlyDenotes text (.bool true)
  /-- The word for what is false. -/
  | no :
      text = "false".toList →
      PlainlyDenotes text (.bool false)
  /-- A strict literal. -/
  | number (numeral : Numeral) :
      Numeral.IsLiteral text numeral →
      PlainlyDenotes text (.number numeral.nearest)
  /-- Every other text stands for itself. -/
  | text :
      text ≠ "true".toList →
      text ≠ "false".toList →
      (∀ numeral, ¬ Numeral.IsLiteral text numeral) →
      PlainlyDenotes text (.text (String.ofList text))

/-- The pairs in the body of a dictionary, in order. -/
def pairsIn (body : List Char) : List (List Char × List Char) :=
  (entriesOf body).filterMap pairOf?

/-- The dictionary is the one that a body spells. -/
structure IsMapOf
    (body : List Char)
    (entries : Dict Value) : Prop where
  /-- The keys are in order. -/
  ordered : entries.Ordered
  /-- Under each key there is what the last value with that key plainly denotes. -/
  find?_eq_some_iff : ∀ key value, entries.find? key = some value ↔
    ∃ text, lastValue? key (pairsIn body) = some text ∧ PlainlyDenotes text value

/-- What a trimmed text without the mark of animations denotes. -/
inductive Denotes (text : List Char) : Value → Prop
  /-- Brackets enclose a list. -/
  | list (body : List Char) (items : List Value) :
      text = '[' :: (body ++ [']']) →
      List.Forall₂ PlainlyDenotes (entriesOf body) items →
      Denotes text (.list items)
  /-- Braces enclose a dictionary. -/
  | map (body : List Char) (entries : Dict Value) :
      text = '{' :: (body ++ ['}']) →
      IsMapOf body entries →
      Denotes text (.map entries)
  /-- Every other text denotes a plain value. -/
  | plain (value : Value) :
      (∀ body, text ≠ '[' :: (body ++ [']'])) →
      (∀ body, text ≠ '{' :: (body ++ ['}'])) →
      PlainlyDenotes text value →
      Denotes text value

/-! ## Reading finds what is denoted -/

theorem ofPlainText_trim (source : List Char) :
    ofPlainText (trim source) = ofPlainText source := by
  simp only [ofPlainText, trim_trim]

theorem ofText_trim (source : List Char) : ofText (trim source) = ofText source := by
  simp only [ofText, trim_trim]

/-- A text of which no literal is read is none. -/
theorem ne_of_isLiteral
    {text word : List Char}
    {numeral : Numeral}
    (isLiteral : Numeral.IsLiteral text numeral)
    (unread : Numeral.literal? word = none) :
    text ≠ word := by
  rintro rfl
  exact Numeral.literal?_eq_none_iff.mp unread numeral isLiteral

/-- What is read plainly from a trimmed text is what it plainly denotes. -/
theorem plainlyDenotes_iff
    {text : List Char}
    {value : Value}
    (trimmed : trim text = text) :
    PlainlyDenotes text value ↔ value = ofPlainText text := by
  simp only [ofPlainText, trimmed]
  constructor
  · intro denotes
    cases denotes with
    | yes isYes => rw [if_pos isYes]
    | no isNo => rw [if_neg (by rw [isNo]; decide), if_pos isNo]
    | number numeral isLiteral =>
        -- Neither word is a literal, so that it does not matter that they are tried first.
        rw [if_neg (ne_of_isLiteral isLiteral (by decide)),
          if_neg (ne_of_isLiteral isLiteral (by decide)),
          Numeral.literal?_of_isLiteral isLiteral]
    | text notYes notNo noLiteral =>
        rw [if_neg notYes, if_neg notNo, Numeral.literal?_eq_none_iff.mpr noLiteral]
  · rintro rfl
    split
    · next isYes => exact .yes isYes
    · next notYes =>
        split
        · next isNo => exact .no isNo
        · next notNo =>
            split
            · next numeral found => exact .number numeral (Numeral.isLiteral_of_literal? found)
            · next none => exact .text notYes notNo (Numeral.literal?_eq_none_iff.mp none)

section Bodies

variable {body : List Char}

theorem trim_eq_of_mem_entriesOf
    {entry : List Char}
    (member : entry ∈ entriesOf body) :
    trim entry = entry := by
  unfold entriesOf at member
  split at member
  · cases member
  · obtain ⟨piece, -, rfl⟩ := List.mem_map.mp member
    exact trim_trim piece

theorem forall₂_plainlyDenotes_iff {items : List Value} :
    List.Forall₂ PlainlyDenotes (entriesOf body) items ↔
      items = (Text.items body).map ofPlainText := by
  rw [items_eq_entriesOf]
  exact forall₂_iff_eq_map fun entry member value =>
    plainlyDenotes_iff (trim_eq_of_mem_entriesOf member)

/-- The last pair with a key in a body has that key, which is trimmed and not empty, and its
value is trimmed. -/
theorem trim_eq_of_lastValue?
    {key : String}
    {text : List Char}
    (found : lastValue? key (pairsIn body) = some text) :
    key.toList ≠ [] ∧ trim key.toList = key.toList ∧ trim text = text := by
  obtain ⟨pair, last, rfl⟩ := Option.map_eq_some_iff.mp found
  obtain ⟨member, named⟩ := List.mem_filter.mp (List.mem_of_getLast? last)
  obtain ⟨entry, -, paired⟩ := List.mem_filterMap.mp member
  obtain ⟨-, notEmpty, rfl⟩ := pairOf?_eq_some_iff.mp paired
  have isKey := of_decide_eq_true named
  subst isKey
  rw [String.toList_ofList]
  exact ⟨notEmpty, trim_trim _, trim_trim _⟩

theorem entry?_eq_map (source : List Char) :
    entry? source =
      (pairOf? source).map fun pair => (String.ofList pair.1, ofPlainText pair.2) := by
  rw [← segment?_eq_pairOf?, entry?, segment?]
  cases cut ':' source with
  | none => rfl
  | some sides =>
      obtain ⟨key, value⟩ := sides
      cases found : trim key with
      | nil => simp [found]
      | cons first rest => simp [found, ofPlainText_trim]

theorem find?_ofList_eq_map_lastValue? (key : String) :
    Dict.find? key (Dict.ofList ((items body).filterMap entry?)) =
      (lastValue? key (pairsIn body)).map ofPlainText := by
  have entries : (items body).filterMap entry? =
      (pairsIn body).map fun pair => (String.ofList pair.1, ofPlainText pair.2) := by
    rw [items_eq_entriesOf, pairsIn, List.map_filterMap]
    exact congrArg (List.filterMap · (entriesOf body)) (funext entry?_eq_map)
  rw [Dict.find?_ofList, entries, List.filter_map, List.getLast?_map, lastValue?, Option.map_map,
    Option.map_map]
  rfl

theorem find?_ofList_eq_some_iff
    (key : String)
    (value : Value) :
    Dict.find? key (Dict.ofList ((items body).filterMap entry?)) = some value ↔
      ∃ text, lastValue? key (pairsIn body) = some text ∧ PlainlyDenotes text value := by
  rw [find?_ofList_eq_map_lastValue?, Option.map_eq_some_iff]
  refine exists_congr fun text => and_congr_right fun found => ?_
  rw [plainlyDenotes_iff (trim_eq_of_lastValue? found).2.2, eq_comm]

/-- A dictionary is determined by what is found in it. -/
theorem isMapOf_iff {entries : Dict Value} :
    IsMapOf body entries ↔ entries = Dict.ofList ((items body).filterMap entry?) := by
  constructor
  · intro isMap
    apply Dict.eq_of_find?_eq isMap.ordered (Dict.ordered_ofList _)
    intro key
    apply Option.ext
    intro value
    rw [isMap.find?_eq_some_iff, find?_ofList_eq_some_iff]
  · rintro rfl
    exact ⟨Dict.ordered_ofList _, find?_ofList_eq_some_iff⟩

end Bodies

/-- What is read from a text is what it denotes. -/
theorem denotes_iff
    {source : List Char}
    {value : Value} :
    Denotes (trim source) value ↔ value = ofText source := by
  simp only [ofText]
  constructor
  · intro denotes
    cases denotes with
    | list body items brackets areItems =>
        rw [within_eq_some_iff.mpr brackets, forall₂_plainlyDenotes_iff.mp areItems]
    | map body entries braces isMap =>
        have noBrackets : within '[' ']' (trim source) = none :=
          within_eq_none_iff.mpr fun other brackets => by simp [braces] at brackets
        rw [noBrackets, within_eq_some_iff.mpr braces, isMapOf_iff.mp isMap]
    | plain value noBrackets noBraces plainly =>
        rw [within_eq_none_iff.mpr noBrackets, within_eq_none_iff.mpr noBraces]
        exact (plainlyDenotes_iff (trim_trim source)).mp plainly
  · rintro rfl
    split
    · next body brackets =>
        exact .list body _ (within_eq_some_iff.mp brackets) (forall₂_plainlyDenotes_iff.mpr rfl)
    · next noBrackets =>
        split
        · next body braces =>
            exact .map body _ (within_eq_some_iff.mp braces) (isMapOf_iff.mpr rfl)
        · next noBraces =>
            exact .plain _ (within_eq_none_iff.mp noBrackets) (within_eq_none_iff.mp noBraces)
              ((plainlyDenotes_iff (trim_trim source)).mpr rfl)

/-! ## Shape -/

/-- There are no blanks at the ends of the text. -/
def IsTrimmed (content : String) : Prop :=
  trim content.toList = content.toList

/-- The value is not nested, and trimmed if it is a text. -/
inductive IsPlain : Value → Prop
  /-- Truth values are plain. -/
  | bool (truth : Bool) : IsPlain (.bool truth)
  /-- Numbers are plain. -/
  | number (amount : Float) : IsPlain (.number amount)
  /-- Trimmed texts are plain. -/
  | text (content : String) : IsTrimmed content → IsPlain (.text content)

/-- The value is nested one level deep at most. -/
inductive IsShallow : Value → Prop
  /-- A list of plain values. -/
  | list (items : List Value) :
      (∀ item ∈ items, item.IsPlain) →
      IsShallow (.list items)
  /-- A dictionary of plain values, with trimmed keys that are not empty. -/
  | map (entries : Dict Value) :
      entries.Ordered →
      (∀ entry ∈ entries, entry.1 ≠ "" ∧ IsTrimmed entry.1 ∧ entry.2.IsPlain) →
      IsShallow (.map entries)
  /-- A plain value. -/
  | plain (value : Value) :
      value.IsPlain →
      IsShallow value

theorem PlainlyDenotes.isPlain
    {text : List Char}
    {value : Value}
    (denotes : PlainlyDenotes text value)
    (trimmed : trim text = text) :
    value.IsPlain := by
  cases denotes with
  | yes _ => exact .bool true
  | no _ => exact .bool false
  | number numeral _ => exact .number _
  | text _ _ _ => exact .text _ (by rwa [IsTrimmed, String.toList_ofList])

theorem isPlain_of_mem_items
    {body : List Char}
    {items : List Value}
    (areItems : List.Forall₂ PlainlyDenotes (entriesOf body) items) :
    ∀ item ∈ items, item.IsPlain := by
  intro item member
  obtain ⟨entry, entryMember, denotes⟩ := exists_mem_of_forall₂ areItems member
  exact denotes.isPlain (trim_eq_of_mem_entriesOf entryMember)

theorem IsMapOf.isShallow
    {body : List Char}
    {entries : Dict Value}
    (isMap : IsMapOf body entries) :
    IsShallow (.map entries) := by
  refine .map entries isMap.ordered fun entry member => ?_
  obtain ⟨text, found, denotes⟩ :=
    (isMap.find?_eq_some_iff entry.1 entry.2).mp (Dict.find?_of_mem isMap.ordered member)
  obtain ⟨notEmpty, keyTrimmed, textTrimmed⟩ := trim_eq_of_lastValue? found
  exact ⟨fun empty => notEmpty (by rw [empty]; rfl), keyTrimmed, denotes.isPlain textTrimmed⟩

theorem Denotes.isShallow
    {text : List Char}
    {value : Value}
    (denotes : Denotes text value)
    (trimmed : trim text = text) :
    value.IsShallow := by
  cases denotes with
  | list body items _ areItems => exact .list items (isPlain_of_mem_items areItems)
  | map body entries _ isMap => exact isMap.isShallow
  | plain value _ _ plainly => exact .plain value (plainly.isPlain trimmed)

end Value

namespace Property

/-- The shape that sampling relies on. -/
inductive IsWellFormed : Property → Prop
  /-- A constant is nested one level deep at most. -/
  | constant (value : Value) :
      value.IsShallow →
      IsWellFormed (.constant value)
  /-- An animation has as many instants as values and two at least; the instants are finite
  and the values plain. -/
  | animated (instants : List Float) (values : List Value) :
      instants.length = values.length →
      2 ≤ instants.length →
      (∀ instant ∈ instants, instant.isFinite = true) →
      (∀ value ∈ values, value.IsPlain) →
      IsWellFormed (.animated instants values)

theorem isWellFormed_of_readAnimation
    {key : String}
    {afterMark : List Char}
    {property : Property}
    (read : readAnimation key afterMark = .ok property) :
    property.IsWellFormed := by
  cases found : animationBodies? afterMark with
  | none => simp [readAnimation, found] at read
  | some bodies =>
      obtain ⟨instantsBody, valuesBody⟩ := bodies
      rw [readAnimation_of_bodies found, bind_eq_ok_iff] at read
      obtain ⟨instants, readInstants, read⟩ := read
      have areInstants := readInstants_eq_ok_iff.mp readInstants
      split at read
      · cases read
      · next same =>
          split at read
          · cases read
          · next enough =>
              cases read
              refine .animated instants _ ?_ (Nat.le_of_not_lt enough) ?_ ?_
              · simpa using same
              · intro instant member
                obtain ⟨token, -, isInstant⟩ := exists_mem_of_forall₂ areInstants member
                exact isInstant.2
              · rw [← items_eq_entriesOf]
                exact Value.isPlain_of_mem_items (Value.forall₂_plainlyDenotes_iff.mpr rfl)

theorem read_of_not_marked
    {source : List Char}
    (unmarked : ¬ mark <+: trim source)
    (key : String) :
    Property.read key source = .ok (.constant (Value.ofText source)) := by
  unfold Property.read
  simp only
  split
  · next afterMark marked =>
      exact absurd ⟨afterMark, List.isPrefixOf?_eq_some_iff_append_eq.mp marked⟩ unmarked
  · rw [Value.ofText_trim]

theorem isWellFormed_of_read
    {key : String}
    {source : List Char}
    {property : Property}
    (read : Property.read key source = .ok property) :
    property.IsWellFormed := by
  unfold Property.read at read
  simp only at read
  split at read
  · exact isWellFormed_of_readAnimation read
  · cases read
    exact .constant _ ((Value.denotes_iff.mpr rfl).isShallow (trim_trim _))

/-- Reading a property whose trimmed text does not start with the mark of animations never fails
and comes to the constant that the text denotes.  Whatever property is read, from a text with
the mark or without it, is nested no deeper than plain values in one list or one dictionary. -/
theorem read_eq_iff_denotes_and_isWellFormed
    (key : String)
    (source : List Char) :
    (¬ mark <+: trim source → ∀ outcome, Property.read key source = outcome ↔
      ∃ value, Value.Denotes (trim source) value ∧ outcome = .ok (.constant value)) ∧
    ∀ property, Property.read key source = .ok property → property.IsWellFormed := by
  refine ⟨fun unmarked outcome => ?_, fun property => isWellFormed_of_read⟩
  rw [read_of_not_marked unmarked]
  simp only [Value.denotes_iff, exists_eq_left, eq_comm]

/-- A dictionary with a text that looks like a number, an entry without a key, one without a
colon and a key that is given twice. -/
def looseEntries : List Char :=
  " { b:7, a : .5 ,:x,y, b: -1.5 } ".toList

theorem denotes_looseEntries :
    ¬ mark <+: trim looseEntries ∧
      Value.Denotes (trim looseEntries) (.map [("a", .text ".5"), ("b", .number (-1.5))]) ∧
      IsWellFormed (.constant (.map [("a", .text ".5"), ("b", .number (-1.5))])) := by
  have unmarked : ¬ mark <+: trim looseEntries := by decide
  have read : Property.read "rect" looseEntries =
      .ok (.constant (.map [("a", .text ".5"), ("b", .number (-1.5))])) := by rfl
  obtain ⟨denotes, wellFormed⟩ := read_eq_iff_denotes_and_isWellFormed "rect" looseEntries
  obtain ⟨value, denotesValue, same⟩ := (denotes unmarked _).mp read
  cases same
  exact ⟨unmarked, denotesValue, wellFormed _ read⟩

/-- Lone brackets and numbers that are not written strictly are texts. -/
example :
    ["[", "]", "[1", ".5", "1.", "+1", "1e3", "1.2.3", "--1", "inf"].map
        (fun source => (Value.ofText source.toList).text?) =
      ["[", "]", "[1", ".5", "1.", "+1", "1e3", "1.2.3", "--1", "inf"].map some := by
  decide

end Property
end Montage
