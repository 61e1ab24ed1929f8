import Montage.Proofs.Element.Edits
import Montage.Proofs.Property.Values

/-!
# Lists and dictionaries as they are written

A list is written as its items between commas, in brackets, and a dictionary as its entries
`key:value` between commas, in braces.  Reading what has been written gives back the items, in
order and number, and under each key the last value that was written with it.  An item may
hold brackets, braces and colons, and it may be empty; only a comma would end it, and a colon
would end a key.  Blanks around items, keys and values make no difference.

The list of one empty item is the only one that cannot be written, since a blank between
brackets is the list without items.
-/

namespace Montage

namespace Text

/-! ## Rows -/

/-- Entries in one row, with a comma between neighbours. -/
def joined (entries : List (List Char)) : List Char :=
  [','].intercalate entries

/-- The text is written with any blanks around it. -/
def IsPadded (text written : List Char) : Prop :=
  ∃ before after, AreBlank before ∧ AreBlank after ∧ written = before ++ (text ++ after)

/-- The text has neither blanks at its ends nor a comma, so that it can be told from what
stands next to it in a row. -/
structure IsItem (text : List Char) : Prop where
  /-- It has no blanks at its ends. -/
  trimmed : trim text = text
  /-- It has no comma. -/
  noComma : ',' ∉ text

section Padding

variable {text written : List Char}

theorem trim_ne_nil_of_mem
    {character : Char}
    (member : character ∈ text)
    (notBlank : isBlank character = false) :
    trim text ≠ [] := by
  intro allBlank
  obtain ⟨front, back, frontBlank, backBlank, whole⟩ := exists_append_trim text
  rw [whole, allBlank, List.nil_append, List.mem_append] at member
  rcases member with inFront | inBack
  · exact not_mem_of_areBlank frontBlank notBlank inFront
  · exact not_mem_of_areBlank backBlank notBlank inBack

theorem isPadded_trim (written : List Char) : IsPadded (trim written) written :=
  exists_append_trim written

theorem IsPadded.trim_eq
    (isPadded : IsPadded text written)
    (isItem : IsItem text) :
    trim written = text := by
  obtain ⟨before, after, beforeBlank, afterBlank, rfl⟩ := isPadded
  rw [trim_pad beforeBlank afterBlank, isItem.trimmed]

theorem IsPadded.not_mem
    (isPadded : IsPadded text written)
    {character : Char}
    (notBlank : isBlank character = false)
    (absent : character ∉ text) :
    character ∉ written := by
  obtain ⟨before, after, beforeBlank, afterBlank, rfl⟩ := isPadded
  have notBefore := not_mem_of_areBlank beforeBlank notBlank
  have notAfter := not_mem_of_areBlank afterBlank notBlank
  simp [notBefore, absent, notAfter]

end Padding

/-- The items of a row are its entries, unless a single entry is blank. -/
theorem items_joined
    {entries : List (List Char)}
    (noComma : ∀ entry ∈ entries, ',' ∉ entry)
    (notBlank : ∀ entry, entries = [entry] → trim entry ≠ []) :
    items (joined entries) = entries.map trim := by
  rw [items_eq]
  match entries with
  | [] => rfl
  | [entry] =>
      have split := List.splitOn_intercalate ',' noComma (List.cons_ne_nil _ _)
      rw [joined, split, List.intercalate_singleton, if_neg (notBlank entry rfl)]
  | first :: second :: rest =>
      have split := List.splitOn_intercalate ',' noComma (List.cons_ne_nil _ _)
      have comma : ',' ∈ joined (first :: second :: rest) := by
        simp [joined, List.intercalate_cons_cons]
      rw [if_neg (trim_ne_nil_of_mem comma (by decide)), joined, split]

end Text

open Text

namespace Element

/-- Blanks around a segment make no difference to its pair. -/
theorem pairOf?_trim (segment : List Char) : pairOf? (trim segment) = pairOf? segment := by
  obtain ⟨front, back, frontBlank, backBlank, whole⟩ := exists_append_trim segment
  have colonlessFront : ':' ∉ front := not_mem_of_areBlank frontBlank (by decide)
  have colonlessBack : ':' ∉ back := not_mem_of_areBlank backBlank (by decide)
  generalize trim segment = trimmed at whole ⊢
  subst whole
  cases found : cut ':' trimmed with
  | none =>
      have colonless := cut_eq_none_iff.mp found
      simp [pairOf?, colonlessFront, colonless, colonlessBack]
  | some sides =>
      obtain ⟨rfl, isKey⟩ := cut_eq_some_iff.mp found
      have isPaddedKey : ':' ∉ front ++ sides.1 := by simp [colonlessFront, isKey]
      have regrouped : front ++ ((sides.1 ++ ':' :: sides.2) ++ back) =
          (front ++ sides.1) ++ ':' :: (sides.2 ++ back) := by simp
      rw [regrouped, pairOf?_append_colon isKey, pairOf?_append_colon isPaddedKey,
        trim_append_left_of_areBlank frontBlank, trim_append_right_of_areBlank backBlank]

end Element

namespace Value

theorem ofText_brackets (body : List Char) :
    ofText ('[' :: (body ++ [']'])) = .list ((items body).map ofPlainText) := by
  simp only [ofText, Property.trim_brackets, within_eq_some_iff.mpr rfl]

theorem ofText_braces (body : List Char) :
    ofText ('{' :: (body ++ ['}'])) = .map (Dict.ofList ((items body).filterMap entry?)) := by
  have noBrackets : within '[' ']' ('{' :: (body ++ ['}'])) = none :=
    within_eq_none_iff.mpr fun other brackets => by simp at brackets
  simp only [ofText, Property.trim_braces, noBrackets, within_eq_some_iff.mpr rfl]

end Value

namespace Property

open Element (lastValue? pairOf? pairOf?_trim pairOf?_append_colon)

/-- An item is written in a row, with any blanks around it. -/
structure IsWrittenItem (text written : List Char) : Prop where
  /-- It can be told from its neighbours. -/
  isItem : IsItem text
  /-- There may be blanks around it. -/
  isPadded : IsPadded text written

/-- A key and a value are written in a row as `key:value`, with any blanks around both. -/
structure IsWrittenEntry
    (pair : List Char × List Char)
    (written : List Char) : Prop where
  /-- The key can be told from its neighbours. -/
  isKey : IsItem pair.1
  /-- The key is not empty. -/
  keyNonempty : pair.1 ≠ []
  /-- The key has no colon. -/
  noColon : ':' ∉ pair.1
  /-- The value can be told from its neighbours. -/
  isValue : IsItem pair.2
  /-- There may be blanks around the key and around the value. -/
  isPadded : ∃ key value, IsPadded pair.1 key ∧ IsPadded pair.2 value ∧
    written = key ++ ':' :: value

/-! ## Reading -/

section Written

variable {pair : List Char × List Char} {written : List Char}

theorem IsWrittenEntry.pairOf?_eq
    (isWritten : IsWrittenEntry pair written) :
    pairOf? written = some pair := by
  obtain ⟨key, value, keyPadded, valuePadded, rfl⟩ := isWritten.isPadded
  have noColon := keyPadded.not_mem (by decide) isWritten.noColon
  rw [pairOf?_append_colon noColon, keyPadded.trim_eq isWritten.isKey,
    valuePadded.trim_eq isWritten.isValue, if_neg isWritten.keyNonempty]

theorem IsWrittenEntry.noComma
    (isWritten : IsWrittenEntry pair written) :
    ',' ∉ written := by
  obtain ⟨key, value, keyPadded, valuePadded, rfl⟩ := isWritten.isPadded
  have notInKey := keyPadded.not_mem (by decide) isWritten.isKey.noComma
  have notInValue := valuePadded.not_mem (by decide) isWritten.isValue.noComma
  simp [notInKey, notInValue]

theorem IsWrittenEntry.trim_ne_nil
    (isWritten : IsWrittenEntry pair written) :
    trim written ≠ [] := by
  obtain ⟨key, value, -, -, rfl⟩ := isWritten.isPadded
  have colon : ':' ∈ key ++ ':' :: value := by simp
  exact trim_ne_nil_of_mem colon (by decide)

end Written

section Rows

variable {rows : List (List Char)}

/-- The items of a written list are the ones that were written. -/
theorem items_of_areWritten
    {texts : List (List Char)}
    (areWritten : List.Forall₂ IsWrittenItem texts rows)
    (notLoneEmpty : texts ≠ [[]]) :
    items (joined rows) = texts := by
  have trimmed : texts = rows.map trim := by
    rw [← List.forall₂_eq_eq_eq, List.forall₂_map_right_iff]
    exact areWritten.imp fun _ _ written => (written.isPadded.trim_eq written.isItem).symm
  rw [trimmed]
  refine items_joined (fun row member => ?_) (fun row isAlone blank => ?_)
  · obtain ⟨text, -, written⟩ := exists_mem_of_forall₂ areWritten member
    exact written.isPadded.not_mem (by decide) written.isItem.noComma
  · rw [trimmed, isAlone, List.map_singleton, blank] at notLoneEmpty
    exact notLoneEmpty rfl

/-- The pairs of a written dictionary are the ones that were written. -/
theorem pairsIn_of_areWritten
    {pairs : List (List Char × List Char)}
    (areWritten : List.Forall₂ IsWrittenEntry pairs rows) :
    Value.pairsIn (joined rows) = pairs := by
  have paired : pairs.map some = rows.map pairOf? := by
    rw [← List.forall₂_eq_eq_eq, List.forall₂_map_right_iff, List.forall₂_map_left_iff]
    exact areWritten.imp fun _ _ written => written.pairOf?_eq.symm
  have isItems : items (joined rows) = rows.map trim := by
    refine items_joined (fun row member => ?_) (fun row isAlone => ?_)
    · obtain ⟨pair, -, written⟩ := exists_mem_of_forall₂ areWritten member
      exact written.noComma
    · obtain ⟨pair, -, written⟩ :=
        exists_mem_of_forall₂ areWritten (isAlone ▸ List.mem_singleton_self row)
      exact written.trim_ne_nil
  have untrimmed : pairOf? ∘ trim = pairOf? := funext pairOf?_trim
  calc Value.pairsIn (joined rows)
      = rows.filterMap pairOf? := by
        rw [Value.pairsIn, ← items_eq_entriesOf, isItems, List.filterMap_map, untrimmed]
    _ = (pairs.map some).filterMap id := by
        rw [paired, List.filterMap_map, Function.id_comp]
    _ = pairs := by simp

/-- What starts with a bracket or a brace is no animation. -/
theorem not_mark_isPrefix_cons
    {first : Char}
    (different : first ≠ '@')
    (rest : List Char) :
    ¬ mark <+: first :: rest := by
  rintro ⟨afterMark, whole⟩
  have starts : mark.head? = some '@' := by decide
  have same := congrArg List.head? whole
  rw [List.head?_append, starts, List.head?_cons, Option.some_or, Option.some.injEq] at same
  exact different same.symm

theorem read_brackets
    (key : String)
    (body : List Char) :
    Property.read key ('[' :: (body ++ [']'])) =
      .ok (.constant (.list ((items body).map Value.ofPlainText))) := by
  have unmarked : ¬ mark <+: trim ('[' :: (body ++ [']'])) := by
    rw [trim_brackets]
    exact not_mark_isPrefix_cons (by decide) _
  rw [read_of_not_marked unmarked, Value.ofText_brackets]

theorem read_braces
    (key : String)
    (body : List Char) :
    Property.read key ('{' :: (body ++ ['}'])) =
      .ok (.constant (.map (Dict.ofList ((items body).filterMap Value.entry?)))) := by
  have unmarked : ¬ mark <+: trim ('{' :: (body ++ ['}'])) := by
    rw [trim_braces]
    exact not_mark_isPrefix_cons (by decide) _
  rw [read_of_not_marked unmarked, Value.ofText_braces]

/-- Reading the items of a list with commas between them and brackets around them gives the list
of what the items plainly denote; only the list of one empty item is different.  Reading entries
`key:value` with commas between them and braces around them gives the dictionary which has,
under each key, what the last value with this key plainly denotes.  There may be any blanks
around the items, the keys and the values. -/
theorem read_joined
    (key : String)
    (rows : List (List Char)) :
    (∀ texts, List.Forall₂ IsWrittenItem texts rows → texts ≠ [[]] →
      Property.read key ('[' :: (joined rows ++ [']'])) =
        .ok (.constant (.list (texts.map Value.ofPlainText)))) ∧
    (∀ pairs, List.Forall₂ IsWrittenEntry pairs rows →
      ∃ entries : Dict Value, entries.Ordered ∧
        (∀ name, entries.find? name = (lastValue? name pairs).map Value.ofPlainText) ∧
        Property.read key ('{' :: (joined rows ++ ['}'])) =
          .ok (.constant (.map entries))) := by
  refine ⟨fun texts areWritten notLoneEmpty => ?_, fun pairs areWritten => ?_⟩
  · rw [read_brackets, items_of_areWritten areWritten notLoneEmpty]
  · refine ⟨_, Dict.ordered_ofList _, fun name => ?_, read_braces key (joined rows)⟩
    rw [Value.find?_ofList_eq_map_lastValue?, pairsIn_of_areWritten areWritten]

end Rows

/-- Items that look like the ends of lists and dictionaries, the last one empty, with blanks. -/
def bracketedRows : List (List Char) :=
  ["]".toList, " {a:1}".toList, "-1.5\t".toList, " ".toList]

/-- A key that is written twice, a key that is a bracket, and values with a colon, with a
bracket and with nothing. -/
def bracedRows : List (List Char) :=
  ["b:true".toList, " a : [x:y".toList, "b: 7 ".toList, "]:".toList]

theorem areItems_bracketedRows :
    List.Forall₂ IsWrittenItem ["]".toList, "{a:1}".toList, "-1.5".toList, []] bracketedRows :=
  .cons ⟨⟨by decide, by decide⟩, isPadded_trim _⟩ <|
    .cons ⟨⟨by decide, by decide⟩, isPadded_trim _⟩ <|
      .cons ⟨⟨by decide, by decide⟩, isPadded_trim _⟩ <|
        .cons ⟨⟨by decide, by decide⟩, isPadded_trim _⟩ .nil

theorem areEntries_bracedRows :
    List.Forall₂ IsWrittenEntry
      [("b".toList, "true".toList), ("a".toList, "[x:y".toList), ("b".toList, "7".toList),
        ("]".toList, [])] bracedRows :=
  .cons ⟨⟨by decide, by decide⟩, by decide, by decide, ⟨by decide, by decide⟩,
      "b".toList, "true".toList, isPadded_trim _, isPadded_trim _, rfl⟩ <|
    .cons ⟨⟨by decide, by decide⟩, by decide, by decide, ⟨by decide, by decide⟩,
        " a ".toList, " [x:y".toList, isPadded_trim _, isPadded_trim _, rfl⟩ <|
      .cons ⟨⟨by decide, by decide⟩, by decide, by decide, ⟨by decide, by decide⟩,
          "b".toList, " 7 ".toList, isPadded_trim _, isPadded_trim _, rfl⟩ <|
        .cons ⟨⟨by decide, by decide⟩, by decide, by decide, ⟨by decide, by decide⟩,
            "]".toList, [], isPadded_trim _, isPadded_trim _, rfl⟩ .nil

theorem read_joined_bracketed_and_braced :
    List.Forall₂ IsWrittenItem
      ["]".toList, "{a:1}".toList, "-1.5".toList, []] bracketedRows ∧
    List.Forall₂ IsWrittenEntry
      [("b".toList, "true".toList), ("a".toList, "[x:y".toList), ("b".toList, "7".toList),
        ("]".toList, [])] bracedRows ∧
    Property.read "list" "[], {a:1},-1.5\t, ]".toList =
      .ok (.constant (.list [.text "]", .text "{a:1}", .number (-1.5), .text ""])) ∧
    ∃ entries : Dict Value, entries.Ordered ∧
      entries.find? "a" = some (.text "[x:y") ∧ entries.find? "b" = some (.number 7) ∧
      entries.find? "]" = some (.text "") ∧ entries.find? "c" = none ∧
      Property.read "map" "{b:true, a : [x:y,b: 7 ,]:}".toList =
        .ok (.constant (.map entries)) := by
  obtain ⟨lists, -⟩ := read_joined "list" bracketedRows
  obtain ⟨-, dictionaries⟩ := read_joined "map" bracedRows
  obtain ⟨entries, ordered, found, read⟩ := dictionaries _ areEntries_bracedRows
  refine ⟨areItems_bracketedRows, areEntries_bracedRows,
    lists _ areItems_bracketedRows (by decide), entries, ordered, ?_, ?_, ?_, ?_, read⟩
  · exact (found "a").trans rfl
  · exact (found "b").trans rfl
  · exact (found "]").trans rfl
  · exact (found "c").trans rfl

/-- Nothing between brackets is no item, and a comma stands between two. -/
example :
    Value.ofText "[ ]".toList = .list [] ∧
      Value.ofText "[,]".toList = .list [.text "", .text ""] := by
  constructor <;> rfl

end Property
end Montage
