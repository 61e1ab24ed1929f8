import Montage.Proofs.Element.Batches
import Montage.Proofs.Text.Splitting

/-!
# What a description says

A description is a name and a row of pairs (`pairsOf`), and what it says can be told from
the pairs without going through them one by one: the last pair with a key decides about
that key, and the first pair with a value that is refused decides about the fault.  Reading
a description comes to exactly that (`Describes`).
-/

namespace Montage
namespace Element

open Text

/-! ## Pairs -/

/-- The name of a description: what stands before the first semicolon, trimmed. -/
def nameOf (source : List Char) : List Char :=
  trim ((source.splitOn ';').headD [])

/-- The pair of a segment: what stands before its first colon and what stands after it,
both trimmed.  There is none without a colon, and none for a blank key. -/
def pairOf? (segment : List Char) : Option (List Char × List Char) :=
  let key := trim (segment.takeWhile (· ≠ ':'))
  if ':' ∈ segment ∧ key ≠ [] then
    some (key, trim (segment.dropWhile (· ≠ ':')).tail)
  else
    none

/-- The pairs of a description, in order. -/
def pairsOf (source : List Char) : List (List Char × List Char) :=
  (source.splitOn ';').tail.filterMap pairOf?

/-- The value of the last pair with a key. -/
def lastValue?
    (key : String)
    (pairs : List (List Char × List Char)) : Option (List Char) :=
  (pairs.filter fun pair => String.ofList pair.1 = key).getLast?.map Prod.snd

/-- The keys whose values are taken verbatim. -/
def reservedKeys : List String :=
  ["id", "parent", "text"]

/-- Why the value of a pair is refused; the values of reserved keys never are. -/
def refusal? (pair : List Char × List Char) : Option Fault :=
  let key := String.ofList pair.1
  if key ∈ reservedKeys then
    none
  else
    match Property.read key pair.2 with
    | .error fault => some fault
    | .ok _ => none

/-- Why the first refused value is refused. -/
def firstRefusal? (pairs : List (List Char × List Char)) : Option Fault :=
  pairs.findSome? refusal?

/-- The parent that pairs name: the root when they name none, or the word for none. -/
def parentNamed (pairs : List (List Char × List Char)) : String :=
  match lastValue? "parent" pairs with
  | none => rootId
  | some value =>
      if String.ofList value = nullWord then rootId else String.ofList value

/-- The property that pairs give under a key: a text is kept as it is, the identifier and
the parent are no properties, and every other value is read. -/
def propertyUnder?
    (pairs : List (List Char × List Char))
    (key : String) : Option Property :=
  (lastValue? key pairs).bind fun value =>
    if key = "text" then some (.constant (.text (String.ofList value)))
    else if key ∈ reservedKeys then none
    else (Property.read key value).toOption

/-- The element is the one that a name and pairs speak of. -/
structure IsGathered
    (name : List Char)
    (pairs : List (List Char × List Char))
    (element : Element) : Prop where
  /-- It has the name. -/
  name_eq : element.name = String.ofList name
  /-- The last identifier is its identifier. -/
  id_eq : (lastValue? "id" pairs).map String.ofList = some element.id
  /-- The last parent is its parent. -/
  parent_eq : element.parent = some (parentNamed pairs)
  /-- The last text is its text. -/
  text_eq : element.text = (lastValue? "text" pairs).map String.ofList
  /-- Its properties are in key order. -/
  ordered : element.props.Ordered
  /-- Under each key it has the property that the pairs give there. -/
  find?_eq : ∀ key, element.props.find? key = propertyUnder? pairs key

/-- What reading a description comes to. -/
inductive Describes (source : List Char) : Except Fault Element → Prop
  /-- The name is blank, whatever follows it. -/
  | missingName :
      nameOf source = [] →
      Describes source (.error .missingName)
  /-- A value is refused; the first one counts. -/
  | refused (fault : Fault) :
      nameOf source ≠ [] →
      firstRefusal? (pairsOf source) = some fault →
      Describes source (.error fault)
  /-- No value is refused, but there is no identifier. -/
  | missingId :
      nameOf source ≠ [] →
      firstRefusal? (pairsOf source) = none →
      lastValue? "id" (pairsOf source) = none →
      Describes source (.error (.missingId (String.ofList (nameOf source))))
  /-- An element is described. -/
  | element (element : Element) :
      nameOf source ≠ [] →
      firstRefusal? (pairsOf source) = none →
      IsGathered (nameOf source) (pairsOf source) element →
      Describes source (.ok element)

/-! ## One more pair -/

section OneMore

variable {pairs : List (List Char × List Char)} {pair : List Char × List Char}

theorem lastValue?_concat (key : String) :
    lastValue? key (pairs ++ [pair]) =
      if String.ofList pair.1 = key then some pair.2 else lastValue? key pairs := by
  by_cases same : String.ofList pair.1 = key <;> simp [lastValue?, same]

theorem lastValue?_concat_of_ne
    {key : String}
    (different : String.ofList pair.1 ≠ key) :
    lastValue? key (pairs ++ [pair]) = lastValue? key pairs := by
  rw [lastValue?_concat, if_neg different]

theorem firstRefusal?_concat :
    firstRefusal? (pairs ++ [pair]) = (firstRefusal? pairs).or (refusal? pair) := by
  cases refused : refusal? pair <;> simp [firstRefusal?, List.findSome?_append, refused]

end OneMore

/-! ## Drafts of pairs -/

theorem pairOf?_eq_some_iff
    {segment : List Char}
    {pair : List Char × List Char} :
    pairOf? segment = some pair ↔
      ':' ∈ segment ∧ trim (segment.takeWhile (· ≠ ':')) ≠ [] ∧
        pair =
          (trim (segment.takeWhile (· ≠ ':')), trim (segment.dropWhile (· ≠ ':')).tail) := by
  simp only [pairOf?, Option.ite_none_right_eq_some, Option.some.injEq, and_assoc,
    @eq_comm _ pair]

theorem segment?_eq_pairOf? (segment : List Char) : segment? segment = pairOf? segment := by
  unfold segment? pairOf?
  cases found : cut ':' segment with
  | none =>
      have absent := cut_eq_none_iff.mp found
      simp [absent]
  | some sides =>
      obtain ⟨before, after⟩ := sides
      obtain ⟨rfl, absent⟩ := cut_eq_some_iff.mp found
      have noColon : ∀ character ∈ before, decide (character ≠ ':') = true := by
        intro character member
        simpa using ne_of_mem_of_not_mem member absent
      have key : (before ++ ':' :: after).takeWhile (· ≠ ':') = before := by
        rw [List.takeWhile_append_of_pos noColon]
        simp
      have value : ((before ++ ':' :: after).dropWhile (· ≠ ':')).tail = after := by
        rw [List.dropWhile_append_of_pos noColon]
        simp
      simp only [key, value]
      cases trim before with
      | nil => simp
      | cons first rest => simp

theorem ofDescription_eq (source : List Char) :
    ofDescription source =
      if nameOf source = [] then .error .missingName
      else
        (pairsOf source).foldlM Draft.add {} >>= fun draft =>
          draft.finish (String.ofList (nameOf source)) := by
  have pairs : segment? = pairOf? := funext segment?_eq_pairOf?
  rw [ofDescription, pieces_eq_splitOn, pairs, nameOf, pairsOf]
  cases found : source.splitOn ';' with
  | nil => rfl
  | cons first segments => simp [List.isEmpty_iff]

/-- A segment is taken into account unless its value is refused. -/
theorem exists_add_of_refusal?_eq_none
    {pair : List Char × List Char}
    (accepted : refusal? pair = none)
    (draft : Draft) :
    ∃ next, draft.add pair = .ok next := by
  unfold Draft.add
  simp only
  split
  · exact ⟨_, rfl⟩
  · next notId =>
      split
      · exact ⟨_, rfl⟩
      · next notParent =>
          split
          · exact ⟨_, rfl⟩
          · next notText =>
              cases read : Property.read (String.ofList pair.1) pair.2 with
              | ok property => exact ⟨_, rfl⟩
              | error fault =>
                  simp [refusal?, reservedKeys, notId, notParent, notText, read] at accepted

theorem add_of_refusal?_eq_some
    {pair : List Char × List Char}
    {fault : Fault}
    (refused : refusal? pair = some fault)
    (draft : Draft) :
    draft.add pair = .error fault := by
  unfold refusal? at refused
  simp only at refused
  split at refused
  · cases refused
  · next notReserved =>
      simp only [reservedKeys, List.mem_cons, List.not_mem_nil, or_false, not_or]
        at notReserved
      split at refused
      · next read =>
          cases refused
          simp [Draft.add, notReserved, read, bind, Except.bind]
      · cases refused

namespace Draft

/-- The draft holds what pairs say. -/
structure Gathers
    (pairs : List (List Char × List Char))
    (draft : Draft) : Prop where
  /-- The last identifier. -/
  id_eq : draft.id = (lastValue? "id" pairs).map String.ofList
  /-- The last parent. -/
  parent_eq : draft.parent = (lastValue? "parent" pairs).map (parentOf <| String.ofList ·)
  /-- The last text. -/
  text_eq : draft.text = (lastValue? "text" pairs).map String.ofList
  /-- The properties are in key order. -/
  ordered : draft.props.Ordered
  /-- Under each key there is the property that the pairs give there. -/
  find?_eq : ∀ key, draft.props.find? key = propertyUnder? pairs key

theorem gathers_nil : Gathers [] {} where
  id_eq := rfl
  parent_eq := rfl
  text_eq := rfl
  ordered := Dict.ordered_nil
  find?_eq _ := rfl

section Add

variable {pairs : List (List Char × List Char)} {key value : List Char}

theorem propertyUnder?_concat_of_ne
    {other : String}
    (different : String.ofList key ≠ other) :
    propertyUnder? (pairs ++ [(key, value)]) other = propertyUnder? pairs other := by
  rw [propertyUnder?, lastValue?_concat_of_ne different, propertyUnder?]

/-- A pair that gives no property leaves the properties as they were. -/
theorem propertyUnder?_concat_of_mem
    (reserved : String.ofList key ∈ ["id", "parent"])
    (other : String) :
    propertyUnder? (pairs ++ [(key, value)]) other = propertyUnder? pairs other := by
  by_cases same : String.ofList key = other
  · subst same
    have isReserved : String.ofList key ∈ reservedKeys := by
      simp only [List.mem_cons, List.not_mem_nil, or_false, reservedKeys] at reserved ⊢
      tauto
    have notText : String.ofList key ≠ "text" := by
      intro isText
      simp [isText] at reserved
    simp [propertyUnder?, isReserved, notText]
  · exact propertyUnder?_concat_of_ne same

/-- A pair that gives a property decides about its key. -/
theorem find?_insert_eq_propertyUnder?
    {props : Dict Property}
    {property : Property}
    (found : ∀ other, props.find? other = propertyUnder? pairs other)
    (given : propertyUnder? (pairs ++ [(key, value)]) (String.ofList key) = some property)
    (other : String) :
    (props.insert (String.ofList key) property).find? other =
      propertyUnder? (pairs ++ [(key, value)]) other := by
  by_cases same : String.ofList key = other
  · subst same
    rw [Dict.find?_insert_self, given]
  · rw [Dict.find?_insert_of_ne (Ne.symm same), found, propertyUnder?_concat_of_ne same]

/-- One more segment, one more pair. -/
theorem Gathers.add
    {draft next : Draft}
    (gathers : Gathers pairs draft)
    (added : draft.add (key, value) = .ok next) :
    Gathers (pairs ++ [(key, value)]) next := by
  obtain ⟨isId, rfl⟩ | ⟨isParent, rfl⟩ | ⟨isText, rfl⟩ | ⟨other, property, read, rfl⟩ :=
    cases_of_add added
  · exact
      { id_eq := by simp [lastValue?_concat, isId]
        parent_eq := by simp [lastValue?_concat, isId, gathers.parent_eq]
        text_eq := by simp [lastValue?_concat, isId, gathers.text_eq]
        ordered := gathers.ordered
        find?_eq := fun sought => by
          rw [propertyUnder?_concat_of_mem (by simp [isId]), ← gathers.find?_eq] }
  · exact
      { id_eq := by simp [lastValue?_concat, isParent, gathers.id_eq]
        parent_eq := by simp [lastValue?_concat, isParent]
        text_eq := by simp [lastValue?_concat, isParent, gathers.text_eq]
        ordered := gathers.ordered
        find?_eq := fun sought => by
          rw [propertyUnder?_concat_of_mem (by simp [isParent]), ← gathers.find?_eq] }
  · exact
      { id_eq := by simp [lastValue?_concat, isText, gathers.id_eq]
        parent_eq := by simp [lastValue?_concat, isText, gathers.parent_eq]
        text_eq := by simp [lastValue?_concat, isText]
        ordered := Dict.ordered_insert _ _ gathers.ordered
        find?_eq := by
          rw [← isText]
          apply find?_insert_eq_propertyUnder? gathers.find?_eq
          rw [propertyUnder?, lastValue?_concat, if_pos rfl]
          simp [isText] }
  · simp only [List.mem_cons, List.not_mem_nil, or_false, not_or] at other
    exact
      { id_eq := by simp [lastValue?_concat, other, gathers.id_eq]
        parent_eq := by simp [lastValue?_concat, other, gathers.parent_eq]
        text_eq := by simp [lastValue?_concat, other, gathers.text_eq]
        ordered := Dict.ordered_insert _ _ gathers.ordered
        find?_eq := by
          apply find?_insert_eq_propertyUnder? gathers.find?_eq
          rw [propertyUnder?, lastValue?_concat, if_pos rfl]
          simp [reservedKeys, other, read, Except.toOption] }

end Add

/-- Going through pairs stops at the first refused value, and otherwise gathers what they
say. -/
theorem foldlM_add (pairs : List (List Char × List Char)) :
    (∀ fault, firstRefusal? pairs = some fault → pairs.foldlM add {} = .error fault) ∧
      (firstRefusal? pairs = none → ∃ draft, pairs.foldlM add {} = .ok draft ∧
        Gathers pairs draft) := by
  induction pairs using List.reverseRecOn with
  | nil =>
      refine ⟨?_, fun _ => ⟨{}, rfl, gathers_nil⟩⟩
      rintro fault ⟨⟩
  | append_singleton pairs pair inductionHypothesis =>
      obtain ⟨refusedEarlier, accepted⟩ := inductionHypothesis
      rw [List.foldlM_append]
      cases earlier : firstRefusal? pairs with
      | some fault =>
          rw [refusedEarlier fault earlier, firstRefusal?_concat, earlier]
          refine ⟨?_, ?_⟩
          · rintro _ ⟨⟩
            rfl
          · rintro ⟨⟩
      | none =>
          obtain ⟨draft, folded, gathers⟩ := accepted earlier
          rw [folded, firstRefusal?_concat, earlier, Option.none_or]
          constructor
          · intro fault refused
            change [pair].foldlM add draft = .error fault
            rw [List.foldlM_cons, add_of_refusal?_eq_some refused]
            rfl
          · intro notRefused
            obtain ⟨next, added⟩ := exists_add_of_refusal?_eq_none notRefused draft
            refine ⟨next, ?_, gathers.add added⟩
            change [pair].foldlM add draft = .ok next
            rw [List.foldlM_cons, added]
            rfl

/-- A draft that gathers pairs is finished as the element that they speak of. -/
theorem Gathers.isGathered
    {pairs : List (List Char × List Char)}
    {draft : Draft}
    (gathers : Gathers pairs draft)
    {id : String}
    (identified : draft.id = some id)
    (name : List Char) :
    IsGathered name pairs
      { id := id
        name := String.ofList name
        parent := some (draft.parent.getD rootId)
        props := draft.props
        text := draft.text } where
  name_eq := rfl
  id_eq := gathers.id_eq.symm.trans identified
  parent_eq := by
    rw [gathers.parent_eq, parentNamed]
    cases lastValue? "parent" pairs <;> rfl
  text_eq := gathers.text_eq
  ordered := gathers.ordered
  find?_eq := gathers.find?_eq

end Draft

/-! ## The outcome -/

/-- A name and pairs speak of one element at most. -/
theorem IsGathered.unique
    {name : List Char}
    {pairs : List (List Char × List Char)}
    {first second : Element}
    (isFirst : IsGathered name pairs first)
    (isSecond : IsGathered name pairs second) :
    first = second := by
  have id : first.id = second.id :=
    Option.some.inj (isFirst.id_eq.symm.trans isSecond.id_eq)
  have props : first.props = second.props :=
    Dict.eq_of_find?_eq isFirst.ordered isSecond.ordered fun key =>
      (isFirst.find?_eq key).trans (isSecond.find?_eq key).symm
  have name := isFirst.name_eq.trans isSecond.name_eq.symm
  have parent := isFirst.parent_eq.trans isSecond.parent_eq.symm
  have text := isFirst.text_eq.trans isSecond.text_eq.symm
  cases first
  cases second
  simp_all

/-- A description has one outcome at most. -/
theorem Describes.unique
    {source : List Char}
    {first second : Except Fault Element}
    (isFirst : Describes source first)
    (isSecond : Describes source second) :
    first = second := by
  cases isFirst with
  | missingName unnamed =>
      cases isSecond with
      | missingName => rfl
      | refused _ named => exact absurd unnamed named
      | missingId named => exact absurd unnamed named
      | element _ named => exact absurd unnamed named
  | refused fault named refused =>
      cases isSecond with
      | missingName unnamed => exact absurd unnamed named
      | refused other _ otherRefused => rw [Option.some.inj (refused.symm.trans otherRefused)]
      | missingId _ accepted => cases refused.symm.trans accepted
      | element _ _ accepted => cases refused.symm.trans accepted
  | missingId named accepted unidentified =>
      cases isSecond with
      | missingName unnamed => exact absurd unnamed named
      | refused _ _ refused => cases refused.symm.trans accepted
      | missingId => rfl
      | element _ _ _ gathered =>
          have identified := gathered.id_eq
          rw [unidentified] at identified
          cases identified
  | element element named accepted gathered =>
      cases isSecond with
      | missingName unnamed => exact absurd unnamed named
      | refused _ _ refused => cases refused.symm.trans accepted
      | missingId _ _ unidentified =>
          have identified := gathered.id_eq
          rw [unidentified] at identified
          cases identified
      | element other _ _ otherGathered => rw [gathered.unique otherGathered]

theorem describes_ofDescription (source : List Char) :
    Describes source (ofDescription source) := by
  rw [ofDescription_eq]
  split
  · next unnamed => exact .missingName unnamed
  · next named =>
      obtain ⟨ofRefused, ofAccepted⟩ := Draft.foldlM_add (pairsOf source)
      cases refused : firstRefusal? (pairsOf source) with
      | some fault =>
          rw [ofRefused fault refused]
          exact .refused fault named refused
      | none =>
          obtain ⟨draft, folded, gathers⟩ := ofAccepted refused
          rw [folded]
          change Describes source (draft.finish (String.ofList (nameOf source)))
          unfold Draft.finish
          cases identified : draft.id with
          | none =>
              have unidentified := gathers.id_eq.symm.trans identified
              exact .missingId named refused (Option.map_eq_none_iff.mp unidentified)
          | some id => exact .element _ named refused (gathers.isGathered identified _)

/-- Reading a description comes to what its name and its pairs say, at whatever position of a
batch it stands, and an error carries the position and the description. -/
theorem read_eq_iff_describes
    (index : Nat)
    (source : String)
    (outcome : Except Error Element) :
    Element.read index source = outcome ↔
      ∃ told, Describes source.toList told ∧
        outcome = told.mapError (Error.element index source) := by
  have described := describes_ofDescription source.toList
  have same : Element.read index source =
      (ofDescription source.toList).mapError (Error.element index source) := by
    unfold Element.read
    cases ofDescription source.toList <;> rfl
  rw [same]
  constructor
  · rintro rfl
    exact ⟨_, described, rfl⟩
  · rintro ⟨told, tells, rfl⟩
    rw [tells.unique described]

/-- A property that is refused is told before the id that is missing. -/
example : Element.read 0 "div;x:@animate;id" =
    .error (.element 0 "div;x:@animate;id" (.malformedAnimation "x")) := by
  rfl

end Element
end Montage
