import Mathlib.Logic.Relation
import Montage.Proofs.Element.Gathering

/-!
# Edits that change nothing

Two descriptions agree when they have the same name and, under each key, the same values in
the same order (`Agree`).  Descriptions that agree describe one element: of the order of the
segments it matters only how those with one key follow each other.  Padding a name, a key or
a value with blanks, putting in a segment that says nothing and exchanging neighbours with
different keys are edits between descriptions that agree, however many of them are made.
-/

namespace Montage
namespace Element

open Text

/-! ## Edits -/

/-- The key of a segment: what stands before its first colon, trimmed. -/
def keyOf (segment : List Char) : List Char :=
  trim (segment.takeWhile (· ≠ ':'))

/-- The segment says nothing. -/
inductive IsIdle (segment : List Char) : Prop where
  /-- It is blank. -/
  | blank (areBlank : AreBlank segment)
  /-- It has no colon. -/
  | noColon (absent : ':' ∉ segment)
  /-- It is blank in front of its first colon. -/
  | blankKey (areBlank : AreBlank (segment.takeWhile (· ≠ ':')))

/-- One edit of the segments of a description, the first of which is its name. -/
inductive SegmentEdit : List (List Char) → List (List Char) → Prop where
  /-- A segment that says nothing is put in somewhere behind the name. -/
  | insert
      {name segment : List Char}
      {front back : List (List Char)}
      (idle : IsIdle segment) :
      SegmentEdit (name :: (front ++ back)) (name :: (front ++ segment :: back))
  /-- Blanks are put around the name. -/
  | padName
      {name before after : List Char}
      {segments : List (List Char)}
      (beforeBlank : AreBlank before)
      (afterBlank : AreBlank after) :
      SegmentEdit (name :: segments) ((before ++ (name ++ after)) :: segments)
  /-- Blanks are put around a key. -/
  | padKey
      {name key value before after : List Char}
      {front back : List (List Char)}
      (isKey : ':' ∉ key)
      (beforeBlank : AreBlank before)
      (afterBlank : AreBlank after) :
      SegmentEdit (name :: (front ++ (key ++ ':' :: value) :: back))
        (name :: (front ++ (before ++ (key ++ after) ++ ':' :: value) :: back))
  /-- Blanks are put around a value. -/
  | padValue
      {name key value before after : List Char}
      {front back : List (List Char)}
      (isKey : ':' ∉ key)
      (beforeBlank : AreBlank before)
      (afterBlank : AreBlank after) :
      SegmentEdit (name :: (front ++ (key ++ ':' :: value) :: back))
        (name :: (front ++ (key ++ ':' :: (before ++ (value ++ after))) :: back))
  /-- Neighbours are exchanged, unless they have the same key. -/
  | swap
      {name left right : List Char}
      {front back : List (List Char)}
      (different : ':' ∈ left → ':' ∈ right → keyOf left ≠ keyOf right) :
      SegmentEdit (name :: (front ++ left :: right :: back))
        (name :: (front ++ right :: left :: back))

/-- One description is made from another one by one edit of its segments. -/
def IsEdit (source edited : List Char) : Prop :=
  SegmentEdit (source.splitOn ';') (edited.splitOn ';')

/-! ## Agreement -/

/-- The values under a key, in order. -/
def valuesUnder
    (key : String)
    (pairs : List (List Char × List Char)) : List (List Char) :=
  (pairs.filter fun pair => String.ofList pair.1 = key).map Prod.snd

/-- Two descriptions have the same name and, under each key, the same values in the same
order. -/
structure Agree (first second : List Char) : Prop where
  /-- The names are the same. -/
  name_eq : nameOf first = nameOf second
  /-- So are the values under each key. -/
  values_eq : ∀ key, valuesUnder key (pairsOf first) = valuesUnder key (pairsOf second)

namespace Agree

theorem refl (source : List Char) : Agree source source :=
  ⟨rfl, fun _ => rfl⟩

theorem symm
    {first second : List Char}
    (agree : Agree first second) :
    Agree second first :=
  ⟨agree.name_eq.symm, fun key => (agree.values_eq key).symm⟩

theorem trans
    {first second third : List Char}
    (agree : Agree first second)
    (further : Agree second third) :
    Agree first third :=
  ⟨agree.name_eq.trans further.name_eq,
    fun key => (agree.values_eq key).trans (further.values_eq key)⟩

end Agree

/-! ## What the values under the keys determine -/

section Values

variable {left right : List (List Char × List Char)}

theorem lastValue?_eq_getLast?
    (key : String)
    (pairs : List (List Char × List Char)) :
    lastValue? key pairs = (valuesUnder key pairs).getLast? := by
  rw [lastValue?, valuesUnder, List.getLast?_map]

theorem mem_valuesUnder_iff
    {key value : List Char}
    {pairs : List (List Char × List Char)} :
    value ∈ valuesUnder (String.ofList key) pairs ↔ (key, value) ∈ pairs := by
  simp [valuesUnder, String.ofList_inj]

/-- Whether a value is refused is a matter of the pairs, whatever their order. -/
theorem firstRefusal?_eq_none_of_values_eq
    (same : ∀ key, valuesUnder key left = valuesUnder key right)
    (accepted : firstRefusal? left = none) :
    firstRefusal? right = none := by
  rw [firstRefusal?, List.findSome?_eq_none_iff] at accepted ⊢
  rintro ⟨key, value⟩ member
  rw [← mem_valuesUnder_iff, ← same, mem_valuesUnder_iff] at member
  exact accepted _ member

/-- What an element is told from is the last value under each key. -/
theorem IsGathered.of_values_eq
    (same : ∀ key, valuesUnder key left = valuesUnder key right)
    {name : List Char}
    {element : Element}
    (gathered : IsGathered name left element) :
    IsGathered name right element := by
  have sameLast : ∀ key, lastValue? key left = lastValue? key right := fun key => by
    rw [lastValue?_eq_getLast?, lastValue?_eq_getLast?, same]
  exact
    { name_eq := gathered.name_eq
      id_eq := by rw [← sameLast, gathered.id_eq]
      parent_eq := by rw [gathered.parent_eq, parentNamed, parentNamed, sameLast]
      text_eq := by rw [← sameLast, gathered.text_eq]
      ordered := gathered.ordered
      find?_eq := fun key => by
        rw [gathered.find?_eq, propertyUnder?, propertyUnder?, sameLast] }

end Values

theorem ofDescription_eq_ok_iff
    {source : List Char}
    {element : Element} :
    ofDescription source = .ok element ↔
      nameOf source ≠ [] ∧ firstRefusal? (pairsOf source) = none ∧
        IsGathered (nameOf source) (pairsOf source) element := by
  have described := describes_ofDescription source
  constructor
  · intro read
    rw [read] at described
    cases described with
    | element _ named accepted gathered => exact ⟨named, accepted, gathered⟩
  · rintro ⟨named, accepted, gathered⟩
    exact described.unique (.element element named accepted gathered)

/-- Of two descriptions that agree the second describes the element of the first. -/
theorem ofDescription_of_agree
    {first second : List Char}
    (agree : Agree first second)
    {element : Element}
    (read : ofDescription first = .ok element) :
    ofDescription second = .ok element := by
  obtain ⟨named, accepted, gathered⟩ := ofDescription_eq_ok_iff.mp read
  rw [agree.name_eq] at named gathered
  exact ofDescription_eq_ok_iff.mpr
    ⟨named, firstRefusal?_eq_none_of_values_eq agree.values_eq accepted,
      gathered.of_values_eq agree.values_eq⟩

/-! ## Edits keep agreement -/

/-- The pair of a segment with a colon. -/
theorem pairOf?_append_colon
    {key : List Char}
    (isKey : ':' ∉ key)
    (value : List Char) :
    pairOf? (key ++ ':' :: value) =
      if trim key = [] then none else some (trim key, trim value) := by
  have noColon : ∀ character ∈ key, decide (character ≠ ':') = true := by
    intro character member
    simpa using ne_of_mem_of_not_mem member isKey
  simp only [pairOf?, List.takeWhile_append_of_pos noColon,
    List.dropWhile_append_of_pos noColon]
  by_cases blankKey : trim key = [] <;> simp [blankKey]

theorem keyOf_of_pairOf?
    {segment : List Char}
    {pair : List Char × List Char}
    (found : pairOf? segment = some pair) :
    ':' ∈ segment ∧ pair.1 = keyOf segment := by
  obtain ⟨colon, -, rfl⟩ := pairOf?_eq_some_iff.mp found
  exact ⟨colon, rfl⟩

theorem IsIdle.pairOf?_eq_none
    {segment : List Char}
    (idle : IsIdle segment) :
    pairOf? segment = none := by
  cases idle with
  | blank areBlank =>
      have absent : ':' ∉ segment := not_mem_of_areBlank areBlank (by decide)
      simp [pairOf?, absent]
  | noColon absent => simp [pairOf?, absent]
  | blankKey areBlank =>
      have noKey := trim_eq_nil_of_areBlank areBlank
      simp only [pairOf?, noKey, ne_eq, not_true_eq_false, and_false, if_false]

theorem valuesUnder_append
    (key : String)
    (front back : List (List Char × List Char)) :
    valuesUnder key (front ++ back) = valuesUnder key front ++ valuesUnder key back := by
  simp [valuesUnder]

/-- Of two segments with different keys one at most has a value under a key. -/
theorem valuesUnder_append_comm
    {left right : List Char}
    (different : ':' ∈ left → ':' ∈ right → keyOf left ≠ keyOf right)
    (key : String) :
    valuesUnder key (pairOf? left).toList ++ valuesUnder key (pairOf? right).toList =
      valuesUnder key (pairOf? right).toList ++ valuesUnder key (pairOf? left).toList := by
  cases leftFound : pairOf? left with
  | none => simp [valuesUnder]
  | some leftPair =>
      cases rightFound : pairOf? right with
      | none => simp [valuesUnder]
      | some rightPair =>
          obtain ⟨leftColon, leftKey⟩ := keyOf_of_pairOf? leftFound
          obtain ⟨rightColon, rightKey⟩ := keyOf_of_pairOf? rightFound
          have keysDiffer := different leftColon rightColon
          rw [← leftKey, ← rightKey] at keysDiffer
          by_cases underLeft : String.ofList leftPair.1 = key
          · have notUnderRight : String.ofList rightPair.1 ≠ key := by
              rintro rfl
              exact keysDiffer (String.ofList_injective underLeft)
            simp [valuesUnder, notUnderRight]
          · simp [valuesUnder, underLeft]

/-- A segment counts for its pair only. -/
theorem filterMap_pairOf?_congr
    {segment other : List Char}
    (samePair : pairOf? segment = pairOf? other)
    (front back : List (List Char)) :
    (front ++ segment :: back).filterMap pairOf? =
      (front ++ other :: back).filterMap pairOf? := by
  simp only [List.filterMap_append, List.filterMap_cons, samePair]

/-- One edit keeps the name, and the values under each key. -/
theorem SegmentEdit.keeps
    {segments edited : List (List Char)}
    (edit : SegmentEdit segments edited) :
    trim (segments.headD []) = trim (edited.headD []) ∧
      ∀ key, valuesUnder key (segments.tail.filterMap pairOf?) =
        valuesUnder key (edited.tail.filterMap pairOf?) := by
  cases edit with
  | insert idle => simp [idle.pairOf?_eq_none]
  | @padName name before after segments beforeBlank afterBlank =>
      exact ⟨(trim_pad beforeBlank afterBlank name).symm, fun _ => rfl⟩
  | @padKey name key value before after front back isKey beforeBlank afterBlank =>
      have isPadded : ':' ∉ before ++ (key ++ after) := by
        have beforeColonless : ':' ∉ before := not_mem_of_areBlank beforeBlank (by decide)
        have afterColonless : ':' ∉ after := not_mem_of_areBlank afterBlank (by decide)
        simp [beforeColonless, isKey, afterColonless]
      have samePair : pairOf? (key ++ ':' :: value) =
          pairOf? (before ++ (key ++ after) ++ ':' :: value) := by
        rw [pairOf?_append_colon isPadded, pairOf?_append_colon isKey,
          trim_pad beforeBlank afterBlank]
      exact ⟨rfl, fun wanted =>
        congrArg (valuesUnder wanted) (filterMap_pairOf?_congr samePair front back)⟩
  | @padValue name key value before after front back isKey beforeBlank afterBlank =>
      have samePair : pairOf? (key ++ ':' :: value) =
          pairOf? (key ++ ':' :: (before ++ (value ++ after))) := by
        rw [pairOf?_append_colon isKey, pairOf?_append_colon isKey,
          trim_pad beforeBlank afterBlank]
      exact ⟨rfl, fun wanted =>
        congrArg (valuesUnder wanted) (filterMap_pairOf?_congr samePair front back)⟩
  | @swap name left right front back different =>
      refine ⟨rfl, fun key => ?_⟩
      have comm := valuesUnder_append_comm different key
      simp only [List.tail_cons, List.filterMap_eq_flatMap_toList, List.flatMap_append,
        List.flatMap_cons, valuesUnder_append]
      rw [← List.append_assoc (valuesUnder key (pairOf? left).toList), comm,
        List.append_assoc]

theorem IsEdit.agree
    {source edited : List Char}
    (edit : IsEdit source edited) :
    Agree source edited :=
  ⟨edit.keeps.1, edit.keeps.2⟩

/-- Any number of edits leads to a description that agrees. -/
theorem agree_of_edits
    {source edited : List Char}
    (edits : Relation.ReflTransGen IsEdit source edited) :
    Agree source edited := by
  induction edits with
  | refl => exact Agree.refl source
  | tail _ edit inductionHypothesis => exact inductionHypothesis.trans edit.agree

/-! ## Reading after edits -/

theorem read_eq_ok_iff_of_agree
    {source other : String}
    (agree : Agree source.toList other.toList)
    (index : Nat)
    (element : Element) :
    Element.read index source = .ok element ↔ Element.read index other = .ok element := by
  rw [read_eq_ok_iff, read_eq_ok_iff]
  exact ⟨ofDescription_of_agree agree, ofDescription_of_agree agree.symm⟩

/-- Any number of edits leaves a description accepted or refused, and the element of one that is
accepted as it is.  So does every other change that keeps the name and, under each key, the
values in their order. -/
theorem read_eq_ok_iff_of_edits
    (index : Nat)
    (source : String)
    (element : Element) :
    (∀ edited : String, Relation.ReflTransGen IsEdit source.toList edited.toList →
      (Element.read index source = .ok element ↔ Element.read index edited = .ok element)) ∧
    (∀ other : String, Agree source.toList other.toList →
      (Element.read index source = .ok element ↔ Element.read index other = .ok element)) :=
  ⟨fun _ edits => read_eq_ok_iff_of_agree (agree_of_edits edits) index element,
    fun _ agree => read_eq_ok_iff_of_agree agree index element⟩

/-- A property exchanged with the identifier, blanks put around its key, and a segment without
a colon put in. -/
theorem edits_untidy :
    Relation.ReflTransGen IsEdit "div;id:a;x:1".toList "div; x :1;junk;id:a".toList := by
  have blank : AreBlank [' '] := List.forall_mem_singleton.mpr (by decide)
  have exchanged : IsEdit "div;id:a;x:1".toList "div;x:1;id:a".toList :=
    @SegmentEdit.swap "div".toList "id:a".toList "x:1".toList [] [] (by decide)
  have padded : IsEdit "div;x:1;id:a".toList "div; x :1;id:a".toList :=
    @SegmentEdit.padKey "div".toList "x".toList "1".toList [' '] [' '] [] ["id:a".toList]
      (by decide) blank blank
  have filled : IsEdit "div; x :1;id:a".toList "div; x :1;junk;id:a".toList :=
    @SegmentEdit.insert "div".toList "junk".toList [" x :1".toList] ["id:a".toList]
      (.noColon (by decide))
  exact ((Relation.ReflTransGen.single exchanged).tail padded).tail filled

theorem read_untidy_iff :
    Relation.ReflTransGen IsEdit "div;id:a;x:1".toList "div; x :1;junk;id:a".toList ∧
      Agree "div;id:a;x:1".toList "div; x :1;junk;id:a".toList ∧
      ∀ element,
        (Element.read 0 "div;id:a;x:1" = .ok element ↔
          Element.read 0 "div; x :1;junk;id:a" = .ok element) := by
  have agree := agree_of_edits edits_untidy
  refine ⟨edits_untidy, agree, fun element => ?_⟩
  exact (read_eq_ok_iff_of_edits 0 "div;id:a;x:1" element).1 _ edits_untidy

/-- Of segments with one key the order does matter. -/
example :
    (ofDescription "div;id:a;id:b".toList).map Element.id = .ok "b" ∧
      (ofDescription "div;id:b;id:a".toList).map Element.id = .ok "a" := by
  constructor <;> rfl

end Element
end Montage
