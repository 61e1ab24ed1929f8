import Montage.Proofs.Element.Batches
import Montage.Proofs.Sampling.Outcomes
import Montage.Proofs.Sampling.Shapes

/-!
# What later texts contribute

Of the texts of keyframes, the first one supplies what stands between the numbers.  Of every
later text only the numbers of its runs count, whatever stands between them and however they
are written, and the numbers of one run count for this run alone: where they change, the
result keeps everything that stands before the number of this run and behind it
(`Property.sample_sees_later_texts_by_run`).
-/

namespace Montage

open Number

namespace Template

/-- The numbers of the runs of a text. -/
def runNumbers (content : String) : List Float :=
  (scan content.toList).values

/-- The numbers that texts have in the run of one index. -/
def numbersAt
    (index : Nat)
    (contents : List String) : List Float :=
  contents.map fun content => (runNumbers content).getD index 0

/-- Numbers in the place of the other runs make these two texts of what stands before the
number of a run and of what stands behind it. -/
def IsAround
    (template : Template)
    (index : Nat)
    (before after : List Char) : Prop :=
  ∃ run front back, template.runs[index]? = some run ∧
    front.length = index ∧ index + 1 + back.length = template.runs.length ∧
    before = renderFrom run.lead (template.runs.take index) front ∧
    after = run.unit ++ renderFrom template.tail (template.runs.drop (index + 1)) back

/-- A rendered text is a number with what stands around it. -/
theorem renderFrom_eq_around
    {index : Nat}
    {runs : List Run}
    {amounts : List Float}
    {run : Run}
    {amount : Float}
    (isRun : runs[index]? = some run)
    (isAmount : amounts[index]? = some amount)
    (tail : List Char) :
    renderFrom tail runs amounts =
      renderFrom run.lead (runs.take index) (amounts.take index) ++
        (plainText amount ++
          (run.unit ++ renderFrom tail (runs.drop (index + 1)) (amounts.drop (index + 1)))) := by
  induction runs generalizing index amounts with
  | nil => cases isRun
  | cons first rest inductionHypothesis =>
      cases amounts with
      | nil => cases isAmount
      | cons earliest others =>
          cases index with
          | zero =>
              cases isRun
              cases isAmount
              simp [renderFrom, textFrom]
          | succ index =>
              simp [renderFrom, inductionHypothesis isRun isAmount]

end Template

/-- Lists of equal length have the same entries, except maybe at one index. -/
structure AgreeBut
    (index : Nat)
    (left right : List Float) : Prop where
  /-- They are equally long. -/
  length_eq : left.length = right.length
  /-- At every other index they have the same entry. -/
  getElem?_eq : ∀ other, other ≠ index → left[other]? = right[other]?

namespace AgreeBut

variable {index : Nat} {left right : List Float}

theorem symm
    (agree : AgreeBut index left right) :
    AgreeBut index right left :=
  ⟨agree.length_eq.symm, fun other different => (agree.getElem?_eq other different).symm⟩

theorem take_eq
    (agree : AgreeBut index left right) :
    left.take index = right.take index := by
  apply List.ext_getElem?
  intro other
  rw [List.getElem?_take, List.getElem?_take]
  split
  · next before => exact agree.getElem?_eq other before.ne
  · rfl

theorem drop_eq
    (agree : AgreeBut index left right) :
    left.drop (index + 1) = right.drop (index + 1) := by
  apply List.ext_getElem?
  intro other
  rw [List.getElem?_drop, List.getElem?_drop]
  exact agree.getElem?_eq _ (by omega)

/-- There is no difference behind the last entry. -/
theorem eq_of_length_le
    (agree : AgreeBut index left right)
    (beyond : left.length ≤ index) :
    left = right := by
  have cut := agree.take_eq
  rwa [List.take_of_length_le beyond,
    List.take_of_length_le (agree.length_eq ▸ beyond)] at cut

end AgreeBut

namespace Property

open Template (runNumbers numbersAt runCount length_values_scan)

/-- A sampler that only answers is asked for the columns one by one. -/
theorem run_sampleRuns
    (sampler : Sampler Id)
    (instants values : List Float)
    (others : List (List Float)) :
    Id.run (sampleRuns sampler instants values others) =
      (columns values others).map fun column => Id.run (sampler instants column .standard) := by
  induction values generalizing others with
  | nil => rfl
  | cons value rest inductionHypothesis =>
      rw [columns, List.map_cons, ← inductionHypothesis]
      rfl

/-! ## Texts that may be exchanged -/

section Texts

variable {first : String} {others exchanged : List String}

/-- Of the later texts only the numbers count, for every sampler. -/
theorem sample_congr
    {m : Type → Type}
    [Monad m]
    [LawfulMonad m]
    (notColors : ¬ AreColors (first :: others))
    (exchangedNotColors : ¬ AreColors (first :: exchanged))
    (sameNumbers : others.map runNumbers = exchanged.map runNumbers)
    (sampler : Sampler m)
    (instants : List Float) :
    (animated instants ((first :: others).map .text)).sample sampler =
      (animated instants ((first :: exchanged).map .text)).sample sampler := by
  have columnsOf : ∀ texts : List String,
      (texts.map String.toList).map (fun other => (Template.scan other).values) =
        texts.map runNumbers := fun texts => List.map_map ..
  rw [sample_plainTexts sampler instants notColors,
    sample_plainTexts sampler instants exchangedNotColors]
  simp only [sampleTexts, columnsOf, sameNumbers]

/-- Where a later text has not as many runs as the first one, the first one holds. -/
theorem sample_of_not_alike
    {m : Type → Type}
    [Monad m]
    [LawfulMonad m]
    {sampler : Sampler m}
    {instants : List Float}
    (notColors : ¬ AreColors (first :: others))
    (notAlike : ¬ ∀ other ∈ others, runCount other = runCount first) :
    (animated instants ((first :: others).map .text)).sample sampler = pure (.text first) := by
  push Not at notAlike
  obtain ⟨other, member, differs⟩ := notAlike
  exact sample_unlike sampler instants (Or.inr ⟨first :: others, rfl, notColors, other,
    List.mem_cons_of_mem _ member, first, List.mem_cons_self, differs⟩)

/-- Text by text, the numbers agree but for those of one run. -/
def AgreeButRun
    (index : Nat)
    (others exchanged : List String) : Prop :=
  List.Forall₂ (fun left right => AgreeBut index (runNumbers left) (runNumbers right))
    others exchanged

namespace AgreeButRun

variable {index : Nat}

theorem symm
    (agree : AgreeButRun index others exchanged) :
    AgreeButRun index exchanged others :=
  List.Forall₂.flip (agree.imp fun _ _ agreeHere => agreeHere.symm)

/-- Texts have the number of runs that those have in whose place they are put. -/
theorem alike
    (agree : AgreeButRun index others exchanged)
    (alike : ∀ other ∈ others, runCount other = runCount first) :
    ∀ other ∈ exchanged, runCount other = runCount first := by
  intro other member
  obtain ⟨source, sourceMember, agreeHere⟩ := exists_mem_of_forall₂ agree member
  rw [← length_values_scan other, ← alike source sourceMember, ← length_values_scan source]
  exact agreeHere.length_eq.symm

/-- In the other runs the texts have the same numbers. -/
theorem map_getD_eq
    (agree : AgreeButRun index others exchanged)
    {other : Nat}
    (different : other ≠ index) :
    (others.map runNumbers).map (fun numbers => numbers.getD other 0) =
      (exchanged.map runNumbers).map fun numbers => numbers.getD other 0 := by
  rw [← List.forall₂_eq_eq_eq]
  simp only [List.forall₂_map_left_iff, List.forall₂_map_right_iff]
  refine agree.imp fun left right agreeHere => ?_
  rw [List.getD_eq_getElem?_getD, agreeHere.getElem?_eq other different,
    List.getD_eq_getElem?_getD]

/-- No text has the run in which they may differ. -/
theorem map_runNumbers_eq
    (agree : AgreeButRun index others exchanged)
    (beyond : ∀ other ∈ others, runCount other ≤ index) :
    others.map runNumbers = exchanged.map runNumbers := by
  induction agree with
  | nil => rfl
  | cons agreeHere _ inductionHypothesis =>
      obtain ⟨here, later⟩ := List.forall_mem_cons.mp beyond
      rw [← length_values_scan] at here
      rw [List.map_cons, List.map_cons, agreeHere.eq_of_length_le here,
        inductionHypothesis later]

end AgreeButRun

/-- What a sampler that only answers gives for the runs. -/
def answers
    (sampler : Sampler Id)
    (instants : List Float)
    (first : String)
    (others : List String) : List Float :=
  (columns (runNumbers first) (others.map runNumbers)).map fun column =>
    Id.run (sampler instants column .standard)

section Answers

variable (sampler : Sampler Id) (instants : List Float)

theorem getElem?_answers
    (index : Nat) :
    (answers sampler instants first others)[index]? =
      (runNumbers first)[index]?.map fun number =>
        Id.run (sampler instants
          (number :: (others.map runNumbers).map fun numbers => numbers.getD index 0)
          .standard) := by
  rw [answers, List.getElem?_map, getElem?_columns, Option.map_map]
  rfl

/-- Where texts agree but for one run, so do the answers. -/
theorem agreeBut_answers
    (first : String)
    {index : Nat}
    (agree : AgreeButRun index others exchanged) :
    AgreeBut index (answers sampler instants first others)
      (answers sampler instants first exchanged) where
  length_eq := by simp [answers, length_columns]
  getElem?_eq other different := by
    rw [getElem?_answers, getElem?_answers, agree.map_getD_eq different]

theorem getElem?_answers_of_lt
    (others : List String)
    {index : Nat}
    (bound : index < runCount first) :
    (answers sampler instants first others)[index]? =
      some (Id.run (sampler instants (numbersAt index (first :: others)) .standard)) := by
  have inside : index < (runNumbers first).length := (length_values_scan first).symm ▸ bound
  rw [getElem?_answers, List.getElem?_eq_getElem inside, Option.map_some, numbersAt,
    List.map_cons, List.getD_eq_getElem _ _ inside, List.map_map]
  rfl

/-- The answers stand in the place of the numbers of the first text. -/
theorem run_sample_eq_render
    (notColors : ¬ AreColors (first :: others))
    (alike : ∀ other ∈ others, runCount other = runCount first) :
    Id.run ((animated instants ((first :: others).map .text)).sample sampler) =
      .text (String.ofList
        ((Template.scan first.toList).render (answers sampler instants first others))) := by
  rw [sample_texts sampler instants notColors alike, Id.run_map, run_sampleRuns]
  rfl

/-- What is sampled is the answer to the numbers of one run, with the answers for the other
runs around it. -/
theorem exists_isAround
    {index : Nat}
    (bound : index < runCount first)
    (agree : AgreeButRun index others exchanged) :
    ∃ before after, (Template.scan first.toList).IsAround index before after ∧
      (Template.scan first.toList).render (answers sampler instants first others) =
        before ++ (plainText
          (Id.run (sampler instants (numbersAt index (first :: others)) .standard)) ++ after) ∧
      (Template.scan first.toList).render (answers sampler instants first exchanged) =
        before ++ (plainText
          (Id.run (sampler instants (numbersAt index (first :: exchanged)) .standard)) ++
            after) := by
  obtain ⟨run, isRun⟩ : ∃ run, (Template.scan first.toList).runs[index]? = some run :=
    ⟨_, List.getElem?_eq_getElem bound⟩
  have agreeHere := agreeBut_answers sampler instants first agree
  have length : (answers sampler instants first others).length = runCount first := by
    rw [answers, List.length_map, length_columns]
    exact length_values_scan first
  have rendered := fun texts : List String => Template.renderFrom_eq_around isRun
    (getElem?_answers_of_lt sampler instants texts bound)
    (Template.scan first.toList).tail
  refine ⟨_, _, ⟨run, (answers sampler instants first others).take index,
    (answers sampler instants first others).drop (index + 1), isRun, ?_, ?_, rfl, rfl⟩,
    rendered others, ?_⟩
  · rw [List.length_take, length]
    exact Nat.min_eq_left bound.le
  · rw [List.length_drop, length]
    exact Nat.add_sub_of_le bound
  · rw [agreeHere.take_eq, agreeHere.drop_eq]
    exact rendered exchanged

end Answers

/-- Two animations have the same instants and the same first text, and neither consists of
colours only.  If their later texts have the same numbers, they are sampled alike by every
sampler, and a text comes out.  If the numbers differ in one run only, the results have the same
text in front of the number of this run and the same text behind it, and the number is the
answer to the numbers of this run; if the first text has no such run, or not all texts have
equally many, the results are the same. -/
theorem sample_sees_later_texts_by_run
    (instants : List Float)
    (notColors : ¬ AreColors (first :: others))
    (exchangedNotColors : ¬ AreColors (first :: exchanged)) :
    let property := fun later : List String =>
      animated instants ((first :: later).map .text)
    (others.map runNumbers = exchanged.map runNumbers →
      ∀ (m : Type → Type) [Monad m] [LawfulMonad m] (sampler : Sampler m),
        ∃ content : m String,
          (property others).sample sampler = Value.text <$> content ∧
          (property exchanged).sample sampler = Value.text <$> content) ∧
    ∀ (index : Nat) (sampler : Sampler Id), AgreeButRun index others exchanged →
      let isEverywhere :=
        index < runCount first ∧ ∀ other ∈ others, runCount other = runCount first
      (isEverywhere →
        ∃ before after, (Template.scan first.toList).IsAround index before after ∧
          Id.run ((property others).sample sampler) =
            .text (String.ofList (before ++ (plainText
              (Id.run (sampler instants (numbersAt index (first :: others)) .standard)) ++
                after))) ∧
          Id.run ((property exchanged).sample sampler) =
            .text (String.ofList (before ++ (plainText
              (Id.run (sampler instants (numbersAt index (first :: exchanged)) .standard)) ++
                after)))) ∧
      (¬ isEverywhere →
        (property others).sample sampler = (property exchanged).sample sampler) := by
  refine ⟨fun sameNumbers m _ _ sampler => ?_, fun index sampler agree => ⟨?_, ?_⟩⟩
  · refine ⟨(fun result => (result.map String.ofList).getD first) <$>
      sampleTexts sampler instants first.toList (others.map String.toList), ?_, ?_⟩
    · rw [sample_plainTexts sampler instants notColors, Functor.map_map]
    · rw [← sample_congr notColors exchangedNotColors sameNumbers,
        sample_plainTexts sampler instants notColors, Functor.map_map]
  · rintro ⟨bound, alike⟩
    obtain ⟨before, after, isAround, here, there⟩ :=
      exists_isAround sampler instants bound agree
    refine ⟨before, after, isAround, ?_, ?_⟩
    · rw [← here, run_sample_eq_render sampler instants notColors alike]
    · rw [← there, run_sample_eq_render sampler instants exchangedNotColors (agree.alike alike)]
  · intro notEverywhere
    by_cases alike : ∀ other ∈ others, runCount other = runCount first
    · have beyond : runCount first ≤ index := by
        by_contra inside
        exact notEverywhere ⟨Nat.lt_of_not_le inside, alike⟩
      have sameNumbers := agree.map_runNumbers_eq fun other member =>
        (alike other member).trans_le beyond
      exact sample_congr notColors exchangedNotColors sameNumbers sampler instants
    · have exchangedNotAlike := mt agree.symm.alike alike
      rw [sample_of_not_alike notColors alike, sample_of_not_alike exchangedNotColors
        exchangedNotAlike]

end Texts

/-- Answers with the second of the values. -/
def secondValue : Sampler Id :=
  fun _ values _ => pure (values.getD 1 0)

/-- Words, units and spelling of a later text make no difference.  Where only the second of
its numbers is another one, only the second number of the result is. -/
theorem sample_sees_second_run :
    let property := fun later : String =>
      animated [0, 1] (["a1px b2", later].map .text)
    ¬ AreColors ["a1px b2", "10em,20"] ∧ ¬ AreColors ["a1px b2", "x 10.0 y020"] ∧
    ¬ AreColors ["a1px b2", "10em,7"] ∧
    ["10em,20"].map runNumbers = ["x 10.0 y020"].map runNumbers ∧
    AgreeButRun 1 ["10em,20"] ["10em,7"] ∧
    (property "10em,20").sample secondValue = (property "x 10.0 y020").sample secondValue ∧
    ∃ before after, (Template.scan "a1px b2".toList).IsAround 1 before after ∧
      Id.run ((property "10em,20").sample secondValue) =
        .text (String.ofList (before ++ (plainText 20 ++ after))) ∧
      Id.run ((property "10em,7").sample secondValue) =
        .text (String.ofList (before ++ (plainText 7 ++ after))) := by
  intro property
  have notColors : ¬ AreColors ["a1px b2", "10em,20"] := by decide +kernel
  have wordyNotColors : ¬ AreColors ["a1px b2", "x 10.0 y020"] := by decide +kernel
  have otherNotColors : ¬ AreColors ["a1px b2", "10em,7"] := by decide +kernel
  have numbers : runNumbers "10em,20" = [10, 20] := by decide +kernel
  have wordyNumbers : runNumbers "x 10.0 y020" = [10, 20] := by decide +kernel
  have otherNumbers : runNumbers "10em,7" = [10, 7] := by decide +kernel
  have sameNumbers : ["10em,20"].map runNumbers = ["x 10.0 y020"].map runNumbers := by
    rw [List.map_singleton, List.map_singleton, numbers, wordyNumbers]
  have agree : AgreeButRun 1 ["10em,20"] ["10em,7"] := by
    refine .cons ?_ .nil
    rw [numbers, otherNumbers]
    constructor
    case length_eq => simp
    case getElem?_eq =>
      intro other different
      match other, different with
      | 0, _ => simp
      | other + 2, _ => simp
  have answer : ∀ later : String,
      Id.run (secondValue [0, 1] (numbersAt 1 ["a1px b2", later]) .standard) =
        (runNumbers later).getD 1 0 := fun _ => rfl
  obtain ⟨content, here, there⟩ :=
    (sample_sees_later_texts_by_run [0, 1] notColors wordyNotColors).1 sameNumbers Id secondValue
  obtain ⟨before, after, isAround, result, otherResult⟩ :=
    ((sample_sees_later_texts_by_run [0, 1] notColors otherNotColors).2 1 secondValue agree).1
      ⟨by decide +kernel, by decide +kernel⟩
  rw [answer, numbers] at result
  rw [answer, otherNumbers] at otherResult
  exact ⟨notColors, wordyNotColors, otherNotColors, sameNumbers, agree, here.trans there.symm,
    before, after, isAround, result, otherResult⟩

end Property
end Montage
