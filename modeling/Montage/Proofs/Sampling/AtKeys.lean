import Montage.Keyframe.Search
import Montage.Proofs.Sampling.Outcomes
import Montage.Proofs.Sampling.Shapes
import Montage.Proofs.Template.Walking

/-!
# Sampling at a keyframe

A sampler that stands at a keyframe answers with the value of this keyframe, for every list
of values that it is given.  Then sampling gives the keyframe itself: its number; its colour, in
lowercase; or its numbers, in the place of the runs of the first text.  Nothing gets lost
where colours are taken apart into channels and texts into columns: channels are put together
to the colour they were taken from, and the entries of one index in all columns are the
numbers of one text (`Property.getElem?_of_columns`).
-/

namespace Montage

open Number

/-- Given these instants and as many values as this, the sampler answers with the value of
this index. -/
def AnswersEntry
    {σ : Type}
    (instants : List Float)
    (count index : Nat)
    (sampler : Sampler (StateM σ)) : Prop :=
  ∀ values state, values.length = count →
    values[index]? = some ((sampler instants values .standard).run state).1

/-- The number is the entry of this index in a list of this length. -/
def IsEntry
    (count index : Nat)
    (values : List Float)
    (number : Float) : Prop :=
  values.length = count → values[index]? = some number

theorem AnswersEntry.yields_isEntry
    {σ : Type}
    {instants : List Float}
    {count index : Nat}
    {sampler : Sampler (StateM σ)}
    (answers : AnswersEntry instants count index sampler)
    (values : List Float) :
    Yields (sampler instants values .standard) (IsEntry count index values) :=
  yields_state_iff.mpr fun state => answers values state

/-- A number that is given for a channel at the index of a colour is rounded to the channel
of this colour. -/
theorem Property.IsChannelOf.eq_of_getElem?
    {count index : Nat}
    {colors : List Color}
    {part : Color → UInt8}
    {channel : UInt8}
    (isChannel : Property.IsChannelOf (IsEntry count index) colors part channel)
    (length : colors.length = count)
    {color : Color}
    (here : colors[index]? = some color) :
    channel = part color := by
  obtain ⟨number, isEntry, rfl⟩ := isChannel
  have entry := isEntry (by rwa [List.length_map])
  rw [List.getElem?_map, here, Option.map_some, Option.some.injEq] at entry
  rw [← entry, Color.channelOf_ofNat]

namespace Property

/-- The entries of one index in all columns are the row of this index. -/
theorem getElem?_of_columns
    {count index : Nat}
    {values numbers : List Float}
    {others : List (List Float)}
    (sameLength : ∀ other ∈ others, other.length = values.length)
    (length : others.length + 1 = count)
    (bound : index < count)
    (entries : List.Forall₂ (IsEntry count index) (columns values others) numbers) :
    (values :: others)[index]? = some numbers := by
  obtain ⟨row, isRow⟩ : ∃ row, (values :: others)[index]? = some row :=
    ⟨_, List.getElem?_eq_getElem (by rwa [List.length_cons, length])⟩
  have rowLength : row.length = values.length := by
    rcases List.mem_cons.mp (List.mem_of_getElem? isRow) with rfl | member
    · rfl
    · exact sameLength row member
  rw [isRow, Option.some.injEq]
  induction values generalizing others numbers row with
  | nil =>
      cases entries
      exact List.length_eq_zero_iff.mp rowLength
  | cons value rest inductionHypothesis =>
      obtain ⟨number, later, rfl⟩ := List.exists_cons_of_length_eq_add_one rowLength
      cases entries with
      | @cons _ found _ laterFound here inRest =>
          -- A column is the first entry of every row, and what is left of the rows makes
          -- up the columns behind it.
          have heads : value :: others.map (fun other => other.headD 0) =
              ((value :: rest) :: others).map fun row => row.headD 0 := rfl
          have tails : rest :: others.map List.tail =
              ((value :: rest) :: others).map List.tail := rfl
          have entry := here (by simpa using length)
          rw [heads, List.getElem?_map, isRow] at entry
          obtain rfl : number = found := Option.some.inj entry
          congr 1
          refine inductionHypothesis ?_ (by simpa using length) inRest later ?_ ?_
          · simp only [List.forall_mem_map, List.length_tail]
            intro other member
            rw [sameLength other member, List.length_cons, Nat.add_sub_cancel]
          · rw [tails, List.getElem?_map, isRow]
            rfl
          · exact Nat.succ.inj rowLength

/-- If a sampler answers with the value of an index, then numbers give the number of this index,
colours the colour of this index in lowercase, and other texts with equally many runs the first
text with the numbers of the text of this index in the place of its own. -/
theorem sample_at_key
    {σ : Type}
    {instants : List Float}
    {count index : Nat}
    {sampler : Sampler (StateM σ)}
    (answers : AnswersEntry instants count index sampler)
    (state : σ) :
    (∀ (amounts : List Float) (amount : Float), amounts.length = count →
      amounts[index]? = some amount →
        (((animated instants (amounts.map .number)).sample sampler).run state).1 =
          .number amount) ∧
    (∀ (contents : List String) (content : String), contents.length = count →
      contents[index]? = some content → AreColors contents →
        (((animated instants (contents.map .text)).sample sampler).run state).1 =
          .text content.toLower) ∧
    (∀ (first : String) (others : List String) (content : String),
      (first :: others).length = count → (first :: others)[index]? = some content →
      ¬ AreColors (first :: others) →
      (∀ other ∈ others, Template.runCount other = Template.runCount first) →
        let template := Template.scan first.toList
        let numbers := (Template.scan content.toList).values
        numbers.length = template.runs.length ∧
        first.toList =
          (template.runs.flatMap fun run => run.lead ++ (run.numeral.text ++ run.unit)) ++
            template.tail ∧
        (((animated instants ((first :: others).map .text)).sample sampler).run state).1 =
          .text (String.ofList
            (((template.runs.zip numbers).flatMap fun part =>
              part.1.lead ++ (plainText part.2 ++ part.1.unit)) ++ template.tail))) := by
  have entries := answers.yields_isEntry
  refine ⟨fun amounts amount length here => ?_,
    fun contents content length here areColors => ?_,
    fun first others content length here notColors alike => ?_⟩
  · have nonempty : amounts ≠ [] := List.ne_nil_of_mem (List.mem_of_getElem? here)
    rw [sample_numbers sampler instants nonempty]
    refine (entries amounts).fst_run_map_eq ?_ state
    intro number isEntry
    rw [Option.some.inj (here.symm.trans (isEntry length))]
  · have nonempty : contents ≠ [] := List.ne_nil_of_mem (List.mem_of_getElem? here)
    obtain ⟨shades, spelled⟩ := exists_shades_of_areColors areColors
    have shadesLength : shades.length = count := by
      rw [← length, ← List.length_map some, ← spelled, List.length_map]
    -- The text of this index spells the shade of this index.
    have shadeHere := congrArg (fun read => read[index]?) spelled
    simp only [List.getElem?_map, here, Option.map_some] at shadeHere
    obtain ⟨shade, isShade, found⟩ := Option.map_eq_some_iff.mp shadeHere.symm
    rw [sample_colors sampler instants nonempty spelled]
    refine (yields_sampleColors entries shades).fst_run_map_eq ?_ state
    rintro ⟨red, green, blue⟩ ⟨isRed, isGreen, isBlue⟩
    obtain rfl : red = shade.red := isRed.eq_of_getElem? shadesLength isShade
    obtain rfl : green = shade.green := isGreen.eq_of_getElem? shadesLength isShade
    obtain rfl : blue = shade.blue := isBlue.eq_of_getElem? shadesLength isShade
    rw [Color.text_of_ofText? found.symm]
    simp [String.toLower, ← String.toList_map]
  · have each : ∀ text ∈ first :: others, Template.runCount text = Template.runCount first :=
      List.forall_mem_cons.mpr ⟨rfl, alike⟩
    have sameLength : (Template.scan content.toList).values.length =
        (Template.scan first.toList).runs.length := by
      rw [Template.length_values_scan]
      exact each content (List.mem_of_getElem? here)
    have whole := Template.text_scan first.toList
    rw [Template.text, Template.textFrom_eq_flatMap] at whole
    refine ⟨sameLength, whole.symm, ?_⟩
    rw [sample_texts sampler instants notColors alike]
    refine (yields_sampleRuns entries _ _).fst_run_map_eq ?_ state
    intro numbers given
    have bound := (List.getElem?_eq_some_iff.mp here).1
    have row := getElem?_of_columns (by simpa [Template.length_values_scan] using alike)
      (by simpa using length) (by rwa [← length]) given
    have rows : (Template.scan first.toList).values ::
          others.map (fun other => (Template.scan other.toList).values) =
        (first :: others).map fun text => (Template.scan text.toList).values := rfl
    rw [rows, List.getElem?_map, here, Option.map_some, Option.some.injEq] at row
    rw [← row, Template.render, Template.renderFrom_eq_flatMap sameLength]

/-- Counts its calls, and answers as at one second. -/
def atOneSecond : Sampler (StateM Nat) :=
  fun instants values ease => do
    modify (· + 1)
    return Id.run (Sampler.standingAt 1 instants values ease)

theorem answersEntry_atOneSecond : AnswersEntry [0, 1] 2 1 atOneSecond := by
  intro values state length
  obtain ⟨first, second, rfl⟩ := List.length_eq_two.mp length
  have reached : Keyframe.reachedWithin? [0, 1] (1 : Float) 0 2 = some 2 := by decide +kernel
  change some second = some ((Keyframe.search? .standard 1 [0, 1] [first, second]).getD (0 / 0))
  simp [Keyframe.search?, reached, Keyframe.valueAfter?]

/-- At the second keyframe, a number comes back, a colour comes back in lowercase, and the
numbers of the second text come back between the words of the first one. -/
theorem sample_at_second_key :
    (AnswersEntry [0, 1] 2 1 atOneSecond ∧ AreColors ["#FF8000", "#00ff7F"] ∧
      ¬ AreColors ["M.5 2px", "7-1em"] ∧
      Template.runCount "7-1em" = Template.runCount "M.5 2px") ∧
    (((animated [0, 1] [.number 2, .number 5]).sample atOneSecond).run 0).1 = .number 5 ∧
    (((animated [0, 1] [.text "#FF8000", .text "#00ff7F"]).sample atOneSecond).run 0).1 =
      .text "#00ff7f" ∧
    (((animated [0, 1] [.text "M.5 2px", .text "7-1em"]).sample atOneSecond).run 0).1 =
      .text "M7 -1px" := by
  have areColors : AreColors ["#FF8000", "#00ff7F"] := by decide +kernel
  have notColors : ¬ AreColors ["M.5 2px", "7-1em"] := by decide +kernel
  have alike : Template.runCount "7-1em" = Template.runCount "M.5 2px" := by decide +kernel
  obtain ⟨numbers, colors, texts⟩ := sample_at_key answersEntry_atOneSecond 0
  refine ⟨⟨answersEntry_atOneSecond, areColors, notColors, alike⟩,
    numbers [2, 5] 5 rfl rfl, ?_, ?_⟩
  · exact (colors ["#FF8000", "#00ff7F"] "#00ff7F" rfl rfl areColors).trans
      (congrArg Value.text (by decide +kernel))
  · exact (texts "M.5 2px" ["7-1em"] "7-1em" rfl rfl notColors
      (by simpa using alike)).2.2.trans (congrArg Value.text (by decide +kernel))

end Property
end Montage
