import Mathlib
import Montage.Proofs.Color.Spelling
import Montage.Sampling

/-!
# Sampling by what values have in common

Keyframes are numbers throughout, or texts throughout, or neither.  Texts are colours
throughout, or have equally many numeric runs, or neither.  For each of these cases there is
one equation that says what sampling the keyframes is, in every monad: one question to the
sampler (`Property.sample_numbers`), one for each channel (`Property.sample_colors`), one for
each run of the first text (`Property.sample_texts`), or none at all, and then the first
value holds (`Property.sample_unlike`).
-/

namespace Montage

section Lists

variable {α β : Type} {decode : α → Option β} {items : List α}

theorem mapM_eq_some_iff_map_eq
    {results : List β} :
    items.mapM decode = some results ↔ items.map decode = results.map some := by
  induction items generalizing results with
  | nil => cases results <;> simp
  | cons item rest inductionHypothesis =>
      cases results with
      | nil => simp [Option.bind_eq_some_iff]
      | cons result others => simp [Option.bind_eq_some_iff, inductionHypothesis]

theorem mapM_eq_none_iff_exists :
    items.mapM decode = none ↔ ∃ item ∈ items, decode item = none := by
  induction items with
  | nil => simp
  | cons item rest inductionHypothesis =>
      cases here : decode item with
      | none => simp [here]
      | some result =>
          cases later : rest.mapM decode with
          | none => simpa [here, later] using inductionHypothesis
          | some others => simpa [here, later] using inductionHypothesis

/-- Items that all decode are the encoded results, if encoding undoes decoding. -/
theorem map_eq_map_some_iff
    {encode : β → α}
    (inverse : ∀ item result, decode item = some result ↔ item = encode result)
    {results : List β} :
    items.map decode = results.map some ↔ items = results.map encode := by
  induction items generalizing results with
  | nil => cases results <;> simp
  | cons item rest inductionHypothesis =>
      cases results with
      | nil => simp
      | cons result others => simp [inductionHypothesis, inverse]

end Lists

namespace Value

theorem number?_eq_some_iff
    (value : Value)
    (amount : Float) :
    value.number? = some amount ↔ value = .number amount := by
  cases value <;> simp [number?]

theorem text?_eq_some_iff
    (value : Value)
    (content : String) :
    value.text? = some content ↔ value = .text content := by
  cases value <;> simp [text?]

theorem number?_eq_none_iff {value : Value} : value.number? = none ↔ value.kind ≠ .number := by
  cases value <;> simp [number?, kind]

theorem text?_eq_none_iff {value : Value} : value.text? = none ↔ value.kind ≠ .text := by
  cases value <;> simp [text?, kind]

/-- Some of the values are no numbers, and some of them are no texts. -/
def AreMixed (values : List Value) : Prop :=
  (∃ value ∈ values, value.kind ≠ .number) ∧ ∃ value ∈ values, value.kind ≠ .text

/-- Values are numbers throughout, or texts throughout, or mixed. -/
theorem eq_map_number_or_eq_map_text_or_areMixed (values : List Value) :
    (∃ amounts : List Float, values = amounts.map .number) ∨
      (∃ contents : List String, values = contents.map .text) ∨ AreMixed values := by
  cases numbers : values.mapM number? with
  | some amounts =>
      exact Or.inl ⟨amounts, (map_eq_map_some_iff number?_eq_some_iff).mp
        (mapM_eq_some_iff_map_eq.mp numbers)⟩
  | none =>
      cases texts : values.mapM text? with
      | some contents =>
          exact Or.inr (Or.inl ⟨contents, (map_eq_map_some_iff text?_eq_some_iff).mp
            (mapM_eq_some_iff_map_eq.mp texts)⟩)
      | none =>
          rw [mapM_eq_none_iff_exists] at numbers texts
          simp only [number?_eq_none_iff, text?_eq_none_iff] at numbers texts
          exact Or.inr (Or.inr ⟨numbers, texts⟩)

end Value

/-- The texts are colours throughout. -/
def AreColors (contents : List String) : Prop :=
  ∀ content ∈ contents, Color.IsSpelling content.toList

instance (contents : List String) : Decidable (AreColors contents) :=
  inferInstanceAs (Decidable (∀ content ∈ contents, Color.IsSpelling content.toList))

theorem exists_shades_of_areColors
    {contents : List String}
    (areColors : AreColors contents) :
    ∃ shades : List Color,
      contents.map (fun content => Color.ofText? content.toList) = shades.map some := by
  cases read : contents.mapM fun content => Color.ofText? content.toList with
  | some shades => exact ⟨shades, mapM_eq_some_iff_map_eq.mp read⟩
  | none =>
      obtain ⟨content, member, refused⟩ := mapM_eq_none_iff_exists.mp read
      exact absurd (areColors content member) (Color.ofText?_eq_none_iff.mp refused)

/-! ## Shapes -/

namespace Shape

variable {amounts : List Float} {contents : List String} {values : List Value}

theorem ofValues_numbers : ofValues (amounts.map .number) = .numbers amounts := by
  have numbers : (amounts.map Value.number).mapM Value.number? = some amounts := by
    rw [mapM_eq_some_iff_map_eq, map_eq_map_some_iff Value.number?_eq_some_iff]
  simp [ofValues, numbers]

/-- Texts are colours if each of them reads as one. -/
theorem ofValues_texts
    (nonempty : contents ≠ []) :
    ofValues (contents.map .text) =
      ((contents.map String.toList).mapM Color.ofText?).elim
        (.texts (contents.map String.toList)) .colors := by
  have noNumbers : (contents.map Value.text).mapM Value.number? = none := by
    obtain ⟨content, member⟩ := List.exists_mem_of_ne_nil contents nonempty
    exact mapM_eq_none_iff_exists.mpr ⟨.text content, List.mem_map_of_mem member, rfl⟩
  have texts : (contents.map Value.text).mapM Value.text? = some contents := by
    rw [mapM_eq_some_iff_map_eq, map_eq_map_some_iff Value.text?_eq_some_iff]
  simp only [ofValues, noNumbers, texts]
  cases (contents.map String.toList).mapM Color.ofText? <;> rfl

theorem ofValues_colors
    {shades : List Color}
    (nonempty : contents ≠ [])
    (spelled : contents.map (fun content => Color.ofText? content.toList) =
      shades.map some) :
    ofValues (contents.map .text) = .colors shades := by
  have read : (contents.map String.toList).mapM Color.ofText? = some shades := by
    rw [mapM_eq_some_iff_map_eq, List.map_map]
    exact spelled
  rw [ofValues_texts nonempty, read, Option.elim_some]

theorem ofValues_plainTexts
    (notColors : ¬ AreColors contents) :
    ofValues (contents.map .text) = .texts (contents.map String.toList) := by
  unfold AreColors at notColors
  push Not at notColors
  obtain ⟨content, member, noColor⟩ := notColors
  have refused : (contents.map String.toList).mapM Color.ofText? = none :=
    mapM_eq_none_iff_exists.mpr ⟨content.toList, List.mem_map_of_mem member,
      Color.ofText?_eq_none_iff.mpr noColor⟩
  rw [ofValues_texts (List.ne_nil_of_mem member), refused, Option.elim_none]

theorem ofValues_mixed
    (mixed : Value.AreMixed values) :
    ofValues values = .mixed := by
  obtain ⟨⟨one, isOne, noNumber⟩, other, isOther, noText⟩ := mixed
  have noNumbers : values.mapM Value.number? = none :=
    mapM_eq_none_iff_exists.mpr ⟨one, isOne, Value.number?_eq_none_iff.mpr noNumber⟩
  have noTexts : values.mapM Value.text? = none :=
    mapM_eq_none_iff_exists.mpr ⟨other, isOther, Value.text?_eq_none_iff.mpr noText⟩
  simp only [ofValues, noNumbers, noTexts]

end Shape

/-! ## What sampling is in each case -/

/-- How many numeric runs a text has. -/
def Template.runCount (content : String) : Nat :=
  (scan content.toList).runs.length

theorem Template.length_values_scan (content : String) :
    (scan content.toList).values.length = runCount content :=
  List.length_map _

/-- The values have nothing in common that could be sampled: they are mixed, or they are
texts, not all of them colours, that do not all have equally many numeric runs. -/
def AreUnlike (values : List Value) : Prop :=
  Value.AreMixed values ∨
    ∃ contents : List String, values = contents.map .text ∧ ¬ AreColors contents ∧
      ∃ one ∈ contents, ∃ other ∈ contents, Template.runCount one ≠ Template.runCount other

namespace Property

variable {m : Type → Type} [Monad m] [LawfulMonad m]

/-- Numbers are sampled as they are. -/
theorem sample_numbers
    (sampler : Sampler m)
    (instants : List Float)
    {amounts : List Float}
    (nonempty : amounts ≠ []) :
    (animated instants (amounts.map .number)).sample sampler =
      Value.number <$> sampler instants amounts .standard := by
  have shape : Shape.ofValues (amounts.map .number) = .numbers amounts :=
    Shape.ofValues_numbers
  obtain ⟨amount, rest, rfl⟩ := List.exists_cons_of_ne_nil nonempty
  rw [List.map_cons] at shape ⊢
  simp only [sample, sampleKeyframes, shape, map_eq_pure_bind]

/-- Colours are sampled channel by channel. -/
theorem sample_colors
    (sampler : Sampler m)
    (instants : List Float)
    {contents : List String}
    {shades : List Color}
    (nonempty : contents ≠ [])
    (spelled : contents.map (fun content => Color.ofText? content.toList) =
      shades.map some) :
    (animated instants (contents.map .text)).sample sampler =
      (fun color => Value.text (String.ofList color.text)) <$>
        sampleColors sampler instants shades := by
  have shape := Shape.ofValues_colors nonempty spelled
  obtain ⟨content, rest, rfl⟩ := List.exists_cons_of_ne_nil nonempty
  rw [List.map_cons] at shape ⊢
  simp only [sample, sampleKeyframes, shape, map_eq_pure_bind]

/-- Other texts are sampled as their runs are, if they all have the same number. -/
theorem sample_plainTexts
    (sampler : Sampler m)
    (instants : List Float)
    {first : String}
    {others : List String}
    (notColors : ¬ AreColors (first :: others)) :
    (animated instants ((first :: others).map .text)).sample sampler =
      (fun result => Value.text ((result.map String.ofList).getD first)) <$>
        sampleTexts sampler instants first.toList (others.map String.toList) := by
  have shape := Shape.ofValues_plainTexts notColors
  rw [List.map_cons] at shape ⊢
  simp only [sample, sampleKeyframes, shape, map_eq_pure_bind]
  refine bind_congr fun result => ?_
  cases result with
  | none => rfl
  | some result => rfl

/-- Texts with equally many runs are sampled run by run. -/
theorem sample_texts
    (sampler : Sampler m)
    (instants : List Float)
    {first : String}
    {others : List String}
    (notColors : ¬ AreColors (first :: others))
    (alike : ∀ other ∈ others, Template.runCount other = Template.runCount first) :
    (animated instants ((first :: others).map .text)).sample sampler =
      (fun numbers =>
          Value.text (String.ofList ((Template.scan first.toList).render numbers))) <$>
        sampleRuns sampler instants (Template.scan first.toList).values
          (others.map fun other => (Template.scan other.toList).values) := by
  rw [sample_plainTexts sampler instants notColors]
  simp only [sampleTexts, List.map_map]
  rw [if_pos]
  · simp [Function.comp_def]
  · simpa [Template.length_values_scan] using alike

/-- Values with nothing in common are not sampled, and the first of them holds. -/
theorem sample_unlike
    (sampler : Sampler m)
    (instants : List Float)
    {first : Value}
    {rest : List Value}
    (unlike : AreUnlike (first :: rest)) :
    (animated instants (first :: rest)).sample sampler = pure first := by
  rcases unlike with mixed | ⟨contents, same, notColors, one, isOne, other, isOther, differ⟩
  · simp only [sample, sampleKeyframes, Shape.ofValues_mixed mixed]
  · obtain ⟨content, contentsRest, rfl, rfl, rfl⟩ := List.map_eq_cons_iff.mp same.symm
    -- Two texts that differ cannot both be like the first one.
    have odd : ∃ found ∈ contentsRest,
        Template.runCount found ≠ Template.runCount content := by
      by_contra none
      push Not at none
      have each : ∀ found ∈ content :: contentsRest,
          Template.runCount found = Template.runCount content :=
        List.forall_mem_cons.mpr ⟨rfl, none⟩
      exact differ ((each one isOne).trans (each other isOther).symm)
    rw [← List.map_cons, sample_plainTexts sampler instants notColors]
    simp only [sampleTexts, List.map_map]
    rw [if_neg]
    · simp
    · simpa [Template.length_values_scan] using odd

end Property
end Montage
