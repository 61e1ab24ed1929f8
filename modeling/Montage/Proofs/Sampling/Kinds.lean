import Montage.Proofs.Sampling.Outcomes
import Montage.Proofs.Sampling.Shapes

/-!
# The kind of a sampled value

Whatever numbers a sampler answers, infinite and undefined ones among them, a sampled value
is of the kind of the first keyframe: numbers give a number, colours a colour, other texts a
text, and values with nothing in common give the first of them.  In the last case the
sampler is not asked at all, which is said for every monad: sampling is `pure`.
-/

namespace Montage
namespace Property

open Text

section Outcomes

open Std.Do

variable {m : Type → Type} {shape : PostShape} [Monad m] [WPMonad m shape]
  {sampler : Sampler m} {instants : List Float}

/-- Sampling keeps the kind of the first value. -/
theorem yields_sample_kind
    (answers : ∀ values, Yields (sampler instants values .standard) fun _ => True)
    (first : Value)
    (rest : List Value) :
    Yields ((animated instants (first :: rest)).sample sampler)
      fun value => value.kind = first.kind := by
  rcases Value.eq_map_number_or_eq_map_text_or_areMixed (first :: rest) with
    ⟨amounts, same⟩ | ⟨contents, same⟩ | mixed
  · obtain ⟨amount, others, rfl, rfl, rfl⟩ := List.map_eq_cons_iff.mp same.symm
    rw [← List.map_cons, sample_numbers sampler instants (List.cons_ne_nil amount others)]
    exact (answers _).map fun _ _ => rfl
  · obtain ⟨content, others, rfl, rfl, rfl⟩ := List.map_eq_cons_iff.mp same.symm
    by_cases areColors : AreColors (content :: others)
    · obtain ⟨shades, spelled⟩ := exists_shades_of_areColors areColors
      rw [← List.map_cons,
        sample_colors sampler instants (List.cons_ne_nil content others) spelled]
      exact (yields_sampleColors answers shades).map fun _ _ => rfl
    · by_cases alike : ∀ other ∈ others,
          Template.runCount other = Template.runCount content
      · rw [← List.map_cons, sample_texts sampler instants areColors alike]
        exact (yields_sampleRuns answers _ _).map fun _ _ => rfl
      · push Not at alike
        obtain ⟨other, member, differ⟩ := alike
        rw [sample_unlike sampler instants (Or.inr ⟨content :: others, rfl, areColors, other,
          List.mem_cons_of_mem _ member, content, List.mem_cons_self, differ⟩)]
        exact yields_pure rfl
  · rw [sample_unlike sampler instants (Or.inl mixed)]
    exact yields_pure rfl

/-- Sampled colours give a colour in lowercase. -/
theorem yields_sample_color
    (answers : ∀ values, Yields (sampler instants values .standard) fun _ => True)
    {contents : List String}
    (nonempty : contents ≠ [])
    (areColors : AreColors contents) :
    Yields ((animated instants (contents.map .text)).sample sampler) fun value =>
      ∃ digits : List Char, digits.length = 6 ∧ (∀ digit ∈ digits, digit ∈ lowerHexDigits) ∧
        value = .text (String.ofList ('#' :: digits)) := by
  obtain ⟨shades, spelled⟩ := exists_shades_of_areColors areColors
  rw [sample_colors sampler instants nonempty spelled]
  refine (yields_sampleColors answers shades).map ?_
  intro color _
  obtain ⟨digits, written, length, lowercase⟩ := color.exists_text_eq
  exact ⟨digits, length, lowercase, by rw [written]⟩

end Outcomes

/-- Whatever a sampler answers, in whatever state, the outcome is of the kind of the first
value; if all values are colours, it is a hash mark with six lowercase hexadecimal digits; and
if the values have nothing in common, it is the first value as it is, and the sampler is not
asked. -/
theorem sample_keeps_kind
    (instants : List Float)
    (first : Value)
    (rest : List Value) :
    (∀ (σ : Type) (sampler : Sampler (StateM σ)) (state : σ),
      (((animated instants (first :: rest)).sample sampler).run state).1.kind =
        first.kind) ∧
    (∀ contents : List String, first :: rest = contents.map .text → AreColors contents →
      ∀ (σ : Type) (sampler : Sampler (StateM σ)) (state : σ),
        ∃ digits : List Char, digits.length = 6 ∧
          (∀ digit ∈ digits, digit ∈ lowerHexDigits) ∧
          (((animated instants (first :: rest)).sample sampler).run state).1 =
            .text (String.ofList ('#' :: digits))) ∧
    (AreUnlike (first :: rest) →
      ∀ (m : Type → Type) [Monad m] [LawfulMonad m] (sampler : Sampler m),
        (animated instants (first :: rest)).sample sampler = pure first) := by
  have answers : ∀ (σ : Type) (sampler : Sampler (StateM σ)) (values : List Float),
      Yields (sampler instants values .standard) fun _ => True :=
    fun σ sampler values => yields_state_iff.mpr fun _ => trivial
  refine ⟨fun σ sampler => ?_, fun contents same areColors σ sampler => ?_,
    fun unlike m _ _ sampler => sample_unlike sampler instants unlike⟩
  · exact yields_state_iff.mp (yields_sample_kind (answers σ sampler) first rest)
  · have nonempty : contents ≠ [] := by
      rintro rfl
      exact absurd same (List.cons_ne_nil first rest)
    rw [same]
    exact yields_state_iff.mp (yields_sample_color (answers σ sampler) nonempty areColors)

/-- Counts its calls, and answers with what no interpolation gives: first with an undefined
number, then with an infinite one, and from then on with a negative one. -/
def straySampler : Sampler (StateM Nat) :=
  fun _ _ _ => do
    let count ← getModify (· + 1)
    return if count = 0 then 0 / 0 else if count = 1 then 1 / 0 else -7.5

/-- Stray answers turn two colours into green, two numbers into an undefined one, and leave
texts with one and two runs alone. -/
theorem sample_keeps_kind_stray :
    (AreColors ["#FF8000", "#00ff7F"] ∧ AreUnlike [.text "2px 4px", .text "3px"]) ∧
    (((animated [0] [.text "#FF8000", .text "#00ff7F"]).sample straySampler).run 0).1.text? =
      some "#00ff00" ∧
    (((animated [] [.number 2, .number 3]).sample straySampler).run 0).1.kind = .number ∧
    (∃ digits : List Char, digits.length = 6 ∧
      (∀ digit ∈ digits, digit ∈ lowerHexDigits) ∧
      (((animated [0] [.text "#FF8000", .text "#00ff7F"]).sample straySampler).run 0).1 =
        .text (String.ofList ('#' :: digits))) ∧
    ((animated [0, 1] [.text "2px 4px", .text "3px"]).sample straySampler).run 5 =
      pure (.text "2px 4px", 5) := by
  have areColors : AreColors ["#FF8000", "#00ff7F"] := by decide +kernel
  have unlike : AreUnlike [.text "2px 4px", .text "3px"] :=
    Or.inr ⟨["2px 4px", "3px"], rfl, by decide +kernel, "2px 4px", by simp, "3px", by simp,
      by decide +kernel⟩
  refine ⟨⟨areColors, unlike⟩, by decide +kernel, ?_, ?_, ?_⟩
  · exact (sample_keeps_kind [] (.number 2) [.number 3]).1 Nat straySampler 0
  · exact (sample_keeps_kind [0] (.text "#FF8000") [.text "#00ff7F"]).2.1 _ rfl areColors Nat
      straySampler 0
  · rw [(sample_keeps_kind [0, 1] (.text "2px 4px") [.text "3px"]).2.2 unlike (StateM Nat)
      straySampler]
    rfl

end Property
end Montage
