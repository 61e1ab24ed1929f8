import Montage.Proofs.Element.Batches
import Montage.Proofs.Number.Spelling
import Montage.Proofs.Text.Splitting

/-!
# The grammar of animations

A text that starts with the mark of animations is accepted exactly when two bracketed lists
follow, the first of finite numbers, and both of the same length of at least two.  The
first closing bracket ends the first list, the last character of the text ends the second
one, and blanks may stand before each of the marks between them (`HasBodies`).  Of the
faults of any other text the shape is reported first, then the first instant that is none,
then different lengths, and then too few keyframes (`Animates`).
-/

namespace Montage
namespace Property

open Text Number

/-! ## The shape -/

/-- The text is the mark of animations followed by the two bodies in brackets. -/
def HasBodies (text instants values : List Char) : Prop :=
  ∃ beforeInstants beforeColon beforeValues,
    AreBlank beforeInstants ∧ AreBlank beforeColon ∧ AreBlank beforeValues ∧
      ']' ∉ instants ∧
        text = mark ++ (beforeInstants ++ '[' :: (instants ++ ']' ::
          (beforeColon ++ ':' :: (beforeValues ++ '[' :: (values ++ [']'])))))

theorem trimStart_cons
    {first : Char}
    (notBlank : isBlank first = false)
    (rest : List Char) :
    trimStart (first :: rest) = first :: rest := by
  simp [trimStart, notBlank]

theorem exists_append_trimStart (text : List Char) :
    ∃ front, AreBlank front ∧ text = front ++ trimStart text :=
  ⟨text.takeWhile isBlank, fun _ member => List.mem_takeWhile_imp member,
    List.takeWhile_append_dropWhile.symm⟩

theorem trim_enclosed
    {opening closing : Char}
    (openingNotBlank : isBlank opening = false)
    (closingNotBlank : isBlank closing = false)
    (body : List Char) :
    trim (opening :: (body ++ [closing])) = opening :: (body ++ [closing]) := by
  rw [trim, trimStart_cons openingNotBlank, trimEnd]
  simp [closingNotBlank]

theorem trim_brackets (body : List Char) :
    trim ('[' :: (body ++ [']'])) = '[' :: (body ++ [']']) :=
  trim_enclosed (by decide) (by decide) body

theorem trim_braces (body : List Char) :
    trim ('{' :: (body ++ ['}'])) = '{' :: (body ++ ['}']) :=
  trim_enclosed (by decide) (by decide) body

/-- Blanks at the end of a text that does not end with a blank are none. -/
theorem eq_nil_of_areBlank
    {text blanks : List Char}
    (notBlank : ∀ last, text.getLast? = some last → isBlank last = false)
    (isSuffix : blanks <:+ text)
    (areBlank : AreBlank blanks) :
    blanks = [] := by
  obtain ⟨front, rfl⟩ := isSuffix
  rcases List.eq_nil_or_concat blanks with rfl | ⟨others, last, rfl⟩
  · rfl
  · have isBlank := areBlank last (by simp)
    rw [notBlank last (by simp)] at isBlank
    cases isBlank

theorem hasBodies_of_animationBodies?
    {afterMark instants values : List Char}
    (notBlank : ∀ last, afterMark.getLast? = some last → isBlank last = false)
    (found : animationBodies? afterMark = some (instants, values)) :
    HasBodies (mark ++ afterMark) instants values := by
  obtain ⟨beforeInstants, firstBlank, opened⟩ := exists_append_trimStart afterMark
  unfold animationBodies? at found
  split at found
  · next afterOpening trimmed =>
      rw [trimmed] at opened
      split at found
      · cases found
      · next body afterInstants isCut =>
          obtain ⟨rfl, noBracket⟩ := cut_eq_some_iff.mp isCut
          obtain ⟨beforeColon, secondBlank, closed⟩ := exists_append_trimStart afterInstants
          split at found
          · next afterColon colon =>
              rw [colon] at closed
              obtain ⟨inner, enclosed, same⟩ := Option.map_eq_some_iff.mp found
              obtain ⟨rfl, rfl⟩ := Prod.mk.inj same
              obtain ⟨beforeValues, back, thirdBlank, backBlank, whole⟩ :=
                exists_append_trim afterColon
              rw [within_eq_some_iff.mp enclosed] at whole
              subst whole closed opened
              -- The trimmed text does not end with a blank, so that the last bracket ends it.
              obtain rfl := eq_nil_of_areBlank notBlank
                ⟨beforeInstants ++ '[' :: (body ++ ']' :: (beforeColon ++ ':' ::
                  (beforeValues ++ '[' :: (inner ++ [']'])))), by simp⟩ backBlank
              refine ⟨beforeInstants, beforeColon, beforeValues, firstBlank, secondBlank,
                thirdBlank, noBracket, ?_⟩
              simp
          · cases found
  · cases found

theorem animationBodies?_of_hasBodies
    {afterMark instants values : List Char}
    (hasBodies : HasBodies (mark ++ afterMark) instants values) :
    animationBodies? afterMark = some (instants, values) := by
  obtain ⟨beforeInstants, beforeColon, beforeValues, firstBlank, secondBlank, thirdBlank,
    noBracket, whole⟩ := hasBodies
  obtain rfl := List.append_cancel_left whole
  have isCut : ∀ after, cut ']' (instants ++ ']' :: after) = some (instants, after) :=
    fun after => cut_eq_some_iff.mpr ⟨rfl, noBracket⟩
  simp only [animationBodies?, trimStart_append_of_areBlank firstBlank,
    trimStart_cons (show isBlank '[' = false by decide), isCut,
    trimStart_append_of_areBlank secondBlank,
    trimStart_cons (show isBlank ':' = false by decide),
    trim_append_left_of_areBlank thirdBlank, trim_brackets]
  rw [within_eq_some_iff.mpr rfl, Option.map_some]

/-- The bodies that are found are those of the shape. -/
theorem animationBodies?_eq_some_iff
    {afterMark instants values : List Char}
    (notBlank : ∀ last, afterMark.getLast? = some last → isBlank last = false) :
    animationBodies? afterMark = some (instants, values) ↔
      HasBodies (mark ++ afterMark) instants values :=
  ⟨hasBodies_of_animationBodies? notBlank, animationBodies?_of_hasBodies⟩

/-! ## Instants -/

/-- The token spells a finite number. -/
def IsInstant
    (token : List Char)
    (amount : Float) : Prop :=
  Spells token amount ∧ amount.isFinite = true

theorem instant?_eq_some_iff
    {token : List Char}
    {amount : Float} :
    instant? token = some amount ↔ IsInstant token amount := by
  unfold instant? IsInstant
  constructor
  · intro found
    cases read : Numeral.free? token with
    | none => simp [read] at found
    | some numeral =>
        simp only [read, Option.ite_none_right_eq_some, Option.some.injEq] at found
        obtain ⟨finite, rfl⟩ := found
        exact ⟨(spells_finite_iff finite).mpr ⟨numeral, read, rfl⟩, finite⟩
  · rintro ⟨spells, finite⟩
    obtain ⟨numeral, read, rfl⟩ := (spells_finite_iff finite).mp spells
    simp [read, finite]

theorem instant?_eq_none_iff {token : List Char} :
    instant? token = none ↔ ∀ amount, ¬ IsInstant token amount := by
  simp only [Option.eq_none_iff_forall_ne_some, ne_eq, instant?_eq_some_iff]

/-- The token is the first of the tokens that spells no finite number. -/
def IsFirstBad
    (tokens : List (List Char))
    (token : List Char) : Prop :=
  ∃ front back, tokens = front ++ token :: back ∧
    (∀ earlier ∈ front, ∃ amount, IsInstant earlier amount) ∧
      ∀ amount, ¬ IsInstant token amount

section Instants

variable {key : String}

theorem readInstants_cons_of_none
    {token : List Char}
    (bad : instant? token = none)
    (rest : List (List Char)) :
    readInstants key (token :: rest) = .error (.badInstant key (String.ofList token)) := by
  rw [readInstants, bad]

theorem readInstants_cons_of_some
    {token : List Char}
    {amount : Float}
    (read : instant? token = some amount)
    (rest : List (List Char)) :
    readInstants key (token :: rest) = (readInstants key rest).map (amount :: ·) := by
  rw [readInstants, read]
  cases readInstants key rest <;> rfl

/-- The instants are read when every token is one. -/
theorem readInstants_of_forall₂
    {tokens : List (List Char)}
    {instants : List Float}
    (areInstants : List.Forall₂ IsInstant tokens instants) :
    readInstants key tokens = .ok instants := by
  induction areInstants with
  | nil => rfl
  | cons isInstant _ inductionHypothesis =>
      rw [readInstants_cons_of_some (instant?_eq_some_iff.mpr isInstant), inductionHypothesis]
      rfl

/-- The first token that is no instant is reported. -/
theorem readInstants_of_isFirstBad
    {tokens : List (List Char)}
    {token : List Char}
    (firstBad : IsFirstBad tokens token) :
    readInstants key tokens = .error (.badInstant key (String.ofList token)) := by
  obtain ⟨front, back, rfl, instants, bad⟩ := firstBad
  induction front with
  | nil => exact readInstants_cons_of_none (instant?_eq_none_iff.mpr bad) back
  | cons earlier others inductionHypothesis =>
      obtain ⟨⟨amount, isInstant⟩, later⟩ := List.forall_mem_cons.mp instants
      rw [List.cons_append, readInstants_cons_of_some (instant?_eq_some_iff.mpr isInstant),
        inductionHypothesis later]
      rfl

/-- Either every token is an instant, or there is a first one that is none. -/
theorem forall₂_or_isFirstBad (tokens : List (List Char)) :
    (∃ instants, List.Forall₂ IsInstant tokens instants) ∨
      ∃ token, IsFirstBad tokens token := by
  induction tokens with
  | nil => exact Or.inl ⟨[], .nil⟩
  | cons token rest inductionHypothesis =>
      cases read : instant? token with
      | none =>
          exact Or.inr ⟨token, [], rest, rfl, List.forall_mem_nil _,
            instant?_eq_none_iff.mp read⟩
      | some amount =>
          have isInstant := instant?_eq_some_iff.mp read
          rcases inductionHypothesis with ⟨instants, areInstants⟩ | ⟨bad, front, back, firstBad⟩
          · exact Or.inl ⟨amount :: instants, .cons isInstant areInstants⟩
          · obtain ⟨rfl, earlier, noInstant⟩ := firstBad
            exact Or.inr ⟨bad, token :: front, back, rfl,
              List.forall_mem_cons.mpr ⟨⟨amount, isInstant⟩, earlier⟩, noInstant⟩

theorem readInstants_eq_ok_iff
    {tokens : List (List Char)}
    {instants : List Float} :
    readInstants key tokens = .ok instants ↔ List.Forall₂ IsInstant tokens instants := by
  constructor
  · intro read
    rcases forall₂_or_isFirstBad tokens with ⟨found, areInstants⟩ | ⟨token, firstBad⟩
    · rw [readInstants_of_forall₂ areInstants] at read
      cases read
      exact areInstants
    · rw [readInstants_of_isFirstBad firstBad] at read
      cases read
  · exact readInstants_of_forall₂

end Instants

/-! ## Outcomes -/

/-- The entries of a body: none when it is blank, and otherwise what stands between its
commas, trimmed. -/
def entriesOf (body : List Char) : List (List Char) :=
  if trim body = [] then [] else (body.splitOn ',').map trim

theorem items_eq_entriesOf (body : List Char) : items body = entriesOf body :=
  items_eq body

/-- What a text with the mark of animations comes to. -/
inductive Animates (key : String) (text : List Char) : Except Fault Property → Prop
  /-- The text does not have the shape of an animation. -/
  | malformed :
      (∀ instants values, ¬ HasBodies text instants values) →
      Animates key text (.error (.malformedAnimation key))
  /-- An instant is no finite number; the first one counts. -/
  | badInstant (instants values token : List Char) :
      HasBodies text instants values →
      IsFirstBad (entriesOf instants) token →
      Animates key text (.error (.badInstant key (String.ofList token)))
  /-- There are not as many values as instants. -/
  | countMismatch (instants values : List Char) (amounts : List Float) :
      HasBodies text instants values →
      List.Forall₂ IsInstant (entriesOf instants) amounts →
      (entriesOf instants).length ≠ (entriesOf values).length →
      Animates key text
        (.error (.countMismatch key (entriesOf instants).length (entriesOf values).length))
  /-- There are as many values as instants, but fewer than two. -/
  | tooFewKeyframes (instants values : List Char) (amounts : List Float) :
      HasBodies text instants values →
      List.Forall₂ IsInstant (entriesOf instants) amounts →
      (entriesOf instants).length = (entriesOf values).length →
      (entriesOf instants).length < 2 →
      Animates key text (.error (.tooFewKeyframes key (entriesOf instants).length))
  /-- An animation. -/
  | animated (instants values : List Char) (amounts : List Float) :
      HasBodies text instants values →
      List.Forall₂ IsInstant (entriesOf instants) amounts →
      (entriesOf instants).length = (entriesOf values).length →
      2 ≤ (entriesOf instants).length →
      Animates key text (.ok (.animated amounts ((entriesOf values).map Value.ofPlainText)))

section Outcomes

variable {key : String} {afterMark : List Char}

theorem readAnimation_of_bodies
    {instants values : List Char}
    (found : animationBodies? afterMark = some (instants, values)) :
    readAnimation key afterMark =
      readInstants key (entriesOf instants) >>= fun amounts =>
        if amounts.length ≠ (entriesOf values).length then
          .error (.countMismatch key amounts.length (entriesOf values).length)
        else if amounts.length < 2 then
          .error (.tooFewKeyframes key amounts.length)
        else
          .ok (.animated amounts ((entriesOf values).map Value.ofPlainText)) := by
  rw [readAnimation, found]
  simp only [items_eq_entriesOf, List.length_map]
  rfl

/-- Whatever a text comes to is what is read. -/
theorem readAnimation_of_animates
    (notBlank : ∀ last, afterMark.getLast? = some last → isBlank last = false)
    {outcome : Except Fault Property}
    (animates : Animates key (mark ++ afterMark) outcome) :
    readAnimation key afterMark = outcome := by
  cases animates with
  | malformed shapeless =>
      have absent : animationBodies? afterMark = none := by
        apply Option.eq_none_iff_forall_ne_some.mpr
        rintro ⟨instants, values⟩ found
        exact shapeless instants values ((animationBodies?_eq_some_iff notBlank).mp found)
      rw [readAnimation, absent]
  | badInstant instants values token shape firstBad =>
      rw [readAnimation_of_bodies ((animationBodies?_eq_some_iff notBlank).mpr shape),
        readInstants_of_isFirstBad firstBad]
      rfl
  | countMismatch instants values amounts shape areInstants different =>
      rw [readAnimation_of_bodies ((animationBodies?_eq_some_iff notBlank).mpr shape),
        readInstants_of_forall₂ areInstants]
      rw [areInstants.length_eq] at different ⊢
      exact if_pos different
  | tooFewKeyframes instants values amounts shape areInstants same few =>
      rw [readAnimation_of_bodies ((animationBodies?_eq_some_iff notBlank).mpr shape),
        readInstants_of_forall₂ areInstants]
      rw [areInstants.length_eq] at same few ⊢
      exact (if_neg (not_not.mpr same)).trans (if_pos few)
  | animated instants values amounts shape areInstants same enough =>
      rw [readAnimation_of_bodies ((animationBodies?_eq_some_iff notBlank).mpr shape),
        readInstants_of_forall₂ areInstants]
      rw [areInstants.length_eq] at same enough
      exact (if_neg (not_not.mpr same)).trans (if_neg (Nat.not_lt.mpr enough))

/-- Every text with the mark comes to something. -/
theorem exists_animates
    (key : String)
    (text : List Char) :
    ∃ outcome, Animates key text outcome := by
  by_cases shape : ∃ instants values, HasBodies text instants values
  · obtain ⟨instants, values, shape⟩ := shape
    rcases forall₂_or_isFirstBad (entriesOf instants) with ⟨amounts, areInstants⟩ |
      ⟨token, firstBad⟩
    · by_cases same : (entriesOf instants).length = (entriesOf values).length
      · by_cases few : (entriesOf instants).length < 2
        · exact ⟨_, .tooFewKeyframes instants values amounts shape areInstants same few⟩
        · exact ⟨_, .animated instants values amounts shape areInstants same
            (Nat.le_of_not_lt few)⟩
      · exact ⟨_, .countMismatch instants values amounts shape areInstants same⟩
    · exact ⟨_, .badInstant instants values token shape firstBad⟩
  · exact ⟨_, .malformed fun instants values found => shape ⟨instants, values, found⟩⟩

/-- Reading a property whose trimmed text starts with the mark of animations comes to what the
grammar says, and to nothing else. -/
theorem read_eq_iff_animates
    {source : List Char}
    (marked : mark <+: trim source)
    (key : String)
    (outcome : Except Fault Property) :
    Property.read key source = outcome ↔ Animates key (trim source) outcome := by
  obtain ⟨afterMark, whole⟩ := marked
  have notBlank : ∀ last, afterMark.getLast? = some last → isBlank last = false := by
    intro last ends
    have endsSource : (trim source).getLast? = some last := by
      rw [← whole, List.getLast?_append, ends, Option.some_or]
    exact isBlank_getLast_trim endsSource
  have read : Property.read key source = readAnimation key afterMark := by
    simp only [Property.read, List.isPrefixOf?_eq_some_iff_append_eq.mpr whole]
  rw [read, ← whole]
  constructor
  · rintro rfl
    obtain ⟨outcome, animates⟩ := exists_animates key (mark ++ afterMark)
    rwa [readAnimation_of_animates notBlank animates]
  · exact readAnimation_of_animates notBlank

/-- Blanks around the brackets, an opening bracket inside the first list, and a closing one
inside the second. -/
def loosePulse : List Char :=
  "  @animate [ +.5, 1e0 ] : [ a],-2 ] ".toList

theorem animates_loosePulse :
    mark <+: trim loosePulse ∧
      Animates "alpha" (trim loosePulse)
        (.ok (.animated [0.5, 1.0] [.text "a]", .number (-2.0)])) := by
  have marked : mark <+: trim loosePulse := by decide
  exact ⟨marked, (read_eq_iff_animates marked "alpha" _).mp (by rfl)⟩

end Outcomes
end Property
end Montage
