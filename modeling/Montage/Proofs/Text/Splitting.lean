import Mathlib.Data.List.DropRight
import Montage.Text.Split

/-!
# What cutting and trimming leave behind

The stretches between separators are those of `List.splitOn`; a cut falls at the first
separator, and brackets enclose what they are removed from.  Trimming takes blanks away at
both ends and nothing else, so that the items of a body can be told without trimming the
body first.
-/

namespace Montage
namespace Text

/-! ## Separators -/

theorem pieces_eq_splitOn
    (separator : Char)
    (text : List Char) :
    pieces separator text = text.splitOn separator := by
  induction text with
  | nil => rfl
  | cons first rest inductionHypothesis =>
      rw [List.splitOn, List.splitOnP_cons_eq_if_modifyHead, ← List.splitOn,
        ← inductionHypothesis, pieces]
      by_cases isSeparator : first = separator
      · simp [isSeparator]
      · rw [if_neg isSeparator, if_neg (by simpa using isSeparator)]
        cases found : pieces separator rest with
        | nil => exact absurd found (pieces_ne_nil separator rest)
        | cons piece others => rfl

/-- A cut falls at the first separator. -/
theorem cut_eq_some_iff
    {separator : Char}
    {text before after : List Char} :
    cut separator text = some (before, after) ↔
      text = before ++ separator :: after ∧ separator ∉ before := by
  induction text generalizing before with
  | nil => simp
  | cons first rest inductionHypothesis =>
      rw [cut]
      by_cases isSeparator : first = separator
      · subst isSeparator
        cases before with
        | nil => simp
        | cons head tail =>
            simp only [if_true, Option.some.injEq, Prod.mk.injEq, List.nil_eq,
              reduceCtorEq, false_and, List.cons_append, List.cons.injEq, List.mem_cons,
              not_or, false_iff, not_and]
            rintro ⟨rfl, -⟩ different
            exact absurd rfl different
      · rw [if_neg isSeparator, Option.map_eq_some_iff]
        cases before with
        | nil => simp [isSeparator]
        | cons head tail =>
            simp only [Prod.exists, Prod.mk.injEq, List.cons.injEq, List.cons_append,
              List.mem_cons, not_or]
            constructor
            · rintro ⟨_, _, found, ⟨rfl, rfl⟩, rfl⟩
              obtain ⟨rfl, absent⟩ := inductionHypothesis.mp found
              exact ⟨⟨rfl, rfl⟩, Ne.symm isSeparator, absent⟩
            · rintro ⟨⟨rfl, same⟩, -, absent⟩
              exact ⟨tail, after, inductionHypothesis.mpr ⟨same, absent⟩, ⟨rfl, rfl⟩, rfl⟩

theorem cut_eq_none_iff
    {separator : Char}
    {text : List Char} :
    cut separator text = none ↔ separator ∉ text := by
  induction text with
  | nil => simp
  | cons first rest inductionHypothesis =>
      rw [cut]
      by_cases isSeparator : first = separator
      · simp [isSeparator]
      · simp [isSeparator, inductionHypothesis, Ne.symm isSeparator]

/-- Brackets enclose the text that they are removed from. -/
theorem within_eq_some_iff
    {opening closing : Char}
    {text body : List Char} :
    within opening closing text = some body ↔ text = opening :: (body ++ [closing]) := by
  cases text with
  | nil => simp [within]
  | cons first rest =>
      rw [within]
      constructor
      · intro found
        split at found
        · next brackets =>
            cases found
            rw [brackets.1, List.dropLast_append_getLast? _ brackets.2]
        · cases found
      · rintro ⟨⟩
        simp

theorem within_eq_none_iff
    {opening closing : Char}
    {text : List Char} :
    within opening closing text = none ↔ ∀ body, text ≠ opening :: (body ++ [closing]) := by
  simp only [Option.eq_none_iff_forall_ne_some, ne_eq, within_eq_some_iff]

/-! ## Blanks -/

/-- A text of blanks only. -/
def AreBlank (text : List Char) : Prop :=
  ∀ character ∈ text, isBlank character = true

theorem trimStart_append_of_areBlank
    {blanks : List Char}
    (areBlank : AreBlank blanks)
    (text : List Char) :
    trimStart (blanks ++ text) = trimStart text :=
  List.dropWhile_append_of_pos areBlank

theorem trimEnd_append_of_areBlank
    {blanks : List Char}
    (areBlank : AreBlank blanks)
    (text : List Char) :
    trimEnd (text ++ blanks) = trimEnd text := by
  rw [trimEnd, List.reverse_append, List.dropWhile_append_of_pos, trimEnd]
  simpa [AreBlank] using areBlank

theorem trim_append_left_of_areBlank
    {blanks : List Char}
    (areBlank : AreBlank blanks)
    (text : List Char) :
    trim (blanks ++ text) = trim text := by
  rw [trim, trimStart_append_of_areBlank areBlank, trim]

theorem trim_append_right_of_areBlank
    {blanks : List Char}
    (areBlank : AreBlank blanks)
    (text : List Char) :
    trim (text ++ blanks) = trim text := by
  rw [trim, trim, trimStart, List.dropWhile_append]
  split
  · next allBlank =>
      have none : blanks.dropWhile isBlank = [] := List.dropWhile_eq_nil_iff.mpr areBlank
      rw [none, trimStart, List.isEmpty_iff.mp allBlank]
  · rw [trimEnd_append_of_areBlank areBlank, trimStart]

/-- Trimming takes away blanks in front of the text and behind it. -/
theorem exists_append_trim (text : List Char) :
    ∃ front back, AreBlank front ∧ AreBlank back ∧ text = front ++ (trim text ++ back) := by
  refine ⟨text.takeWhile isBlank, (trimStart text).rtakeWhile isBlank, ?_, ?_, ?_⟩
  · exact fun character member => List.mem_takeWhile_imp member
  · exact fun character member => List.mem_rtakeWhile_imp member
  · have kept : trim text ++ (trimStart text).rtakeWhile isBlank = trimStart text :=
      List.rdropWhile_append_rtakeWhile ..
    rw [kept, trimStart, List.takeWhile_append_dropWhile]

theorem trim_pad
    {before after : List Char}
    (beforeBlank : AreBlank before)
    (afterBlank : AreBlank after)
    (text : List Char) :
    trim (before ++ (text ++ after)) = trim text := by
  rw [trim_append_left_of_areBlank beforeBlank, trim_append_right_of_areBlank afterBlank]

theorem trim_eq_nil_of_areBlank
    {text : List Char}
    (areBlank : AreBlank text) :
    trim text = [] := by
  simpa using trim_append_right_of_areBlank areBlank []

/-- A trimmed text has nothing left to be trimmed. -/
theorem trim_trim (text : List Char) : trim (trim text) = trim text := by
  obtain ⟨front, back, frontBlank, backBlank, whole⟩ := exists_append_trim text
  conv_rhs => rw [whole, trim_pad frontBlank backBlank]

/-- A trimmed text does not end with a blank. -/
theorem isBlank_getLast_trim
    {text : List Char}
    {last : Char}
    (ends : (trim text).getLast? = some last) :
    isBlank last = false := by
  have shape : trim text = (trimStart text).rdropWhile isBlank := rfl
  obtain ⟨notEmpty, rfl⟩ := List.mem_getLast?_eq_getLast (shape ▸ ends)
  simpa using List.rdropWhile_last_not isBlank (trimStart text) notEmpty

/-! ## Items -/

theorem pieces_of_not_mem
    {separator : Char}
    {text : List Char}
    (absent : separator ∉ text) :
    pieces separator text = [text] := by
  rw [pieces_eq_splitOn, List.splitOn, List.splitOnP_eq_singleton]
  intro character member
  simpa using ne_of_mem_of_not_mem member absent

/-- What is written behind a text goes to its last piece. -/
theorem exists_pieces_append_of_not_mem
    {separator : Char}
    {addition : List Char}
    (absent : separator ∉ addition)
    (text : List Char) :
    ∃ front last, pieces separator text = front ++ [last] ∧
      pieces separator (text ++ addition) = front ++ [last ++ addition] := by
  induction text with
  | nil => exact ⟨[], [], rfl, pieces_of_not_mem absent⟩
  | cons first rest inductionHypothesis =>
      obtain ⟨front, last, short, long⟩ := inductionHypothesis
      by_cases isSeparator : first = separator
      · refine ⟨[] :: front, last, ?_, ?_⟩
        · simp [pieces, isSeparator, short]
        · simp [pieces, isSeparator, long]
      · cases front with
        | nil =>
            refine ⟨[], first :: last, ?_, ?_⟩
            · simp [pieces, isSeparator, short]
            · simp [pieces, isSeparator, long]
        | cons piece others =>
            refine ⟨(first :: piece) :: others, last, ?_, ?_⟩
            · simp [pieces, isSeparator, short]
            · simp [pieces, isSeparator, long]

section TrimmedPieces

variable {separator : Char} {blanks : List Char}

theorem not_mem_of_areBlank
    (areBlank : AreBlank blanks)
    (notBlank : isBlank separator = false) :
    separator ∉ blanks := by
  intro member
  exact absurd (areBlank separator member) (by simp [notBlank])

theorem map_trim_pieces_append_left
    (areBlank : AreBlank blanks)
    (notBlank : isBlank separator = false)
    (text : List Char) :
    (pieces separator (blanks ++ text)).map trim = (pieces separator text).map trim := by
  induction blanks with
  | nil => rfl
  | cons blank others inductionHypothesis =>
      obtain ⟨isBlank, areOthersBlank⟩ := List.forall_mem_cons.mp areBlank
      have different : blank ≠ separator := by
        rintro rfl
        simp [isBlank] at notBlank
      rw [← inductionHypothesis areOthersBlank, List.cons_append, pieces, if_neg different]
      cases found : pieces separator (others ++ text) with
      | nil => exact absurd found (pieces_ne_nil _ _)
      | cons piece later =>
          have single : AreBlank [blank] := by simpa [AreBlank] using isBlank
          have trimmed : trim (blank :: piece) = trim piece :=
            trim_append_left_of_areBlank single piece
          simp [trimmed]

theorem map_trim_pieces_append_right
    (areBlank : AreBlank blanks)
    (notBlank : isBlank separator = false)
    (text : List Char) :
    (pieces separator (text ++ blanks)).map trim = (pieces separator text).map trim := by
  obtain ⟨front, last, short, long⟩ :=
    exists_pieces_append_of_not_mem (not_mem_of_areBlank areBlank notBlank) text
  simp [short, long, trim_append_right_of_areBlank areBlank]

end TrimmedPieces

/-- The items of a body are its trimmed pieces between commas, and a blank body has
none. -/
theorem items_eq (body : List Char) :
    items body = if trim body = [] then [] else (body.splitOn ',').map trim := by
  obtain ⟨front, back, frontBlank, backBlank, whole⟩ := exists_append_trim body
  have notBlank : isBlank ',' = false := by decide
  have trimmed : (pieces ',' (trim body)).map trim = (pieces ',' body).map trim := by
    conv_rhs => rw [whole]
    rw [map_trim_pieces_append_left frontBlank notBlank,
      map_trim_pieces_append_right backBlank notBlank]
  rw [← pieces_eq_splitOn, ← trimmed, items]
  cases trim body with
  | nil => rfl
  | cons first rest => rfl

end Text
end Montage
