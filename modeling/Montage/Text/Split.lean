import Montage.Text.Blank

/-!
# Cutting a text at a separator

A text is cut at every occurrence of a separator (`pieces`), at the first one only
(`cut`), or freed of a pair of brackets (`within`).  A comma-separated body is read
by `items`, for which a blank body holds no item at all.
-/

namespace Montage
namespace Text

/-- The stretches between the occurrences of `separator`; there is always one more
of them than there are separators. -/
def pieces (separator : Char) : List Char → List (List Char)
  | [] => [[]]
  | first :: rest =>
      if first = separator then
        [] :: pieces separator rest
      else
        match pieces separator rest with
        | [] => [[first]]
        | piece :: others => (first :: piece) :: others

/-- What stands before and after the first occurrence of `separator`. -/
def cut (separator : Char) : List Char → Option (List Char × List Char)
  | [] => none
  | first :: rest =>
      if first = separator then
        some ([], rest)
      else
        (cut separator rest).map fun sides => (first :: sides.1, sides.2)

/-- The inside of a text that starts with `opening` and ends, at a later place,
with `closing`. -/
def within (opening closing : Char) : List Char → Option (List Char)
  | [] => none
  | first :: rest =>
      if first = opening ∧ rest.getLast? = some closing then
        some rest.dropLast
      else
        none

/-- The trimmed entries of a comma-separated body; a blank body has none. -/
def items (body : List Char) : List (List Char) :=
  match trim body with
  | [] => []
  | first :: rest => (pieces ',' (first :: rest)).map trim

theorem pieces_ne_nil (separator : Char) (text : List Char) :
    pieces separator text ≠ [] := by
  cases text with
  | nil => simp [pieces]
  | cons first rest =>
      rw [pieces]
      split
      · simp
      · split <;> simp

@[simp] theorem cut_nil (separator : Char) : cut separator [] = none := rfl

end Text
end Montage
