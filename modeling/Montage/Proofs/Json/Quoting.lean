import Montage.Json.Lexer

/-!
# Quoted strings come back

A character between quotes is written as itself, with a short escape or as a unit of
four hexadecimal digits, and reading takes each of the three forms back to the character.
So a string that is written is read as the same string, whatever follows its closing
quote; and what spells no text is read as spelling none.
-/

namespace Montage
namespace Json

open Text

/-! ## One character -/

theorem hexValue?_hexDigit (value : Nat) : hexValue? (hexDigit value) = some (value % 16) := by
  have digits : ∀ digit < 16, hexValue? (Nat.digitChar digit) = some digit := by decide
  exact digits _ (Nat.mod_lt _ (by decide))

/-- A control character comes back from its unit. -/
theorem unit?_hexByte
    {character : Char}
    (isControl : character < ' ')
    (rest : List Symbol) :
    unit? ((['0', '0'] ++ hexByte (UInt8.ofNat character.toNat)).map some ++ rest) =
      some (character.toNat, rest) := by
  have below : character.toNat < 32 := isControl
  have zero : hexValue? '0' = some 0 := by decide
  have byte : (UInt8.ofNat character.toNat).toNat = character.toNat := by
    rw [UInt8.toNat_ofNat']
    omega
  simp only [hexByte, byte, List.cons_append, List.nil_append, List.map_cons, List.map_nil,
    unit?, zero, hexValue?_hexDigit]
  congr 2
  omega

theorem ofUnit_toNat
    {character : Char}
    (isControl : character < ' ') :
    Piece.ofUnit character.toNat = .char character := by
  have below : character.toNat < 32 := isControl
  rw [Piece.ofUnit, if_neg (by omega), Char.ofNat_toNat]

/-! ## The three forms of a character -/

theorem pieces?_closing (rest : List Symbol) :
    pieces? (some '"' :: rest) = some ([], rest) := by
  rw [pieces?.eq_def]
  simp

theorem pieces?_of_escape
    {rest after : List Symbol}
    {piece : Piece}
    (escaped : escape? rest = some (piece, after)) :
    pieces? (some '\\' :: rest) =
      (pieces? after).map fun found => (piece :: found.1, found.2) := by
  rw [pieces?.eq_def]
  simp only [Char.reduceEq, if_false, if_true]
  split
  · next refused =>
      rw [escaped] at refused
      cases refused
  · next other later found =>
      obtain ⟨rfl, rfl⟩ := Prod.mk.inj (Option.some.inj (escaped.symm.trans found))
      rfl

theorem pieces?_of_raw
    {character : Char}
    (notQuote : character ≠ '"')
    (notBackslash : character ≠ '\\')
    (notControl : ¬ character < ' ')
    (rest : List Symbol) :
    pieces? (some character :: rest) =
      (pieces? rest).map fun found => (.char character :: found.1, found.2) := by
  rw [pieces?.eq_def]
  simp [notQuote, notBackslash, notControl]

/-- Every short escape that is written is one that is read, and stands for the same
character. -/
theorem escape?_of_writtenEscapes
    {character letter : Char}
    (written : writtenEscapes.lookup character = some letter)
    (rest : List Symbol) :
    escape? (some letter :: rest) = some (.char character, rest) := by
  obtain ⟨front, back, split, -⟩ := List.lookup_eq_some_iff.mp written
  have member : (character, letter) ∈ writtenEscapes := by
    rw [split]
    exact List.mem_append_right _ List.mem_cons_self
  simp only [writtenEscapes, List.mem_cons, Prod.mk.injEq, List.not_mem_nil, or_false]
    at member
  rcases member with ⟨rfl, rfl⟩ | ⟨rfl, rfl⟩ | ⟨rfl, rfl⟩ | ⟨rfl, rfl⟩ | ⟨rfl, rfl⟩ |
    ⟨rfl, rfl⟩ | ⟨rfl, rfl⟩ <;> rfl

/-- A written character is read as that character. -/
theorem pieces?_writeChar
    (character : Char)
    (rest : List Symbol) :
    pieces? ((writeChar character).map some ++ rest) =
      (pieces? rest).map fun found => (.char character :: found.1, found.2) := by
  unfold writeChar
  split
  · next letter written =>
      exact pieces?_of_escape (escape?_of_writtenEscapes written rest)
  · next plain =>
      split
      · next isControl =>
          apply pieces?_of_escape
          change escape? (some 'u' ::
            ((['0', '0'] ++ hexByte (UInt8.ofNat character.toNat)).map some ++ rest)) = _
          rw [escape?, unit?_hexByte isControl, Option.map_some, ofUnit_toNat isControl]
      · next raw =>
          have notQuote : character ≠ '"' := by
            rintro rfl
            exact absurd plain (by decide)
          have notBackslash : character ≠ '\\' := by
            rintro rfl
            exact absurd plain (by decide)
          exact pieces?_of_raw notQuote notBackslash raw rest

/-! ## Strings -/

theorem pieces?_flatMap_writeChar
    (content : List Char)
    (rest : List Symbol) :
    pieces? ((content.flatMap writeChar).map some ++ some '"' :: rest) =
      some (content.map .char, rest) := by
  induction content with
  | nil => exact pieces?_closing rest
  | cons character others inductionHypothesis =>
      rw [List.flatMap_cons, List.map_append, List.append_assoc, pieces?_writeChar,
        inductionHypothesis]
      rfl

@[simp] theorem spell_map_char (content : List Char) :
    spell (content.map .char) = some content := by
  induction content with
  | nil => rfl
  | cons character others inductionHypothesis => simp [spell, inductionHypothesis]

/-- A written string is read as that string, and what spells no text as spelling
none. -/
theorem token?_quote
    (spelled : Option String)
    (rest : List Symbol) :
    token? ((quote spelled).map some ++ rest) = some (.string spelled, rest) := by
  cases spelled with
  | none =>
      have escaped : escape? (['u', 'd', '8', '0', '0'].map some ++ some '"' :: rest) =
          some (.surrogate 0xD800, some '"' :: rest) := by
        have digits : hexValue? 'd' = some 13 ∧ hexValue? '8' = some 8 ∧
            hexValue? '0' = some 0 := by decide
        simp [escape?, unit?, digits, Piece.ofUnit]
      have read : pieces? (['\\', 'u', 'd', '8', '0', '0'].map some ++ some '"' :: rest) =
          some ([.surrogate 0xD800], rest) := by
        refine (pieces?_of_escape escaped).trans ?_
        rw [pieces?_closing]
        rfl
      simp only [quote, List.map_cons, List.map_nil, List.cons_append, List.nil_append]
        at read ⊢
      simp [token?, punctuation?, read, spell]
  | some content =>
      have read := pieces?_flatMap_writeChar content.toList rest
      simp only [quote, List.map_append, List.map_cons, List.map_nil, List.cons_append,
        List.append_assoc, List.nil_append]
      simp [token?, punctuation?, read]

end Json
end Montage
