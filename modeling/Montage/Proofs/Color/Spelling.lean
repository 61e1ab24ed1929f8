import Mathlib
import Montage.Color

/-!
# The spelling of colours

A colour is spelled by a hash mark and six hexadecimal digits of either letter case, and by
nothing else (`Color.exists_ofText?_iff`).  Writing the colour that was read gives the same
spelling in lowercase (`Color.text_of_ofText?`), and a number that stands for a channel is
rounded to this channel and to no other (`Color.channelOf_ofNat`).
-/

namespace Montage

namespace Text

/-- The hexadecimal digits with lowercase letters. -/
def lowerHexDigits : List Char :=
  ['0', '1', '2', '3', '4', '5', '6', '7', '8', '9', 'a', 'b', 'c', 'd', 'e', 'f']

/-- The hexadecimal digits with letters of either case. -/
def hexDigits : List Char :=
  lowerHexDigits ++ ['A', 'B', 'C', 'D', 'E', 'F']

/-- A character between two others is one of those with the codes in between. -/
theorem exists_ofNat_of_le_of_le
    {first character last : Char}
    (above : first ≤ character)
    (below : character ≤ last) :
    ∃ code, first.toNat ≤ code ∧ code ≤ last.toNat ∧ character = Char.ofNat code :=
  ⟨character.toNat, above, below, (Char.ofNat_toNat character).symm⟩

/-- Only hexadecimal digits have a value. -/
theorem mem_hexDigits_of_hexValue?
    {digit : Char}
    {value : Nat}
    (found : hexValue? digit = some value) :
    digit ∈ hexDigits := by
  have figures : ∀ code ∈ List.range' 48 10, Char.ofNat code ∈ hexDigits := by decide
  have small : ∀ code ∈ List.range' 97 6, Char.ofNat code ∈ hexDigits := by decide
  have large : ∀ code ∈ List.range' 65 6, Char.ofNat code ∈ hexDigits := by decide
  unfold hexValue? at found
  split at found
  · next range =>
      obtain ⟨code, above, below, rfl⟩ := exists_ofNat_of_le_of_le range.1 range.2
      exact figures code (List.mem_range'_1.mpr ⟨above, Nat.lt_succ_of_le below⟩)
  · split at found
    · next range =>
        obtain ⟨code, above, below, rfl⟩ := exists_ofNat_of_le_of_le range.1 range.2
        exact small code (List.mem_range'_1.mpr ⟨above, Nat.lt_succ_of_le below⟩)
    · split at found
      · next range =>
          obtain ⟨code, above, below, rfl⟩ := exists_ofNat_of_le_of_le range.1 range.2
          exact large code (List.mem_range'_1.mpr ⟨above, Nat.lt_succ_of_le below⟩)
      · cases found

/-- A hexadecimal digit has a value, and the digit of this value is the same digit in
lowercase. -/
theorem exists_hexValue?_of_mem
    {digit : Char}
    (isDigit : digit ∈ hexDigits) :
    ∃ value < 16, hexValue? digit = some value ∧ hexDigit value = digit.toLower := by
  fin_cases isDigit <;> exact ⟨_, by decide, rfl, by decide⟩

/-- Two hexadecimal digits spell a byte, which is written with the same digits in
lowercase. -/
theorem exists_byteOfHex?_of_mem
    {high low : Char}
    (isHigh : high ∈ hexDigits)
    (isLow : low ∈ hexDigits) :
    ∃ byte, byteOfHex? high low = some byte ∧
      hexByte byte = [high.toLower, low.toLower] := by
  obtain ⟨first, firstSmall, firstFound, firstDigit⟩ := exists_hexValue?_of_mem isHigh
  obtain ⟨second, secondSmall, secondFound, secondDigit⟩ := exists_hexValue?_of_mem isLow
  refine ⟨UInt8.ofNat (16 * first + second), by simp [byteOfHex?, firstFound, secondFound], ?_⟩
  have whole : (UInt8.ofNat (16 * first + second)).toNat = 16 * first + second :=
    UInt8.toNat_ofNat_of_lt' (by simp only [UInt8.size]; omega)
  have upper : (16 * first + second) / 16 = first := by omega
  have lower : hexDigit (16 * first + second) = hexDigit second := by
    unfold hexDigit
    rw [Nat.mul_add_mod]
  rw [hexByte, whole, upper, lower, firstDigit, secondDigit]

/-- Only hexadecimal digits spell a byte. -/
theorem mem_hexDigits_of_byteOfHex?
    {high low : Char}
    {byte : UInt8}
    (found : byteOfHex? high low = some byte) :
    high ∈ hexDigits ∧ low ∈ hexDigits := by
  unfold byteOfHex? at found
  split at found
  · next first second isHigh isLow =>
      exact ⟨mem_hexDigits_of_hexValue? isHigh, mem_hexDigits_of_hexValue? isLow⟩
  · cases found

end Text

namespace Color

open Text Number

/-- The text is a hash mark and six hexadecimal digits. -/
def IsSpelling (text : List Char) : Prop :=
  ∃ digits : List Char, text = '#' :: digits ∧ digits.length = 6 ∧
    ∀ digit ∈ digits, digit ∈ hexDigits

/-- What spells a colour is read as one, and written again in lowercase. -/
theorem exists_ofText?_of_isSpelling
    {text : List Char}
    (spelling : IsSpelling text) :
    ∃ color, ofText? text = some color ∧ color.text = text.map Char.toLower := by
  obtain ⟨digits, rfl, length, hexadecimal⟩ := spelling
  match digits, length with
  | [r₁, r₀, g₁, g₀, b₁, b₀], _ =>
      simp only [List.forall_mem_cons] at hexadecimal
      obtain ⟨isR₁, isR₀, isG₁, isG₀, isB₁, isB₀, -⟩ := hexadecimal
      obtain ⟨red, redRead, redWritten⟩ := exists_byteOfHex?_of_mem isR₁ isR₀
      obtain ⟨green, greenRead, greenWritten⟩ := exists_byteOfHex?_of_mem isG₁ isG₀
      obtain ⟨blue, blueRead, blueWritten⟩ := exists_byteOfHex?_of_mem isB₁ isB₀
      refine ⟨⟨red, green, blue⟩, by simp [ofText?, redRead, greenRead, blueRead], ?_⟩
      have mark : Char.toLower '#' = '#' := by decide
      simp [text, redWritten, greenWritten, blueWritten, mark]

/-- Exactly the spellings of colours are read. -/
theorem exists_ofText?_iff
    {text : List Char} :
    (∃ color, ofText? text = some color) ↔ IsSpelling text := by
  constructor
  · rintro ⟨color, found⟩
    unfold ofText? at found
    split at found
    · next r₁ r₀ g₁ g₀ b₁ b₀ =>
        split at found
        · next red green blue redRead greenRead blueRead =>
            obtain ⟨isR₁, isR₀⟩ := mem_hexDigits_of_byteOfHex? redRead
            obtain ⟨isG₁, isG₀⟩ := mem_hexDigits_of_byteOfHex? greenRead
            obtain ⟨isB₁, isB₀⟩ := mem_hexDigits_of_byteOfHex? blueRead
            refine ⟨[r₁, r₀, g₁, g₀, b₁, b₀], rfl, rfl, ?_⟩
            simp [isR₁, isR₀, isG₁, isG₀, isB₁, isB₀]
        · cases found
    · cases found
  · intro spelling
    obtain ⟨color, found, -⟩ := exists_ofText?_of_isSpelling spelling
    exact ⟨color, found⟩

instance (text : List Char) : Decidable (IsSpelling text) :=
  decidable_of_iff ((ofText? text).isSome = true)
    (Option.isSome_iff_exists.trans exists_ofText?_iff)

theorem ofText?_eq_none_iff
    {text : List Char} :
    ofText? text = none ↔ ¬ IsSpelling text := by
  rw [← exists_ofText?_iff, ← Option.isSome_iff_exists, Option.not_isSome_iff_eq_none]

/-- A colour that was read is written in lowercase. -/
theorem text_of_ofText?
    {text : List Char}
    {color : Color}
    (found : ofText? text = some color) :
    color.text = text.map Char.toLower := by
  obtain ⟨other, otherFound, written⟩ :=
    exists_ofText?_of_isSpelling (exists_ofText?_iff.mp ⟨color, found⟩)
  obtain rfl := Option.some.inj (found.symm.trans otherFound)
  exact written

/-- A byte is written with two lowercase digits. -/
theorem hexByte_subset_lowerHexDigits
    (byte : UInt8) :
    ∀ digit ∈ hexByte byte, digit ∈ lowerHexDigits := by
  have each : ∀ value < 16, Nat.digitChar value ∈ lowerHexDigits := by decide
  intro digit member
  simp only [hexByte, hexDigit, List.mem_cons, List.not_mem_nil, or_false] at member
  rcases member with rfl | rfl
  · exact each _ (Nat.mod_lt _ (by decide))
  · exact each _ (Nat.mod_lt _ (by decide))

/-- Every colour is written as a hash mark and six lowercase digits. -/
theorem exists_text_eq
    (color : Color) :
    ∃ digits : List Char, color.text = '#' :: digits ∧ digits.length = 6 ∧
      ∀ digit ∈ digits, digit ∈ lowerHexDigits := by
  refine ⟨hexByte color.red ++ hexByte color.green ++ hexByte color.blue, rfl, rfl, ?_⟩
  simp only [List.forall_mem_append]
  exact ⟨⟨hexByte_subset_lowerHexDigits _, hexByte_subset_lowerHexDigits _⟩,
    hexByte_subset_lowerHexDigits _⟩

/-- A number that stands for a channel is rounded to this channel. -/
theorem channelOf_ofNat
    (channel : UInt8) :
    channelOf (Float.ofNat channel.toNat) = channel := by
  -- There are only so many channels.
  have each : ∀ value < 256, channelOf (Float.ofNat value) = UInt8.ofNat value := by
    decide +kernel
  rw [each channel.toNat channel.toNat_lt, UInt8.ofNat_toNat]

end Color
end Montage
