import Mathlib.Data.List.Find
import Montage.Proofs.Template.Runs
import Montage.Template.Walk

/-!
# Numbers and units among bytes

In the bytes of a text a byte below 128 is always a character of its own.  The digits, the
minus, the point and the units are such bytes, so that what the bytes of a text start with
is what its characters start with: the same number (`numberLength?_bytesOf`), and behind it
the same unit (`unitLength_bytesOf`).
-/

namespace Montage
namespace Template

open Number

/-! ## Bytes of characters -/

theorem bytesOf_append (front back : List Char) :
    bytesOf (front ++ back) = bytesOf front ++ bytesOf back :=
  List.flatMap_append

theorem bytesOf_cons
    (first : Char)
    (rest : List Char) :
    bytesOf (first :: rest) = String.utf8EncodeChar first ++ bytesOf rest :=
  List.flatMap_cons

/-- A character is either a single byte below 128, or a row of bytes from 128 on. -/
theorem utf8EncodeChar_cases (character : Char) :
    (character.toNat < 128 ∧
        String.utf8EncodeChar character = [UInt8.ofNat character.toNat]) ∨
      (128 ≤ character.toNat ∧
        ∀ byte ∈ String.utf8EncodeChar character, 128 ≤ byte.toNat) := by
  have value : character.toNat = character.val.toNat := rfl
  by_cases single : character.toNat < 128
  · refine Or.inl ⟨single, ?_⟩
    rw [String.utf8EncodeChar, if_pos (by omega), value]
  · refine Or.inr ⟨by omega, ?_⟩
    rw [String.utf8EncodeChar, if_neg (by omega)]
    intro byte member
    split at member
    · simp only [List.mem_cons, List.not_mem_nil, or_false] at member
      rcases member with rfl | rfl <;> rw [UInt8.toNat_ofNat'] <;> omega
    · split at member
      · simp only [List.mem_cons, List.not_mem_nil, or_false] at member
        rcases member with rfl | rfl | rfl <;> rw [UInt8.toNat_ofNat'] <;> omega
      · simp only [List.mem_cons, List.not_mem_nil, or_false] at member
        rcases member with rfl | rfl | rfl | rfl <;> rw [UInt8.toNat_ofNat'] <;> omega

/-- All characters are below 128. -/
def AreAscii (text : List Char) : Prop :=
  ∀ character ∈ text, character.toNat < 128

theorem bytesOf_cons_of_ascii
    {first : Char}
    (isAscii : first.toNat < 128)
    (rest : List Char) :
    bytesOf (first :: rest) = UInt8.ofNat first.toNat :: bytesOf rest := by
  rcases utf8EncodeChar_cases first with ⟨-, single⟩ | ⟨high, -⟩
  · rw [bytesOf_cons, single, List.singleton_append]
  · omega

theorem utf8EncodeChar_ne_nil (character : Char) : String.utf8EncodeChar character ≠ [] := by
  rw [← List.length_pos_iff, String.length_utf8EncodeChar]
  exact Char.utf8Size_pos character

theorem bytesOf_ne_nil
    {text : List Char}
    (nonempty : text ≠ []) :
    bytesOf text ≠ [] := by
  obtain ⟨first, rest, rfl⟩ := List.exists_cons_of_ne_nil nonempty
  rw [bytesOf_cons]
  exact List.append_ne_nil_of_left_ne_nil (utf8EncodeChar_ne_nil first) _

/-- Beyond 128 a character starts with a byte from 128 on. -/
theorem exists_bytesOf_cons_of_high
    {first : Char}
    (high : 128 ≤ first.toNat)
    (rest : List Char) :
    ∃ byte bytes, bytesOf (first :: rest) = byte :: bytes ∧ 128 ≤ byte.toNat := by
  rcases utf8EncodeChar_cases first with ⟨low, -⟩ | ⟨-, allHigh⟩
  · omega
  · obtain ⟨byte, bytes, encoded⟩ :=
      List.exists_cons_of_ne_nil (utf8EncodeChar_ne_nil first)
    exact ⟨byte, bytes ++ bytesOf rest, by rw [bytesOf_cons, encoded, List.cons_append],
      allHigh byte (by simp [encoded])⟩

theorem length_bytesOf_of_areAscii
    {text : List Char}
    (areAscii : AreAscii text) :
    (bytesOf text).length = text.length := by
  induction text with
  | nil => rfl
  | cons first rest inductionHypothesis =>
      obtain ⟨here, later⟩ := List.forall_mem_cons.mp areAscii
      rw [bytesOf_cons_of_ascii here, List.length_cons, List.length_cons,
        inductionHypothesis later]

theorem ofNat_toNat_injective
    {first second : Char}
    (firstAscii : first.toNat < 128)
    (secondAscii : second.toNat < 128)
    (same : UInt8.ofNat first.toNat = UInt8.ofNat second.toNat) :
    first = second := by
  have values := congrArg UInt8.toNat same
  rw [UInt8.toNat_ofNat', UInt8.toNat_ofNat', Nat.mod_eq_of_lt (by omega),
    Nat.mod_eq_of_lt (by omega)] at values
  exact Char.toNat_inj.mp values

/-- A byte below 128 is always a character of its own. -/
theorem exists_of_bytesOf_eq_cons
    {text : List Char}
    {character : Char}
    {bytes : List UInt8}
    (isAscii : character.toNat < 128)
    (starts : bytesOf text = UInt8.ofNat character.toNat :: bytes) :
    ∃ rest, text = character :: rest ∧ bytesOf rest = bytes := by
  cases text with
  | nil => cases starts
  | cons first rest =>
      by_cases low : first.toNat < 128
      · rw [bytesOf_cons_of_ascii low] at starts
        obtain ⟨same, rfl⟩ := List.cons.inj starts
        exact ⟨rest, by rw [ofNat_toNat_injective low isAscii same], rfl⟩
      · obtain ⟨byte, others, encoded, high⟩ :=
          exists_bytesOf_cons_of_high (Nat.le_of_not_lt low) rest
        rw [encoded] at starts
        obtain ⟨rfl, -⟩ := List.cons.inj starts
        rw [UInt8.toNat_ofNat'] at high
        omega

theorem bytesOf_isPrefix_iff
    {front text : List Char}
    (areAscii : AreAscii front) :
    bytesOf front <+: bytesOf text ↔ front <+: text := by
  constructor
  · intro isPrefix
    induction front generalizing text with
    | nil => exact List.nil_prefix
    | cons first others inductionHypothesis =>
        obtain ⟨here, later⟩ := List.forall_mem_cons.mp areAscii
        obtain ⟨more, whole⟩ := isPrefix
        rw [bytesOf_cons_of_ascii here, List.cons_append] at whole
        obtain ⟨rest, rfl, remaining⟩ := exists_of_bytesOf_eq_cons here whole.symm
        exact List.cons_prefix_cons.mpr ⟨rfl, inductionHypothesis later ⟨more, remaining.symm⟩⟩
  · rintro ⟨more, rfl⟩
    exact ⟨bytesOf more, (bytesOf_append front more).symm⟩

/-! ## Digits among bytes -/

theorem isDigitByte_ofNat
    {character : Char}
    (isAscii : character.toNat < 128) :
    isDigitByte (UInt8.ofNat character.toNat) = character.isDigit := by
  have sameNumber : (UInt8.ofNat character.toNat).toNat = character.val.toNat := by
    rw [UInt8.toNat_ofNat']
    exact Nat.mod_eq_of_lt (Nat.lt_trans isAscii (by decide))
  rw [Bool.eq_iff_iff]
  simp only [isDigitByte, Char.isDigit, Bool.and_eq_true, decide_eq_true_eq,
    UInt8.le_iff_toNat_le, ge_iff_le, UInt32.le_iff_toNat_le, sameNumber]
  rfl

theorem isDigitByte_of_high
    {byte : UInt8}
    (high : 128 ≤ byte.toNat) :
    isDigitByte byte = false := by
  rw [isDigitByte, Bool.and_eq_false_iff]
  refine Or.inr (decide_eq_false ?_)
  rw [UInt8.le_iff_toNat_le]
  exact Nat.not_le.mpr (Nat.lt_of_lt_of_le (by decide) high)

theorem isDigit_of_high
    {character : Char}
    (high : 128 ≤ character.toNat) :
    character.isDigit = false := by
  rw [Char.isDigit, Bool.and_eq_false_iff]
  refine Or.inr (decide_eq_false ?_)
  rw [UInt32.le_iff_toNat_le]
  exact Nat.not_le.mpr (Nat.lt_of_lt_of_le (by decide) high)

/-- The digits in front are the same among characters and among bytes. -/
theorem span_bytesOf (text : List Char) :
    (bytesOf text).takeWhile isDigitByte = bytesOf (text.takeWhile Char.isDigit) ∧
      (bytesOf text).dropWhile isDigitByte = bytesOf (text.dropWhile Char.isDigit) := by
  induction text with
  | nil => exact ⟨rfl, rfl⟩
  | cons first rest inductionHypothesis =>
      by_cases low : first.toNat < 128
      · rw [bytesOf_cons_of_ascii low]
        cases isDigit : first.isDigit with
        | true =>
            simp [isDigitByte_ofNat low, isDigit, inductionHypothesis,
              bytesOf_cons_of_ascii low]
        | false =>
            simp [isDigitByte_ofNat low, isDigit, bytesOf_cons_of_ascii low]
            rfl
      · have high := Nat.le_of_not_lt low
        obtain ⟨byte, bytes, encoded, byteHigh⟩ := exists_bytesOf_cons_of_high high rest
        simp [encoded, isDigitByte_of_high byteHigh, isDigit_of_high high]
        rfl

theorem isAscii_of_isDigit
    {digit : Char}
    (isDigit : digit.isDigit = true) :
    digit.toNat < 128 := by
  apply Nat.lt_of_not_le
  intro high
  rw [isDigit_of_high high] at isDigit
  cases isDigit

theorem areAscii_of_areDigits
    {digits : List Char}
    (areDigits : AreDigits digits) :
    AreAscii digits :=
  fun digit member => isAscii_of_isDigit (areDigits digit member)

theorem areAscii_text_of_isRun
    {numeral : Numeral}
    (isRun : numeral.IsRun) :
    AreAscii numeral.text := by
  obtain ⟨sign, whole, point, digits, spelled, isSign, wholeDigits, isPoint, -, areDigits⟩ :=
    isRunText_iff.mpr ⟨numeral, isRun, rfl⟩
  have signAscii : AreAscii sign := by rcases isSign with rfl | rfl <;> simp [AreAscii]
  have pointAscii : AreAscii point := by rcases isPoint with rfl | rfl <;> simp [AreAscii]
  rw [spelled]
  exact List.forall_mem_append.mpr ⟨signAscii, List.forall_mem_append.mpr
    ⟨areAscii_of_areDigits wholeDigits, List.forall_mem_append.mpr
      ⟨pointAscii, areAscii_of_areDigits areDigits⟩⟩⟩

/-! ## Numbers and units among bytes -/

theorem bytesOf_cons_minus (rest : List Char) :
    bytesOf ('-' :: rest) = minusByte :: bytesOf rest :=
  bytesOf_cons_of_ascii (by decide) rest

theorem bytesOf_cons_point (rest : List Char) :
    bytesOf ('.' :: rest) = pointByte :: bytesOf rest :=
  bytesOf_cons_of_ascii (by decide) rest

/-- The digits behind a point in first place. -/
def decimalsOf (text : List Char) : List Char :=
  match Numeral.fraction? text with
  | some (fraction, _) => fraction
  | none => []

theorem decimalBytes_bytesOf (text : List Char) :
    decimalBytes (bytesOf text) = bytesOf (decimalsOf text) := by
  by_cases pointed : ∃ rest, text = '.' :: rest
  · obtain ⟨rest, rfl⟩ := pointed
    rw [bytesOf_cons_point, decimalBytes, if_pos rfl, (span_bytesOf rest).1, decimalsOf,
      Numeral.fraction?]
    by_cases none : rest.takeWhile Char.isDigit = []
    · simp [none]
    · simp [none]
  · have notFound : Numeral.fraction? text = none :=
      Numeral.fraction?_eq_none_iff.mpr fun rest isPointed => absurd ⟨rest, isPointed⟩ pointed
    rw [decimalsOf, notFound]
    cases encoded : bytesOf text with
    | nil => rfl
    | cons first others =>
        have notPoint : first ≠ pointByte := by
          rintro rfl
          obtain ⟨rest, rfl, -⟩ :=
            exists_of_bytesOf_eq_cons (show '.'.toNat < 128 by decide) encoded
          exact pointed ⟨rest, rfl⟩
        rw [decimalBytes, if_neg notPoint]
        rfl

/-- A minus in front is the same among characters and among bytes. -/
theorem minus_bytesOf (text : List Char) :
    (if (bytesOf text).head? = some minusByte then 1 else 0) =
        (Numeral.signText (Numeral.splitMinus text).1).length ∧
      (bytesOf text).drop (Numeral.signText (Numeral.splitMinus text).1).length =
        bytesOf (Numeral.splitMinus text).2 := by
  by_cases signed : text.head? = some '-'
  · obtain ⟨rest, rfl⟩ := List.head?_eq_some_iff.mp signed
    rw [bytesOf_cons_minus]
    exact ⟨rfl, rfl⟩
  · have unsigned : Numeral.splitMinus text = (false, text) :=
      Numeral.splitMinus_signText_append signed false
    have noMinus : (bytesOf text).head? ≠ some minusByte := by
      intro starts
      obtain ⟨others, encoded⟩ := List.head?_eq_some_iff.mp starts
      obtain ⟨rest, rfl, -⟩ :=
        exists_of_bytesOf_eq_cons (show '-'.toNat < 128 by decide) encoded
      exact signed rfl
    rw [unsigned, if_neg noMinus]
    exact ⟨rfl, rfl⟩

/-- The number at the start is as long among bytes as among characters. -/
theorem numberLength?_bytesOf (text : List Char) :
    numberLength? (bytesOf text) =
      (run? text).map fun found => found.1.text.length := by
  obtain ⟨signLength, remaining⟩ := minus_bytesOf text
  generalize split : Numeral.splitMinus text = parts at signLength remaining
  obtain ⟨negative, body⟩ := parts
  simp only at signLength remaining
  have wholeLength : (bytesOf (body.takeWhile Char.isDigit)).length =
      (body.takeWhile Char.isDigit).length :=
    length_bytesOf_of_areAscii (areAscii_of_areDigits (areDigits_takeWhile body))
  rw [numberLength?, run?, split]
  simp only [signLength, remaining, span_bytesOf, decimalBytes_bytesOf, decimalsOf]
  cases decimals : Numeral.fraction? (body.dropWhile Char.isDigit) with
  | some found =>
      obtain ⟨fraction, after⟩ := found
      obtain ⟨nonempty, areDigits, -, -⟩ := Numeral.fraction?_eq_some_iff.mp decimals
      have fractionLength : (bytesOf fraction).length = fraction.length :=
        length_bytesOf_of_areAscii (areAscii_of_areDigits areDigits)
      simp [bytesOf_ne_nil nonempty, wholeLength, fractionLength, Numeral.text_pointed nonempty]
      omega
  | none =>
      by_cases nonempty : body.takeWhile Char.isDigit = []
      · simp [nonempty, bytesOf]
      · have noDecimals : bytesOf [] = [] := rfl
        simp [noDecimals, bytesOf_ne_nil nonempty, nonempty, wholeLength, Numeral.text_whole]

theorem areAscii_of_mem_units : ∀ unit ∈ units, AreAscii unit := by
  simp [units, AreAscii]

/-- The unit at the start is as long among bytes as among characters. -/
theorem unitLength_bytesOf (text : List Char) :
    unitLength (bytesOf text) = (bytesOf (unitOf text)).length := by
  have sameUnit :
      ((units.map bytesOf).find? fun unit => unit.isPrefixOf (bytesOf text)) =
        (units.find? fun unit => unit.isPrefixOf text).map bytesOf := by
    rw [List.find?_map]
    congr 1
    apply List.find?_congr
    intro unit member
    rw [Bool.eq_iff_iff]
    simp only [Function.comp_apply, List.isPrefixOf_iff_prefix]
    exact bytesOf_isPrefix_iff (areAscii_of_mem_units unit member)
  rw [unitLength, sameUnit, unitOf]
  cases units.find? fun unit => unit.isPrefixOf text with
  | none => rfl
  | some unit => rfl

end Template
end Montage
