import Mathlib.Data.List.Forall2
import Montage.Proofs.Template.Bytes
import Montage.Proofs.Template.Tiling

/-!
# Walking over bytes finds the runs of the characters

The walk over the bytes of a text steps into the middle of a character only over bytes from
128 on, at which no number starts.  The extents it finds are therefore those of the scanned
template (`walk_eq_extents`).  From both together the template lies over its text without
loss (`tiles_scan`): its extents are disjoint, in order and between characters, its runs are
the longest there are, and no run starts at any byte outside of the extents.
-/

namespace Montage

open Number

namespace Extent

/-- The extent takes up the byte at an offset. -/
def Covers (extent : Extent) (offset : Nat) : Prop :=
  extent.start ≤ offset ∧ offset < extent.unitStop

/-- An extent lies over the bytes of a run and of its unit. -/
structure LiesOver
    (extent : Extent)
    (run : Run)
    (source : String) : Prop where
  /-- The number takes up a byte at least. -/
  start_lt_stop : extent.start < extent.stop
  /-- The unit follows the number. -/
  stop_le_unitStop : extent.stop ≤ extent.unitStop
  /-- The extent is inside of the text. -/
  unitStop_le_size : extent.unitStop ≤ source.utf8ByteSize
  /-- The number starts between two characters. -/
  start_isValid : String.Pos.Raw.IsValid source ⟨extent.start⟩
  /-- The number ends between two characters. -/
  stop_isValid : String.Pos.Raw.IsValid source ⟨extent.stop⟩
  /-- The unit ends between two characters. -/
  unitStop_isValid : String.Pos.Raw.IsValid source ⟨extent.unitStop⟩
  /-- The number is what stands between the first two offsets. -/
  number_bytes : (source.toUTF8.data.toList.drop extent.start).take (extent.stop - extent.start) =
    Template.bytesOf run.numeral.text
  /-- The unit is what stands between the last two. -/
  unit_bytes : (source.toUTF8.data.toList.drop extent.stop).take (extent.unitStop - extent.stop) =
    Template.bytesOf run.unit

end Extent

namespace Template

/-! ## Steps of the walk -/

theorem walkFrom_nil (offset : Nat) : walkFrom offset [] = [] := by
  rw [walkFrom]

theorem walkFrom_cons_of_eq_none
    {first : UInt8}
    {rest : List UInt8}
    (notFound : numberLength? (first :: rest) = none)
    (offset : Nat) :
    walkFrom offset (first :: rest) = walkFrom (offset + 1) rest := by
  rw [walkFrom]
  split
  · rfl
  · next length found =>
      rw [notFound] at found
      cases found

theorem walkFrom_of_eq_some
    {bytes : List UInt8}
    {length : Nat}
    (found : numberLength? bytes = some length)
    (offset : Nat) :
    walkFrom offset bytes =
      ⟨offset, offset + length, offset + length + unitLength (bytes.drop length)⟩ ::
        walkFrom (offset + length + unitLength (bytes.drop length))
          (bytes.drop (length + unitLength (bytes.drop length))) := by
  cases bytes with
  | nil => cases found
  | cons first rest =>
      rw [walkFrom]
      split
      · next notFound =>
          rw [found] at notFound
          cases notFound
      · next other again =>
          rw [found] at again
          cases again
          rfl

theorem numberLength?_cons_of_high
    {first : UInt8}
    (high : 128 ≤ first.toNat)
    (rest : List UInt8) :
    numberLength? (first :: rest) = none := by
  have notMinus : first ≠ minusByte := by
    rintro rfl
    exact absurd high (by decide)
  have notPoint : first ≠ pointByte := by
    rintro rfl
    exact absurd high (by decide)
  simp [numberLength?, notMinus, isDigitByte_of_high high, decimalBytes, notPoint]

/-- Bytes from 128 on are passed over one by one. -/
theorem walkFrom_append_of_high
    {front : List UInt8}
    (allHigh : ∀ byte ∈ front, 128 ≤ byte.toNat)
    (offset : Nat)
    (back : List UInt8) :
    walkFrom offset (front ++ back) = walkFrom (offset + front.length) back := by
  induction front generalizing offset with
  | nil => rfl
  | cons first rest inductionHypothesis =>
      obtain ⟨here, later⟩ := List.forall_mem_cons.mp allHigh
      rw [List.cons_append, walkFrom_cons_of_eq_none (numberLength?_cons_of_high here _),
        inductionHypothesis later, List.length_cons, Nat.add_assoc, Nat.add_comm 1]

/-- A character at which no run starts is passed over as a whole. -/
theorem walkFrom_bytesOf_cons
    {first : Char}
    {rest : List Char}
    (notFound : run? (first :: rest) = none)
    (offset : Nat) :
    walkFrom offset (bytesOf (first :: rest)) =
      walkFrom (offset + (String.utf8EncodeChar first).length) (bytesOf rest) := by
  rcases utf8EncodeChar_cases first with ⟨low, single⟩ | ⟨-, allHigh⟩
  · have noNumber : numberLength? (bytesOf (first :: rest)) = none := by
      rw [numberLength?_bytesOf, notFound, Option.map_none]
    rw [bytesOf_cons_of_ascii low] at noNumber ⊢
    rw [walkFrom_cons_of_eq_none noNumber, single, List.length_singleton]
  · rw [bytesOf_cons, walkFrom_append_of_high allHigh]

/-! ## Extents of a template -/

theorem extentsFrom_lead
    (offset : Nat)
    (first : Char)
    (template : Template) :
    extentsFrom offset (lead first template).runs =
      extentsFrom (offset + (String.utf8EncodeChar first).length) template.runs := by
  obtain ⟨runs, tail⟩ := template
  cases runs with
  | nil => rfl
  | cons run rest =>
      simp [lead, extentsFrom, bytesOf_cons, Nat.add_assoc]

theorem walkFrom_bytesOf (offset : Nat) (text : List Char) :
    walkFrom offset (bytesOf text) = extentsFrom offset (scan text).runs := by
  fun_induction scan text generalizing offset with
  | case1 => exact walkFrom_nil offset
  | case2 first rest notFound inductionHypothesis =>
      rw [walkFrom_bytesOf_cons notFound, inductionHypothesis, extentsFrom_lead]
  | case3 first rest numeral after found unit later inductionHypothesis =>
      obtain ⟨isRun, -, whole⟩ := run?_eq_some_iff.mp found
      have numberBytes : (bytesOf numeral.text).length = numeral.text.length :=
        length_bytesOf_of_areAscii (areAscii_text_of_isRun isRun)
      have length : numberLength? (bytesOf (first :: rest)) =
          some (bytesOf numeral.text).length := by
        rw [numberLength?_bytesOf, found, Option.map_some, numberBytes]
      have afterNumber : (bytesOf (first :: rest)).drop (bytesOf numeral.text).length =
          bytesOf after := by
        rw [whole, bytesOf_append, List.drop_left]
      have afterUnit : (bytesOf after).drop (bytesOf unit).length =
          bytesOf (after.drop unit.length) := by
        conv_lhs => rw [← unitOf_append_drop after, bytesOf_append, List.drop_left]
      rw [walkFrom_of_eq_some length, ← List.drop_drop, afterNumber, unitLength_bytesOf,
        afterUnit, inductionHypothesis]
      simp [extentsFrom, bytesOf, unit, later]

theorem toUTF8_eq_bytesOf (source : String) :
    source.toUTF8.data.toList = bytesOf source.toList := by
  conv_lhs => rw [← String.ofList_toList (s := source), String.toUTF8_eq_toByteArray,
    String.toByteArray_ofList, List.utf8Encode, List.toList_data_toByteArray]
  rfl

/-- The extents found byte by byte are those of the scanned template. -/
theorem walk_eq_extents (source : String) : walk source = (scan source.toList).extents := by
  rw [walk, toUTF8_eq_bytesOf, walkFrom_bytesOf, extents]

/-! ## Bytes outside of the extents -/

/-- No number starts at a byte that no extent takes up. -/
theorem numberLength?_drop_of_not_covers
    {bytes : List UInt8}
    (offset position : Nat)
    (outside : ∀ extent ∈ walkFrom offset bytes, ¬ extent.Covers (offset + position)) :
    numberLength? (bytes.drop position) = none := by
  fun_induction walkFrom offset bytes generalizing position with
  | case1 => rw [List.drop_nil]; rfl
  | case2 offset first rest notFound inductionHypothesis =>
      cases position with
      | zero => exact notFound
      | succ position =>
          rw [List.drop_succ_cons]
          refine inductionHypothesis position fun extent member => ?_
          rw [Nat.add_assoc, Nat.add_comm 1]
          exact outside extent member
  | case3 offset first rest length found unit inductionHypothesis =>
      have notHere := outside _ List.mem_cons_self
      obtain ⟨further, rfl⟩ : ∃ further, position = length + unit + further :=
        ⟨position - (length + unit), by simp only [Extent.Covers] at notHere; omega⟩
      rw [← List.drop_drop]
      refine inductionHypothesis further fun extent member => ?_
      have notThere := outside extent (List.mem_cons_of_mem _ member)
      rwa [show offset + (length + unit + further) = offset + length + unit + further by
        omega] at notThere

theorem numberLength?_eq_none_iff {bytes : List UInt8} :
    numberLength? bytes = none ↔
      ((bytes.drop (if bytes.head? = some minusByte then 1 else 0)).takeWhile isDigitByte = [] ∧
        decimalBytes ((bytes.drop (if bytes.head? = some minusByte then 1 else 0)).dropWhile
          isDigitByte) = []) := by
  rw [numberLength?]
  generalize (if bytes.head? = some minusByte then 1 else 0) = sign
  by_cases noDecimals : decimalBytes ((bytes.drop sign).dropWhile isDigitByte) = []
  · by_cases noWhole : (bytes.drop sign).takeWhile isDigitByte = []
    · simp [noDecimals, noWhole]
    · simp [noDecimals, noWhole]
  · simp [noDecimals]

/-- Where no number is found, no text of the pattern stands. -/
theorem not_isPrefix_of_numberLength?_eq_none
    {bytes : List UInt8}
    {run : List Char}
    (notFound : numberLength? bytes = none)
    (isRunText : IsRunText run) :
    ¬ bytesOf run <+: bytes := by
  rintro ⟨more, rfl⟩
  obtain ⟨sign, point, digit, rest, rfl, isSign, isPoint, isDigit⟩ :=
    startsRun_iff.mpr ⟨run, List.prefix_refl run, isRunText⟩
  have digitAscii : digit.toNat < 128 :=
    isAscii_of_isDigit isDigit
  have digitByte : isDigitByte (UInt8.ofNat digit.toNat) = true := by
    rw [isDigitByte_ofNat digitAscii, isDigit]
  have notMinus : UInt8.ofNat digit.toNat ≠ minusByte := by
    intro isMinus
    rw [isMinus] at digitByte
    cases digitByte
  have pointIsNoDigit : isDigitByte pointByte = false := by decide
  have pointIsNoMinus : pointByte ≠ minusByte := by decide
  obtain ⟨noWhole, noDecimals⟩ := numberLength?_eq_none_iff.mp notFound
  rcases isPoint with rfl | rfl
  · rcases isSign with rfl | rfl <;>
      simp [bytesOf_cons_minus, bytesOf_cons_of_ascii digitAscii, notMinus,
        digitByte] at noWhole
  · rcases isSign with rfl | rfl <;>
      simp [bytesOf_cons_minus, bytesOf_cons_point, bytesOf_cons_of_ascii digitAscii,
        digitByte, pointIsNoDigit, pointIsNoMinus, decimalBytes] at noDecimals

/-! ## Extents over a text -/

theorem le_start_of_mem_extentsFrom
    {offset : Nat}
    {runs : List Run}
    {extent : Extent}
    (member : extent ∈ extentsFrom offset runs) :
    offset ≤ extent.start := by
  induction runs generalizing offset with
  | nil => cases member
  | cons run rest inductionHypothesis =>
      rcases List.mem_cons.mp member with rfl | later
      · exact Nat.le_add_right _ _
      · have next := inductionHypothesis later
        omega

/-- Each extent ends before the next ones start. -/
theorem pairwise_extentsFrom (offset : Nat) (runs : List Run) :
    (extentsFrom offset runs).Pairwise fun earlier later => earlier.unitStop ≤ later.start := by
  induction runs generalizing offset with
  | nil => exact List.Pairwise.nil
  | cons run rest inductionHypothesis =>
      exact List.Pairwise.cons (fun _ member => le_start_of_mem_extentsFrom member)
        (inductionHypothesis _)

/-- The length of a front part is an offset between characters. -/
theorem isValid_of_isPrefix
    {source : String}
    {front : List Char}
    (isPrefix : front <+: source.toList) :
    String.Pos.Raw.IsValid source ⟨(bytesOf front).length⟩ := by
  obtain ⟨back, whole⟩ := isPrefix
  rw [String.Pos.Raw.isValid_iff_exists_append]
  refine ⟨String.ofList front, String.ofList back, ?_, ?_⟩
  · rw [← String.ofList_append, whole, String.ofList_toList]
  · rw [String.rawEndPos, ← String.size_toByteArray, ← String.toUTF8_eq_toByteArray]
    congr 1
    have encoded := congrArg List.length (toUTF8_eq_bytesOf (String.ofList front))
    rw [String.toList_ofList] at encoded
    rw [← encoded, Array.length_toList]
    rfl

theorem utf8ByteSize_eq_length_bytesOf (source : String) :
    source.utf8ByteSize = (bytesOf source.toList).length := by
  rw [← toUTF8_eq_bytesOf, ← String.size_toByteArray, ← String.toUTF8_eq_toByteArray,
    Array.length_toList]
  rfl

theorem liesOver_of_append_eq
    {source : String}
    {run : Run}
    {after : List Char}
    (before : List Char)
    (nonempty : run.numeral.text ≠ [])
    (whole : before ++ (run.numeral.text ++ (run.unit ++ after)) = source.toList) :
    Extent.LiesOver
      ⟨(bytesOf before).length, (bytesOf (before ++ run.numeral.text)).length,
        (bytesOf (before ++ run.numeral.text ++ run.unit)).length⟩ run source := by
  have bytes : source.toUTF8.data.toList = bytesOf before ++
      (bytesOf run.numeral.text ++ (bytesOf run.unit ++ bytesOf after)) := by
    rw [toUTF8_eq_bytesOf, ← whole, bytesOf_append, bytesOf_append, bytesOf_append]
  have size := utf8ByteSize_eq_length_bytesOf source
  rw [← whole] at size
  have positive : 0 < (bytesOf run.numeral.text).length :=
    List.length_pos_iff.mpr (bytesOf_ne_nil nonempty)
  simp only [bytesOf_append, List.length_append] at size ⊢
  constructor
  case start_lt_stop => exact Nat.lt_add_of_pos_right positive
  case stop_le_unitStop => exact Nat.le_add_right _ _
  case unitStop_le_size =>
    simp only
    omega
  case start_isValid => exact isValid_of_isPrefix ⟨_, whole⟩
  case stop_isValid =>
    rw [← List.length_append, ← bytesOf_append]
    exact isValid_of_isPrefix ⟨run.unit ++ after, by simp [← whole]⟩
  case unitStop_isValid =>
    rw [← List.length_append, ← List.length_append, ← bytesOf_append, ← bytesOf_append]
    exact isValid_of_isPrefix ⟨after, by simp [← whole]⟩
  case number_bytes => rw [bytes, Nat.add_sub_cancel_left, List.drop_left, List.take_left]
  case unit_bytes =>
    rw [bytes, Nat.add_sub_cancel_left, ← List.length_append, ← List.append_assoc,
      List.drop_left, List.take_left]

/-- The extents of a template that fits lie over its runs. -/
theorem forall₂_liesOver
    {source : String}
    {tail : List Char}
    {runs : List Run}
    (front : List Char)
    (whole : front ++ textFrom tail runs = source.toList)
    (fits : FitsFrom tail runs) :
    List.Forall₂ (fun extent run => extent.LiesOver run source)
      (extentsFrom (bytesOf front).length runs) runs := by
  induction runs generalizing front with
  | nil => exact List.Forall₂.nil
  | cons run rest inductionHypothesis =>
      obtain ⟨runFits, restFits⟩ := fits
      rw [textFrom_cons] at whole
      refine List.Forall₂.cons ?_ ?_
      · have here := liesOver_of_append_eq (front ++ run.lead) runFits.isRun.text_ne_nil
          (by rw [List.append_assoc, whole])
        simpa [bytesOf_append, Nat.add_assoc] using here
      · have later := inductionHypothesis
          (front ++ run.lead ++ run.numeral.text ++ run.unit) (by simp [← whole]) restFits
        simpa [bytesOf_append, Nat.add_assoc] using later

/-! ## The whole text -/

/-- A template lies over a text without loss, with its extents given by offsets. -/
structure Tiles
    (template : Template)
    (extents : List Extent)
    (source : String) : Prop where
  /-- The literal stretches, the numbers and the units make up the text. -/
  whole : (template.runs.flatMap fun run => run.lead ++ (run.numeral.text ++ run.unit)) ++
    template.tail = source.toList
  /-- There is an extent over each of the runs. -/
  liesOver : List.Forall₂ (fun extent run => extent.LiesOver run source) extents template.runs
  /-- Each extent ends before the next ones start. -/
  ordered : extents.Pairwise fun earlier later => earlier.unitStop ≤ later.start
  /-- Each run is the longest one at its start. -/
  longest : ∀ front run back, template.runs = front ++ run :: back →
    IsLongestRun run.numeral.text
      (run.numeral.text ++ (run.unit ++ textFrom template.tail back))
  /-- Each unit is the one directly after its run. -/
  isUnitOf : ∀ front run back, template.runs = front ++ run :: back →
    IsUnitOf run.unit (run.unit ++ textFrom template.tail back)
  /-- No run starts at a byte outside of the extents. -/
  literal : ∀ offset, (∀ extent ∈ extents, ¬ extent.Covers offset) →
    ∀ run, IsRunText run → ¬ bytesOf run <+: source.toUTF8.data.toList.drop offset
  /-- Rendering puts numbers in the place of the runs and leaves the rest as it is. -/
  rendered : ∀ amounts, amounts.length = template.runs.length →
    template.render amounts =
      ((template.runs.zip amounts).flatMap fun part =>
        part.1.lead ++ (plainText part.2 ++ part.1.unit)) ++ template.tail

theorem textFrom_eq_flatMap (tail : List Char) (runs : List Run) :
    textFrom tail runs =
      (runs.flatMap fun run => run.lead ++ (run.numeral.text ++ run.unit)) ++ tail := by
  induction runs with
  | nil => rfl
  | cons run rest inductionHypothesis =>
      simp [textFrom, inductionHypothesis]

theorem renderFrom_eq_flatMap
    {runs : List Run}
    {amounts : List Float}
    (sameLength : amounts.length = runs.length)
    (tail : List Char) :
    renderFrom tail runs amounts =
      ((runs.zip amounts).flatMap fun part =>
        part.1.lead ++ (plainText part.2 ++ part.1.unit)) ++ tail := by
  induction runs generalizing amounts with
  | nil => rfl
  | cons run rest inductionHypothesis =>
      obtain ⟨amount, others, rfl⟩ := List.exists_cons_of_length_eq_add_one sameLength
      simp [renderFrom, inductionHypothesis (Nat.succ.inj sameLength)]

/-- Each run in a template that fits is found at its own start. -/
theorem run?_of_fitsFrom
    {tail : List Char}
    {front back : List Run}
    {run : Run}
    (fits : FitsFrom tail (front ++ run :: back)) :
    run? (run.numeral.text ++ (run.unit ++ textFrom tail back)) =
      some (run.numeral, run.unit ++ textFrom tail back) :=
  have runFits := fits.of_append.1
  run?_text_append runFits.isRun runFits.endsBefore

/-- The scanned template lies over its text without loss, at the extents of the walk. -/
theorem tiles_scan (source : String) :
    (scan source.toList).Tiles (walk source) source := by
  have whole := text_scan source.toList
  have fits := fitsFrom_scan source.toList
  constructor
  case whole => rwa [← textFrom_eq_flatMap]
  case liesOver =>
    rw [walk_eq_extents]
    exact forall₂_liesOver [] whole fits
  case ordered =>
    rw [walk_eq_extents]
    exact pairwise_extentsFrom 0 _
  case longest =>
    intro front run back runs
    rw [runs] at fits
    exact isLongestRun_of_run? (run?_of_fitsFrom fits)
  case isUnitOf =>
    intro front run back runs
    rw [runs] at fits
    exact fits.of_append.1.isUnitOf
  case literal =>
    intro offset outside run isRunText
    refine not_isPrefix_of_numberLength?_eq_none ?_ isRunText
    refine numberLength?_drop_of_not_covers 0 offset ?_
    rwa [Nat.zero_add]
  case rendered =>
    intro amounts sameLength
    exact renderFrom_eq_flatMap sameLength _

end Template
end Montage
