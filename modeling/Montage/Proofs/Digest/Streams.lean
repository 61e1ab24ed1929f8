import Mathlib.Data.Nat.Digits.Defs
import Montage.Digest

/-!
# Batches are told apart by their bytes

The bytes that the digest of a batch is taken of are read from the front.  The length in
front of a text tells how many bytes belong to it, so that the text and what comes behind it
are determined by them (`textBytes_append_inj`), whatever the text itself contains.  Different
batches therefore have different bytes, and one digest only if two rows of bytes have it.
-/

namespace Montage
namespace Digest

/-! ## Lengths -/

@[simp] theorem length_littleEndian (count value : Nat) :
    (littleEndian count value).length = count := by
  induction count generalizing value with
  | zero => rfl
  | succ count inductionHypothesis => rw [littleEndian, List.length_cons, inductionHypothesis]

/-- The bytes are the lowest digits to base 256. -/
theorem ofDigits_littleEndian (count value : Nat) :
    Nat.ofDigits 256 ((littleEndian count value).map UInt8.toNat) = value % 256 ^ count := by
  induction count generalizing value with
  | zero => simp [littleEndian, Nat.mod_one]
  | succ count inductionHypothesis =>
      have lowest : (UInt8.ofNat value).toNat = value % 256 := UInt8.toNat_ofNat'
      rw [littleEndian, List.map_cons, Nat.ofDigits_cons, inductionHypothesis, lowest,
        Nat.pow_succ', Nat.mod_mul]

/-- A length that fits into a word can be told from its bytes. -/
theorem lengthBytes_inj
    {first second : Nat}
    (firstFits : first < UInt64.size)
    (secondFits : second < UInt64.size)
    (same : lengthBytes first = lengthBytes second) :
    first = second := by
  have size : UInt64.size = 256 ^ 8 := by decide
  have digits := congrArg (fun bytes => Nat.ofDigits 256 (bytes.map UInt8.toNat)) same
  simp only [lengthBytes, ofDigits_littleEndian] at digits
  rwa [Nat.mod_eq_of_lt (size ▸ firstFits), Nat.mod_eq_of_lt (size ▸ secondFits)] at digits

/-! ## Texts -/

theorem toList_loop
    (bytes : ByteArray)
    (position : Nat)
    (taken : List UInt8) :
    ByteArray.toList.loop bytes position taken =
      taken.reverse ++ bytes.data.toList.drop position := by
  rw [ByteArray.toList.loop]
  split
  · next inside =>
      have bound : position < bytes.data.toList.length := inside
      have byte : bytes.get! position = bytes.data.toList[position] :=
        getElem!_pos bytes.data position inside
      rw [toList_loop bytes (position + 1), List.drop_eq_getElem_cons bound, byte]
      simp
  · next outside =>
      rw [List.drop_eq_nil_of_le (Nat.le_of_not_lt outside), List.append_nil]
termination_by bytes.size - position

theorem toList_eq (bytes : ByteArray) : bytes.toList = bytes.data.toList :=
  toList_loop bytes 0 []

theorem length_toList_toUTF8 (text : String) :
    text.toUTF8.toList.length = text.utf8ByteSize := by
  rw [toList_eq, String.toUTF8_eq_toByteArray, ← String.size_toByteArray]
  rfl

theorem eq_of_toList_toUTF8_eq
    {first second : String}
    (same : first.toUTF8.toList = second.toUTF8.toList) :
    first = second := by
  rw [toList_eq, toList_eq] at same
  exact String.toByteArray_inj.mp (ByteArray.ext (Array.toList_inj.mp same))

/-- The bytes of a text fit into a word. -/
def IsSized (text : String) : Prop :=
  text.utf8ByteSize < UInt64.size

instance (text : String) : Decidable (IsSized text) :=
  inferInstanceAs (Decidable (text.utf8ByteSize < UInt64.size))

/-- A text in front of other bytes is determined by all of them, and so is what stands
behind it. -/
theorem textBytes_append_inj
    {first second : String}
    (firstSized : IsSized first)
    (secondSized : IsSized second)
    {rest others : List UInt8}
    (same : textBytes first ++ rest = textBytes second ++ others) :
    first = second ∧ rest = others := by
  simp only [textBytes, List.append_assoc] at same
  obtain ⟨sameLength, sameBytes⟩ := List.append_inj same (by simp [lengthBytes])
  have sameSize := lengthBytes_inj firstSized secondSized sameLength
  obtain ⟨sameText, sameRest⟩ := List.append_inj sameBytes (by
    rw [length_toList_toUTF8, length_toList_toUTF8, sameSize])
  exact ⟨eq_of_toList_toUTF8_eq sameText, sameRest⟩

/-! ## Batches -/

theorem flatMap_textBytes_cons_ne_nil
    (text : String)
    (rest : List String) :
    (text :: rest).flatMap textBytes ≠ [] := by
  simp [textBytes, lengthBytes, littleEndian]

/-- Texts one behind the other are determined by their bytes. -/
theorem flatMap_textBytes_inj
    {first second : List String}
    (firstSized : ∀ text ∈ first, IsSized text)
    (secondSized : ∀ text ∈ second, IsSized text)
    (same : first.flatMap textBytes = second.flatMap textBytes) :
    first = second := by
  induction first generalizing second with
  | nil =>
      cases second with
      | nil => rfl
      | cons text rest => exact absurd same.symm (flatMap_textBytes_cons_ne_nil text rest)
  | cons text rest inductionHypothesis =>
      cases second with
      | nil => exact absurd same (flatMap_textBytes_cons_ne_nil text rest)
      | cons other others =>
          obtain ⟨textSized, restSized⟩ := List.forall_mem_cons.mp firstSized
          obtain ⟨otherSized, othersSized⟩ := List.forall_mem_cons.mp secondSized
          rw [List.flatMap_cons, List.flatMap_cons] at same
          obtain ⟨rfl, sameRest⟩ := textBytes_append_inj textSized otherSized same
          rw [inductionHypothesis restSized othersSized sameRest]

theorem batchBytes_inj
    {first second : List String}
    (firstSized : ∀ text ∈ first, IsSized text)
    (secondSized : ∀ text ∈ second, IsSized text)
    (same : batchBytes first = batchBytes second) :
    first = second :=
  flatMap_textBytes_inj firstSized secondSized
    (List.append_inj same (by simp [lengthBytes])).2

/-- The bytes that the digest of a batch is taken of. -/
def batchArray (texts : List String) : ByteArray :=
  ⟨(batchBytes texts).toArray⟩

/-- Two different rows of bytes have one digest. -/
def Collides
    (seed : UInt64)
    (left right : ByteArray) : Prop :=
  left ≠ right ∧ ofBytes seed left = ofBytes seed right

/-- The bytes of two batches are equal exactly when the batches are, so that two different
batches with one digest are two different rows of bytes with one digest, which is a collision. -/
theorem batchBytes_eq_iff_and_ofBatch_eq_iff
    (first second : List String)
    (firstSized : ∀ text ∈ first, IsSized text)
    (secondSized : ∀ text ∈ second, IsSized text) :
    (batchBytes first = batchBytes second ↔ first = second) ∧
      (ofBatch first = ofBatch second ↔
        first = second ∨ Collides batchSeed (batchArray first) (batchArray second)) := by
  have told : batchBytes first = batchBytes second ↔ first = second :=
    ⟨batchBytes_inj firstSized secondSized, congrArg batchBytes⟩
  refine ⟨told, fun shared => ?_, ?_⟩
  · by_cases same : first = second
    · exact Or.inl same
    · refine Or.inr ⟨fun sameArray => same (told.mp ?_), shared⟩
      exact congrArg (fun bytes => bytes.data.toList) sameArray
  · rintro (rfl | ⟨-, shared⟩)
    · rfl
    · exact shared

/-- A text that starts with the bytes of a length, as if it were two texts. -/
def lengthLikeText : String :=
  "\x01\x00\x00\x00\x00\x00\x00\x00x"

theorem ofBatch_lengthLikeText_iff :
    (∀ text ∈ ["", "x"], IsSized text) ∧ (∀ text ∈ [lengthLikeText], IsSized text) ∧
      (batchBytes ["", "x"] = batchBytes [lengthLikeText] ↔ ["", "x"] = [lengthLikeText]) ∧
      (ofBatch ["", "x"] = ofBatch [lengthLikeText] ↔
        ["", "x"] = [lengthLikeText] ∨
          Collides batchSeed (batchArray ["", "x"]) (batchArray [lengthLikeText])) := by
  have firstSized : ∀ text ∈ ["", "x"], IsSized text := by decide
  have secondSized : ∀ text ∈ [lengthLikeText], IsSized text := by decide
  exact ⟨firstSized, secondSized,
    batchBytes_eq_iff_and_ofBatch_eq_iff _ _ firstSized secondSized⟩

end Digest
end Montage
