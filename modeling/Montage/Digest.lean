import Montage.Digest.Long
import Montage.Digest.Short

/-!
# Digests

The digest of a row of bytes is the 128-bit variant of the XXH3 family of hash
functions.  Rows of up to 240 bytes are mixed as a whole, each range of lengths by a
scheme of its own; longer rows are taken in block by block.

The digest of a batch of element descriptions is taken of their number and, for each
of them, its length and its bytes, so that the borders between descriptions count.
-/

namespace Montage
namespace Digest

/-- The digest of a row of bytes. -/
def ofBytes
    (seed : UInt64)
    (bytes : ByteArray) : Digest :=
  if bytes.size ≤ 16 then ofTiny seed bytes
  else if bytes.size ≤ 128 then ofSmall seed bytes
  else if bytes.size ≤ 240 then ofMedium seed bytes
  else ofLarge seed bytes

/-- The lowest bytes of a natural number, lowest first. -/
def littleEndian : Nat → Nat → List UInt8
  | 0, _ => []
  | count + 1, value => UInt8.ofNat value :: littleEndian count (value / 256)

/-- A length as eight bytes. -/
def lengthBytes (length : Nat) : List UInt8 :=
  littleEndian 8 length

/-- A text as bytes, with their number in front. -/
def textBytes (text : String) : List UInt8 :=
  lengthBytes text.utf8ByteSize ++ text.toUTF8.toList

/-- A batch of texts as bytes: their number, and then each of them. -/
def batchBytes (texts : List String) : List UInt8 :=
  lengthBytes texts.length ++ texts.flatMap textBytes

/-- The seed of the digests of batches. -/
def batchSeed : UInt64 :=
  0x51F17C3A9BE044D2

/-- The digest of a batch of element descriptions. -/
def ofBatch (texts : List String) : Digest :=
  ofBytes batchSeed ⟨(batchBytes texts).toArray⟩

end Digest
end Montage
