/-!
# Mixing words

The constants and the word operations that digests are made of.  A word is 64 bits
and is read from bytes with the lowest byte first; arithmetic on words is modulo
`2 ^ 64`.
-/

namespace Montage

/-- A digest of 128 bits. -/
structure Digest where
  /-- The upper half. -/
  high : UInt64
  /-- The lower half. -/
  low : UInt64
  deriving DecidableEq, Repr

namespace Digest

/-! ## Constants -/

/-- The odd factors of 64 bits. -/
def prime64₁ : UInt64 := 0x9E3779B185EBCA87
@[inherit_doc prime64₁] def prime64₂ : UInt64 := 0xC2B2AE3D27D4EB4F
@[inherit_doc prime64₁] def prime64₃ : UInt64 := 0x165667B19E3779F9
@[inherit_doc prime64₁] def prime64₄ : UInt64 := 0x85EBCA77C2B2AE63
@[inherit_doc prime64₁] def prime64₅ : UInt64 := 0x27D4EB2F165667C5

/-- The odd factors of 32 bits. -/
def prime32₁ : UInt64 := 0x9E3779B1
@[inherit_doc prime32₁] def prime32₂ : UInt64 := 0x85EBCA77
@[inherit_doc prime32₁] def prime32₃ : UInt64 := 0xC2B2AE3D

/-- The factors that finish a word. -/
def finisher₁ : UInt64 := 0x165667919E3779F9
@[inherit_doc finisher₁] def finisher₂ : UInt64 := 0x9FB21C651E98DF25

/-- The bytes that every input is mixed with. -/
def secret : ByteArray := ⟨#[
  0xb8, 0xfe, 0x6c, 0x39, 0x23, 0xa4, 0x4b, 0xbe, 0x7c, 0x01, 0x81, 0x2c,
  0xf7, 0x21, 0xad, 0x1c, 0xde, 0xd4, 0x6d, 0xe9, 0x83, 0x90, 0x97, 0xdb,
  0x72, 0x40, 0xa4, 0xa4, 0xb7, 0xb3, 0x67, 0x1f, 0xcb, 0x79, 0xe6, 0x4e,
  0xcc, 0xc0, 0xe5, 0x78, 0x82, 0x5a, 0xd0, 0x7d, 0xcc, 0xff, 0x72, 0x21,
  0xb8, 0x08, 0x46, 0x74, 0xf7, 0x43, 0x24, 0x8e, 0xe0, 0x35, 0x90, 0xe6,
  0x81, 0x3a, 0x26, 0x4c, 0x3c, 0x28, 0x52, 0xbb, 0x91, 0xc3, 0x00, 0xcb,
  0x88, 0xd0, 0x65, 0x8b, 0x1b, 0x53, 0x2e, 0xa3, 0x71, 0x64, 0x48, 0x97,
  0xa2, 0x0d, 0xf9, 0x4e, 0x38, 0x19, 0xef, 0x46, 0xa9, 0xde, 0xac, 0xd8,
  0xa8, 0xfa, 0x76, 0x3f, 0xe3, 0x9c, 0x34, 0x3f, 0xf9, 0xdc, 0xbb, 0xc7,
  0xc7, 0x0b, 0x4f, 0x1d, 0x8a, 0x51, 0xe0, 0x4b, 0xcd, 0xb4, 0x59, 0x31,
  0xc8, 0x9f, 0x7e, 0xc9, 0xd9, 0x78, 0x73, 0x64, 0xea, 0xc5, 0xac, 0x83,
  0x34, 0xd3, 0xeb, 0xc3, 0xc5, 0x81, 0xa0, 0xff, 0xfa, 0x13, 0x63, 0xeb,
  0x17, 0x0d, 0xdd, 0x51, 0xb7, 0xf0, 0xda, 0x49, 0xd3, 0x16, 0x55, 0x26,
  0x29, 0xd4, 0x68, 0x9e, 0x2b, 0x16, 0xbe, 0x58, 0x7d, 0x47, 0xa1, 0xfc,
  0x8f, 0xf8, 0xb8, 0xd1, 0x7a, 0xd0, 0x31, 0xce, 0x45, 0xcb, 0x3a, 0x8f,
  0x95, 0x16, 0x04, 0x28, 0xaf, 0xd7, 0xfb, 0xca, 0xbb, 0x4b, 0x40, 0x7e]⟩

/-! ## Words -/

/-- The byte at a position, and zero beyond the end. -/
def byteAt
    (bytes : ByteArray)
    (position : Nat) : UInt64 :=
  if inside : position < bytes.size then (bytes.get position inside).toUInt64 else 0

/-- The number that `count` bytes from a position on spell, lowest byte first. -/
def readBytes
    (bytes : ByteArray) : Nat → Nat → UInt64
  | 0, _ => 0
  | count + 1, position =>
      byteAt bytes position ||| (readBytes bytes count (position + 1) <<< 8)

/-- The word at a position. -/
def word
    (bytes : ByteArray)
    (position : Nat) : UInt64 :=
  readBytes bytes 8 position

/-- The half word at a position. -/
def halfWord
    (bytes : ByteArray)
    (position : Nat) : UInt64 :=
  readBytes bytes 4 position

/-- A word with the number of bytes of an input. -/
def sizeWord (bytes : ByteArray) : UInt64 :=
  UInt64.ofNat bytes.size

/-- The lower 32 bits of a word. -/
def lowHalf (word : UInt64) : UInt64 :=
  word &&& 0xFFFFFFFF

/-- A word with the order of its lowest `count` bytes reversed, the others left out. -/
def swapBytes : Nat → UInt64 → UInt64
  | 0, _ => 0
  | count + 1, word =>
      ((word &&& 0xFF) <<< UInt64.ofNat (8 * count)) ||| swapBytes count (word >>> 8)

/-- A word combined with a copy of itself that is shifted down. -/
def fold
    (distance : UInt64)
    (word : UInt64) : UInt64 :=
  word ^^^ (word >>> distance)

/-- The full product of two words. -/
def product (left right : UInt64) : Digest :=
  let full := left.toNat * right.toNat
  ⟨UInt64.ofNat (full / UInt64.size), UInt64.ofNat full⟩

/-- The full product of two words with its halves combined. -/
def foldedProduct (left right : UInt64) : UInt64 :=
  let full := product left right
  full.low ^^^ full.high

/-- Spreads every bit of a word over the whole word. -/
def finish (word : UInt64) : UInt64 :=
  fold 32 (fold 37 word * finisher₁)

/-- Spreads every bit of a word over the whole word, in three steps; used for the
shortest inputs. -/
def finishThorough (word : UInt64) : UInt64 :=
  fold 32 (fold 29 (fold 33 word * prime64₂) * prime64₃)

end Digest
end Montage
