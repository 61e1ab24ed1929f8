import Montage.Digest.Mixing

/-!
# Digests of more than 240 bytes

The input is taken in stripes of 64 bytes into eight lanes.  Sixteen stripes make up
a block, after which the lanes are scrambled; the last 64 bytes are a stripe of their
own, which may overlap the one before.  In the end the lanes are merged in pairs.
-/

namespace Montage
namespace Digest

/-- The eight lanes that stripes are taken into. -/
abbrev Lanes : Type :=
  Vector UInt64 8

/-- The lanes before any input. -/
def Lanes.initial : Lanes :=
  #v[prime32₃, prime64₁, prime64₂, prime64₃, prime64₄, prime32₂, prime64₅, prime32₁]

/-- A word as bytes, lowest byte first. -/
def wordBytes (word : UInt64) : List UInt8 :=
  (List.range 8).map fun index => (word >>> UInt64.ofNat (8 * index)).toUInt8

/-- The secret with a seed worked into it: added to every other word and subtracted
from the words between. -/
def seededSecret (seed : UInt64) : ByteArray :=
  ⟨((List.range 12).flatMap fun pair =>
    wordBytes (word secret (16 * pair) + seed) ++
      wordBytes (word secret (16 * pair + 8) - seed)).toArray⟩

/-- The number of bytes in a stripe. -/
def stripeSize : Nat := 64

/-- The number of stripes in a block. -/
def blockStripes : Nat := 16

/-- Takes one stripe into the lanes.  Each lane gets the product of the halves of its
own masked word, and the plain word of its partner. -/
def Lanes.absorb
    (secret bytes : ByteArray)
    (lanes : Lanes)
    (position secretPosition : Nat) : Lanes :=
  Vector.ofFn fun lane =>
    let masked :=
      word bytes (position + 8 * lane) ^^^ word secret (secretPosition + 8 * lane)
    let partner := word bytes (position + 8 * (lane.val ^^^ 1))
    lanes[lane] + partner + lowHalf masked * (masked >>> 32)

/-- Scrambles the lanes after a block. -/
def Lanes.scramble
    (secret : ByteArray)
    (lanes : Lanes) : Lanes :=
  Vector.ofFn fun lane =>
    (fold 47 lanes[lane] ^^^ word secret (128 + 8 * lane)) * prime32₁

/-- Takes the first stripes from a position on into the lanes. -/
def Lanes.absorbStripes
    (secret bytes : ByteArray)
    (position count : Nat)
    (lanes : Lanes) : Lanes :=
  (List.range count).foldl
    (fun lanes stripe =>
      lanes.absorb secret bytes (position + stripeSize * stripe) (8 * stripe))
    lanes

/-- Merges the lanes into one word. -/
def Lanes.merge
    (secret : ByteArray)
    (lanes : Lanes)
    (secretPosition : Nat)
    (start : UInt64) : UInt64 :=
  let pair (first second : Fin 8) : UInt64 :=
    foldedProduct
      (lanes[first] ^^^ word secret (secretPosition + 8 * first))
      (lanes[second] ^^^ word secret (secretPosition + 8 * second))
  finish (start + pair 0 1 + pair 2 3 + pair 4 5 + pair 6 7)

/-- The digest of more than 240 bytes. -/
def ofLarge
    (seed : UInt64)
    (bytes : ByteArray) : Digest :=
  let secret := seededSecret seed
  let blockSize := stripeSize * blockStripes
  let blocks := (bytes.size - 1) / blockSize
  let afterBlocks := (List.range blocks).foldl
    (fun lanes block =>
      (Lanes.absorbStripes secret bytes (blockSize * block) blockStripes lanes).scramble
        secret)
    Lanes.initial
  let stripes := (bytes.size - 1 - blockSize * blocks) / stripeSize
  let afterStripes :=
    Lanes.absorbStripes secret bytes (blockSize * blocks) stripes afterBlocks
  let lanes := afterStripes.absorb secret bytes (bytes.size - stripeSize) 121
  { high := lanes.merge secret 117 (~~~(sizeWord bytes * prime64₂))
    low := lanes.merge secret 11 (sizeWord bytes * prime64₁) }

end Digest
end Montage
