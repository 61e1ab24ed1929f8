import Montage.Digest.Mixing

/-!
# Digests of up to 240 bytes

Inputs of up to sixteen bytes are mixed by one or two products.  Longer ones are
taken in pairs of sixteen bytes, from both ends inwards up to 128 bytes, and from the
start onwards above.
-/

namespace Montage
namespace Digest

/-! ## Up to sixteen bytes -/

/-- The digest of no bytes. -/
def ofEmpty (seed : UInt64) : Digest where
  high := finishThorough (seed ^^^ word secret 80 ^^^ word secret 88)
  low := finishThorough (seed ^^^ word secret 64 ^^^ word secret 72)

/-- The digest of one to three bytes. -/
def ofUpTo3
    (seed : UInt64)
    (bytes : ByteArray) : Digest :=
  let size := bytes.size
  let straight :=
    byteAt bytes (size - 1) ||| (sizeWord bytes <<< 8) ||| (byteAt bytes 0 <<< 16) |||
      (byteAt bytes (size / 2) <<< 24)
  let swapped := swapBytes 4 straight
  let turned := lowHalf (swapped <<< 13) ||| (swapped >>> 19)
  let lowMask := (halfWord secret 0 ^^^ halfWord secret 4) + seed
  let highMask := (halfWord secret 8 ^^^ halfWord secret 12) - seed
  ⟨finishThorough (turned ^^^ highMask), finishThorough (straight ^^^ lowMask)⟩

/-- The digest of four to eight bytes. -/
def ofUpTo8
    (seed : UInt64)
    (bytes : ByteArray) : Digest :=
  let seed := seed ^^^ (swapBytes 4 seed <<< 32)
  let input := halfWord bytes 0 + (halfWord bytes (bytes.size - 4) <<< 32)
  let mask := (word secret 16 ^^^ word secret 24) + seed
  let mixed := product (input ^^^ mask) (prime64₁ + (sizeWord bytes <<< 2))
  let high := mixed.high + (mixed.low <<< 1)
  let low := mixed.low ^^^ (high >>> 3)
  ⟨finish high, fold 28 (fold 35 low * finisher₂)⟩

/-- The digest of nine to sixteen bytes. -/
def ofUpTo16
    (seed : UInt64)
    (bytes : ByteArray) : Digest :=
  let first := word bytes 0
  let last := word bytes (bytes.size - 8)
  let lowMask := (word secret 32 ^^^ word secret 40) - seed
  let highMask := (word secret 48 ^^^ word secret 56) + seed
  let mixed := product (first ^^^ last ^^^ lowMask) prime64₁
  let low := mixed.low + ((sizeWord bytes - 1) <<< 54)
  let masked := last ^^^ highMask
  let high := mixed.high + masked + lowHalf masked * (prime32₂ - 1)
  let second := product (low ^^^ swapBytes 8 high) prime64₂
  ⟨finish (second.high + high * prime64₂), finish second.low⟩

/-- The digest of up to sixteen bytes. -/
def ofTiny
    (seed : UInt64)
    (bytes : ByteArray) : Digest :=
  if bytes.size = 0 then ofEmpty seed
  else if bytes.size ≤ 3 then ofUpTo3 seed bytes
  else if bytes.size ≤ 8 then ofUpTo8 seed bytes
  else ofUpTo16 seed bytes

/-! ## Seventeen to 240 bytes -/

/-- Sixteen bytes of input mixed with sixteen bytes of the secret. -/
def mixPair
    (seed : UInt64)
    (bytes : ByteArray)
    (position secretPosition : Nat) : UInt64 :=
  foldedProduct
    (word bytes position ^^^ (word secret secretPosition + seed))
    (word bytes (position + 8) ^^^ (word secret (secretPosition + 8) - seed))

/-- Takes two stretches of sixteen bytes into a running digest. -/
def absorb
    (seed : UInt64)
    (bytes : ByteArray)
    (running : Digest)
    (first second secretPosition : Nat) : Digest where
  low :=
    (running.low + mixPair seed bytes first secretPosition) ^^^
      (word bytes second + word bytes (second + 8))
  high :=
    (running.high + mixPair seed bytes second (secretPosition + 16)) ^^^
      (word bytes first + word bytes (first + 8))

/-- The running digest before any input. -/
def start (bytes : ByteArray) : Digest :=
  ⟨0, sizeWord bytes * prime64₁⟩

/-- The digest after the last input. -/
def conclude
    (seed : UInt64)
    (bytes : ByteArray)
    (running : Digest) : Digest :=
  let low := running.low + running.high
  let high :=
    running.low * prime64₁ + running.high * prime64₄ +
      (sizeWord bytes - seed) * prime64₂
  ⟨0 - finish high, finish low⟩

/-- The digest of 17 to 128 bytes: pairs from the two ends, the innermost first. -/
def ofSmall
    (seed : UInt64)
    (bytes : ByteArray) : Digest :=
  let pairs := (bytes.size - 1) / 32
  let running := (List.range (pairs + 1)).reverse.foldl
    (fun running pair =>
      absorb seed bytes running (16 * pair) (bytes.size - 16 * (pair + 1)) (32 * pair))
    (start bytes)
  conclude seed bytes running

/-- The digest of 129 to 240 bytes: four pairs from the start, the pairs after them
once the running digest has been spread, and the last pair backwards. -/
def ofMedium
    (seed : UInt64)
    (bytes : ByteArray) : Digest :=
  let head := (List.range 4).foldl
    (fun running pair =>
      absorb seed bytes running (32 * pair) (32 * pair + 16) (32 * pair))
    (start bytes)
  let spread : Digest := ⟨finish head.high, finish head.low⟩
  let body := (List.range (bytes.size / 32 - 4)).foldl
    (fun running pair =>
      absorb seed bytes running (32 * pair + 128) (32 * pair + 144) (32 * pair + 3))
    spread
  let last :=
    absorb (0 - seed) bytes body (bytes.size - 16) (bytes.size - 32) 103
  conclude seed bytes last

end Digest
end Montage
