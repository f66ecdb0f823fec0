import KernelTuning.Digest.Bytes
import KernelTuning.Power

/-!
# XXH3 with 128 bits

The stable hash of byte strings, with the standard secret and no seed. Short inputs are hashed
by formulas of their own for lengths 0, 1–3, 4–8, 9–16, 17–128 and 129–240; longer ones are
split into stripes of 64 bytes that eight lanes accumulate.

The hash depends on the bytes alone, so it does not matter in which chunks they arrive
(`ofChunks`).
-/

namespace KernelTuning.Digest

/-- A 128-bit hash. -/
structure Hash128 where
  high : UInt64
  low : UInt64
deriving DecidableEq

/-- The hash as 32 hexadecimal digits. -/
def Hash128.toHex (h : Hash128) : String :=
  hexText ((littleEndian 8 h.high.toNat).reverse ++ (littleEndian 8 h.low.toNat).reverse)

namespace Xxh3

/-! ## Constants -/

def prime32₁ : UInt64 := 0x9E3779B1
def prime32₂ : UInt64 := 0x85EBCA77
def prime32₃ : UInt64 := 0xC2B2AE3D
def prime64₁ : UInt64 := 0x9E3779B185EBCA87
def prime64₂ : UInt64 := 0xC2B2AE3D27D4EB4F
def prime64₃ : UInt64 := 0x165667B19E3779F9
def prime64₄ : UInt64 := 0x85EBCA77C2B2AE63
def prime64₅ : UInt64 := 0x27D4EB2F165667C5
def primeMix₁ : UInt64 := 0x165667919E3779F9
def primeMix₂ : UInt64 := 0x9FB21C651E98DF25

def secret : ByteArray := ⟨#[
  0xb8, 0xfe, 0x6c, 0x39, 0x23, 0xa4, 0x4b, 0xbe, 0x7c, 0x01, 0x81, 0x2c, 0xf7, 0x21, 0xad, 0x1c,
  0xde, 0xd4, 0x6d, 0xe9, 0x83, 0x90, 0x97, 0xdb, 0x72, 0x40, 0xa4, 0xa4, 0xb7, 0xb3, 0x67, 0x1f,
  0xcb, 0x79, 0xe6, 0x4e, 0xcc, 0xc0, 0xe5, 0x78, 0x82, 0x5a, 0xd0, 0x7d, 0xcc, 0xff, 0x72, 0x21,
  0xb8, 0x08, 0x46, 0x74, 0xf7, 0x43, 0x24, 0x8e, 0xe0, 0x35, 0x90, 0xe6, 0x81, 0x3a, 0x26, 0x4c,
  0x3c, 0x28, 0x52, 0xbb, 0x91, 0xc3, 0x00, 0xcb, 0x88, 0xd0, 0x65, 0x8b, 0x1b, 0x53, 0x2e, 0xa3,
  0x71, 0x64, 0x48, 0x97, 0xa2, 0x0d, 0xf9, 0x4e, 0x38, 0x19, 0xef, 0x46, 0xa9, 0xde, 0xac, 0xd8,
  0xa8, 0xfa, 0x76, 0x3f, 0xe3, 0x9c, 0x34, 0x3f, 0xf9, 0xdc, 0xbb, 0xc7, 0xc7, 0x0b, 0x4f, 0x1d,
  0x8a, 0x51, 0xe0, 0x4b, 0xcd, 0xb4, 0x59, 0x31, 0xc8, 0x9f, 0x7e, 0xc9, 0xd9, 0x78, 0x73, 0x64,
  0xea, 0xc5, 0xac, 0x83, 0x34, 0xd3, 0xeb, 0xc3, 0xc5, 0x81, 0xa0, 0xff, 0xfa, 0x13, 0x63, 0xeb,
  0x17, 0x0d, 0xdd, 0x51, 0xb7, 0xf0, 0xda, 0x49, 0xd3, 0x16, 0x55, 0x26, 0x29, 0xd4, 0x68, 0x9e,
  0x2b, 0x16, 0xbe, 0x58, 0x7d, 0x47, 0xa1, 0xfc, 0x8f, 0xf8, 0xb8, 0xd1, 0x7a, 0xd0, 0x31, 0xce,
  0x45, 0xcb, 0x3a, 0x8f, 0x95, 0x16, 0x04, 0x28, 0xaf, 0xd7, 0xfb, 0xca, 0xbb, 0x4b, 0x40, 0x7e]⟩

/-- The 64-bit word of the secret at a position. -/
def key64 (i : Nat) : UInt64 := word64At secret i

/-! ## Mixing -/

def xorShift (x n : UInt64) : UInt64 := x ^^^ (x >>> n)

def avalanche (h : UInt64) : UInt64 := xorShift (xorShift h 37 * primeMix₁) 32

def avalanche64 (h : UInt64) : UInt64 :=
  xorShift (xorShift (xorShift h 33 * prime64₂) 29 * prime64₃) 32

/-- The full product of two words. -/
def product (a b : UInt64) : Hash128 :=
  let p := a.toNat * b.toNat
  ⟨UInt64.ofNat (p / 2 ^ 64), UInt64.ofNat p⟩

/-- The halves of the full product, combined. -/
def fold (a b : UInt64) : UInt64 :=
  let p := product a b
  p.low ^^^ p.high

def swapBytes (n : Nat) (x : UInt64) : UInt64 :=
  UInt64.ofNat ((littleEndian n x.toNat).foldl (fun acc b => acc * 256 + b.toNat) 0)

def low32 (x : UInt64) : UInt64 := x &&& 0xFFFFFFFF

/-- Mixes 16 bytes with the secret at a position. -/
def mix16 (input : ByteArray) (at_ key : Nat) (seed : UInt64) : UInt64 :=
  fold (word64At input at_ ^^^ (key64 key + seed))
    (word64At input (at_ + 8) ^^^ (key64 (key + 8) - seed))

/-- Mixes two groups of 16 bytes into an accumulator. -/
def mix32 (input : ByteArray) (acc : Hash128) (at₁ at₂ key : Nat) (seed : UInt64) : Hash128 :=
  ⟨(acc.high + mix16 input at₂ (key + 16) seed)
      ^^^ (word64At input at₁ + word64At input (at₁ + 8)),
    (acc.low + mix16 input at₁ key seed) ^^^ (word64At input at₂ + word64At input (at₂ + 8))⟩

/-! ## Lengths up to 240 -/

def hashEmpty : Hash128 :=
  ⟨avalanche64 (key64 80 ^^^ key64 88), avalanche64 (key64 64 ^^^ key64 72)⟩

def hash1to3 (input : ByteArray) : Hash128 :=
  let len := input.size
  let first := (byteAt input 0).toUInt64
  let middle := (byteAt input (len / 2)).toUInt64
  let last := (byteAt input (len - 1)).toUInt64
  let low := (first <<< 16) ||| (middle <<< 24) ||| last ||| (UInt64.ofNat len <<< 8)
  let swapped := swapBytes 4 low
  let high := low32 ((swapped <<< 13) ||| (swapped >>> 19))
  let flipLow := (word32At secret 0 ^^^ word32At secret 4).toUInt64
  let flipHigh := (word32At secret 8 ^^^ word32At secret 12).toUInt64
  ⟨avalanche64 (high ^^^ flipHigh), avalanche64 (low ^^^ flipLow)⟩

def hash4to8 (input : ByteArray) : Hash128 :=
  let len := input.size
  let word := (word32At input 0).toUInt64 + ((word32At input (len - 4)).toUInt64 <<< 32)
  let keyed := word ^^^ (key64 16 ^^^ key64 24)
  let p := product keyed (prime64₁ + (UInt64.ofNat len <<< 2))
  let high := p.high + (p.low <<< 1)
  let low := p.low ^^^ (high >>> 3)
  ⟨avalanche high, xorShift (xorShift low 35 * primeMix₂) 28⟩

def hash9to16 (input : ByteArray) : Hash128 :=
  let len := input.size
  let flipLow := key64 32 ^^^ key64 40
  let flipHigh := key64 48 ^^^ key64 56
  let first := word64At input 0
  let last := word64At input (len - 8)
  let p := product (first ^^^ last ^^^ flipLow) prime64₁
  let low := p.low + (UInt64.ofNat (len - 1) <<< 54)
  let keyed := last ^^^ flipHigh
  let high := p.high + keyed + low32 keyed * (prime32₂ - 1)
  let q := product (low ^^^ swapBytes 8 high) prime64₂
  ⟨avalanche (q.high + high * prime64₂), avalanche q.low⟩

/-- The hash of the two accumulators of a middle length. -/
def finish (acc : Hash128) (len : UInt64) : Hash128 :=
  ⟨0 - avalanche (acc.low * prime64₁ + acc.high * prime64₄ + len * prime64₂),
    avalanche (acc.low + acc.high)⟩

def hash17to128 (input : ByteArray) : Hash128 :=
  let len := input.size
  -- Pairs of groups from both ends, the outermost last.
  let pairs := ((List.range 4).filter fun i => i = 0 ∨ 32 * i < len).reverse
  let acc := pairs.foldl
    (fun acc i => mix32 input acc (16 * i) (len - 16 * (i + 1)) (32 * i) 0)
    ⟨0, UInt64.ofNat len * prime64₁⟩
  finish acc (UInt64.ofNat len)

def hash129to240 (input : ByteArray) : Hash128 :=
  let len := input.size
  let acc := (List.range 4).foldl
    (fun acc i => mix32 input acc (32 * i) (32 * i + 16) (32 * i) 0)
    ⟨0, UInt64.ofNat len * prime64₁⟩
  let acc : Hash128 := ⟨avalanche acc.high, avalanche acc.low⟩
  let acc := (List.range (len / 32 - 4)).foldl
    (fun acc i => mix32 input acc (32 * (i + 4)) (32 * (i + 4) + 16) (3 + 32 * i) 0) acc
  let acc := mix32 input acc (len - 16) (len - 32) 103 0
  finish acc (UInt64.ofNat len)

/-! ## Longer inputs -/

/-- The eight lanes. -/
abbrev Lanes := Array UInt64

def lane (a : Lanes) (i : Nat) : UInt64 := a.getD i 0

def startLanes : Lanes :=
  #[prime32₃, prime64₁, prime64₂, prime64₃, prime64₄, prime32₂, prime64₅, prime32₁]

/-- Adds a stripe of 64 bytes: every lane takes the product of the halves of its keyed word, and
the plain word of its neighbour. -/
def accumulate (input : ByteArray) (acc : Lanes) (at_ key : Nat) : Lanes :=
  let words := (Array.range 8).map fun i => word64At input (at_ + 8 * i)
  (Array.range 8).map fun i =>
    let keyed := words.getD i 0 ^^^ key64 (key + 8 * i)
    lane acc i + words.getD (i ^^^ 1) 0 + low32 keyed * (keyed >>> 32)

def scramble (acc : Lanes) : Lanes :=
  (Array.range 8).map fun i => (xorShift (lane acc i) 47 ^^^ key64 (128 + 8 * i)) * prime32₁

/-- Adds the first `count` stripes of the block at a position. -/
def accumulateStripes (input : ByteArray) (acc : Lanes) (at_ count : Nat) : Lanes :=
  (List.range count).foldl (fun acc n => accumulate input acc (at_ + 64 * n) (8 * n)) acc

def merge (acc : Lanes) (key : Nat) (start : UInt64) : UInt64 :=
  avalanche ((List.range 4).foldl
    (fun sum i => sum + fold (lane acc (2 * i) ^^^ key64 (key + 16 * i))
      (lane acc (2 * i + 1) ^^^ key64 (key + 16 * i + 8))) start)

def hashLong (input : ByteArray) : Hash128 :=
  let len := input.size
  let blocks := (len - 1) / 1024
  let acc := (List.range blocks).foldl
    (fun acc b => scramble (accumulateStripes input acc (1024 * b) 16)) startLanes
  let acc := accumulateStripes input acc (1024 * blocks) ((len - 1 - 1024 * blocks) / 64)
  let acc := accumulate input acc (len - 64) 121
  let size := UInt64.ofNat len
  ⟨merge acc 117 (~~~(size * prime64₂)), merge acc 11 (size * prime64₁)⟩

/-- The hash of a byte string. -/
def hash (input : ByteArray) : Hash128 :=
  let len := input.size
  if len = 0 then hashEmpty
  else if len ≤ 3 then hash1to3 input
  else if len ≤ 8 then hash4to8 input
  else if len ≤ 16 then hash9to16 input
  else if len ≤ 128 then hash17to128 input
  else if len ≤ 240 then hash129to240 input
  else hashLong input

/-- The hash of the bytes of several chunks, one after the other. -/
def ofChunks (chunks : List ByteArray) : Hash128 := hash (chunks.foldl (· ++ ·) ByteArray.empty)

/-- The hash of a byte string as 32 hexadecimal digits. -/
def hexDigest (input : ByteArray) : String := (hash input).toHex

end Xxh3

end KernelTuning.Digest
