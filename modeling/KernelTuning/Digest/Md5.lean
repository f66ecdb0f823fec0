import KernelTuning.Digest.Bytes

/-!
# MD5

The message is padded to a multiple of 64 bytes with a one bit, zeros and its bit length. Each
block is mixed into four words in 64 steps; step `i` takes one word of the block, one constant
and one rotation.
-/

namespace KernelTuning.Digest.Md5

/-- The rotation amounts of the four rounds, repeated four times in each. -/
def rotations : Array UInt32 := #[7, 12, 17, 22, 5, 9, 14, 20, 4, 11, 16, 23, 6, 10, 15, 21]

/-- The integer parts of `2^32 * |sin (i + 1)|`. -/
def constants : Array UInt32 := #[
  0xd76aa478, 0xe8c7b756, 0x242070db, 0xc1bdceee, 0xf57c0faf, 0x4787c62a, 0xa8304613, 0xfd469501,
  0x698098d8, 0x8b44f7af, 0xffff5bb1, 0x895cd7be, 0x6b901122, 0xfd987193, 0xa679438e, 0x49b40821,
  0xf61e2562, 0xc040b340, 0x265e5a51, 0xe9b6c7aa, 0xd62f105d, 0x02441453, 0xd8a1e681, 0xe7d3fbc8,
  0x21e1cde6, 0xc33707d6, 0xf4d50d87, 0x455a14ed, 0xa9e3e905, 0xfcefa3f8, 0x676f02d9, 0x8d2a4c8a,
  0xfffa3942, 0x8771f681, 0x6d9d6122, 0xfde5380c, 0xa4beea44, 0x4bdecfa9, 0xf6bb4b60, 0xbebfbc70,
  0x289b7ec6, 0xeaa127fa, 0xd4ef3085, 0x04881d05, 0xd9d4d039, 0xe6db99e5, 0x1fa27cf8, 0xc4ac5665,
  0xf4292244, 0x432aff97, 0xab9423a7, 0xfc93a039, 0x655b59c3, 0x8f0ccc92, 0xffeff47d, 0x85845dd1,
  0x6fa87e4f, 0xfe2ce6e0, 0xa3014314, 0x4e0811a1, 0xf7537e82, 0xbd3af235, 0x2ad7d2bb, 0xeb86d391]

structure State where
  a : UInt32
  b : UInt32
  c : UInt32
  d : UInt32

def start : State := ⟨0x67452301, 0xefcdab89, 0x98badcfe, 0x10325476⟩

def rotateLeft (x n : UInt32) : UInt32 := (x <<< n) ||| (x >>> (32 - n))

/-- The mixing function of step `i`, and the word of the block that the step takes. -/
def mix (i : Nat) (s : State) : UInt32 × Nat :=
  match i / 16 with
  | 0 => ((s.b &&& s.c) ||| (~~~s.b &&& s.d), i)
  | 1 => ((s.d &&& s.b) ||| (~~~s.d &&& s.c), (5 * i + 1) % 16)
  | 2 => (s.b ^^^ s.c ^^^ s.d, (3 * i + 5) % 16)
  | _ => (s.c ^^^ (s.b ||| ~~~s.d), (7 * i) % 16)

def step (message : ByteArray) (block : Nat) (s : State) (i : Nat) : State :=
  let (f, k) := mix i s
  let sum := f + s.a + constants.getD i 0 + word32At message (64 * block + 4 * k)
  ⟨s.d, s.b + rotateLeft sum (rotations.getD (i / 16 * 4 + i % 4) 0), s.b, s.c⟩

def absorb (message : ByteArray) (s : State) (block : Nat) : State :=
  let t := (List.range 64).foldl (step message block) s
  ⟨s.a + t.a, s.b + t.b, s.c + t.c, s.d + t.d⟩

/-- The message with its padding. -/
def pad (message : ByteArray) : ByteArray :=
  let zeros := (119 - message.size % 64) % 64
  ⟨message.data ++ (0x80 :: List.replicate zeros 0).toArray
    ++ (littleEndian 8 (8 * message.size)).toArray⟩

/-- The 16 bytes of the digest. -/
def digest (message : ByteArray) : List UInt8 :=
  let padded := pad message
  let s := (List.range (padded.size / 64)).foldl (absorb padded) start
  [s.a, s.b, s.c, s.d].flatMap fun w => littleEndian 4 w.toNat

/-- The digest of a text, in hexadecimal. -/
def ofText (text : String) : String := hexText (digest text.toUTF8)

end KernelTuning.Digest.Md5
