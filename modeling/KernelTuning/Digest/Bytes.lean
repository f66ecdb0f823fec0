/-!
# Bytes

Little-endian words inside byte strings, and the hexadecimal text of bytes.
-/

namespace KernelTuning.Digest

/-- The byte at a position, zero past the end. -/
def byteAt (b : ByteArray) (i : Nat) : UInt8 := if h : i < b.size then b[i] else 0

/-- The 32-bit little-endian word at a position. -/
def word32At (b : ByteArray) (i : Nat) : UInt32 :=
  (byteAt b i).toUInt32 ||| ((byteAt b (i + 1)).toUInt32 <<< 8)
    ||| ((byteAt b (i + 2)).toUInt32 <<< 16) ||| ((byteAt b (i + 3)).toUInt32 <<< 24)

/-- The 64-bit little-endian word at a position. -/
def word64At (b : ByteArray) (i : Nat) : UInt64 :=
  (word32At b i).toUInt64 ||| ((word32At b (i + 4)).toUInt64 <<< 32)

/-- The `n` lowest bytes of a number, lowest first. -/
def littleEndian (n value : Nat) : List UInt8 :=
  match n with
  | 0 => []
  | n + 1 => UInt8.ofNat value :: littleEndian n (value / 256)

def hexDigit (n : Nat) : Char :=
  if n < 10 then Char.ofNat (48 + n) else Char.ofNat (87 + n)

/-- The two hexadecimal digits of a byte. -/
def hexByte (b : UInt8) : List Char := [hexDigit (b.toNat / 16), hexDigit (b.toNat % 16)]

/-- The hexadecimal text of a byte string, two digits per byte. -/
def hexText (bytes : List UInt8) : String := String.ofList (bytes.flatMap hexByte)

def hexValue? (c : Char) : Option Nat :=
  if '0' ≤ c ∧ c ≤ '9' then some (c.toNat - 48)
  else if 'a' ≤ c ∧ c ≤ 'f' then some (c.toNat - 87)
  else if 'A' ≤ c ∧ c ≤ 'F' then some (c.toNat - 55)
  else none

/-- The bytes of a hexadecimal text, two digits per byte. -/
def ofHex? : List Char → Option (List UInt8)
  | [] => some []
  | high :: low :: rest => do
    let h ← hexValue? high
    let l ← hexValue? low
    return UInt8.ofNat (16 * h + l) :: (← ofHex? rest)
  | _ => none

/-- The bytes of a hexadecimal text. -/
def ofHexText? (text : String) : Option (List UInt8) := ofHex? text.toList

/-- The number of a byte string, highest byte first. -/
def bigEndian (bytes : List UInt8) : Nat := bytes.foldl (fun n b => n * 256 + b.toNat) 0

/-- The 16 hexadecimal digits of a word. -/
def hexWord (w : UInt64) : String := hexText (littleEndian 8 w.toNat).reverse

end KernelTuning.Digest
