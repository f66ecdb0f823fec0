import KernelTuning.Power

/-!
# Machine words

Sizes and counts are 64-bit words. A division needs a divisor, and a sum or a product has to fit in
a word: the program ends abruptly where this fails, and nothing is ever wrapped around.

**Faults.** The operations with a question mark end in a `Fault` there, which callers turn into a
crash. Where a sum or a product cannot be too large, since it is bounded by something that was
checked before, it is the plain one of words.

**Rounding.** `roundUp?` and `roundDown?` go to the next multiple, `floorPowerOfTwo` to the
next power of two below, and `powersOfTwo?` lists the powers of two of a range.
-/

namespace KernelTuning

/-- A 64-bit unsigned machine word. -/
abbrev Word := UInt64

namespace Word

/-- The number of values of a word. -/
def modulus : Nat := 2 ^ 64

/-- The word of a number, if it fits. -/
def ofNat? (n : Nat) : Option Word := if n < modulus then some (UInt64.ofNat n) else none

/-! ## Checked arithmetic -/

/-- The sum, unless it exceeds the largest word. -/
def checkedAdd (a b : Word) : Option Word := ofNat? (a.toNat + b.toNat)

/-- The product, unless it exceeds the largest word. -/
def checkedMul (a b : Word) : Option Word := ofNat? (a.toNat * b.toNat)

/-- The difference, or zero where it would be negative. -/
def saturatingSub (a b : Word) : Word := if b ≤ a then a - b else 0

/-! ## Arithmetic that can end abruptly -/

/-- Why arithmetic ends abruptly. -/
inductive Fault where
  | divisionByZero
  | additionOverflow
  | multiplicationOverflow
deriving DecidableEq

def Fault.message : Fault → String
  | divisionByZero => "attempt to divide by zero"
  | additionOverflow => "attempt to add with overflow"
  | multiplicationOverflow => "attempt to multiply with overflow"

/-- The sum, which has to fit in a word. -/
def add? (a b : Word) : Except Fault Word :=
  if a.toNat + b.toNat < modulus then .ok (a + b) else .error .additionOverflow

/-- The product, which has to fit in a word. -/
def mul? (a b : Word) : Except Fault Word :=
  if a.toNat * b.toNat < modulus then .ok (a * b) else .error .multiplicationOverflow

/-- The quotient, which a zero divisor does not have. -/
def div? (a b : Word) : Except Fault Word :=
  if b = 0 then .error .divisionByZero else .ok (a / b)

/-- The quotient rounded up. -/
def ceilDiv? (a b : Word) : Except Fault Word :=
  if b = 0 then .error .divisionByZero else .ok (if a % b = 0 then a / b else a / b + 1)

/-! ## Rounding to multiples -/

/-- `x` rounded up to a multiple of `multiple`. -/
def roundUp? (x multiple : Word) : Except Fault Word := do
  mul? (← ceilDiv? x multiple) multiple

/-- `x` rounded down to a multiple of `multiple`, which is never too large. -/
def roundDown? (x multiple : Word) : Except Fault Word := (div? x multiple).map (· * multiple)

/-! ## Powers of two -/

/-- Whether the word is a power of two. -/
def isPowerOfTwo (x : Word) : Bool := x != 0 && x.toNat == 2 ^ x.toNat.log2

/-- The largest power of two that is at most `x`, or zero for zero. -/
def floorPowerOfTwo (x : Word) : Word := if x = 0 then 0 else UInt64.ofNat (2 ^ x.toNat.log2)

/-- The least power of two that is at least `n`. -/
def ceilPowerOfTwo (n : Nat) : Nat := if n ≤ 1 then 1 else 2 ^ ((n - 1).log2 + 1)

/-- The numbers `p`, `2p`, `4p`, … up to `max`. -/
def doublings (p max : Nat) : List Nat :=
  if h : 0 < p ∧ p ≤ max then p :: doublings (2 * p) max else []
termination_by max + 1 - p

/-- The powers of two of `min..=max`, in increasing order.

The enumeration doubles from the first power of two that is at least `min`; above `2^63` there
is none to start from. -/
def powersOfTwo? (min max : Word) : Option (List Word) :=
  let start := ceilPowerOfTwo min.toNat
  if start < modulus then some ((doublings start max.toNat).map UInt64.ofNat) else none

/-- The powers of two of `min..=max`, none when there is no power of two to start from. -/
def powersOfTwo (min max : Word) : List Word := (powersOfTwo? min max).getD []

end Word

end KernelTuning
