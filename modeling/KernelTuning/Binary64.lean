import KernelTuning.Power

/-!
# Double-precision numbers

Scores are IEEE 754 binary64 numbers, held as their 64 bits and computed with exactly.

**Value.** A finite number is `± scaled / 2^1074`, where `scaled = significand * 2^shift` is a
natural number. The least positive number is the unit of that scale.

**Arithmetic.** An operation on non-negative finite numbers is its exact result, a quotient of
two natural numbers, rounded once by `ofRatio`: to the nearest number, ties to the even
significand, and to infinity from the middle between the largest number and `2^1024` on.

**Order.** `lt` and `le` compare the signed words (`orderKey`), so the two zeros are equal and
nothing compares with a NaN.
-/

namespace KernelTuning

/-- A double-precision number, as its bits. -/
structure Binary64 where
  bits : UInt64
deriving DecidableEq

namespace Binary64

/-! ## Fields -/

def word (x : Binary64) : Nat := x.bits.toNat

def isNegative (x : Binary64) : Bool := 2 ^ 63 ≤ x.word

def exponentField (x : Binary64) : Nat := x.word / 2 ^ 52 % 2048

def fractionField (x : Binary64) : Nat := x.word % 2 ^ 52

def isFinite (x : Binary64) : Bool := x.exponentField != 2047

def isNaN (x : Binary64) : Bool := x.exponentField == 2047 && x.fractionField != 0

/-- The significand of a finite number, with its leading bit unless the number is subnormal. -/
def significand (x : Binary64) : Nat :=
  if x.exponentField = 0 then x.fractionField else 2 ^ 52 + x.fractionField

/-- The binary places by which the significand of a finite number is shifted. -/
def shift (x : Binary64) : Nat := x.exponentField - 1

/-- The magnitude of a finite number, in units of `1 / 2^1074`. -/
def scaled (x : Binary64) : Nat := x.significand * 2 ^ x.shift

/-- The magnitude of one, in units of `1 / 2^1074`. -/
def unitScale : Nat := 2 ^ 1074

def negate (x : Binary64) : Binary64 := ⟨UInt64.ofNat ((x.word + 2 ^ 63) % 2 ^ 64)⟩

def zero : Binary64 := ⟨0⟩

def infinity : Binary64 := ⟨UInt64.ofNat (2047 * 2 ^ 52)⟩

/-! ## Rounding -/

/-- The whole number nearest to `num / den`, the even one of two. -/
def nearestQuotient (num den : Nat) : Nat :=
  let q := num / den
  let twice := 2 * (num % den)
  if twice < den then q else if den < twice then q + 1 else q + q % 2

/-- The number nearest to `num / den`.

The shift leaves 53 bits of the quotient. A significand rounded up to `2^53` carries into the
exponent field by itself. -/
def ofRatio (num den : Nat) : Binary64 :=
  let shift := (num * unitScale / den).log2 - 52
  let significand := nearestQuotient (num * unitScale) (den * 2 ^ shift)
  ⟨UInt64.ofNat (min (shift * 2 ^ 52 + significand) (2047 * 2 ^ 52))⟩

/-- The number nearest to a natural number. -/
def ofNat (n : Nat) : Binary64 := ofRatio n 1

/-! ## Arithmetic of non-negative finite numbers -/

def add (x y : Binary64) : Binary64 := ofRatio (x.scaled + y.scaled) unitScale

def mul (x y : Binary64) : Binary64 := ofRatio (x.scaled * y.scaled) (unitScale * unitScale)

/-- The quotient by a positive number. -/
def div (x y : Binary64) : Binary64 := ofRatio x.scaled y.scaled

/-! ## Order -/

/-- The word as a signed magnitude, zero for both zeros. -/
def orderKey (x : Binary64) : Int :=
  if x.isNegative then -((x.word % 2 ^ 63 : Nat) : Int) else (x.word : Int)

def lt (x y : Binary64) : Bool := !x.isNaN && !y.isNaN && decide (x.orderKey < y.orderKey)

def le (x y : Binary64) : Bool := !x.isNaN && !y.isNaN && decide (x.orderKey ≤ y.orderKey)

end Binary64

end KernelTuning
