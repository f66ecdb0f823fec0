import KernelTuning.Binary64

/-!
# Decimal text of doubles

**Shortest digits.** `shortest` gives the fewest decimal digits that lie closer to the number
than to any other double, the nearest such digits if there are several. It tries 1, 2, … 17
digits; on the grid of each length only the two neighbours of the number can do, since the
numbers that round to it form an interval around it. If both are equally near, a `Tie` decides.

**Layouts.** `toPositional` writes no exponent at all, and takes the larger one of equally near
digits. `toFraction` writes small and large numbers with an exponent, and takes the even ones.
`fixed` writes a given number of places, rounded once from the exact value, ties to even.
-/

namespace KernelTuning

/-- The decimal `coefficient * 10^exponent`. -/
structure Decimal where
  coefficient : Nat
  exponent : Int
deriving DecidableEq

namespace Decimal

/-- The decimal without the trailing zeros of its coefficient. -/
def ofDigits (coefficient : Nat) (exponent : Int) : Decimal :=
  if h : coefficient ≠ 0 ∧ coefficient % 10 = 0 then
    ofDigits (coefficient / 10) (exponent + 1)
  else ⟨coefficient, exponent⟩
termination_by coefficient
decreasing_by omega

def digits (d : Decimal) : String := toString d.coefficient

/-- The power of ten just above the leading digit: the number of digits before the point. -/
def point (d : Decimal) : Int := d.digits.length + d.exponent

def zeros (n : Nat) : String := String.ofList (List.replicate n '0')

/-- Digits with a point after the first `n`. -/
def splitAt (digits : String) (n : Nat) : String :=
  String.ofList (digits.toList.take n) ++ "." ++ String.ofList (digits.toList.drop n)

/-- All digits written out, with `suffixWhole` after a whole number. -/
def positional (d : Decimal) (suffixWhole : String) : String :=
  if 0 ≤ d.exponent then d.digits ++ zeros d.exponent.toNat ++ suffixWhole
  else if 0 < d.point then splitAt d.digits d.point.toNat
  else "0." ++ zeros (-d.point).toNat ++ d.digits

/-- One digit before the point, and an exponent with its sign. -/
def scientific (d : Decimal) : String :=
  let digits := if d.digits.length = 1 then d.digits else splitAt d.digits 1
  let sign := if 0 < d.point then "+" else ""
  digits ++ "e" ++ sign ++ toString (d.point - 1)

end Decimal

/-- Which one of two equally near decimals stands for a number. -/
inductive Tie where
  | even
  | up
deriving DecidableEq

/-- Whether the coefficient below is taken, and not the next one. -/
def Tie.takesLower (tie : Tie) (lower : Nat) : Bool :=
  match tie with
  | even => lower % 2 == 0
  | up => false

namespace Binary64

/-- The exponent of the leading decimal digit of `num / den`, for a positive quotient. -/
def leadingExponent (num den : Nat) : Int :=
  if den ≤ num then (toString (num / den)).length - 1
  else
    match (List.range 330).find? (fun k => den ≤ num * 10 ^ k) with
    | some k => -(k : Int)
    | none => -330

/-- The decimal of one length that stands for a number: the nearer one of its neighbours on the
grid of multiples of `10^exponent` that lie in the interval from `low` to `high`, all in units of
`1 / den`. -/
def onGrid (tie : Tie) (low value high den : Nat) (closed : Bool) (exponent : Int) :
    Option Decimal :=
  let gridNum := 10 ^ exponent.toNat
  let gridDen := 10 ^ (-exponent).toNat
  let lower := value * gridDen / (den * gridNum)
  let position (c : Nat) := c * gridNum * den
  let inside (c : Nat) : Bool :=
    if closed then decide (low * gridDen ≤ position c ∧ position c ≤ high * gridDen)
    else decide (low * gridDen < position c ∧ position c < high * gridDen)
  let fromBelow := value * gridDen - position lower
  let fromAbove := position (lower + 1) - value * gridDen
  match inside lower, inside (lower + 1) with
  | true, true =>
    let takesLower := if fromBelow = fromAbove then tie.takesLower lower else decide (fromBelow < fromAbove)
    some (.ofDigits (if takesLower then lower else lower + 1) exponent)
  | true, false => some (.ofDigits lower exponent)
  | false, true => some (.ofDigits (lower + 1) exponent)
  | false, false => none

/-- The shortest decimal that rounds to the magnitude of a finite number. -/
def shortest (x : Binary64) (tie : Tie) : Decimal :=
  if x.significand = 0 then ⟨0, 0⟩
  else
    let unit := 2 ^ x.shift
    let value := 4 * x.scaled
    -- Below a power of two the neighbours are twice as close.
    let low := value - (if x.fractionField = 0 ∧ 1 < x.exponentField then unit else 2 * unit)
    let high := value + 2 * unit
    let den := 4 * unitScale
    let leading := leadingExponent value den
    let closed := x.significand % 2 == 0
    let attempt (n : Nat) := onGrid tie low value high den closed (leading - n)
    ((List.range 17).findSome? attempt).getD (.ofDigits (value / den) 0)

/-- The text of a special number, or the sign of `x` before the text of its digits. -/
def withSign (x : Binary64) (digits : String) : String :=
  if x.isNaN then "NaN"
  else
    let magnitude := if x.isFinite then digits else "inf"
    if x.isNegative then "-" ++ magnitude else magnitude

/-- The shortest digits written out without an exponent. -/
def toPositional (x : Binary64) : String := x.withSign ((x.shortest .up).positional "")

/-- The number rounded to `places` decimal places. -/
def fixed (x : Binary64) (places : Nat) : String :=
  let units := nearestQuotient (x.scaled * 10 ^ places) unitScale
  let digits := toString units
  let padded := Decimal.zeros (places + 1 - digits.length) ++ digits
  x.withSign (Decimal.splitAt padded (padded.length - places))

/-- The shortest digits with a fraction, written out from `10^-5` up to below `10^16` and with an
exponent elsewhere. -/
def toFraction (x : Binary64) : String :=
  let d := x.shortest .even
  x.withSign
    (if -5 < d.point ∧ d.point ≤ 16 then d.positional ".0" else d.scientific)

/-- The number rounded to a double, then multiplied or divided by powers of ten that are
themselves doubles, with a rounding at every step. A result beyond the largest double is none. -/
def scalePowerOfTen? (coefficient : Nat) (exponent : Int) : Option Binary64 :=
  let start := ofNat coefficient
  let power (n : Nat) := ofNat (10 ^ n)
  if 0 ≤ exponent then
    if coefficient = 0 then some zero
    else if 308 < exponent then none
    else
      let scaled := start.mul (power exponent.toNat)
      if scaled.isFinite then some scaled else none
  else some (shrink start (-exponent).toNat)
where
  /-- Divides by `10^n`, in steps of at most `10^308`. -/
  shrink (x : Binary64) (n : Nat) : Binary64 :=
    if n ≤ 308 then x.div (ofNat (10 ^ n))
    else if x = zero then x
    else shrink (x.div (ofNat (10 ^ 308))) (n - 308)
  termination_by n

end Binary64

end KernelTuning
