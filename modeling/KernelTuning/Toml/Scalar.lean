import KernelTuning.Binary64
import KernelTuning.Toml.Value

/-!
# TOML numbers, dates and names

The values that are written without quotes or brackets. `scalar?` reads one from the characters
up to the next delimiter, all of which it has to use.

**Numbers.** Digits may be grouped by single underscores, decimal numbers have no leading zeros.
Integers have 64 bits with a sign. A positive float that rounds to infinity is refused.

**Dates** have to be days of the calendar.
-/

namespace KernelTuning.Toml

def digitValue? (base : Nat) (c : Char) : Option Nat :=
  let n := c.toNat
  let value :=
    if 48 ≤ n ∧ n ≤ 57 then n - 48
    else if 97 ≤ n ∧ n ≤ 102 then n - 87
    else if 65 ≤ n ∧ n ≤ 70 then n - 55
    else base
  if value < base then some value else none

/-- The number of digits that may be grouped by single underscores. -/
def grouped? (base : Nat) : List Char → Nat → Option Nat
  | [], _ => none
  | [c], n => (digitValue? base c).map (n * base + ·)
  | c :: '_' :: rest, n => (digitValue? base c).bind fun d => grouped? base rest (n * base + d)
  | c :: rest, n => (digitValue? base c).bind fun d => grouped? base rest (n * base + d)

/-- A sign, true for minus, and what follows it. -/
def splitSign : List Char → Bool × List Char
  | '+' :: rest => (false, rest)
  | '-' :: rest => (true, rest)
  | rest => (false, rest)

/-- The number of a decimal without a sign: no leading zeros. -/
def decimal? (digits : List Char) : Option Nat :=
  if digits.head? = some '0' ∧ digits.length ≠ 1 then none else grouped? 10 digits 0

def integer? (text : List Char) : Option Int :=
  let magnitude : Option Int :=
    match text with
    | '0' :: 'x' :: digits => (grouped? 16 digits 0).map Int.ofNat
    | '0' :: 'o' :: digits => (grouped? 8 digits 0).map Int.ofNat
    | '0' :: 'b' :: digits => (grouped? 2 digits 0).map Int.ofNat
    | _ =>
      let (minus, digits) := splitSign text
      (decimal? digits).map fun n => if minus then -(n : Int) else n
  magnitude.filter fun i => -(2 ^ 63) ≤ i ∧ i < 2 ^ 63

/-! ## Floats -/

/-- Whether `coefficient * 10^exponent` rounds to a finite double. -/
def isFiniteDecimal (coefficient : Nat) (exponent : Int) : Bool :=
  let point : Int := (toString coefficient).length + exponent
  if coefficient = 0 ∨ point < -400 then true
  else if 400 < point then false
  else
    (Binary64.ofRatio (coefficient * 10 ^ exponent.toNat) (10 ^ (-exponent).toNat)).isFinite

/-- The exponent after its letter. -/
def exponent? (text : List Char) : Option Int :=
  let (minus, digits) := splitSign text
  (grouped? 10 digits 0).map fun n => if minus then -(n : Int) else n

def countDigits (text : List Char) : Nat := (text.filter (· ≠ '_')).length

/-- Whether the text is a float. -/
def isFloat (text : List Char) : Bool :=
  let (minus, magnitude) := splitSign text
  if magnitude = "inf".toList ∨ magnitude = "nan".toList then true
  else
    let isExponentMark (c : Char) : Bool := c = 'e' || c = 'E'
    let mantissa := magnitude.takeWhile (!isExponentMark ·)
    let exponent :=
      match magnitude.dropWhile (!isExponentMark ·) with
      | [] => some 0
      | _ :: digits => exponent? digits
    let whole := mantissa.takeWhile (· ≠ '.')
    let fraction := mantissa.dropWhile (· ≠ '.')
    let hasParts := fraction ≠ [] ∨ mantissa.length ≠ magnitude.length
    match decimal? whole, exponent, fraction with
    | some n, some e, [] => hasParts && (minus || isFiniteDecimal n e)
    | some n, some e, _ :: places =>
      match grouped? 10 places 0 with
      | some f =>
        let count := countDigits places
        minus || isFiniteDecimal (n * 10 ^ count + f) (e - count)
      | none => false
    | _, _, _ => false

/-! ## Dates and times -/

/-- A number of exactly so many digits. -/
def fixedDigits? (count : Nat) (text : List Char) : Option Nat :=
  if text.length = count ∧ text.all (·.isDigit) then grouped? 10 text 0 else none

def daysOf (year month : Nat) : Nat :=
  let isLeap := year % 4 = 0 ∧ (year % 100 ≠ 0 ∨ year % 400 = 0)
  if month = 2 then (if isLeap then 29 else 28)
  else if month = 4 ∨ month = 6 ∨ month = 9 ∨ month = 11 then 30
  else 31

def isDate (text : List Char) : Bool :=
  text.length = 10 && text[4]? = some '-' && text[7]? = some '-' &&
    match fixedDigits? 4 (text.take 4), fixedDigits? 2 ((text.drop 5).take 2),
      fixedDigits? 2 (text.drop 8) with
    | some year, some month, some day =>
      1 ≤ month && month ≤ 12 && 1 ≤ day && day ≤ daysOf year month
    | _, _, _ => false

/-- Whether the text is an hour and a minute with a colon between them. -/
def isHourMinute (text : List Char) : Bool :=
  text.length = 5 && text[2]? = some ':' &&
    match fixedDigits? 2 (text.take 2), fixedDigits? 2 (text.drop 3) with
    | some hour, some minute => hour ≤ 23 && minute ≤ 59
    | _, _ => false

/-- Whether the text is a time, with seconds and maybe a fraction of them. -/
def isTime (text : List Char) : Bool :=
  isHourMinute (text.take 5) && text[5]? = some ':' &&
    (fixedDigits? 2 ((text.drop 6).take 2)).any (· ≤ 60) &&
    match text.drop 8 with
    | [] => true
    | '.' :: places => !places.isEmpty && places.all (·.isDigit)
    | _ => false

/-- Whether the text is a time, maybe with an offset. -/
def isTimeWithOffset (text : List Char) : Bool :=
  let isOffsetMark (c : Char) : Bool := "Zz+-".toList.contains c
  let time := text.takeWhile (!isOffsetMark ·)
  isTime time &&
    match text.dropWhile (!isOffsetMark ·) with
    | [] => true
    | ['Z'] | ['z'] => true
    | 'Z' :: _ | 'z' :: _ => false
    | _ :: offset => isHourMinute offset

def isDateTime (text : List Char) : Bool :=
  isTime text || isDate text ||
    (isDate (text.take 10) && (text[10]?).any (fun c => c = 'T' || c = 't' || c = ' ') &&
      isTimeWithOffset (text.drop 11))

/-! ## Reading -/

/-- The value of a text without quotes and brackets. -/
def scalar? (text : List Char) : Option Value :=
  if text = "true".toList then some (.boolean true)
  else if text = "false".toList then some (.boolean false)
  else if isDateTime text then some .datetime
  else if isFloat text then some .float
  else (integer? text).map .integer

end KernelTuning.Toml
