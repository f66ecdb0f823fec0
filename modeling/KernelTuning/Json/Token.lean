import KernelTuning.Binary64.Decimal

/-!
# JSON tokens

The lexical level of JSON, over bytes: `Token.ofBytes?` splits a text into punctuation, names,
numbers and strings, and refuses a text that holds anything else.

A string token keeps the bytes between its quotes as they are written. `StringLiteral.text?`
resolves the escapes and checks the encoding, so a string that is skipped over never has to be
well encoded. In the same way a number token keeps its digits, and the reader of the number
decides on its range.
-/

namespace KernelTuning.Json

def isDigitByte (b : UInt8) : Bool := 48 ≤ b.toNat && b.toNat ≤ 57

def isBlankByte (b : UInt8) : Bool := b = 32 || b = 9 || b = 10 || b = 13

/-- The value of a hexadecimal digit. -/
def hexValue? (b : UInt8) : Option Nat :=
  let n := b.toNat
  if 48 ≤ n ∧ n ≤ 57 then some (n - 48)
  else if 97 ≤ n ∧ n ≤ 102 then some (n - 87)
  else if 65 ≤ n ∧ n ≤ 70 then some (n - 55)
  else none

/-- The value of four hexadecimal digits. -/
def hexQuad? (a b c d : UInt8) : Option Nat := do
  let a ← hexValue? a
  let b ← hexValue? b
  let c ← hexValue? c
  let d ← hexValue? d
  return ((a * 16 + b) * 16 + c) * 16 + d

/-! ## Numbers -/

/-- The digits of a number as they are written. -/
structure NumberLiteral where
  isNegative : Bool
  whole : List Nat
  /-- The digits after the point, none if there is no point. -/
  fraction : List Nat
  /-- The sign (true for minus) and the digits of the exponent. -/
  exponent : Option (Bool × List Nat)
deriving DecidableEq

namespace NumberLiteral

def value (digits : List Nat) : Nat := digits.foldl (fun n d => n * 10 + d) 0

/-- The value of a literal without sign, fraction and exponent, if it fits in a word.

Minus zero is not among them. -/
def word? (n : NumberLiteral) : Option Nat :=
  if n.isNegative = false ∧ n.fraction = [] ∧ n.exponent = none ∧ value n.whole < 2 ^ 64 then
    some (value n.whole)
  else none

/-- The value of a literal without fraction and exponent, if it fits in a word with a sign. -/
def int? (n : NumberLiteral) : Option Int :=
  let i : Int := if n.isNegative then -(value n.whole : Int) else value n.whole
  if n.fraction = [] ∧ n.exponent = none ∧ -2 ^ 63 ≤ i ∧ i < 2 ^ 63 then some i else none

/-- Appends digits to a significand for as long as it fits in a word, and counts those
appended. -/
def extend (significand : Nat) : List Nat → Nat × Nat
  | [] => (significand, 0)
  | d :: rest =>
    if significand * 10 + d < 2 ^ 64 then
      let (s, taken) := extend (significand * 10 + d) rest
      (s, taken + 1)
    else (significand, 0)

/-- Reads the literal as a double.

The significand holds the leading digits that fit in a word, the others only count as powers of
ten. A literal beyond the largest double is refused; one too close to zero is zero. -/
def double? (n : NumberLiteral) : Option Binary64 :=
  let (whole, taken) := extend 0 n.whole
  let dropped := n.whole.length - taken
  let (significand, places) := extend whole n.fraction
  let base : Int := dropped - places
  let magnitude : Option Binary64 :=
    match n.exponent with
    | none => Binary64.scalePowerOfTen? significand base
    | some (minus, digits) =>
      let e := value digits
      if 2 ^ 31 ≤ e then
        if significand = 0 ∨ minus then some .zero else none
      else Binary64.scalePowerOfTen? significand (if minus then base - e else base + e)
  magnitude.map fun x => if n.isNegative then x.negate else x

end NumberLiteral

/-! ## Strings -/

/-- The bytes between the quotes of a string. -/
abbrev StringLiteral := List UInt8

namespace StringLiteral

/-- The byte that a one-letter escape stands for. -/
def escaped? (b : UInt8) : Option UInt8 :=
  if b = 34 ∨ b = 92 ∨ b = 47 then some b
  else if b = 98 then some 8
  else if b = 102 then some 12
  else if b = 110 then some 10
  else if b = 114 then some 13
  else if b = 116 then some 9
  else none

/-- The bytes with their escapes resolved. Surrogates must come in pairs. -/
def resolve? : StringLiteral → Option (List UInt8)
  | [] => some []
  | 92 :: 117 :: a :: b :: c :: d :: rest => do
    let n ← hexQuad? a b c d
    if 0xDC00 ≤ n ∧ n ≤ 0xDFFF then none
    else if 0xD800 ≤ n ∧ n ≤ 0xDBFF then
      match rest with
      | 92 :: 117 :: e :: f :: g :: h :: rest' => do
        let m ← hexQuad? e f g h
        if 0xDC00 ≤ m ∧ m ≤ 0xDFFF then
          let code := 0x10000 + (n - 0xD800) * 0x400 + (m - 0xDC00)
          return String.utf8EncodeChar (Char.ofNat code) ++ (← resolve? rest')
        else none
      | _ => none
    else return String.utf8EncodeChar (Char.ofNat n) ++ (← resolve? rest)
  | 92 :: e :: rest => do
    let b ← escaped? e
    return b :: (← resolve? rest)
  | b :: rest => do return b :: (← resolve? rest)

/-- The text of a string, if its escapes and its encoding are in order. -/
def text? (s : StringLiteral) : Option String := do
  let bytes ← resolve? s
  String.fromUTF8? ⟨bytes.toArray⟩

end StringLiteral

/-! ## Tokens -/

inductive Token where
  | openBrace | closeBrace | openBracket | closeBracket | colon | comma
  | null
  | bool (b : Bool)
  | number (n : NumberLiteral)
  | string (s : StringLiteral)
deriving DecidableEq

namespace Token

/-- Whether a number or string has a value. -/
def isMeaningful : Token → Bool
  | .number n => n.double?.isSome
  | .string s => s.text?.isSome
  | _ => true

/-- The digits at the start of a text, and what follows them. -/
def spanDigits (l : List UInt8) : List Nat × List UInt8 :=
  ((l.takeWhile isDigitByte).map (fun b => b.toNat - 48), l.dropWhile isDigitByte)

/-- The sign at the start of an exponent: whether it is a minus, and what follows it. -/
def exponentSign : List UInt8 → Bool × List UInt8
  | 43 :: rest => (false, rest)
  | 45 :: rest => (true, rest)
  | rest => (false, rest)

/-- The exponent at the start of a text, if there is one. -/
def exponent? : List UInt8 → Option (Option (Bool × List Nat) × List UInt8)
  | [] => some (none, [])
  | c :: rest =>
    if c = 101 ∨ c = 69 then
      let sign := exponentSign rest
      let digits := spanDigits sign.2
      if digits.1.isEmpty then none else some (some (sign.1, digits.1), digits.2)
    else some (none, c :: rest)

/-- The fraction at the start of a text, if there is one: a point with digits after it. -/
def fraction? : List UInt8 → Option (List Nat × List UInt8)
  | 46 :: rest =>
    let digits := spanDigits rest
    if digits.1.isEmpty then none else some digits
  | rest => some ([], rest)

/-- A number without its sign: no leading zeros, and digits on both sides of a point. -/
def number? (minus : Bool) (l : List UInt8) : Option (NumberLiteral × List UInt8) :=
  let whole := spanDigits l
  if whole.1.isEmpty ∨ (1 < whole.1.length ∧ whole.1.head? = some 0) then none
  else
    (fraction? whole.2).bind fun fraction =>
      (exponent? fraction.2).map fun exponent =>
        (⟨minus, whole.1, fraction.1, exponent.1⟩, exponent.2)

/-- The rest of a string up to its closing quote, with every escape well formed. -/
def string? : List UInt8 → Option (StringLiteral × List UInt8)
  | [] => none
  | 34 :: rest => some ([], rest)
  | 92 :: 117 :: a :: b :: c :: d :: rest =>
    if (hexQuad? a b c d).isSome then
      (string? rest).map fun s => (92 :: 117 :: a :: b :: c :: d :: s.1, s.2)
    else none
  | 92 :: e :: rest =>
    if (StringLiteral.escaped? e).isSome then (string? rest).map fun s => (92 :: e :: s.1, s.2)
    else none
  | b :: rest =>
    if b.toNat < 32 ∨ b = 92 then none
    else (string? rest).map fun s => (b :: s.1, s.2)

/-- The token at the start of a text that starts with no blank. -/
def next? : List UInt8 → Option (Token × List UInt8)
  | [] => none
  | 123 :: rest => some (.openBrace, rest)
  | 125 :: rest => some (.closeBrace, rest)
  | 91 :: rest => some (.openBracket, rest)
  | 93 :: rest => some (.closeBracket, rest)
  | 58 :: rest => some (.colon, rest)
  | 44 :: rest => some (.comma, rest)
  | 110 :: 117 :: 108 :: 108 :: rest => some (.null, rest)
  | 116 :: 114 :: 117 :: 101 :: rest => some (.bool true, rest)
  | 102 :: 97 :: 108 :: 115 :: 101 :: rest => some (.bool false, rest)
  | 34 :: rest => (string? rest).map fun s => (.string s.1, s.2)
  | 45 :: rest => (number? true rest).map fun n => (.number n.1, n.2)
  | l => (number? false l).map fun n => (.number n.1, n.2)

/-! ### A token takes at least one byte -/

theorem length_spanDigits (l : List UInt8) :
    (spanDigits l).1.length + (spanDigits l).2.length = l.length := by
  simp only [spanDigits, List.length_map]
  rw [← List.length_append, List.takeWhile_append_dropWhile]

theorem length_exponentSign (l : List UInt8) : (exponentSign l).2.length ≤ l.length := by
  unfold exponentSign; split <;> simp

theorem length_exponent? {l : List UInt8} {e} (h : exponent? l = some e) :
    e.2.length ≤ l.length := by
  unfold exponent? at h
  split at h
  · obtain rfl := Option.some.inj h
    simp
  · rename_i rest
    have := length_exponentSign rest
    have := length_spanDigits (exponentSign rest).2
    grind

theorem length_fraction? {l : List UInt8} {f} (h : fraction? l = some f) :
    f.2.length ≤ l.length := by
  unfold fraction? at h
  split at h
  · rename_i rest
    have := length_spanDigits rest
    grind
  · grind

theorem length_number? {minus : Bool} {l : List UInt8} {n} (h : number? minus l = some n) :
    n.2.length < l.length := by
  unfold number? at h
  have hspan := length_spanDigits l
  simp only at h
  split at h
  · simp at h
  · rename_i hne
    obtain ⟨f, hf, h⟩ := Option.bind_eq_some_iff.1 h
    obtain ⟨e, he, rfl⟩ := Option.map_eq_some_iff.1 h
    have := length_fraction? hf
    have := length_exponent? he
    have : 0 < (spanDigits l).1.length := List.length_pos_iff.2 fun h => hne (.inl (by simp [h]))
    simp only
    omega

theorem length_string? {l : List UInt8} {s} (h : string? l = some s) :
    s.2.length < l.length := by
  fun_induction string? l generalizing s with
  | case1 | case4 | case6 | case7 => simp at h
  | case2 => simp at h; simp [← h]
  | case3 _ _ _ _ _ _ ih | case5 _ _ _ _ ih | case8 _ _ _ _ _ _ ih =>
    obtain ⟨t, ht, rfl⟩ := Option.map_eq_some_iff.1 h
    have := ih ht
    simp only [List.length_cons]
    omega

theorem length_next? {l : List UInt8} {t} (h : next? l = some t) : t.2.length < l.length := by
  unfold next? at h
  split at h
  case h_11 | h_12 | h_13 =>
    obtain ⟨u, hu, rfl⟩ := Option.map_eq_some_iff.1 h
    first
    | have := length_string? hu; grind
    | have := length_number? hu; grind
  all_goals grind

/-- The tokens of a text, without the blanks between them. -/
def ofBytes? (l : List UInt8) : Option (List Token) :=
  match _hl : l.dropWhile isBlankByte with
  | [] => some []
  | b :: rest =>
    match _h : next? (b :: rest) with
    | none => none
    | some t => (ofBytes? t.2).map (t.1 :: ·)
termination_by l.length
decreasing_by
  have h₁ := length_next? _h
  have h₂ : (l.dropWhile isBlankByte).length ≤ l.length :=
    (List.dropWhile_sublist isBlankByte).length_le
  rw [_hl] at h₂
  omega

end Token

end KernelTuning.Json
