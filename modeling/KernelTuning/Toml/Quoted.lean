import KernelTuning.Toml.Text

/-!
# Writing TOML strings

A string is written in the first form in which no character needs an escape: between double
quotes, between single quotes, between three double quotes, between three single quotes. Only the
forms with three quotes allow line breaks, and only those with single quotes allow backslashes.
Quotes of the kind that encloses a string may stand in it where three quotes enclose it, at most
two in a row. Control characters, other than tabs and line breaks, fit into no form: then the
string is written between double quotes with escapes.

A tab between double quotes is written as an escape in any case.
-/

namespace KernelTuning.Toml.Quoted

/-- What encloses a string. -/
inductive Form where
  | basic
  | literal
  | longBasic
  | longLiteral
deriving DecidableEq

namespace Form

def mark : Form → String
  | basic => "\""
  | literal => "'"
  | longBasic => "\"\"\""
  | longLiteral => "'''"

def isLong : Form → Bool
  | basic | literal => false
  | longBasic | longLiteral => true

/-- The number of enclosing quotes that may stand in a row in the string. -/
def quoteLimit (f : Form) : Nat := if f.isLong then 2 else 0

end Form

/-! ## Choosing the form -/

/-- The length of the longest run of a character. -/
def longestRun (mark : Char) (text : List Char) : Nat :=
  (text.foldl
    (fun (longest, current) c =>
      let current := if c = mark then current + 1 else 0
      (max longest current, current)) (0, 0)).1

def isControl (c : Char) : Bool := c.toNat < 0x20 || c.toNat = 0x7F

/-- Whether a string can be written in a form without escapes, tabs apart. -/
def fits (text : List Char) (f : Form) : Bool :=
  let kind := match f with
    | .basic | .longBasic => !text.contains '\\' && longestRun '"' text ≤ f.quoteLimit
    | .literal | .longLiteral => longestRun '\'' text ≤ f.quoteLimit
  kind && (f.isLong || !text.contains '\n')
    && text.all fun c => !isControl c || c = '\t' || c = '\n'

/-- The form of a string. -/
def form (text : List Char) : Form :=
  ([.basic, .literal, .longBasic, .longLiteral].find? (fits text)).getD
    (if text.contains '\n' then .longBasic else .basic)

/-! ## Escapes -/

def upperHexDigit (n : Nat) : Char := if n < 10 then Char.ofNat (48 + n) else Char.ofNat (55 + n)

/-- The characters that stand for one character other than a quote between double quotes. -/
def escape (long : Bool) (c : Char) : List Char :=
  if c = '\n' then (if long then ['\n'] else ['\\', 'n'])
  else if c = '\t' then ['\\', 't']
  else if c = '\r' then ['\\', 'r']
  else if c.toNat = 8 then ['\\', 'b']
  else if c.toNat = 12 then ['\\', 'f']
  else if c = '\\' then ['\\', '\\']
  else if isControl c then
    ['\\', 'u', '0', '0', upperHexDigit (c.toNat / 16), upperHexDigit (c.toNat % 16)]
  else [c]

/-- The content of a string between double quotes, after `run` quotes in a row. -/
def escapeFrom (f : Form) (run : Nat) : List Char → List Char
  | [] => []
  | c :: rest =>
    if c = '"' then
      if run < f.quoteLimit then '"' :: escapeFrom f (run + 1) rest
      else '\\' :: '"' :: escapeFrom f 0 rest
    else escape f.isLong c ++ escapeFrom f 0 rest

def content (text : List Char) (f : Form) : List Char :=
  match f with
  | .basic | .longBasic => escapeFrom f 0 text
  | .literal | .longLiteral => text

/-- A string between quotes. A line break at its start would be dropped by readers, so a string
with line breaks starts on a line of its own. -/
def quote (text : String) : String :=
  let characters := text.toList
  let f := form characters
  let start := if f.isLong && characters.contains '\n' then "\n" else ""
  f.mark ++ start ++ String.ofList (content characters f) ++ f.mark

end KernelTuning.Toml.Quoted
