import KernelTuning.Binary64.Decimal
import KernelTuning.Digest.Bytes

/-!
# JSON values and their text

A `Json` value is what the library writes: records, keys and configurations. Objects list their
fields in the order in which they are written.

**Layouts.** `compact` writes no blanks. `pretty` puts every item and field on a line of its own,
indented by two blanks per level, and keeps empty arrays and objects on one line.

**Strings.** Only the quote, the backslash and the control characters below U+0020 are escaped.
**Numbers.** Doubles always show a fraction or an exponent; those that are not finite are `null`.
-/

namespace KernelTuning

inductive Json where
  | null
  | bool (b : Bool)
  | int (i : Int)
  | float (x : Binary64)
  | str (s : String)
  | arr (items : List Json)
  | obj (fields : List (String × Json))

namespace Json

instance : Inhabited Json := ⟨.null⟩

def nat (n : Nat) : Json := .int n

/-! ## Strings -/

/-- The characters that stand for one character of a string. -/
def escapeChar (c : Char) : List Char :=
  if c = '"' then ['\\', '"']
  else if c = '\\' then ['\\', '\\']
  else if 0x20 ≤ c.toNat then [c]
  else if c = '\n' then ['\\', 'n']
  else if c = '\r' then ['\\', 'r']
  else if c = '\t' then ['\\', 't']
  else if c.toNat = 8 then ['\\', 'b']
  else if c.toNat = 12 then ['\\', 'f']
  else ['\\', 'u', '0', '0'] ++ Digest.hexByte (UInt8.ofNat c.toNat)

/-- A string between quotes. -/
def quote (s : String) : String := String.ofList ('"' :: (s.toList.flatMap escapeChar ++ ['"']))

def floatText (x : Binary64) : String := if x.isFinite then x.toFraction else "null"

/-! ## Compact text -/

mutual

def compact : Json → String
  | .null => "null"
  | .bool b => if b then "true" else "false"
  | .int i => toString i
  | .float x => floatText x
  | .str s => quote s
  | .arr items => "[" ++ ",".intercalate (compactItems items) ++ "]"
  | .obj fields => "\x7b" ++ ",".intercalate (compactFields fields) ++ "\x7d"

def compactItems : List Json → List String
  | [] => []
  | v :: rest => compact v :: compactItems rest

def compactFields : List (String × Json) → List String
  | [] => []
  | (name, v) :: rest => (quote name ++ ":" ++ compact v) :: compactFields rest

end

/-! ## Indented text -/

/-- The start of a line at a level. -/
def newline (level : Nat) : String := "\n" ++ String.ofList (List.replicate (2 * level) ' ')

/-- The parts of an array or object between its brackets, one to a line. -/
def block (left right : String) (level : Nat) (parts : List String) : String :=
  if parts.isEmpty then left ++ right
  else left ++ newline (level + 1) ++ ("," ++ newline (level + 1)).intercalate parts
    ++ newline level ++ right

mutual

def prettyAt (level : Nat) : Json → String
  | .arr items => block "[" "]" level (prettyItems level items)
  | .obj fields => block "\x7b" "\x7d" level (prettyFields level fields)
  | .null => "null"
  | .bool b => if b then "true" else "false"
  | .int i => toString i
  | .float x => floatText x
  | .str s => quote s

def prettyItems (level : Nat) : List Json → List String
  | [] => []
  | v :: rest => prettyAt (level + 1) v :: prettyItems level rest

def prettyFields (level : Nat) : List (String × Json) → List String
  | [] => []
  | (name, v) :: rest => (quote name ++ ": " ++ prettyAt (level + 1) v) :: prettyFields level rest

end

def pretty (v : Json) : String := prettyAt 0 v

end Json

end KernelTuning
