import KernelTuning.Toml.Scalar
import KernelTuning.Toml.Text

/-!
# Reading TOML

A document is read in two steps: its text into statements, one per line, and the statements into
the entries of the root table (`Entries.build`).

The readers take characters from the start of a text. Values in brackets and braces nest to a
limited depth, on which the reader of values recurses; lists of parts end with the text at the
latest, so their readers recurse on a bound that starts at its length.
-/

namespace KernelTuning.Toml

/-- Takes something from the start of a text. -/
abbrev Reader (α : Type) := StateT (List Char) Option α

namespace Reader

/-- Takes a character that has to be there. -/
def take (c : Char) : Reader Unit := fun
  | d :: rest => if c = d then some ((), rest) else none
  | [] => none

/-- Takes a character if it is there, and tells whether it was. -/
def takeIf (c : Char) : Reader Bool := fun
  | d :: rest => if c = d then some (true, rest) else some (false, d :: rest)
  | [] => some (false, [])

/-- Takes characters as long as they satisfy a condition. -/
def takeWhile (p : Char → Bool) : Reader (List Char) := fun l =>
  some (l.takeWhile p, l.dropWhile p)

/-- The next character, which is not taken. -/
def peek : Reader (Option Char) := fun l => some (l.head?, l)

def fail {α : Type} : Reader α := fun _ => none

def skipBlanks : Reader Unit := do
  let _ ← takeWhile isBlank

/-! ## Line ends -/

/-- Takes a comment if there is one. The characters of strings may stand in it. -/
def comment : Reader Unit := do
  if ← takeIf '#' then
    let _ ← takeWhile isTextChar

/-- Takes a line break, or nothing at the end of the text. -/
def lineBreak : Reader Unit := fun
  | [] => some ((), [])
  | '\n' :: rest => some ((), rest)
  | '\r' :: '\n' :: rest => some ((), rest)
  | _ => none

/-- Takes the blanks, the comment and the line break at the end of a line. -/
def lineEnd : Reader Unit := do
  skipBlanks
  comment
  lineBreak

/-- Takes blanks, comments and line breaks between the items of an array. -/
def skipSpace : Nat → Reader Unit
  | 0 => pure ()
  | bound + 1 => do
    skipBlanks
    match ← peek with
    | some '#' => do comment; lineBreak; skipSpace bound
    | some '\n' | some '\r' => do lineBreak; skipSpace bound
    | _ => pure ()

/-! ## Keys -/

def isBareKeyChar (c : Char) : Bool := c.isAlphanum || c = '_' || c = '-'

/-- A single key: bare, or in quotes on one line. -/
def simpleKey : Reader String := do
  match ← peek with
  | some '"' | some '\'' => fun l => string? false l
  | _ =>
    let name ← takeWhile isBareKeyChar
    if name.isEmpty then fail else return String.ofList name

/-- The keys that follow a first one, with dots before them. -/
def moreKeys : Nat → Reader (List String)
  | 0 => fail
  | bound + 1 => do
    skipBlanks
    if ← takeIf '.' then
      skipBlanks
      let key ← simpleKey
      return key :: (← moreKeys bound)
    else return []

/-- The number of keys that a dotted key may have. -/
def maxDepth : Nat := 79

/-- A dotted key, with the blanks around it. -/
def key : Reader (List String) := do
  skipBlanks
  let first ← simpleKey
  let path := first :: (← moreKeys (maxDepth + 1))
  if maxDepth < path.length then fail else return path

/-! ## Values -/

def isScalarChar (c : Char) : Bool := c.isAlphanum || "_+-.:".toList.contains c

/-- Whether a text goes on with a blank, an hour and a colon, as it does between the date and the
time of a date with a time. -/
def startsTime : List Char → Bool
  | ' ' :: a :: b :: ':' :: _ => a.isDigit && b.isDigit
  | _ => false

/-- A value without quotes and brackets. -/
def scalar : Reader Value := do
  let text ← takeWhile isScalarChar
  let rest ← get
  if isDate text && startsTime rest then
    take ' '
    let time ← takeWhile isScalarChar
    fun l => (scalar? (text ++ ' ' :: time)).map (·, l)
  else fun l => (scalar? text).map (·, l)

/-- The items of an array up to its closing bracket. -/
def items (value : Reader Value) : Nat → Reader (List Value)
  | 0 => fail
  | bound + 1 => do
    skipSpace (← get).length
    if ← takeIf ']' then return []
    let item ← value
    skipSpace (← get).length
    if ← takeIf ',' then return item :: (← items value bound)
    take ']'
    return [item]

/-- The keys of a table in braces up to the closing one, added to those before. -/
def members (value : Reader Value) (entries : Entries) : Nat → Reader Entries
  | 0 => fail
  | bound + 1 => do
    let path ← key
    take '='
    skipBlanks
    let v ← value
    skipBlanks
    match entries.define path v with
    | none => fail
    | some entries =>
      if ← takeIf ',' then members value entries bound
      else do take '}'; return entries

/-- A value in which brackets and braces nest to a depth. -/
def value : Nat → Reader Value
  | 0 => do
    match ← peek with
    | some '"' | some '\'' => fun l => (string? true l).map fun r => (.string r.1, r.2)
    | some '[' | some '\x7b' => fail
    | _ => scalar
  | depth + 1 => do
    match ← peek with
    | some '"' | some '\'' => fun l => (string? true l).map fun r => (.string r.1, r.2)
    | some '[' =>
      take '['
      let items ← items (value depth) (← get).length
      return .array items
    | some '\x7b' =>
      take '\x7b'
      skipBlanks
      if ← takeIf '\x7d' then return .table .inline []
      let entries ← members (value depth) [] (← get).length
      return .table .inline entries
    | _ => scalar

/-! ## Documents -/

/-- A header, with the line end after it. -/
def header : Reader Statement := do
  take '['
  let isArray ← takeIf '['
  let path ← key
  take ']'
  if isArray then take ']'
  lineEnd
  return if isArray then .openNext path else .openTable path

/-- A definition, with the line end after it. -/
def definition : Reader Statement := do
  let path ← key
  take '='
  skipBlanks
  let v ← value maxDepth
  lineEnd
  return .define path v

/-- The statements up to the end of the text. -/
def statements : Nat → Reader (List Statement)
  | 0 => do
    if (← get).isEmpty then return [] else fail
  | bound + 1 => do
    skipBlanks
    match ← peek with
    | none => return []
    | some '#' => do comment; lineBreak; statements bound
    | some '\n' | some '\r' => do lineBreak; statements bound
    | some '[' => do
      let s ← header
      return s :: (← statements bound)
    | some _ => do
      let s ← definition
      return s :: (← statements bound)

end Reader

/-- The text without a byte order mark at its start. -/
def withoutMark : List Char → List Char
  | c :: rest => if c.toNat = 0xFEFF then rest else c :: rest
  | [] => []

/-- The entries of the root table of a document. -/
def ofText? (text : String) : Option Entries := do
  let characters := withoutMark text.toList
  let (statements, _) ← (Reader.statements (characters.length + 1)).run characters
  Entries.build [] [] statements

end KernelTuning.Toml
