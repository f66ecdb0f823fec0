import KernelTuning.Digest.Bytes
import KernelTuning.Toml.Value

/-!
# TOML strings

Strings between quotes. Double quotes allow escapes, single quotes take every character as it is;
three quotes of a kind allow line breaks, and up to two quotes just before the closing ones.

Each function reads the rest of a string whose opening quotes were taken, and gives the string
and what follows its closing quotes.
-/

namespace KernelTuning.Toml

def isBlank (c : Char) : Bool := c = ' ' || c = '\t'

/-- The characters that may stand in a string: no control characters but the tab. -/
def isTextChar (c : Char) : Bool := c = '\t' || (0x20 ≤ c.toNat && c.toNat ≠ 0x7F)

/-- The character of a hexadecimal number. Surrogates and larger numbers have none. -/
def charOfHex? (digits : List Char) : Option Char := do
  let values ← digits.mapM Digest.hexValue?
  let code := values.foldl (fun n d => n * 16 + d) 0
  if h : code.isValidChar then some (Char.ofNatAux code h) else none

/-- The character of an escape of one letter. -/
def escaped? : Char → Option Char
  | 'b' => some (Char.ofNat 8)
  | 't' => some '\t'
  | 'n' => some '\n'
  | 'f' => some (Char.ofNat 12)
  | 'r' => some '\r'
  | '"' => some '"'
  | '\\' => some '\\'
  | _ => none

/-- A string with a character before it. -/
def prepend (c : Char) (read : Option (List Char × List Char)) : Option (List Char × List Char) :=
  read.map fun r => (c :: r.1, r.2)

/-- A string in double quotes, on one line. -/
def basicString : List Char → Option (List Char × List Char)
  | [] => none
  | '"' :: rest => some ([], rest)
  | '\\' :: 'u' :: a :: b :: c :: d :: rest =>
    (charOfHex? [a, b, c, d]).bind fun x => prepend x (basicString rest)
  | '\\' :: 'U' :: a :: b :: c :: d :: e :: f :: g :: h :: rest =>
    (charOfHex? [a, b, c, d, e, f, g, h]).bind fun x => prepend x (basicString rest)
  | '\\' :: e :: rest => (escaped? e).bind fun x => prepend x (basicString rest)
  | c :: rest => if isTextChar c && c != '\\' then prepend c (basicString rest) else none

/-- A string in single quotes, on one line. -/
def literalString : List Char → Option (List Char × List Char)
  | [] => none
  | '\'' :: rest => some ([], rest)
  | c :: rest => if isTextChar c then prepend c (literalString rest) else none

/-- What follows blanks and line breaks. -/
def skipLines : List Char → List Char
  | '\r' :: '\n' :: rest => skipLines rest
  | '\n' :: rest => skipLines rest
  | ' ' :: rest => skipLines rest
  | '\t' :: rest => skipLines rest
  | rest => rest

theorem length_skipLines (l : List Char) : (skipLines l).length ≤ l.length := by
  fun_induction skipLines l <;> simp_all <;> omega

/-- What follows the blanks and the line break at the end of a continued line. -/
def continuation? (l : List Char) : Option (List Char) :=
  match l.dropWhile isBlank with
  | '\n' :: rest => some (skipLines rest)
  | '\r' :: '\n' :: rest => some (skipLines rest)
  | _ => none

theorem length_continuation? {l r : List Char} (h : continuation? l = some r) :
    r.length ≤ l.length := by
  have hdrop : (l.dropWhile isBlank).length ≤ l.length :=
    (List.dropWhile_sublist isBlank).length_le
  unfold continuation? at h
  split at h
  · rename_i rest heq
    have := length_skipLines rest
    grind
  · rename_i rest heq
    have := length_skipLines rest
    grind
  · cases h

/-- The content of a string in three double quotes. -/
def longBasicString : List Char → Option (List Char × List Char)
  | [] => none
  | '"' :: '"' :: '"' :: '"' :: '"' :: rest => some (['"', '"'], rest)
  | '"' :: '"' :: '"' :: '"' :: rest => some (['"'], rest)
  | '"' :: '"' :: '"' :: rest => some ([], rest)
  | '\\' :: 'u' :: a :: b :: c :: d :: rest =>
    (charOfHex? [a, b, c, d]).bind fun x => prepend x (longBasicString rest)
  | '\\' :: 'U' :: a :: b :: c :: d :: e :: f :: g :: h :: rest =>
    (charOfHex? [a, b, c, d, e, f, g, h]).bind fun x => prepend x (longBasicString rest)
  | '\\' :: e :: rest =>
    match escaped? e with
    | some x => prepend x (longBasicString rest)
    | none =>
      match _h : continuation? (e :: rest) with
      | some next => longBasicString next
      | none => none
  | '\r' :: '\n' :: rest => prepend '\n' (longBasicString rest)
  | c :: rest =>
    if (isTextChar c && c != '\\') || c = '\n' then prepend c (longBasicString rest) else none
termination_by l => l.length
decreasing_by
  all_goals simp_wf
  all_goals try omega
  have := length_continuation? _h
  simp only [List.length_cons] at this
  omega

/-- The content of a string in three single quotes. -/
def longLiteralString : List Char → Option (List Char × List Char)
  | [] => none
  | '\'' :: '\'' :: '\'' :: '\'' :: '\'' :: rest => some (['\'', '\''], rest)
  | '\'' :: '\'' :: '\'' :: '\'' :: rest => some (['\''], rest)
  | '\'' :: '\'' :: '\'' :: rest => some ([], rest)
  | '\r' :: '\n' :: rest => prepend '\n' (longLiteralString rest)
  | c :: rest => if isTextChar c || c = '\n' then prepend c (longLiteralString rest) else none

/-- The rest of a long string without a line break at its start. -/
def trimLineBreak : List Char → List Char
  | '\n' :: rest => rest
  | '\r' :: '\n' :: rest => rest
  | rest => rest

/-- A string at the start of a text, on one line or on several if these are allowed. -/
def string? (long : Bool) : List Char → Option (String × List Char)
  | '"' :: '"' :: '"' :: rest =>
    if long then (longBasicString (trimLineBreak rest)).map fun r => (String.ofList r.1, r.2)
    else some ("", '"' :: rest)
  | '\'' :: '\'' :: '\'' :: rest =>
    if long then (longLiteralString (trimLineBreak rest)).map fun r => (String.ofList r.1, r.2)
    else some ("", '\'' :: rest)
  | '"' :: rest => (basicString rest).map fun r => (String.ofList r.1, r.2)
  | '\'' :: rest => (literalString rest).map fun r => (String.ofList r.1, r.2)
  | _ => none

end KernelTuning.Toml
