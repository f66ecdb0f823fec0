import KernelTuning.Json.Token

/-!
# Reading JSON

`Node.ofBytes?` reads one JSON value and nothing after it. A node keeps numbers and strings as
they are written, and the members of an object in their order with repeated names.

The reader is a machine with a stack of unfinished arrays and objects, one step per token, so
it recurses on the tokens alone, and the nesting of a text need not be limited. `Node.ofText?`
limits it, and wants every number and string to have a value; in what `Node.ofBytes?` reads, parts
that are passed over may be anything.

**Records.** A record is read from an object by the names of its fields, where unknown members
are skipped and a repeated field is refused, or from an array that lists the fields in order
(`Node.fields?`).
-/

namespace KernelTuning.Json

inductive Node where
  | null
  | bool (b : Bool)
  | number (n : NumberLiteral)
  | string (s : StringLiteral)
  | array (items : List Node)
  | object (members : List (StringLiteral × Node))

namespace Node

instance : Inhabited Node := ⟨.null⟩

/-! ## The machine -/

/-- An array or object that still lacks a value, with the parts read so far in reverse. -/
inductive Frame where
  | array (items : List Node)
  | member (members : List (StringLiteral × Node)) (name : StringLiteral)

/-- What the machine waits for. -/
inductive Expectation where
  | value
  /-- The first item of an array, or its end. -/
  | firstItem
  /-- The first member of an object, or its end. -/
  | firstMember
  /-- The name of a further member. -/
  | memberName (members : List (StringLiteral × Node))
  | colon (members : List (StringLiteral × Node)) (name : StringLiteral)
  /-- A comma or the end of the enclosing array or object, after a complete value. -/
  | separator (done : Node)

/-- The machine after a token that starts a value. -/
def startValue (stack : List Frame) : Token → Option (List Frame × Expectation)
  | .null => some (stack, .separator .null)
  | .bool b => some (stack, .separator (.bool b))
  | .number n => some (stack, .separator (.number n))
  | .string s => some (stack, .separator (.string s))
  | .openBracket => some (.array [] :: stack, .firstItem)
  | .openBrace => some (stack, .firstMember)
  | _ => none

def step : List Frame × Expectation → Token → Option (List Frame × Expectation)
  | (stack, .value), t => startValue stack t
  | (.array _ :: stack, .firstItem), .closeBracket => some (stack, .separator (.array []))
  | (stack, .firstItem), t => startValue stack t
  | (stack, .firstMember), .closeBrace => some (stack, .separator (.object []))
  | (stack, .firstMember), .string s => some (stack, .colon [] s)
  | (stack, .memberName members), .string s => some (stack, .colon members s)
  | (stack, .colon members name), .colon => some (.member members name :: stack, .value)
  | (.array items :: stack, .separator v), .comma => some (.array (v :: items) :: stack, .value)
  | (.array items :: stack, .separator v), .closeBracket =>
    some (stack, .separator (.array (v :: items).reverse))
  | (.member members name :: stack, .separator v), .comma =>
    some (stack, .memberName ((name, v) :: members))
  | (.member members name :: stack, .separator v), .closeBrace =>
    some (stack, .separator (.object ((name, v) :: members).reverse))
  | _, _ => none

def run : List Frame × Expectation → List Token → Option (List Frame × Expectation)
  | s, [] => some s
  | s, t :: rest => (step s t).bind fun s' => run s' rest

/-- The value of a list of tokens that is exactly one value. -/
def ofTokens? (tokens : List Token) : Option Node :=
  match run ([], .value) tokens with
  | some ([], .separator v) => some v
  | _ => none

def ofBytes? (bytes : List UInt8) : Option Node := (Token.ofBytes? bytes).bind ofTokens?

/-- The most arrays and objects that are open at once. -/
def nesting (tokens : List Token) : Nat :=
  (tokens.foldl
    (fun (deepest, depth) t =>
      match t with
      | .openBracket | .openBrace => (max deepest (depth + 1), depth + 1)
      | .closeBracket | .closeBrace => (deepest, depth - 1)
      | _ => (deepest, depth)) (0, 0)).1

/-- How deep arrays and objects may nest in a value that is read as a whole. -/
def nestingLimit : Nat := 127

/-- Reads a value as a whole: all numbers and strings have values themselves, and nesting is
limited. -/
def ofText? (text : String) : Option Node := do
  let tokens ← Token.ofBytes? text.toUTF8.toList
  if tokens.all Token.isMeaningful && nesting tokens ≤ nestingLimit then ofTokens? tokens else none

/-! ## Views -/

def string? : Node → Option String
  | .string s => s.text?
  | _ => none

def bool? : Node → Option Bool
  | .bool b => some b
  | _ => none

def word? : Node → Option UInt64
  | .number n => n.word?.map UInt64.ofNat
  | _ => none

def word32? (n : Node) : Option UInt32 :=
  n.word?.bind fun w => if w.toNat < 2 ^ 32 then some (UInt32.ofNat w.toNat) else none

def int? : Node → Option Int
  | .number n => n.int?
  | _ => none

def double? : Node → Option Binary64
  | .number n => n.double?
  | _ => none

def items? : Node → Option (List Node)
  | .array items => some items
  | _ => none

/-- The members of an object, with their names resolved. -/
def members? : Node → Option (List (String × Node))
  | .object members => members.mapM fun (name, v) => name.text?.map (·, v)
  | _ => none

/-- The last member of an object with a name, unless it is `null`. -/
def member? (n : Node) (name : String) : Option Node :=
  match n.members?.bind fun members => members.reverse.lookup name with
  | some .null => none
  | v => v

/-- The fields of a record, each present or absent. -/
def fields? (names : List String) (n : Node) : Option (List (Option Node)) :=
  match n with
  | .array items =>
    if items.length ≤ names.length then
      some (items.map some ++ List.replicate (names.length - items.length) none)
    else none
  | n => do
    let members ← n.members?
    names.mapM fun name =>
      match members.filter (fun m => m.1 == name) with
      | [] => some none
      | [m] => some (some m.2)
      | _ => none

/-- A choice among names: the name itself, or an object with the name bound to what it
carries. -/
def choice? : Node → Option (String × Option Node)
  | .string s => s.text?.map (·, none)
  | .object [(name, v)] => name.text?.map (·, some v)
  | _ => none

/-- A choice that carries nothing, which may also be written as bound to `null`. -/
def name? (n : Node) : Option String :=
  match n.choice? with
  | some (name, none) => some name
  | some (name, some .null) => some name
  | _ => none

end Node

end KernelTuning.Json
