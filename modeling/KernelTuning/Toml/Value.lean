/-!
# TOML values

The values of a TOML document and the rules by which statements define them.

**Tables.** How a table came to be decides what may still be added to it (`TableKind`): a header
may open a table that so far only headers of deeper tables imply, and a dotted key may extend a
table that dotted keys made. A table in braces is complete.
-/

namespace KernelTuning.Toml

/-- How a table came to be. -/
inductive TableKind where
  /-- Written in braces. -/
  | inline
  /-- Made by a dotted key. -/
  | dotted
  /-- Implied by the header of a table inside it. -/
  | implied
  /-- Opened by a header, or the root. -/
  | opened
deriving DecidableEq

inductive Value where
  | string (s : String)
  | integer (i : Int)
  | boolean (b : Bool)
  | float
  | datetime
  | array (items : List Value)
  | table (kind : TableKind) (entries : List (String × Value))
  /-- The tables of an array of headers, the latest first. -/
  | tables (tables : List (List (String × Value)))

instance : Inhabited Value := ⟨.datetime⟩

/-- The keys of a table with their values. -/
abbrev Entries := List (String × Value)

namespace Entries

/-- The entries with the value of a key changed, or added if it was missing. -/
def change (key : String) (f : Option Value → Option Value) : Entries → Option Entries
  | [] => (f none).map fun v => [(key, v)]
  | (k, v) :: rest =>
    if k = key then (f (some v)).map fun v' => (k, v') :: rest
    else (change key f rest).map ((k, v) :: ·)

/-- Changes the entries of the table that a path leads to. Missing tables on the way are made by
the dotted key, or implied by the header, that the path belongs to. -/
def descend (byKey : Bool) (f : TableKind → Entries → Option Entries) :
    List String → TableKind → Entries → Option Entries
  | [], kind, entries => f kind entries
  | key :: rest, _, entries =>
    change key
      (fun
        | none =>
          let kind := if byKey then .dotted else .implied
          (descend byKey f rest kind []).map (.table kind)
        | some (.table kind inner) =>
          if kind = .inline ∨ (byKey ∧ kind = .opened) then none
          else (descend byKey f rest kind inner).map (.table kind)
        | some (.tables (last :: earlier)) =>
          (descend byKey f rest .opened last).map fun last => .tables (last :: earlier)
        | some _ => none)
      entries

/-- Adds a key that is not there yet. -/
def add (key : String) (value : Value) (entries : Entries) : Option Entries :=
  change key (fun | none => some value | some _ => none) entries

/-- Defines a dotted key in a table. Only tables that dotted keys made can be extended so. -/
def define (path : List String) (value : Value) (entries : Entries) : Option Entries :=
  match path.getLast? with
  | none => none
  | some key =>
    descend true
      (fun kind inner =>
        if path.length = 1 ∨ kind = .dotted then add key value inner else none)
      path.dropLast .opened entries

/-- Opens the table of a header. -/
def openTable (path : List String) (entries : Entries) : Option Entries :=
  match path.getLast? with
  | none => none
  | some key =>
    descend false
      (fun _ => change key fun
        | none => some (.table .opened [])
        | some (.table .implied inner) => some (.table .opened inner)
        | some _ => none)
      path.dropLast .opened entries

/-- Opens the next table of an array of headers. -/
def openNext (path : List String) (entries : Entries) : Option Entries :=
  match path.getLast? with
  | none => none
  | some key =>
    descend false
      (fun _ => change key fun
        | none => some (.tables [[]])
        | some (.tables tables) => some (.tables ([] :: tables))
        | some _ => none)
      path.dropLast .opened entries

end Entries

/-- A line of a document that says something. -/
inductive Statement where
  /-- `[path]` -/
  | openTable (path : List String)
  /-- `[[path]]` -/
  | openNext (path : List String)
  /-- `path = value` -/
  | define (path : List String) (value : Value)

/-- The entries after the statements, in the table that the last header opened. -/
def Entries.build (header : List String) (entries : Entries) : List Statement → Option Entries
  | [] => some entries
  | .openTable path :: rest => (entries.openTable path).bind fun e => build path e rest
  | .openNext path :: rest => (entries.openNext path).bind fun e => build path e rest
  | .define path value :: rest =>
    (entries.descend false (fun _ inner => inner.define path value) header .opened).bind
      fun e => build header e rest

end KernelTuning.Toml
