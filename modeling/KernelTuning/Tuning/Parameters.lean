import KernelTuning.Error
import KernelTuning.Json.Codec
import KernelTuning.SortedMap
import KernelTuning.Word

/-!
# Tuning parameters

Named values that select one configuration of a kernel. A set of parameters is a map from names,
so two sets with the same values are equal and have the same texts.

A value is an integer or one of some named choices; in JSON these are a number and a string, so
neither is ever read back as the other.
-/

namespace KernelTuning

/-- The value of a parameter. -/
inductive ParamValue where
  | int (n : Word)
  | choice (name : String)
deriving DecidableEq

namespace ParamValue

def toText : ParamValue → String
  | int n => toString n
  | choice name => name

instance : Json.Codec ParamValue where
  encode
    | int n => .nat n.toNat
    | choice name => .str name
  decode? n := (n.word?.map int).orElse fun _ => n.string?.map choice

end ParamValue

/-- Why a parameter has no value of the wanted kind. -/
inductive ParamError where
  | missing (name : String)
  | notInteger (name value : String)
  | notChoice (name : String) (value : Word)
deriving DecidableEq

def ParamError.message : ParamError → String
  | missing name => "Missing tuning parameter " ++ name
  | notInteger name value => "Parameter " ++ name ++ "=" ++ value ++ " is not an integer"
  | notChoice name value =>
    "Parameter " ++ name ++ "=" ++ toString value ++ " is not an enum"

/-- A set of named parameters. -/
structure TuningParameters where
  values : NameMap ParamValue
deriving DecidableEq

namespace TuningParameters

def empty : TuningParameters := ⟨∅⟩

instance : Inhabited TuningParameters := ⟨empty⟩

/-- The set with a parameter added or replaced. -/
def set (p : TuningParameters) (name : String) (value : ParamValue) : TuningParameters :=
  ⟨p.values.insert name value⟩

/-- The parameters of a list, set in turn. -/
def ofList (bindings : List (String × ParamValue)) : TuningParameters :=
  ⟨SortedMap.ofList bindings⟩

/-- Integer parameters. -/
def ofWords (bindings : List (String × Word)) : TuningParameters :=
  ofList (bindings.map fun b => (b.1, .int b.2))

/-- A single integer parameter. -/
def single (name : String) (value : Word) : TuningParameters := empty.set name (.int value)

def get? (p : TuningParameters) (name : String) : Option ParamValue := p.values.get? name

def getWord (p : TuningParameters) (name : String) : Except ParamError Word :=
  match p.get? name with
  | some (.int n) => .ok n
  | some (.choice value) => .error (.notInteger name value)
  | none => .error (.missing name)

def getChoice (p : TuningParameters) (name : String) : Except ParamError String :=
  match p.get? name with
  | some (.choice value) => .ok value
  | some (.int n) => .error (.notChoice name n)
  | none => .error (.missing name)

/-- The value of an integer parameter, or an internal error. -/
def word (p : TuningParameters) (name : String) : Attempt Word :=
  (p.getWord name).mapError fun e => .error (.internal e.message)

/-- The parameters with every value of `overrides` on top. -/
def merged (p overrides : TuningParameters) : TuningParameters :=
  ⟨p.values.insertMany overrides.values.toList⟩

/-- The bindings in the order of their names. -/
def toList (p : TuningParameters) : List (String × ParamValue) := p.values.toList

def toText (p : TuningParameters) : String :=
  ", ".intercalate (p.toList.map fun (name, value) => name ++ "=" ++ value.toText)

instance : Json.Codec TuningParameters where
  encode p := .obj (p.toList.map fun (name, value) => (name, Json.encode value))
  decode? n := do
    let members ← n.members?
    return ofList (← members.mapM fun (name, value) => (Json.decode? value).map (name, ·))

end TuningParameters

end KernelTuning
