import KernelTuning.Config
import KernelTuning.Toml.Quoted
import KernelTuning.Toml.Reader

/-!
# Configurations in TOML

A configuration file is a TOML document with a table `autotune`. Settings that are left out have
their defaults and unknown ones are passed over, but a setting of the wrong type is refused.

**Choices.** A choice is its name, or a table with the name as its only key: of what the choice
carries, or of something empty if it carries nothing. The settings may also be listed in their
order in an array. A date stands for a table without any known setting.
-/

namespace KernelTuning

open Toml (Value Entries)

namespace Toml.Value

def bool? : Value → Option Bool
  | boolean b => some b
  | _ => none

def string? : Value → Option String
  | string s => some s
  | _ => none

def isEmpty : Value → Bool
  | array [] => true
  | table _ [] => true
  | _ => false

/-- A choice among names, with what it carries. -/
def choice? : Value → Option (String × Option Value)
  | string s => some (s, none)
  | table _ [(name, v)] => some (name, some v)
  | _ => none

/-- A choice that carries nothing. -/
def name? (v : Value) : Option String :=
  match v.choice? with
  | some (name, none) => some name
  | some (name, some payload) => if payload.isEmpty then some name else none
  | none => none

/-- The fields of a record, each present or absent. -/
def fields? (names : List String) : Value → Option (List (Option Value))
  | table _ entries => some (names.map fun name => entries.lookup name)
  | array items => some ((List.range names.length).map (items[·]?))
  | datetime => some (names.map fun _ => none)
  | _ => none

end Toml.Value

namespace OutputConfig

def ofToml? (v : Value) : Option OutputConfig :=
  match v.choice? with
  | some ("file", some path) => path.string?.map file
  | _ =>
    match v.name? with
    | some "stdout" => some stdout
    | some "stderr" => some stderr
    | some "log" => some log
    | _ => none

end OutputConfig

namespace CacheConfig

def ofToml? (v : Value) : Option CacheConfig :=
  match v.choice? with
  | some ("file", some path) => path.string?.map directory
  | _ =>
    match v.name? with
    | some "local" => some workingDirectory
    | some "target" => some buildDirectory
    | some "global" => some userDirectory
    | _ => none

end CacheConfig

namespace AutotuneConfig

def ofToml? (v : Value) : Option AutotuneConfig := do
  match ← v.fields? fieldNames with
  | [enabled, verbosity, output, cache] =>
    return {
      enabled := ← optional (·.bool?) true enabled
      verbosity := ← optional (fun v => v.name?.bind Verbosity.ofName?) .normal verbosity
      output := ← optional OutputConfig.ofToml? .stdout output
      cache := ← optional CacheConfig.ofToml? .userDirectory cache }
  | _ => none

end AutotuneConfig

namespace GlobalConfig

/-- Reads a configuration file. -/
def ofToml? (text : String) : Option GlobalConfig := do
  let entries ← Toml.ofText? text
  return ⟨← AutotuneConfig.optional AutotuneConfig.ofToml? .default (entries.lookup "autotune")⟩

/-! ## Writing -/

/-- A setting on a line of its own. -/
def setting (name value : String) : String := name ++ " = " ++ value ++ "\n"

/-- A setting that is a table with a path. -/
def pathTable (name path : String) : String :=
  "\n[autotune." ++ name ++ "]\n" ++ setting "file" (Toml.Quoted.quote path)

/-- A setting as a line, and as a table after the lines. -/
def outputText : OutputConfig → String × String
  | .stdout => (setting "output" "\"stdout\"", "")
  | .stderr => (setting "output" "\"stderr\"", "")
  | .log => (setting "output" "\"log\"", "")
  | .file path => ("", pathTable "output" path)

def cacheText : CacheConfig → String × String
  | .workingDirectory => (setting "cache" "\"local\"", "")
  | .buildDirectory => (setting "cache" "\"target\"", "")
  | .userDirectory => (setting "cache" "\"global\"", "")
  | .directory path => ("", pathTable "cache" path)

/-- The text of a configuration file. -/
def toToml (c : GlobalConfig) : String :=
  let (outputLine, outputTable) := outputText c.autotune.output
  let (cacheLine, cacheTable) := cacheText c.autotune.cache
  "[autotune]\n" ++ setting "enabled" (if c.autotune.enabled then "true" else "false")
    ++ setting "verbosity" (Toml.Quoted.quote c.autotune.verbosity.name)
    ++ outputLine ++ cacheLine ++ outputTable ++ cacheTable

end GlobalConfig

end KernelTuning
