import KernelTuning.Tuning.Tuner

/-!
# Configuration

Whether tuning runs, what it reports, and where results are kept. Every setting that is left out
has its default. Variables of the environment override three of the settings; values that mean
nothing are passed over.
-/

namespace KernelTuning

/-- Where the progress of tuning is written. -/
inductive OutputConfig where
  | stdout
  | stderr
  | log
  /-- A file, to whose end lines are added. -/
  | file (path : String)
deriving DecidableEq

namespace OutputConfig

def toSink : OutputConfig → OutputSink
  | stdout => .stdout
  | stderr => .stderr
  | log => .log
  | file path => .file path

instance : Json.Codec OutputConfig where
  encode
    | stdout => .str "stdout"
    | stderr => .str "stderr"
    | log => .str "log"
    | file path => .obj [("file", .str path)]
  decode? n :=
    match n.choice? with
    | some ("file", some path) => path.string?.map file
    | _ =>
      match n.name? with
      | some "stdout" => some stdout
      | some "stderr" => some stderr
      | some "log" => some log
      | _ => none

end OutputConfig

/-- Where the results of tuning are kept. -/
inductive CacheConfig where
  /-- In the current directory. -/
  | workingDirectory
  /-- In the build directory of the enclosing project. -/
  | buildDirectory
  /-- In the cache directory of the user. -/
  | userDirectory
  | directory (path : String)
deriving DecidableEq

namespace CacheConfig

instance : Json.Codec CacheConfig where
  encode
    | workingDirectory => .str "local"
    | buildDirectory => .str "target"
    | userDirectory => .str "global"
    | directory path => .obj [("file", .str path)]
  decode? n :=
    match n.choice? with
    | some ("file", some path) => path.string?.map directory
    | _ =>
      match n.name? with
      | some "local" => some workingDirectory
      | some "target" => some buildDirectory
      | some "global" => some userDirectory
      | _ => none

end CacheConfig

/-- The settings of tuning. -/
structure AutotuneConfig where
  enabled : Bool
  verbosity : Verbosity
  output : OutputConfig
  cache : CacheConfig
deriving DecidableEq

namespace AutotuneConfig

def default : AutotuneConfig := ⟨true, .normal, .stdout, .userDirectory⟩

def fieldNames : List String := ["enabled", "verbosity", "output", "cache"]

/-- The policy that the settings describe. -/
def policy (c : AutotuneConfig) : TunePolicy := ⟨c.enabled, c.verbosity, c.output.toSink⟩

/-- A field that has a default. -/
def optional {α ν : Type} (read : ν → Option α) (fallback : α) : Option ν → Option α
  | none => some fallback
  | some value => read value

instance : Json.Codec AutotuneConfig where
  encode c := .obj [
    ("enabled", .bool c.enabled), ("verbosity", Json.encode c.verbosity),
    ("output", Json.encode c.output), ("cache", Json.encode c.cache)]
  decode? n := do
    match ← n.fields? fieldNames with
    | [enabled, verbosity, output, cache] =>
      return {
        enabled := ← optional (·.bool?) true enabled
        verbosity := ← optional Json.decode? .normal verbosity
        output := ← optional Json.decode? .stdout output
        cache := ← optional Json.decode? .userDirectory cache }
    | _ => none

end AutotuneConfig

/-- The configuration of a program. -/
structure GlobalConfig where
  autotune : AutotuneConfig
deriving DecidableEq

namespace GlobalConfig

def default : GlobalConfig := ⟨.default⟩

instance : Inhabited GlobalConfig := ⟨default⟩

instance : Json.Codec GlobalConfig where
  encode c := .obj [("autotune", Json.encode c.autotune)]
  decode? n := do
    match ← n.fields? ["autotune"] with
    | [autotune] => return ⟨← AutotuneConfig.optional Json.decode? .default autotune⟩
    | _ => none

/-! ## Environment -/

/-- The variable that names the directory of the cache. -/
def cacheVariable : String := "GRIDPRIM_CACHE_DIR"

/-- The variable that switches tuning on (`1`, `true`) and off (`0`, `false`). -/
def enabledVariable : String := "GRIDPRIM_AUTOTUNE"

/-- The variable that sets the verbosity. -/
def verbosityVariable : String := "GRIDPRIM_AUTOTUNE_LOG"

/-- The cache for the value of its variable, which has to be more than nothing. -/
def cacheOf? (value : String) : Option CacheConfig :=
  if value.isEmpty then none else some (.directory value)

def enabledOf? (value : String) : Option Bool :=
  if value = "0" ∨ value = "false" then some false
  else if value = "1" ∨ value = "true" then some true
  else none

/-- The configuration with the settings that variables give. -/
def overrideFrom (c : GlobalConfig) (variable_ : String → Option String) : GlobalConfig where
  autotune := {
    c.autotune with
    cache := ((variable_ cacheVariable).bind cacheOf?).getD c.autotune.cache
    enabled := ((variable_ enabledVariable).bind enabledOf?).getD c.autotune.enabled
    verbosity := ((variable_ verbosityVariable).bind Verbosity.parse?).getD c.autotune.verbosity }

end GlobalConfig

end KernelTuning
