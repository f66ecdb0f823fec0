import KernelTuning.Backend.Recorder
import KernelTuning.Config
import KernelTuning.Tuning.Entry
import KernelTuning.Tuning.Tuner

/-!
# Views

What a person wants to see of the library's values, as JSON. A view is for reading only: it may
leave things out, and nothing is read back from it. Errors have a kind and a message, scores show
their bits, and byte strings their hexadecimal digits.
-/

namespace KernelTuning.View

def text (s : String) : Json := .str s

def word (w : Word) : Json := .nat w.toNat

def texts (l : List String) : Json := .arr (l.map .str)

def bytes (content : List UInt8) : Json := .str (Digest.hexText content)

/-- The bits of a score. -/
def score (x : Binary64) : Json := .str (Digest.hexWord x.bits)

def optional {α : Type} (view : α → Json) : Option α → Json
  | some a => view a
  | none => .null

/-- Minus one, zero or one. -/
def order : Ordering → Json
  | .lt => .int (-1)
  | .eq => .int 0
  | .gt => .int 1

/-! ## Errors -/

/-- An error without a message. -/
def kind (kind : String) : Json := .obj [("error", text kind)]

def failure (kind message : String) : Json := .obj [("error", text kind), ("message", text message)]

def cacheKind : CacheError → String
  | .write _ _ => "Cache.Io"
  | .serialize _ _ => "Cache.Serialization"
  | .remove _ _ => "Cache.Remove"

def tuneKind : TuneError → String
  | .disabled _ _ => "Tune.Disabled"
  | .allCandidatesFailed _ _ _ => "Tune.AllCandidatesFailed"
  | .emptySpace _ => "Tune.EmptySpace"

def launchKind : LaunchError → String
  | .outOfResources _ => "Launch.OutOfResources"
  | .invalidConfiguration _ => "Launch.InvalidConfiguration"
  | .compilation _ _ => "Launch.Compilation"
  | .unknown _ => "Launch.Unknown"

def errorKind : Error → String
  | .internal _ => "Internal"
  | .cache e => cacheKind e
  | .tune e => tuneKind e

/-- What follows the last colon and blank of a text, and what comes before with them. -/
def splitAtLastColon : List Char → Option (List Char × List Char)
  | [] => none
  | c :: rest =>
    match splitAtLastColon rest with
    | some (before, after) => some (c :: before, after)
    | none =>
      match c, rest with
      | ':', ' ' :: after => some ([':', ' '], after)
      | _, _ => none

/-- Whether a text ends with the number of an error of the operating system. -/
def endsInSystemError (l : List Char) : Bool :=
  match l.reverse with
  | ')' :: rest =>
    (rest.head?.any (·.isDigit))
      && "(os error ".toList.reverse.isPrefixOf (rest.dropWhile (·.isDigit))
  | _ => false

/-- A message without the words of the operating system, which differ from host to host. -/
def withoutSystemText (message : String) : String :=
  let l := message.toList
  if endsInSystemError l then
    String.ofList (((splitAtLastColon l).map (·.1)).getD []) ++ "<os error>"
  else message

def error (e : Error) : Json := failure (errorKind e) (withoutSystemText e.message)

def cacheError (e : CacheError) : Json := failure (cacheKind e) (withoutSystemText e.message)

def launchError (e : LaunchError) : Json := failure (launchKind e) e.message

/-- An error of the operating system shows its kind only. -/
def ioError : IoError → Json
  | .notFound => kind "Io.NotFound"
  | .notADirectory => kind "Io.NotADirectory"
  | .isADirectory => kind "Io.IsADirectory"
  | .alreadyExists => kind "Io.AlreadyExists"
  | .directoryNotEmpty => kind "Io.DirectoryNotEmpty"
  | .nameTooLong => kind "Io.InvalidFilename"
  | .permissionDenied reason => failure "Io.PermissionDenied" reason
  | .invalidInput reason => failure "Io.InvalidInput" reason
  | .other reason => failure "Io.Other" reason

def crash : Json := kind "panic"

/-- The view of a value, or that of its failure. -/
def attempt {α : Type} (view : α → Json) : Attempt α → Json
  | .ok a => view a
  | .error (.error e) => error e
  | .error (.crash _) => crash

/-- The view of a check that is part of something else. A crash is all that is seen. -/
def withCheck (check : Attempt Unit) (view : Json → Json) : Json :=
  match check with
  | .ok () => view (.bool true)
  | .error (.error e) => view (error e)
  | .error (.crash _) => crash

/-- The view of a number, if it can be computed. -/
def quotient (view : Word → Json) (value : Except Word.Fault Word) : Json :=
  attempt view (.ofArithmetic value)

/-! ## Types and devices -/

def baseType (b : BaseType) : Json :=
  .obj [
    ("name", text b.name), ("display", text b.name), ("size", word b.size),
    ("integral", .bool b.isIntegral), ("signed", .bool b.isSigned),
    ("to_signed", text b.toSigned.name), ("listed", .bool (b ∈ BaseType.all))]

/-- A type, and what a device can do with it. -/
def elemType (t : ElemType) (d : DeviceProperties) : Json :=
  .obj [
    ("name", text t.name), ("display", text t.name), ("base", text t.base.name),
    ("length", .nat t.length.toNat), ("void", .bool t.isVoid), ("default", .bool (t = .void)),
    ("base_size", word t.base.size), ("size", word t.size), ("storage_size", word t.storageSize),
    ("integral", .bool t.isIntegral), ("signed", .bool t.isSigned),
    ("to_signed", text t.toSigned.name), ("storable", .bool (t.isStorable d)),
    ("computable", .bool (t.isComputable d)), ("json", text (Json.compactText t))]

/-- The fingerprint of a device. -/
def fingerprint (d : DeviceProperties) : List (String × Json) :=
  let f := d.fingerprint
  [
    ("name", text f.name), ("driver", text f.driverVersion), ("display", text f.toText),
    ("digest", text f.digest), ("json", text (Json.compactText f)),
    ("device_json", text (Json.compactText d))]

/-! ## Tuning -/

def paramValue : ParamValue → Json
  | .int w => word w
  | .choice s => text s

def params (p : TuningParameters) : Json := .obj (p.toList.map fun (name, v) => (name, paramValue v))

/-- A set of parameters with its forms. -/
def paramSet (p : TuningParameters) : Json :=
  .obj [
    ("display", text p.toText), ("json", text (Json.compactText p)),
    ("names", texts p.values.keys), ("len", .nat p.values.size),
    ("is_empty", .bool p.values.isEmpty)]

def space (s : CandidateSpace) : Json :=
  .obj [
    ("base", text s.base.toText),
    ("stages", .arr (s.stages.map fun stage => texts (stage.map (·.toText)))),
    ("len", .nat s.size), ("is_empty", .bool s.isEmpty), ("checksum", text s.checksum)]

/-- A key, its record, and whether it can be read back. -/
def key {P : Type} [Problem P] (k : TuningKey P) : Json :=
  let source := Json.compactText k
  match (Json.parseText? source : Option (TuningKey P)) with
  | none => kind "Json"
  | some parsed =>
    .obj [
      ("display", text k.toText), ("json", text source), ("round_trip", .bool (parsed = k)),
      ("segments", texts k.recordPath.segments)]

/-- An entry, with a view of its time. -/
def entry {P : Type} [Problem P] (time : Word → Json) (e : CacheEntry P) : Json :=
  .obj [
    ("key", text e.key.toText), ("parameters", params e.parameters), ("score", score e.score),
    ("timestamp", time e.timestamp), ("checksum", text e.checksum)]

/-- The result of a search, with the candidates that were measured. -/
def outcome (result : Except TuneError TuneOutcome) (candidates : List TuningParameters) :
    List (String × Json) :=
  let fields : List (String × Json) := match result with
    | .ok o => [
      ("parameters", params o.parameters), ("score", score o.score),
      ("evaluated", .nat o.evaluated), ("persist_error", optional cacheError o.persistError)]
    | .error e => [
      ("error", text (tuneKind e)), ("message", text (withoutSystemText (Error.tune e).message))]
  fields ++ [("calls", texts (candidates.map (·.toText)))]

def sink : OutputSink → Json
  | .stdout => text "stdout"
  | .stderr => text "stderr"
  | .log => text "log"
  | .buffer => text "buffer"
  | .file path => .obj [("file", text path)]

def policy (p : TunePolicy) : Json :=
  .obj [
    ("enabled", .bool p.enabled), ("verbosity", text p.verbosity.name), ("output", sink p.output)]

/-- A configuration, the directory of its cache if it names one, and its sink. -/
def config (c : GlobalConfig) : Json :=
  let root : Json := match c.autotune.cache with
    | .directory path => text path
    | _ => .null
  .obj [
    ("config", Json.encode c), ("default", .bool (c = .default)), ("root", root),
    ("sink", sink c.autotune.output.toSink)]

/-! ## Commands -/

def defines (d : NameMap Int) : Json := .obj (d.toList.map fun (name, v) => (name, .int v))

def types (d : NameMap String) : Json := .obj (d.toList.map fun (name, v) => (name, text v))

def kernelArg : KernelArg Nat → Json
  | .buffer id => .arr [text "buffer", .nat id]
  | .word32 w => .arr [text "u32", .nat w.toNat]
  | .bytes b => .arr [text "bytes", bytes b]

def command : Command → Json
  | .launch l => .obj [
      ("command", text "launch"), ("program", text l.program), ("kernel", text l.kernel),
      ("defines", defines l.defines), ("types", types l.types), ("global", word l.globalSize),
      ("local", word l.localSize), ("args", .arr (l.args.map kernelArg)),
      ("wait_for", .arr (l.waitFor.map .nat))]
  | .copy source target size => .obj [
      ("command", text "copy"), ("src", .nat source), ("dst", .nat target), ("size", word size)]
  | .read source offset size => .obj [
      ("command", text "read"), ("src", .nat source), ("offset", word offset), ("len", word size)]
  | .write target offset content => .obj [
      ("command", text "write"), ("dst", .nat target), ("offset", word offset),
      ("data", bytes content)]

/-- The kernels that were launched, with their sizes. -/
def launches (r : Recorder) : Json :=
  .arr (r.launches.map fun l => .arr [text l.kernel, word l.globalSize, word l.localSize])

/-- How much a device was made to do. -/
def counts (r : Recorder) : Json :=
  .obj [
    ("launches", .nat r.launches.length), ("commands", .nat r.history.length),
    ("programs", .nat r.programsBuilt), ("buffers", .nat r.buffersCreated)]

def event (e : Event) : List (String × Json) := [("id", .nat e.id), ("command", text e.command)]

end KernelTuning.View
