import KernelTuning.Config.Toml
import KernelTuning.Storage.Directory
import KernelTuning.Storage.Memory

/-!
# The host

What surrounds the tuning of a program: files, the environment, outputs, and the configuration,
which is fixed by its first use.

**Configuration.** Unless a program sets it, the configuration is read from the nearest file
`gridprim.toml` in the current directory and those above, where a file that is no configuration is
passed over; then the environment overrides it. It is never read twice, and cannot be set once it
was set or read.

**Outputs.** A line for a file that cannot be written is lost.
-/

namespace KernelTuning

/-- The surroundings of a program. -/
structure Host where
  files : FileSystem
  environment : NameMap String
  /-- The home directory of the account, for an environment that names none. -/
  accountHome : FilePath
  /-- The configuration, once it was set or read. -/
  config : Option GlobalConfig
  /-- Records kept in memory. -/
  memory : MemoryStorage
  /-- Records that a tuner keeps in memory of its own. -/
  tunerMemory : MemoryStorage
  stdout : String
  stderr : String
  /-- The lines of the log, the latest first. -/
  log : List String
  /-- A text buffer. -/
  buffer : String

namespace Host

def empty : Host := ⟨.empty, ∅, .ofPlace [], none, .empty, .empty, "", "", [], ""⟩

instance : Inhabited Host := ⟨empty⟩

/-! ## Outputs -/

/-- Writes a line to a sink. -/
def emit (sink : OutputSink) (line : String) (h : Host) : Host :=
  let text := line ++ "\n"
  match sink with
  | .stdout => { h with stdout := h.stdout ++ text }
  | .stderr => { h with stderr := h.stderr ++ text }
  | .log => { h with log := line :: h.log }
  | .buffer => { h with buffer := h.buffer ++ text }
  | .file path =>
    { h with files := ((FileSystem.append (.ofText path) text.toUTF8).run h.files).2 }

/-! ## Storages -/

/-- The storage in memory. -/
def memoryStorage : RecordStorage Host :=
  MemoryStorage.storage.focus Host.memory fun memory h => { h with memory }

/-- The storage in the memory of a tuner. -/
def tunerStorage : RecordStorage Host :=
  MemoryStorage.storage.focus Host.tunerMemory fun tunerMemory h => { h with tunerMemory }

/-- A storage in a directory of the host. -/
def directoryStorage (d : DirectoryStorage) : RecordStorage Host :=
  d.storage.focus Host.files fun files h => { h with files }

/-! ## Configuration -/

/-- A place and those above it. -/
def enclosing : Place → List Place
  | [] => [[]]
  | name :: rest => (enclosing rest).map (name :: ·) ++ [[]]

/-- The absolute path of the current directory. -/
def currentDirectory (h : Host) : FilePath := .ofPlace h.files.workingDirectory

/-- The absolute paths of the current directory and those above it. -/
def searchDirectories (h : Host) : List FilePath :=
  (enclosing h.files.workingDirectory).map .ofPlace

/-- The configuration in a directory, if there is one. -/
def configIn? (h : Host) (dir : FilePath) : Option GlobalConfig :=
  match h.files.read (dir.below ["gridprim.toml"]) with
  | .ok content => (String.fromUTF8? content).bind GlobalConfig.ofToml?
  | .error _ => none

/-- The configuration that the files and the environment give. -/
def findConfig (h : Host) : GlobalConfig :=
  ((h.searchDirectories.findSome? h.configIn?).getD .default).overrideFrom
    h.environment.get?

/-- The configuration, which is found at the first use. -/
def getConfig : StateM Host GlobalConfig := fun h =>
  match h.config with
  | some config => (config, h)
  | none => (h.findConfig, { h with config := some h.findConfig })

/-- Sets the configuration, which is possible only before its first use. -/
def setConfig (config : GlobalConfig) : Action Host Unit :=
  ExceptT.mk fun h =>
    match h.config with
    | some _ =>
      (.error (.crash (some "Cannot set the global configuration multiple times.")), h)
    | none => (.ok (), { h with config := some config })

/-- Writes the configuration to a file. -/
def saveConfig (path : FilePath) : Io Host Unit :=
  ExceptT.mk do
    let config ← getConfig
    modifyGet fun h =>
      let (result, files) := (FileSystem.write path config.toToml.toUTF8).run h.files
      (result, { h with files })

/-- The home directory of the user. -/
def home (h : Host) : FilePath :=
  match (h.environment.get? "HOME").filter (! ·.isEmpty) with
  | some path => .ofText path
  | none => h.accountHome

/-- The directory of the user's cached data. -/
def userCache (h : Host) : FilePath :=
  match ((h.environment.get? "XDG_CACHE_HOME").map FilePath.ofText).filter (·.isAbsolute) with
  | some path => path
  | none => h.home.below [".cache"]

/-- The root directory of a cache. The build directory lies beside the nearest `Cargo.toml`, or in
the current directory if there is none. -/
def cacheRoot (h : Host) : CacheConfig → FilePath
  | .workingDirectory => h.currentDirectory.below ["gridprim-cache"]
  | .buildDirectory =>
    let project := h.searchDirectories.find? fun dir => h.files.fileExists (dir.below ["Cargo.toml"])
    (project.getD h.currentDirectory).below ["target", "gridprim"]
  | .userDirectory => h.userCache.below ["gridprim"]
  | .directory path => .ofText path

/-- The storage of tuning results in a directory. -/
def cacheStorage (root : FilePath) (writer : String) : DirectoryStorage :=
  ⟨root, TuningKey.recordDepth, writer⟩

/-- A tuner on the host. -/
def tuner (storage : RecordStorage Host) (policy : TunePolicy) : Tuner Host :=
  { storage, policy, emit }

end Host

end KernelTuning
