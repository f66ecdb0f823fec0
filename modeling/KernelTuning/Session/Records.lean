import KernelTuning.Session.Basic

/-!
# Tuning results of a session

Keys of every kind of problem, and what a session does with the records of its tuner.
-/

namespace KernelTuning

/-- A key of a problem that is a name, a type, or a problem of one of the primitives. -/
inductive ProblemKey where
  | name (k : TuningKey String)
  | elem (k : TuningKey ElemType)
  | scan (k : TuningKey ScanProblem)
  | reduce (k : TuningKey ReduceProblem)
  | radixsort (k : TuningKey RadixsortProblem)

namespace ProblemKey

/-- What a function makes of the key. -/
def elim {α : Type} (k : ProblemKey) (f : {P : Type} → [Problem P] → TuningKey P → α) : α :=
  match k with
  | name k => f k
  | elem k => f k
  | scan k => f k
  | reduce k => f k
  | radixsort k => f k

def recordPath (k : ProblemKey) : RecordPath := k.elim fun k => k.recordPath

end ProblemKey

namespace SessionM

def readRecord (path : RecordPath) : SessionM (Option ByteArray) :=
  onStorage fun s => ExceptT.mk fun h => (s.read path h, h)

def listRecords : SessionM (List RecordPath) :=
  onStorage fun s => ExceptT.mk fun h => (s.list h, h)

/-- Replaces every occurrence of a pattern in a record, and tells whether this changed it. A
missing record counts as an empty one. -/
def editRecord (path : RecordPath) (pattern replacement : String) : SessionM Bool := do
  let content := ((← readRecord path).bind String.fromUTF8?).getD ""
  let edited := if pattern.isEmpty then content else content.replace pattern replacement
  onStorage fun s => s.write path edited.toUTF8
  return edited ≠ content

/-- Stores an entry with a time. -/
def store (key : ProblemKey) (parameters : TuningParameters) (score : Binary64) (time : Word)
    (checksum : String) : SessionM Unit :=
  key.elim fun k => onCache fun s => s.store ⟨k, parameters, score, time, checksum⟩

def clearKey (key : ProblemKey) : SessionM Bool := key.elim fun k => onCache fun s => s.clearKey k

/-- Tunes a key by a script. The second result lists the candidates measured. -/
def tune (key : ProblemKey) (space : CandidateSpace) (script : List ScriptEntry) :
    SessionM (Except TuneError TuneOutcome × List TuningParameters) := do
  let tuner := (← get).tuner
  let now := (← get).clock
  onHost fun host =>
    let (result, host, asked) :=
      key.elim fun k => (tuner.tune k space now (.scripted script)).run (host, [])
    ((result, asked.reverse), host)

/-- Takes storage and policy from the configuration. -/
def useConfig (writer : String) : SessionM TunePolicy := do
  let config ← onHost Host.getConfig
  modify fun s =>
    let root := s.host.cacheRoot config.autotune.cache
    { s with
      storage := .directory (Host.cacheStorage root writer)
      policy := config.autotune.policy }
  return config.autotune.policy

/-- Lets the tuner keep records in memory of its own from now on, and start with none. -/
def useMemory : SessionM Unit :=
  modify fun s => { s with storage := .tunerMemory, host := { s.host with tunerMemory := .empty } }

/-- Changes the records in memory, or how they behave. The memory of the tuner is not among
them. -/
def onMemory (f : MemoryStorage → MemoryStorage) : SessionM Unit :=
  modify fun s => { s with host := { s.host with memory := f s.host.memory } }

end SessionM

end KernelTuning
