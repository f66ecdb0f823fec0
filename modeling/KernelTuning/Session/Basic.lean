import KernelTuning.Backend.Rule
import KernelTuning.Host
import KernelTuning.Session.Slot
import KernelTuning.Tuning.Script

/-!
# Sessions

A session is everything that a program with tuned algorithms holds: its host, the storage and the
policy of its tuner, its devices, and what it made of them. Buffers, programs and events are
numbered as they are made, all devices together; algorithms lie in slots that have names.

An operation of a session may end in a `Fault`. What it did before is kept.
-/

namespace KernelTuning

/-- Why an operation of a session has no result. -/
inductive Fault where
  /-- A part of the request is missing, or is not what it has to be. -/
  | request (part : String)
  /-- A text or value that does not have the form of a language. -/
  | form (language : String)
  | error (e : Error)
  | cache (e : CacheError)
  | launch (e : LaunchError)
  | io (e : IoError)
  | crash
deriving DecidableEq

namespace Fault

def ofFailure {ε : Type} (f : ε → Fault) : Failure ε → Fault
  | .error e => f e
  | .crash _ => crash

/-- The value of an attempt. -/
def ofAttempt {α : Type} (a : Attempt α) : Except Fault α := a.mapError (ofFailure error)

end Fault

/-- A device with what it has seen. -/
structure SessionDevice where
  backend : Backend
  recorder : Recorder

/-- A place for tuning results. -/
inductive SessionStorage where
  | memory
  /-- Memory that is cleared record by record. -/
  | recordwise
  /-- Memory that nothing but the tuner has. -/
  | tunerMemory
  | directory (d : DirectoryStorage)

/-- How a callback tells what happens to it. -/
inductive CallbackKind where
  /-- By the events it is called for. -/
  | plain
  /-- By the events, numbered. -/
  | counting
  /-- By the events, numbered, and by their number in the end. -/
  | summing
deriving DecidableEq

structure Callback where
  name : String
  kind : CallbackKind
  calls : Nat
deriving DecidableEq

structure Session where
  host : Host
  storage : SessionStorage
  policy : TunePolicy
  /-- The time, in seconds. -/
  clock : Word
  devices : List SessionDevice
  buffers : Array Buffer
  programs : Array Program
  events : Array Event
  slots : NameMap Slot
  callbacks : List Callback
  /-- What callbacks told, the latest first. -/
  callbackLog : List String

/-- An operation of a session. -/
abbrev SessionM (α : Type) := ExceptT Fault (StateM Session) α

namespace Session

/-- A session that has made nothing yet. -/
def start (host : Host) (storage : SessionStorage) (policy : TunePolicy) (clock : Word)
    (backends : List Backend) : Session where
  host
  storage
  policy
  clock
  devices := backends.map (⟨·, .start⟩)
  buffers := #[]
  programs := #[]
  events := #[]
  slots := ∅
  callbacks := []
  callbackLog := []

/-- The storage of the tuner. -/
def records (s : Session) : RecordStorage Host :=
  match s.storage with
  | .memory => Host.memoryStorage
  | .recordwise => Host.memoryStorage.recordwise
  | .tunerMemory => Host.tunerStorage
  | .directory d => Host.directoryStorage d

def tuner (s : Session) : Tuner Host := Host.tuner s.records s.policy

end Session

namespace SessionM

variable {α ε : Type}

/-- The value of a result, or its fault. -/
def ofExcept (f : ε → Fault) (result : Except ε α) : SessionM α :=
  ExceptT.mk (pure (result.mapError f))

/-- Part of a request that has to be there. -/
def require (part : String) : Option α → SessionM α
  | some a => pure a
  | none => throw (.request part)

/-! ## Hosts and storages -/

/-- An operation on the host. -/
def onHost (op : StateM Host α) : SessionM α :=
  modifyGet fun s =>
    let (a, host) := op.run s.host
    (a, { s with host })

def onFiles (op : Io FileSystem α) : SessionM α := do
  ofExcept .io (← onHost fun h =>
    let (result, files) := op.run h.files
    (result, { h with files }))

def onStorage (op : RecordStorage Host → Io Host α) : SessionM α := do
  ofExcept .io (← onHost (op (← get).records).run)

def onCache (op : RecordStorage Host → ExceptT CacheError (StateM Host) α) : SessionM α := do
  ofExcept .cache (← onHost (op (← get).records).run)

/-! ## Devices -/

def device (i : Nat) : SessionM SessionDevice := do require "device" (← get).devices[i]?

def setRecorder (i : Nat) (recorder : Recorder) : SessionM Unit :=
  modify fun s => { s with devices := s.devices.modify i fun d => { d with recorder } }

/-- An operation of a device, with its failure as a result. -/
def tryDevice (i : Nat) (op : Backend → ExceptT (Failure ε) (StateM Recorder) α) :
    SessionM (Except (Failure ε) α) := do
  let d ← device i
  let (result, recorder) := (op d.backend).run d.recorder
  setRecorder i recorder
  return result

/-- An operation of a backend. -/
def onQueue (i : Nat) (op : Backend → Queue α) : SessionM α := do
  ofExcept (.ofFailure .launch) (← tryDevice i op)

def onDevice (i : Nat) (op : Backend → Device α) : SessionM α := do
  ofExcept (.ofFailure .error) (← tryDevice i op)

/-- An action on the host and a device. -/
def onBoth (i : Nat) (op : Backend → Action (Host × Recorder) α) : SessionM α := do
  let d ← device i
  let (result, host, recorder) := (op d.backend).run ((← get).host, d.recorder)
  modify fun s => { s with host }
  setRecorder i recorder
  ofExcept (.ofFailure .error) result

/-! ## Buffers, programs and events -/

def buffer (i : Nat) : SessionM Buffer := do require "buffer" (← get).buffers[i]?

def program (i : Nat) : SessionM Program := do require "program" (← get).programs[i]?

def event (i : Nat) : SessionM Event := do require "event" (← get).events[i]?

/-- Adds a buffer and gives its number. -/
def addBuffer (b : Buffer) : SessionM Nat :=
  modifyGet fun s => (s.buffers.size, { s with buffers := s.buffers.push b })

/-- Adds a program and gives its number. -/
def addProgram (p : Program) : SessionM Nat :=
  modifyGet fun s => (s.programs.size, { s with programs := s.programs.push p })

def addEvent (e : Event) : SessionM Event :=
  modifyGet fun s => (e, { s with events := s.events.push e })

end SessionM

end KernelTuning
