import KernelTuning.Backend.Command

/-!
# The recording backend

A backend that checks and records commands instead of running them. How long a launch takes, and
whether it or a program fails, is a parameter: a function of the launch and of the number of
earlier calls. The buffers hold no memory; what is read is zero.

**State.** Buffers and events share one sequence of identifiers, from one on. The record of
commands starts with the latest one; it can be forgotten, while durations are kept.
-/

namespace KernelTuning

/-- A device and how it behaves. -/
structure Backend where
  properties : DeviceProperties
  /-- The nanoseconds of a launch, after a number of launches. -/
  cost : Nat → LaunchRecord → Except (Failure LaunchError) Nat
  /-- Whether a program builds, after a number of builds. -/
  build : Nat → Program → Except (Failure LaunchError) Unit

/-- What a recording device has seen. -/
structure Recorder where
  /-- The last identifier in use. -/
  lastId : Nat
  /-- The commands, the latest first. -/
  history : List Command
  programsBuilt : Nat
  buffersCreated : Nat
  /-- The nanoseconds of the commands by their events, the latest first. -/
  durations : List (Nat × Nat)
  /-- How often the cost of a launch was asked for. -/
  costCalls : Nat
  /-- How often a program was to be built. -/
  buildCalls : Nat
deriving DecidableEq

/-- An operation of a backend, which may fail and may crash. -/
abbrev Queue (α : Type) := ExceptT (Failure LaunchError) (StateM Recorder) α

/-- A computation that uses a device, which may fail and may crash. -/
abbrev Device (α : Type) := Action Recorder α

namespace Recorder

def start : Recorder := ⟨0, [], 0, 0, [], 0, 0⟩

instance : Inhabited Recorder := ⟨start⟩

/-- The commands in the order in which they were enqueued. -/
def commands (r : Recorder) : List Command := r.history.reverse

/-- The launches in their order. -/
def launches (r : Recorder) : List LaunchRecord :=
  r.commands.filterMap fun
    | .launch launch => some launch
    | _ => none

/-- Forgets the commands and the counts of programs and buffers. -/
def clear (r : Recorder) : Recorder :=
  { r with history := [], programsBuilt := 0, buffersCreated := 0 }

/-- Adds a command with its duration. -/
def record (r : Recorder) (command : Command) (duration : Nat) : Recorder :=
  { r with
    lastId := r.lastId + 1
    history := command :: r.history
    durations := (r.lastId + 1, duration) :: r.durations }

end Recorder

namespace Queue

/-- Crashes where arithmetic has no result. -/
def ofArithmetic {α : Type} (result : Except Word.Fault α) : Queue α :=
  ExceptT.mk (pure (result.mapError .ofFault))

/-- Fails unless a condition holds. -/
def require (condition : Bool) (reason : String) : Queue Unit :=
  if condition then pure () else throw (.error (.invalidConfiguration reason))

/-- Adds a command that takes a number of nanoseconds. -/
def push (command : Command) (name : String) (duration : Nat) : Queue Event :=
  ExceptT.mk fun r => (.ok ⟨r.lastId + 1, name⟩, r.record command duration)

end Queue

namespace Device

/-- An operation of a backend, whose errors are internal errors here. -/
def ofQueue {α : Type} (op : Queue α) : Device α :=
  ExceptT.mk do return (← op.run).mapError (·.map .ofLaunch)

instance : MonadLift (ExceptT (Failure LaunchError) (StateM Recorder))
    (ExceptT (Failure Error) (StateM Recorder)) := ⟨ofQueue⟩

/-- An attempt that does not concern the device. -/
def attempt {α : Type} (a : Attempt α) : Device α := ExceptT.mk (pure a)

/-- Fails with an internal error unless a condition holds. -/
def ensure (condition : Bool) (reason : String) : Device Unit :=
  attempt (.ensure condition reason)

end Device

namespace Backend

/-- The duration of a launch where nothing else is said: an overhead, and a part for every work
item and every group. It has to fit in a word. -/
def defaultCost (launch : LaunchRecord) : Except Word.Fault Word := do
  let groups := launch.globalSize / max launch.localSize 1
  let items ← Word.add? 2000 launch.globalSize
  Word.add? items (← Word.mul? 16 groups)

/-- The default cost as that of a launch. -/
def usualCost (launch : LaunchRecord) : Except (Failure LaunchError) Nat :=
  ((defaultCost launch).map UInt64.toNat).mapError .ofFault

/-- A device on which everything succeeds that takes a number of nanoseconds. -/
def ofProperties (properties : DeviceProperties) : Backend where
  properties
  cost _ launch := usualCost launch
  build _ _ := .ok ()

/-- A small graphics device with every feature. -/
def gpuProperties : DeviceProperties where
  name := "Dummy GPU"
  vendor := "gridprim"
  vendorId := 0x1d1d
  platformName := "Dummy Platform"
  driverVersion := "1.0.0"
  kind := .gpu
  computeUnits := 4
  maxWorkGroupSize := 256
  localMemSize := 32 * 1024
  warpSizeMem := 32
  warpSizeSchedule := 32
  features := ⟨true, true, true⟩

/-- A processor with every feature. -/
def cpuProperties : DeviceProperties where
  name := "Dummy CPU"
  vendor := "gridprim"
  vendorId := 0x1d1e
  platformName := "Dummy Platform"
  driverVersion := "1.0.0"
  kind := .cpu
  computeUnits := 4
  maxWorkGroupSize := 1024
  localMemSize := 32 * 1024
  warpSizeMem := 1
  warpSizeSchedule := 1
  features := ⟨true, true, true⟩

/-- Builds a program. -/
def buildProgram (b : Backend) (program : Program) : Queue Program :=
  ExceptT.mk fun r =>
    let called := { r with buildCalls := r.buildCalls + 1 }
    match b.build r.buildCalls program with
    | .ok () => (.ok program, { called with programsBuilt := r.programsBuilt + 1 })
    | .error e => (.error e, called)

/-- Allocates a buffer. -/
def createBuffer (_b : Backend) (size : Word) (access : BufferAccess) : Queue Buffer := do
  Queue.require (size != 0) "buffers can't be empty"
  ExceptT.mk fun r =>
    (.ok ⟨r.lastId + 1, size, access⟩,
      { r with lastId := r.lastId + 1, buffersCreated := r.buffersCreated + 1 })

/-- The record of a launch that waits for some events. -/
def recordOf (launch : KernelLaunch) (waitFor : List Event) : LaunchRecord where
  program := launch.program.name
  kernel := launch.kernel
  defines := launch.program.defines
  types := launch.program.types
  globalSize := launch.globalSize
  localSize := launch.localSize
  args := launch.args.map (·.map Buffer.id)
  waitFor := waitFor.map Event.id

/-- The duration of a launch. -/
def costOf (b : Backend) (launch : LaunchRecord) : Queue Nat :=
  ExceptT.mk fun r => (b.cost r.costCalls launch, { r with costCalls := r.costCalls + 1 })

/-- Enqueues a launch. -/
def dispatch (b : Backend) (launch : KernelLaunch) (waitFor : List Event) : Queue Event := do
  let limit := b.properties.maxWorkGroupSize
  Queue.require (launch.localSize != 0 && launch.localSize ≤ limit)
    ("work group size " ++ toString launch.localSize ++ " exceeds the device limit " ++ toString limit)
  Queue.require (launch.globalSize != 0 && launch.globalSize % launch.localSize == 0)
    ("global size " ++ toString launch.globalSize ++ " is not a multiple of the work group size "
      ++ toString launch.localSize)
  let record := recordOf launch waitFor
  let duration ← b.costOf record
  Queue.push (.launch record) launch.kernel duration

/-- Enqueues a copy between the starts of two buffers. -/
def copy (_b : Backend) (source target : Buffer) (size : Word) : Queue Event := do
  Queue.require (size ≤ source.size && size ≤ target.size)
    ("copy of " ++ toString size ++ " bytes is out of buffer bounds")
  Queue.push (.copy source.id target.id size) "copy" (size / 8).toNat

/-- Reads from a buffer. The bytes are zero. -/
def read (_b : Backend) (source : Buffer) (offset size : Word) : Queue (Event × List UInt8) := do
  let stop ← Queue.ofArithmetic (Word.add? offset size)
  Queue.require (stop ≤ source.size)
    ("read of " ++ toString size ++ " bytes is out of buffer bounds")
  let event ← Queue.push (.read source.id offset size) "read" 0
  return (event, List.replicate size.toNat 0)

/-- Writes to a buffer. -/
def write (_b : Backend) (target : Buffer) (offset : Word) (content : List UInt8) :
    Queue Event := do
  let size := UInt64.ofNat content.length
  let stop ← Queue.ofArithmetic (Word.add? offset size)
  Queue.require (stop ≤ target.size)
    ("write of " ++ toString size ++ " bytes is out of buffer bounds")
  Queue.push (.write target.id offset content) "write" 0

/-- The nanoseconds of the command of an event. -/
def wait (_b : Backend) (event : Event) : Queue Nat :=
  ExceptT.mk fun r =>
    match r.durations.lookup event.id with
    | some duration => (.ok duration, r)
    | none => (.error (.error (.unknown ("unknown event " ++ toString event.id))), r)

/-- The nanoseconds of the commands of some events together. The sum is one of natural numbers: a
clock whose range it could exceed is not modelled. -/
def totalElapsed (b : Backend) (events : List Event) : Device Nat := do
  return (← Device.ofQueue (events.mapM b.wait)).foldl (· + ·) 0

end Backend

end KernelTuning
