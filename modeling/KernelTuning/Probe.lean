import KernelTuning.Algorithm.Create
import KernelTuning.Backend.Recorder

/-!
# The probe

A minimal primitive to try out tuners and devices with: one kernel, one parameter, and problems
that are just names. Three names are special: `invalid` is refused, `empty` has no candidates, and
`silent` enqueues nothing.
-/

namespace KernelTuning

structure ProbePlan where
  program : Program
  workGroupSize : Word
  /-- Whether executions enqueue nothing. -/
  isSilent : Bool
deriving DecidableEq

/-- The arguments of a probe. -/
structure ProbeArgs where
  buffer : Buffer
  elements : Word
deriving DecidableEq

namespace Probe

def name : String := "probe"

def formatVersion : UInt32 := 7

def validate (problem : String) : Attempt Unit := .ensure (problem ≠ "invalid") "probe rejected"

/-- Every power of two that the device allows as work group size. -/
def candidates (d : DeviceProperties) (problem : String) : CandidateSpace :=
  .flat (if problem = "empty" then []
    else CandidateSpace.stage "work_group_size" (Word.powersOfTwo 1 d.maxWorkGroupSize))

def build (b : Backend) (problem : String) (parameters : TuningParameters) : Device ProbePlan := do
  let workGroupSize ← Device.attempt (parameters.word "work_group_size")
  let program ← Device.ofQueue
    (b.buildProgram ((Program.named name).define "WORK_GROUP_SIZE" workGroupSize))
  return ⟨program, workGroupSize, problem = "silent"⟩

def enqueue (b : Backend) (plan : ProbePlan) (args : ProbeArgs) (waitFor : List Event) :
    Device (List Event) := do
  if plan.isSilent then return []
  let globalSize ← Device.attempt
    (.ofArithmetic (Word.roundUp? args.elements plan.workGroupSize))
  let launch : KernelLaunch := {
    program := plan.program
    kernel := name
    globalSize
    localSize := plan.workGroupSize
    args := [.buffer args.buffer, .word32 (UInt32.ofNat args.elements.toNat)] }
  return [← Device.ofQueue (b.dispatch launch waitFor)]

/-- The nanoseconds of a launch over 1024 elements. -/
def measure (b : Backend) (plan : ProbePlan) : Device Binary64 := do
  let buffer ← Device.ofQueue (b.createBuffer 4096 .readWrite)
  let events ← enqueue b plan ⟨buffer, 1024⟩ []
  return .ofNat (← b.totalElapsed events)

def primitive (b : Backend) : Primitive Recorder String ProbePlan ProbeArgs Unit where
  name := name
  formatVersion := formatVersion
  device := b.properties
  validate
  canonical problem := problem
  candidates := candidates b.properties
  build := build b
  measure := measure b
  enqueue plan args waitFor := do return (← enqueue b plan args waitFor, ())
  details _ := []

end Probe

end KernelTuning
