import KernelTuning.Algorithm.Create
import KernelTuning.Algorithm.Measurement
import KernelTuning.Algorithm.Parameter

/-!
# Reduce

The sum of a range of a buffer, into an element of a buffer or into host memory. Signed and
unsigned types of one width are tuned alike.

**Plan.** A fixed number of blocks is summed by one work group each. The plan keeps a sum per
block and one more, which is read back for the host, and a counter that starts at the number of
blocks.
-/

namespace KernelTuning

/-- The element type to sum. -/
structure ReduceProblem where
  elem : ElemType
deriving DecidableEq

instance : Problem ReduceProblem where
  encode p := .obj [("elem", Json.encode p.elem)]
  decode? n := do
    match ← n.fields? ["elem"] with
    | [some elem] => return ⟨← Json.decode? elem⟩
    | _ => none
  toText p := p.elem.name
  decEq := inferInstance

/-- Where a sum goes. -/
inductive ReduceOutput where
  /-- An element of a buffer. -/
  | buffer (buffer : Buffer) (position : Word)
  /-- Host memory of a number of bytes. -/
  | host (size : Nat)

/-- The arguments of a reduction. -/
structure ReduceArgs where
  input : Buffer
  first : Word
  elements : Word
  output : ReduceOutput

/-- A reduction that is ready to run. -/
structure ReducePlan where
  program : Program
  /-- One sum per block, and the sum that the host reads. -/
  sums : Buffer
  counter : Buffer
  workGroupSize : Word
  blocks : Word
  elem : ElemType
deriving DecidableEq

namespace Reduce

def name : String := "reduce"

def formatVersion : UInt32 := 1

/-! ## Problems and candidates -/

/-- The largest work group that the device has room for. -/
def workGroupLimit (d : DeviceProperties) (elem : ElemType) : Word :=
  min d.maxWorkGroupSize (d.localMemSize / max elem.storageSize 1)

def validate (d : DeviceProperties) (problem : ReduceProblem) : Attempt Unit := do
  let elem := problem.elem
  Attempt.ensure (elem.isComputable d && elem.isStorable d)
    (elem.name ++ " is not a supported type on " ++ d.name)
  Attempt.ensure (workGroupLimit d elem > 0)
    ("Device capabilities are too limited to reduce " ++ elem.name)

def canonical (problem : ReduceProblem) : ReduceProblem := ⟨problem.elem.toSigned⟩

/-- The numbers of blocks that are tried, in steps of four per compute unit. -/
def blockCounts (d : DeviceProperties) : List Word :=
  (List.range 16).map fun i => 4 * d.units * UInt64.ofNat (i + 1)

/-- The work groups first, with 16 blocks per compute unit, and then the numbers of blocks. -/
def candidates (d : DeviceProperties) (problem : ReduceProblem) : CandidateSpace :=
  let limit := workGroupLimit d problem.elem
  { base := .ofWords [
      (Parameter.reduceWorkGroupSize, Word.floorPowerOfTwo limit),
      (Parameter.reduceBlocks, 16 * d.units)]
    stages := [
      CandidateSpace.stage Parameter.reduceWorkGroupSize (Word.powersOfTwo 1 limit),
      CandidateSpace.stage Parameter.reduceBlocks (blockCounts d)] }

/-! ## Plans -/

/-- The program for work groups and blocks. -/
def program (elem : ElemType) (workGroupSize blocks : Word) : Program :=
  ((Program.named "reduce").defineAll [
    ("REDUCE_WORK_GROUP_SIZE", workGroupSize), ("REDUCE_BLOCKS", blocks)]).defineType
      "REDUCE_T" elem.name
  |>.withExtensions [elem]

/-- The work group and the number of blocks of some parameters. -/
def shapeOf (d : DeviceProperties) (elem : ElemType) (p : TuningParameters) :
    Attempt (Word × Word) := do
  let workGroupSize ← p.word Parameter.reduceWorkGroupSize
  let blocks ← p.word Parameter.reduceBlocks
  let limit := workGroupLimit d elem
  Attempt.ensure (workGroupSize > 0 && workGroupSize ≤ limit)
    (Parameter.reduceWorkGroupSize ++ " " ++ toString workGroupSize ++ " must be between 1 and "
      ++ toString limit)
  Attempt.ensure (blocks > 0 && blocks ≤ 0xFFFFFFFF)
    ("Invalid " ++ Parameter.reduceBlocks ++ " " ++ toString blocks)
  return (workGroupSize, blocks)

def build (b : Backend) (problem : ReduceProblem) (parameters : TuningParameters) :
    Device ReducePlan := do
  let elem := problem.elem
  let (workGroupSize, blocks) ← Device.attempt (shapeOf b.properties elem parameters)
  let program ← Device.ofQueue (b.buildProgram (program elem workGroupSize blocks))
  let sums ← Device.ofQueue (b.createBuffer ((blocks + 1) * elem.storageSize) .readWrite)
  let counter ← Device.ofQueue (b.createBuffer 4 .readWrite)
  let start ← Device.attempt (KernelArg.fit "Reduce block count" blocks)
  let written ← Device.ofQueue (b.write counter 0 (Digest.littleEndian 4 start.toNat))
  let _ ← Device.ofQueue (b.wait written)
  return { program, sums, counter, workGroupSize, blocks, elem }

/-- The elements of a block, a multiple of the work group. A plan without blocks has none. -/
def blockSize? (plan : ReducePlan) (elements : Word) : Except Word.Fault Word := do
  let covered ← Word.roundUp? elements (← Word.mul? plan.workGroupSize plan.blocks)
  Word.div? covered plan.blocks

/-! ## Execution -/

def checkInput (plan : ReducePlan) (input : Buffer) (first elements : Word) : Attempt Unit := do
  Attempt.ensure
    ((Word.checkedAdd first elements).any (· ≤ input.size / plan.elem.storageSize))
    "Reduce range is out of input buffer bounds"
  let _ ← KernelArg.fit "Reduce range end" (first + elements)
  Attempt.ensure input.access.isReadable "Reduce input buffer is not readable"
  Attempt.ensure (elements != 0) "Reduce of zero elements"

def checkOutput (plan : ReducePlan) (output : ReduceOutput) : Attempt Unit := do
  let elemSize := plan.elem.storageSize
  match output with
  | .buffer buffer position =>
    Attempt.ensure (buffer.size / elemSize > position)
      ("Reduce output position " ++ toString position ++ " is out of buffer bounds")
    Attempt.ensure buffer.access.isWritable "Reduce output buffer is not writable"
    let _ ← KernelArg.fit "Reduce output position" position
  | .host size =>
    Attempt.ensure (size = elemSize.toNat)
      ("Reduce host output has " ++ toString size ++ " bytes, expected one " ++ plan.elem.name
        ++ " of " ++ toString elemSize ++ " bytes")

/-- The reduction of a range into an element of a buffer. -/
def launch (plan : ReducePlan) (args : ReduceArgs) (output : Buffer) (position : Word) :
    Attempt KernelLaunch := do
  let globalSize ← Attempt.ofArithmetic (Word.mul? plan.workGroupSize plan.blocks)
  let position ← KernelArg.fit "Reduce output position" position
  let first ← KernelArg.fit "Reduce first element" args.first
  let elements ← KernelArg.fit "Reduce element count" args.elements
  let blockSize ← Attempt.ofArithmetic (blockSize? plan args.elements)
  let blockSize ← KernelArg.fit "Reduce block size" blockSize
  return {
    program := plan.program
    kernel := "reduce"
    globalSize
    localSize := plan.workGroupSize
    args := [
      .buffer plan.counter, .buffer output, .word32 position, .buffer args.input, .word32 first,
      .word32 elements, .buffer plan.sums, .word32 blockSize] }

/-- Enqueues a reduction. The result is what the host reads back, if anything. -/
def enqueue (b : Backend) (plan : ReducePlan) (args : ReduceArgs) (waitFor : List Event) :
    Device (List Event × Option (List UInt8)) := do
  Device.attempt (checkInput plan args.input args.first args.elements)
  Device.attempt (checkOutput plan args.output)
  match args.output with
  | .buffer buffer position =>
    let launch ← Device.attempt (launch plan args buffer position)
    let reduced ← Device.ofQueue (b.dispatch launch waitFor)
    return ([reduced], none)
  | .host _ =>
    let elemSize := plan.elem.storageSize
    let launch ← Device.attempt (launch plan args plan.sums plan.blocks)
    let reduced ← Device.ofQueue (b.dispatch launch waitFor)
    let (read, bytes) ← Device.ofQueue (b.read plan.sums (plan.blocks * elemSize) elemSize)
    return ([reduced, read], some bytes)

def measure (b : Backend) (plan : ReducePlan) : Device Binary64 := do
  let elemSize := plan.elem.storageSize
  let output ← Device.ofQueue (b.createBuffer elemSize .writeOnly)
  Measurement.score b elemSize fun elements => do
    let input ← Device.ofQueue (b.createBuffer (elements * elemSize) .readOnly)
    return do return (← enqueue b plan ⟨input, 0, elements, .buffer output 0⟩ []).1

def details (plan : ReducePlan) : List (String × String) :=
  [("elem", plan.elem.name), (Parameter.reduceWorkGroupSize, toString plan.workGroupSize),
    (Parameter.reduceBlocks, toString plan.blocks)]

/-- Reductions on a device. -/
def primitive (b : Backend) :
    Primitive Recorder ReduceProblem ReducePlan ReduceArgs (Option (List UInt8)) where
  name
  formatVersion
  device := b.properties
  validate := validate b.properties
  canonical
  candidates := candidates b.properties
  build := build b
  measure := measure b
  enqueue := enqueue b
  details

end Reduce

end KernelTuning
