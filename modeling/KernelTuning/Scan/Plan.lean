import KernelTuning.Algorithm.Create
import KernelTuning.Algorithm.Measurement
import KernelTuning.Scan.Geometry

/-!
# Scan

The exclusive prefix sum of the first elements of a buffer, in place, for integer types. Signed
and unsigned types of one width are tuned alike.

**Commands.** The blocks but the last are reduced, unless there is a single block; then the sums
are scanned, starting from an offset, and then all blocks. Each command waits for the one before.
-/

namespace KernelTuning

/-- The element type to scan. -/
structure ScanProblem where
  elem : ElemType
deriving DecidableEq

instance : Problem ScanProblem where
  encode p := .obj [("elem", Json.encode p.elem)]
  decode? n := do
    match ← n.fields? ["elem"] with
    | [some elem] => return ⟨← Json.decode? elem⟩
    | _ => none
  toText p := p.elem.name
  decEq := inferInstance

/-- Where a scan starts from. -/
inductive ScanOffset where
  | zero
  /-- A value given by the bytes of one element. -/
  | host (bytes : List UInt8)
  /-- An element of a buffer. -/
  | device (buffer : Buffer) (index : Word)

/-- The arguments of a scan. -/
structure ScanArgs where
  buffer : Buffer
  elements : Word
  offset : ScanOffset

/-- A scan that is ready to run. -/
structure ScanPlan where
  program : Program
  /-- One sum per block. -/
  sums : Buffer
  geometry : ScanGeometry
  elem : ElemType
deriving DecidableEq

namespace Scan

def name : String := "scan"

def formatVersion : UInt32 := 1

/-! ## Problems and candidates -/

def validate (d : DeviceProperties) (problem : ScanProblem) : Attempt Unit := do
  let elem := problem.elem
  Attempt.ensure (elem.isIntegral && elem.isComputable d && elem.isStorable d)
    (elem.name ++ " is not a supported integral type on " ++ d.name)
  (← ScanGeometry.default d elem).validate d elem

def canonical (problem : ScanProblem) : ScanProblem := ⟨problem.elem.toSigned⟩

/-- The largest number of elements of a work item that is tried. -/
def maxWorkScale : Word := 16

/-- The candidates within the limits of a device. -/
def candidatesWithin (d : DeviceProperties) (l : ScanGeometry.Limits) : CandidateSpace :=
  let workGroupSizes := Word.powersOfTwo 1 l.workGroupSize
  { base := Parameter.withWarpSizes (l.default d).toParameters d
    stages := [
      CandidateSpace.stage Parameter.reduceWorkGroupSize workGroupSizes,
      CandidateSpace.stage Parameter.scanWorkGroupSize workGroupSizes,
      CandidateSpace.stage Parameter.scanWorkScale
        (Word.powersOfTwo 1 (min maxWorkScale l.localMemElements)),
      CandidateSpace.stage Parameter.scanBlocks (Word.powersOfTwo 2 l.blocks)] }

/-- The candidates for a problem, on devices with limits. -/
def candidates? (d : DeviceProperties) (problem : ScanProblem) :
    Except Word.Fault CandidateSpace :=
  (ScanGeometry.limits? d problem.elem).map (candidatesWithin d)

/-- The candidates for a valid problem. On a device without limits no problem is valid: `validate`
refuses the type or crashes. -/
def candidates (d : DeviceProperties) (problem : ScanProblem) : CandidateSpace :=
  (candidates? d problem).toOption.getD .empty

/-! ## Plans -/

/-- The program of a geometry. -/
def program (d : DeviceProperties) (elem : ElemType) (g : ScanGeometry) : Program :=
  ((Program.named "scan").defineAll [
    ("WARP_SIZE_MEM", d.warpSizeMem), ("WARP_SIZE_SCHEDULE", d.warpSizeSchedule),
    ("REDUCE_WORK_GROUP_SIZE", g.reduceWorkGroupSize),
    ("SCAN_WORK_GROUP_SIZE", g.scanWorkGroupSize), ("SCAN_WORK_SCALE", g.scanWorkScale),
    ("SCAN_BLOCKS", g.scanBlocks)]).defineType "SCAN_T" elem.name
  |>.withExtensions [elem]

def build (b : Backend) (problem : ScanProblem) (parameters : TuningParameters) :
    Device ScanPlan := do
  let elem := problem.elem
  let geometry ← Device.attempt (ScanGeometry.ofParameters parameters)
  Device.attempt (Parameter.checkWarpSizes parameters b.properties)
  Device.attempt (geometry.validate b.properties elem)
  let program ← Device.ofQueue (b.buildProgram (program b.properties elem geometry))
  let sums ← Device.ofQueue (b.createBuffer (geometry.scanBlocks * elem.storageSize) .readWrite)
  return { program, sums, geometry, elem }

/-! ## Execution -/

/-- Refuses an offset that the plan cannot start from. -/
def checkOffset (plan : ScanPlan) (offset : ScanOffset) : Attempt Unit := do
  let elemSize := plan.elem.storageSize
  match offset with
  | .zero => .ok ()
  | .host bytes =>
    Attempt.ensure (bytes.length = elemSize.toNat)
      ("Scan offset has " ++ toString bytes.length ++ " bytes, expected one " ++ plan.elem.name
        ++ " of " ++ toString elemSize ++ " bytes")
  | .device buffer index =>
    let _ ← KernelArg.fit "Scan offset index" index
    Attempt.ensure
      (((Word.checkedAdd index 1).bind (Word.checkedMul · elemSize)).any (· ≤ buffer.size))
      ("Scan offset index " ++ toString index ++ " is out of buffer bounds")
    Attempt.ensure buffer.access.isReadable "Scan offset buffer is not readable"

def checkArgs (plan : ScanPlan) (args : ScanArgs) : Attempt Unit := do
  let elemSize := plan.elem.storageSize
  Attempt.ensure ((Word.checkedMul args.elements elemSize).any (· ≤ args.buffer.size))
    "Scan range is out of buffer bounds"
  Attempt.ensure (args.buffer.access = .readWrite) "Scan buffer is not read-write"
  checkOffset plan args.offset
  let _ ← KernelArg.fit "Scan element count" args.elements
  Attempt.ensure (args.elements != 0) "Scan of zero elements"

/-- The size and the number of the blocks of an execution. -/
def blocksOf (plan : ScanPlan) (elements : Word) : Attempt (Word × Word) := do
  let blockSize ← Attempt.ofArithmetic (plan.geometry.blockSize? elements)
  let blocks ← Attempt.ofArithmetic (Word.ceilDiv? elements blockSize)
  Attempt.ensure (blocks > 0 && blocks ≤ plan.geometry.scanBlocks)
    ("Scan of " ++ toString elements ++ " elements needs " ++ toString blocks
      ++ " blocks")
  return (blockSize, blocks)

/-- The reduction of the blocks but the last. -/
def reduceLaunch (plan : ScanPlan) (buffer : Buffer) (blocks : Word) (blockSize : UInt32) :
    KernelLaunch where
  program := plan.program
  kernel := "reduce"
  globalSize := plan.geometry.reduceWorkGroupSize * (blocks - 1)
  localSize := plan.geometry.reduceWorkGroupSize
  args := [.buffer plan.sums, .buffer buffer, .word32 blockSize]

/-- The scan of the sums, from an offset. -/
def sumsLaunch (plan : ScanPlan) (offset : ScanOffset) : Attempt KernelLaunch := do
  let (kernel, args) : String × List (KernelArg Buffer) ←
    match offset with
    | .zero =>
      pure ("scanExclusiveSmall", [.bytes (List.replicate plan.elem.storageSize.toNat 0)])
    | .host bytes => pure ("scanExclusiveSmall", [.bytes bytes])
    | .device buffer index =>
      pure ("scanExclusiveSmallOffset",
        [.buffer buffer, .word32 (← KernelArg.fit "Scan offset index" index)])
  return {
    program := plan.program
    kernel
    globalSize := plan.geometry.scanBlocks / 2
    localSize := plan.geometry.scanBlocks / 2
    args := .buffer plan.sums :: args }

/-- The scan of all blocks from their sums. -/
def scanLaunch (plan : ScanPlan) (buffer : Buffer) (blocks : Word) (blockSize elements : UInt32) :
    KernelLaunch where
  program := plan.program
  kernel := "scanExclusive"
  globalSize := plan.geometry.scanWorkGroupSize * blocks
  localSize := plan.geometry.scanWorkGroupSize
  args := [.buffer buffer, .buffer plan.sums, .word32 blockSize, .word32 elements]

def enqueue (b : Backend) (plan : ScanPlan) (args : ScanArgs) (waitFor : List Event) :
    Device (List Event) := do
  Device.attempt (checkArgs plan args)
  let (blockSize, blocks) ← Device.attempt (blocksOf plan args.elements)
  let reduced ←
    -- The last block is not reduced, so nothing is to be done for a single one.
    if blocks > 1 then do
      let blockSize ← Device.attempt (KernelArg.fit "Scan block size" blockSize)
      let event ← Device.ofQueue
        (b.dispatch (reduceLaunch plan args.buffer blocks blockSize) waitFor)
      pure [event]
    else pure []
  let sums ← Device.attempt (sumsLaunch plan args.offset)
  let summed ← Device.ofQueue (b.dispatch sums (eventsAfter reduced waitFor))
  let blockSize ← Device.attempt (KernelArg.fit "Scan block size" blockSize)
  let elements ← Device.attempt (KernelArg.fit "Scan element count" args.elements)
  let scanned ← Device.ofQueue
    (b.dispatch (scanLaunch plan args.buffer blocks blockSize elements) [summed])
  return reduced ++ [summed, scanned]

def measure (b : Backend) (plan : ScanPlan) : Device Binary64 :=
  let elemSize := plan.elem.storageSize
  Measurement.score b elemSize fun elements => do
    let buffer ← Device.ofQueue (b.createBuffer (elements * elemSize) .readWrite)
    return enqueue b plan ⟨buffer, elements, .zero⟩ []

def details (plan : ScanPlan) : List (String × String) :=
  ("elem", plan.elem.name) :: plan.geometry.fields.map fun f => (f.1, toString f.2.toNat)

/-- Scans on a device. -/
def primitive (b : Backend) : Primitive Recorder ScanProblem ScanPlan ScanArgs Unit where
  name
  formatVersion
  device := b.properties
  validate := validate b.properties
  canonical
  candidates := candidates b.properties
  build := build b
  measure := measure b
  enqueue plan args waitFor := do return (← enqueue b plan args waitFor, ())
  details

end Scan

end KernelTuning
