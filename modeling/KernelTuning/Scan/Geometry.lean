import KernelTuning.Algorithm.Parameter

/-!
# Scan geometry

A scan splits its elements into blocks. Every block is reduced by one work group, the sums of the
blocks are scanned by a single group, and then every block is scanned from its sum on.

The work groups and the number of blocks are powers of two that the device has room for: `Limits`
gives the bounds, and `validate` checks a geometry against them.
-/

namespace KernelTuning

/-- The launch geometry of a scan. -/
structure ScanGeometry where
  /-- The work group of the block reduction. -/
  reduceWorkGroupSize : Word
  /-- The work group of the final scan. -/
  scanWorkGroupSize : Word
  /-- The elements of a work item in the final scan. -/
  scanWorkScale : Word
  /-- The largest number of blocks. -/
  scanBlocks : Word
deriving DecidableEq

namespace ScanGeometry

/-- What a device has room for. -/
structure Limits where
  localMemElements : Word
  workGroupSize : Word
  blocks : Word

/-- The elements that local memory holds. -/
def localMemElements (d : DeviceProperties) (elem : ElemType) : Word :=
  d.localMemSize / max elem.storageSize 1

/-- The largest work group, smaller than half of the elements of local memory. -/
def workGroupLimit (d : DeviceProperties) (elem : ElemType) : Word :=
  min d.maxWorkGroupSize (Word.saturatingSub (localMemElements d elem / 2) 1)

/-- The limits of a device for elements of a type. Twice the work group has to fit in a word. -/
def limits? (d : DeviceProperties) (elem : ElemType) : Except Word.Fault Limits := do
  let twice ← Word.mul? 2 d.maxWorkGroupSize
  return {
    localMemElements := localMemElements d elem
    workGroupSize := workGroupLimit d elem
    blocks := min twice (localMemElements d elem) }

/-- The geometry before any tuning: large groups in general, single work items and a block per
compute unit on processors. -/
def Limits.default (l : Limits) (d : DeviceProperties) : ScanGeometry :=
  let (workGroupSize, scale, blocks) : Word × Word × Word :=
    match d.kind with
    | .cpu => (1, 1, max d.computeUnits.toUInt64 2)
    | _ => (256, 8, 1024)
  let workGroupSize := Word.floorPowerOfTwo (min workGroupSize l.workGroupSize)
  { reduceWorkGroupSize := workGroupSize
    scanWorkGroupSize := workGroupSize
    scanWorkScale :=
      Word.floorPowerOfTwo (min scale (l.localMemElements / max workGroupSize 1))
    scanBlocks := Word.floorPowerOfTwo (min blocks l.blocks) }

/-- The geometry of a device before any tuning. -/
def default (d : DeviceProperties) (elem : ElemType) : Attempt ScanGeometry := do
  return (← Attempt.ofArithmetic (limits? d elem)).default d

/-! ## Parameters -/

def ofParameters (p : TuningParameters) : Attempt ScanGeometry := do
  return {
    reduceWorkGroupSize := ← p.word Parameter.reduceWorkGroupSize
    scanWorkGroupSize := ← p.word Parameter.scanWorkGroupSize
    scanWorkScale := ← p.word Parameter.scanWorkScale
    scanBlocks := ← p.word Parameter.scanBlocks }

/-- The fields by the names of their parameters. -/
def fields (g : ScanGeometry) : List (String × Word) :=
  [(Parameter.reduceWorkGroupSize, g.reduceWorkGroupSize),
    (Parameter.scanWorkGroupSize, g.scanWorkGroupSize),
    (Parameter.scanWorkScale, g.scanWorkScale), (Parameter.scanBlocks, g.scanBlocks)]

def toParameters (g : ScanGeometry) : TuningParameters := .ofWords g.fields

/-! ## Validity -/

/-- Refuses work groups that are no powers of two or too large. -/
def checkWorkGroup (l : Limits) (name : String) (size : Word) : Attempt Unit :=
  .ensure (size.isPowerOfTwo && size ≤ l.workGroupSize)
    (name ++ " " ++ toString size ++ " must be a power of two of at most " ++ toString l.workGroupSize)

/-- Whether the elements that a work group scans at a time fit in local memory. They are counted
if the work scale is a power of two. -/
def fitsLocalMem? (g : ScanGeometry) (l : Limits) : Except Word.Fault Bool := do
  if g.scanWorkScale.isPowerOfTwo then
    return (← Word.mul? g.scanWorkScale g.scanWorkGroupSize) ≤ l.localMemElements
  else return false

/-- Refuses a geometry that the device has no room for. -/
def validate (g : ScanGeometry) (d : DeviceProperties) (elem : ElemType) : Attempt Unit := do
  let l ← Attempt.ofArithmetic (limits? d elem)
  Attempt.ensure (l.workGroupSize > 0)
    ("Device capabilities are too limited to scan " ++ elem.name)
  checkWorkGroup l Parameter.reduceWorkGroupSize g.reduceWorkGroupSize
  checkWorkGroup l Parameter.scanWorkGroupSize g.scanWorkGroupSize
  let fits ← Attempt.ofArithmetic (g.fitsLocalMem? l)
  Attempt.ensure fits
    (Parameter.scanWorkScale ++ " " ++ toString g.scanWorkScale ++ " doesn't fit in local memory")
  Attempt.ensure (g.scanBlocks.isPowerOfTwo && g.scanBlocks ≥ 2 && g.scanBlocks ≤ l.blocks)
    (Parameter.scanBlocks ++ " " ++ toString g.scanBlocks ++ " must be a power of two between 2 and "
      ++ toString l.blocks)

/-! ## Blocks -/

/-- The elements that the work groups handle at a time. -/
def tile? (g : ScanGeometry) : Except Word.Fault Word := do
  return max g.reduceWorkGroupSize (← Word.mul? g.scanWorkScale g.scanWorkGroupSize)

/-- The elements of a block, a multiple of the tile. A geometry without blocks has none. -/
def blockSize? (g : ScanGeometry) (elements : Word) : Except Word.Fault Word := do
  let covered ← Word.roundUp? elements (← Word.mul? (← g.tile?) g.scanBlocks)
  Word.div? covered g.scanBlocks

end ScanGeometry

end KernelTuning
