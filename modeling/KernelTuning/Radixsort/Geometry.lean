import KernelTuning.Algorithm.Parameter

/-!
# Radix sort geometry

A radix sort takes `radixBits` bits per pass: the digits of every block are counted, the counts
are scanned by a single work group, and every block scatters its elements. A scatter group
consists of slices, each of which handles one block.

**Normal form.** `ofParameters` takes the work groups as they are and refuses those that do not
fit. The number of blocks is only an upper bound: it is lowered to what fits in local memory and
rounded to a multiple of what a scan work item and a scatter group handle.
-/

namespace KernelTuning

/-- The launch geometry of a radix sort. -/
structure RadixsortGeometry where
  radixBits : Word
  /-- The work group that counts digits. -/
  reduceWorkGroupSize : Word
  /-- The work group that scans the counts. -/
  scanWorkGroupSize : Word
  /-- The work group that scatters. -/
  scatterWorkGroupSize : Word
  /-- The elements of a work item in the scatter. -/
  scatterWorkScale : Word
  /-- The work items of a scatter group that handle one block. -/
  scatterSlice : Word
  /-- The largest number of blocks. -/
  scanBlocks : Word
deriving DecidableEq

namespace RadixsortGeometry

/-- The refusal of a device that has no room for any such geometry. -/
def requireCapable (condition : Bool) : Attempt Unit :=
  .ensure condition "Device capabilities are too limited for radixsort"

/-- Refuses work groups that are no powers of two, too small or too large. -/
def checkWorkGroup (name : String) (size radix limit : Word) : Attempt Unit :=
  .ensure (size.isPowerOfTwo && size ≥ radix && size ≤ limit)
    (name ++ " " ++ toString size ++ " must be a power of two between " ++ toString radix ++ " and "
      ++ toString limit)

/-- The number of blocks for a requested number: at most what local memory has room for, and a
multiple of the blocks handled together. -/
def fitBlocks? (d : DeviceProperties) (radix scanGranularity slices requested : Word) :
    Except Word.Fault Word := do
  let rounded ← Word.roundUp? requested scanGranularity
  let room := Word.saturatingSub (d.localMemSize / radix) 1 / 4
  Word.roundDown? (min rounded room) (max scanGranularity slices)

/-- The geometry that some parameters ask for. -/
def ofParameters (d : DeviceProperties) (p : TuningParameters) : Attempt RadixsortGeometry := do
  let radixBits ← p.word Parameter.radixBits
  Attempt.ensure (1 ≤ radixBits && radixBits ≤ 8)
    (Parameter.radixBits ++ " " ++ toString radixBits ++ " must be between 1 and 8")
  let radix : Word := 1 <<< radixBits
  let limit := d.maxWorkGroupSize
  requireCapable (limit ≥ radix)
  let reduceWorkGroupSize ← p.word Parameter.reduceWorkGroupSize
  let scanWorkGroupSize ← p.word Parameter.scanWorkGroupSize
  checkWorkGroup Parameter.reduceWorkGroupSize reduceWorkGroupSize radix limit
  checkWorkGroup Parameter.scanWorkGroupSize scanWorkGroupSize radix limit
  let scatterSlice := max d.warpSizeMem radix
  let scatterWorkGroupSize ← p.word Parameter.scatterWorkGroupSize
  let slices := scatterWorkGroupSize / scatterSlice
  requireCapable (scatterWorkGroupSize > 0 && scatterWorkGroupSize % scatterSlice == 0
    && slices.isPowerOfTwo && scatterWorkGroupSize ≤ limit)
  let scatterWorkScale ← p.word Parameter.scatterWorkScale
  Attempt.ensure (scatterWorkScale > 0) (Parameter.scatterWorkScale ++ " must not be zero")
  let requested ← p.word Parameter.scanBlocks
  let scanGranularity := max (scanWorkGroupSize / radix) 1
  let scanBlocks ← Attempt.ofArithmetic (fitBlocks? d radix scanGranularity slices requested)
  requireCapable (scanBlocks > 0)
  return {
    radixBits, reduceWorkGroupSize, scanWorkGroupSize, scatterWorkGroupSize, scatterWorkScale,
    scatterSlice, scanBlocks }

/-- The fields that are parameters, by their names. -/
def fields (g : RadixsortGeometry) : List (String × Word) :=
  [(Parameter.radixBits, g.radixBits), (Parameter.reduceWorkGroupSize, g.reduceWorkGroupSize),
    (Parameter.scanWorkGroupSize, g.scanWorkGroupSize),
    (Parameter.scatterWorkGroupSize, g.scatterWorkGroupSize),
    (Parameter.scatterWorkScale, g.scatterWorkScale), (Parameter.scanBlocks, g.scanBlocks)]

def toParameters (g : RadixsortGeometry) : TuningParameters := .ofWords g.fields

/-- The bits per pass before any tuning. -/
def defaultRadixBits : Word := 4

/-- The number of digits of a pass before any tuning. -/
def defaultRadix : Word := 1 <<< defaultRadixBits

/-- The parameters before any tuning. -/
def defaultParameters (d : DeviceProperties) : Attempt TuningParameters := do
  let (workGroupSize, scatterWorkGroupSize, blocks) : Word × Word × Word :=
    match d.kind with
    | .cpu => (1, 1, 4 * d.units)
    | _ => (128, 64, 128 * d.units)
  let radix := defaultRadix
  requireCapable (d.maxWorkGroupSize ≥ radix)
  let workGroupSize := Word.floorPowerOfTwo (max (min workGroupSize d.maxWorkGroupSize) radix)
  let slice := max d.warpSizeMem radix
  let scatterWorkGroupSize ← Attempt.ofArithmetic
    (Word.roundDown? (max scatterWorkGroupSize slice) slice)
  return .ofWords [
    (Parameter.radixBits, defaultRadixBits), (Parameter.reduceWorkGroupSize, workGroupSize),
    (Parameter.scanWorkGroupSize, workGroupSize),
    (Parameter.scatterWorkGroupSize, scatterWorkGroupSize), (Parameter.scatterWorkScale, 7),
    (Parameter.scanBlocks, blocks)]

/-- The geometry before any tuning. -/
def default (d : DeviceProperties) : Attempt RadixsortGeometry := do
  ofParameters d (← defaultParameters d)

/-! ## Blocks -/

/-- The number of digits of a pass. -/
def radix (g : RadixsortGeometry) : Word := 1 <<< g.radixBits

/-- The blocks that a scatter group handles. -/
def slices (g : RadixsortGeometry) : Word := g.scatterWorkGroupSize / g.scatterSlice

/-- The elements that the work groups handle at a time. -/
def tile? (g : RadixsortGeometry) : Except Word.Fault Word := do
  return max g.reduceWorkGroupSize (← Word.mul? g.scatterWorkScale g.scatterWorkGroupSize)

/-- The elements of a block, a multiple of the tile. -/
def blockSize? (g : RadixsortGeometry) (elements : Word) : Except Word.Fault Word := do
  let tile ← g.tile?
  Word.mul? (← Word.ceilDiv? elements (← Word.mul? tile g.scanBlocks)) tile

/-- The number of blocks that cover some elements, a multiple of the slices. -/
def blocks? (g : RadixsortGeometry) (elements blockSize : Word) :
    Except Word.Fault Word := do
  Word.roundUp? (← Word.ceilDiv? elements blockSize) g.slices

/-- The bytes of the digit counts of all blocks. -/
def histogramSize (g : RadixsortGeometry) : Word := g.scanBlocks * g.radix * 4

end RadixsortGeometry

end KernelTuning
