import KernelTuning.Algorithm.Create
import KernelTuning.Algorithm.Measurement
import KernelTuning.Radixsort.Geometry

/-!
# Radix sort

A stable sort of the first elements of a buffer of unsigned keys, with values moved along if
wanted, on the lowest bits of the keys. Values are only moved, so all value types of one storage
size are tuned alike.

**Passes.** Each pass sorts on the next bits, from one set of buffers into the other: the buffers
of the caller and a temporary set. After an odd number of passes the result lies in the temporary
set and is copied back. Each command waits for the one before.
-/

namespace KernelTuning

/-- The key and value types to sort. -/
structure RadixsortProblem where
  key : ElemType
  /-- The sentinel stands for keys without values. -/
  value : ElemType
deriving DecidableEq

instance : Problem RadixsortProblem where
  encode p := .obj [("key", Json.encode p.key), ("value", Json.encode p.value)]
  decode? n := do
    match ← n.fields? ["key", "value"] with
    | [some key, some value] => return ⟨← Json.decode? key, ← Json.decode? value⟩
    | _ => none
  toText p := p.key.name ++ "-" ++ p.value.name
  decEq := inferInstance

/-- A buffer of keys, and one of values if there are any. -/
structure SortBuffers where
  keys : Buffer
  values : Option Buffer
deriving DecidableEq

/-- The arguments of a sort. -/
structure RadixsortArgs where
  buffers : SortBuffers
  elements : Word
  /-- The number of lowest bits to sort on, zero for all of them. -/
  maxBits : UInt32

/-- A sort that is ready to run. -/
structure RadixsortPlan where
  program : Program
  /-- The digit counts of all blocks. -/
  histogram : Buffer
  geometry : RadixsortGeometry
  /-- The bytes of a key. -/
  keySize : Word
  /-- The bytes of a value, zero without values. -/
  valueSize : Word
  /-- Temporary buffers of the caller, used where they are large enough. -/
  temporaryKeys : Option Buffer
  temporaryValues : Option Buffer
deriving DecidableEq

namespace Radixsort

def name : String := "radixsort"

def formatVersion : UInt32 := 1

/-! ## Problems and candidates -/

/-- The unsigned integer type that takes as much memory as a type, of the widest base type. -/
def storageEquivalent (value : ElemType) : ElemType :=
  if value.isVoid then .void
  else
    let size := value.storageSize
    let fitting (base : BaseType) : Option ElemType :=
      if size % base.size = 0 then
        (ElemType.vector base (UInt32.ofNat (size / base.size).toNat)).toOption
      else none
    ([BaseType.ulong, .uint, .ushort, .uchar].findSome? fitting).getD value

def validate (d : DeviceProperties) (problem : RadixsortProblem) : Attempt Unit := do
  let key := problem.key
  let value := problem.value
  Attempt.ensure
    (key.isIntegral && !key.isSigned && key.length = 1 && key.isComputable d && key.isStorable d)
    (key.name ++ " is not a valid radixsort key type on " ++ d.name)
  Attempt.ensure (value.isVoid || value.isStorable d)
    (value.name ++ " is not a valid radixsort value type on " ++ d.name)
  -- A search starts from the parameters before any tuning, so these have to fit.
  let _ ← RadixsortGeometry.default d

def canonical (problem : RadixsortProblem) : RadixsortProblem :=
  ⟨problem.key, storageEquivalent problem.value⟩

/-- The candidates around the geometry before any tuning, on devices that have one. -/
def candidates (d : DeviceProperties) (_problem : RadixsortProblem) : CandidateSpace :=
  match RadixsortGeometry.default d with
  | .error _ => .empty
  | .ok g =>
    let workGroupSizes := Word.powersOfTwo g.radix d.maxWorkGroupSize
    let slices := Word.powersOfTwo 1 (d.maxWorkGroupSize / g.scatterSlice)
    { base := Parameter.withWarpSizes g.toParameters d
      stages := [
        CandidateSpace.stage Parameter.reduceWorkGroupSize workGroupSizes,
        CandidateSpace.stage Parameter.scanWorkGroupSize workGroupSizes,
        CandidateSpace.stage Parameter.scatterWorkGroupSize (slices.map (· * g.scatterSlice)),
        CandidateSpace.stage Parameter.scatterWorkScale [1, 2, 3, 4, 5, 6, 7, 8],
        CandidateSpace.stage Parameter.scanBlocks
          (([2, 3, 4, 5, 6, 7] : List Word).map fun shift => d.units <<< shift)] }

/-! ## Plans -/

/-- The program of a geometry. -/
def program (d : DeviceProperties) (problem : RadixsortProblem) (g : RadixsortGeometry) :
    Program :=
  let p := ((Program.named "radixsort").defineAll [
    ("WARP_SIZE_MEM", d.warpSizeMem), ("WARP_SIZE_SCHEDULE", d.warpSizeSchedule),
    ("REDUCE_WORK_GROUP_SIZE", g.reduceWorkGroupSize),
    ("SCAN_WORK_GROUP_SIZE", g.scanWorkGroupSize),
    ("SCATTER_WORK_GROUP_SIZE", g.scatterWorkGroupSize),
    ("SCATTER_WORK_SCALE", g.scatterWorkScale), ("SCATTER_SLICE", g.scatterSlice),
    ("SCAN_BLOCKS", g.scanBlocks), ("RADIX_BITS", g.radixBits)]).defineType
      "KEY_T" problem.key.name
  let p := if problem.value.isVoid then p else p.defineType "VALUE_T" problem.value.name
  p.withExtensions [problem.key, problem.value]

def build (b : Backend) (problem : RadixsortProblem) (parameters : TuningParameters) :
    Device RadixsortPlan := do
  Device.attempt (Parameter.checkWarpSizes parameters b.properties)
  let geometry ← Device.attempt (RadixsortGeometry.ofParameters b.properties parameters)
  let program ← Device.ofQueue (b.buildProgram (program b.properties problem geometry))
  let histogram ← Device.ofQueue (b.createBuffer geometry.histogramSize .readWrite)
  return {
    program, histogram, geometry
    keySize := problem.key.storageSize
    valueSize := problem.value.storageSize
    temporaryKeys := none
    temporaryValues := none }

/-- The plan with temporary buffers of the caller, instead of former ones. -/
def setTemporaries (keys values : Option Buffer) (plan : RadixsortPlan) : RadixsortPlan :=
  { plan with temporaryKeys := keys, temporaryValues := values }

/-! ## Arguments -/

/-- The number of bits of a key. -/
def keyBits (plan : RadixsortPlan) : Word := 8 * plan.keySize

/-- Refuses a buffer that does not hold the elements, or cannot be sorted in place. -/
def checkBuffer (what verb : String) (buffer : Buffer) (elements elemSize : Word) :
    Attempt Unit := do
  Attempt.ensure ((Word.checkedMul elements elemSize).any (· ≤ buffer.size))
    ("Radixsort range is out of buffer bounds for " ++ what)
  Attempt.ensure (buffer.access = .readWrite) ("Radixsort " ++ what ++ " " ++ verb)

/-- Refuses values that are missing or not wanted. -/
def checkValues (plan : RadixsortPlan) (values : Option Buffer) (elements : Word) :
    Attempt Unit :=
  match values with
  | none => .ensure (plan.valueSize = 0) "Radixsort values are missing"
  | some values =>
    if plan.valueSize = 0 then .fail "Radixsort values were given but the value type is void"
    else checkBuffer "values" "are not read-write" values elements plan.valueSize

/-- The number of bits to sort on. -/
def effectiveBits (plan : RadixsortPlan) (maxBits : UInt32) : Attempt Word :=
  if maxBits = 0 then .ok (keyBits plan)
  else if maxBits.toUInt64 > keyBits plan then
    .fail ("max_bits " ++ toString maxBits ++ " is too large for " ++ toString (keyBits plan)
      ++ "-bit keys")
  else .ok maxBits.toUInt64

/-- Checks the arguments and gives the number of bits to sort on. -/
def checkArgs (plan : RadixsortPlan) (args : RadixsortArgs) : Attempt Word := do
  checkBuffer "keys" "are not read-write" args.buffers.keys args.elements plan.keySize
  checkValues plan args.buffers.values args.elements
  Attempt.ensure (args.elements != 0) "Radixsort of zero elements"
  let _ ← KernelArg.fit "Radixsort element count" args.elements
  effectiveBits plan args.maxBits

/-! ## Execution -/

/-- A buffer of the caller if it is large enough, or a new one. -/
def temporary (b : Backend) (provided : Option Buffer) (size : Word) : Device Buffer :=
  match provided.filter (size ≤ ·.size) with
  | some buffer => pure buffer
  | none => Device.ofQueue (b.createBuffer size .readWrite)

/-- The temporary set of buffers for some elements. -/
def temporaries (b : Backend) (plan : RadixsortPlan) (args : RadixsortArgs) :
    Device SortBuffers := do
  let keys ← temporary b plan.temporaryKeys (args.elements * plan.keySize)
  match args.buffers.values with
  | none => return ⟨keys, none⟩
  | some _ =>
    let values ← temporary b plan.temporaryValues (args.elements * plan.valueSize)
    return ⟨keys, some values⟩

/-- What the passes of an execution have in common. -/
structure Shape where
  /-- The number of blocks. -/
  blocks : Word
  blocksArg : UInt32
  blockSizeArg : UInt32
  elementsArg : UInt32

def shapeOf (plan : RadixsortPlan) (elements : Word) : Attempt Shape := do
  let g := plan.geometry
  let blockSize ← Attempt.ofArithmetic (g.blockSize? elements)
  let blocks ← Attempt.ofArithmetic (g.blocks? elements blockSize)
  Attempt.ensure (blocks ≤ g.scanBlocks)
    ("Radixsort of " ++ toString elements ++ " elements needs " ++ toString blocks ++ " blocks")
  let elementsArg ← KernelArg.fit "Radixsort element count" elements
  let blockSizeArg ← KernelArg.fit "Radixsort block size" blockSize
  let blocksArg ← KernelArg.fit "Radixsort block count" blocks
  return { blocks, blocksArg, blockSizeArg, elementsArg }

/-- The count of the digits of all blocks. -/
def reduceLaunch (plan : RadixsortPlan) (shape : Shape) (keys : Buffer) (firstBit : UInt32) :
    KernelLaunch where
  program := plan.program
  kernel := "radixsortReduce"
  globalSize := plan.geometry.reduceWorkGroupSize * shape.blocks
  localSize := plan.geometry.reduceWorkGroupSize
  args := [
    .buffer plan.histogram, .buffer keys, .word32 shape.blockSizeArg, .word32 shape.elementsArg,
    .word32 firstBit]

/-- The scan of the counts. -/
def scanLaunch (plan : RadixsortPlan) (shape : Shape) : KernelLaunch where
  program := plan.program
  kernel := "radixsortScan"
  globalSize := plan.geometry.scanWorkGroupSize
  localSize := plan.geometry.scanWorkGroupSize
  args := [.buffer plan.histogram, .word32 shape.blocksArg]

/-- The scatter of all blocks from one set of buffers into another. -/
def scatterLaunch (plan : RadixsortPlan) (shape : Shape) (source target : SortBuffers)
    (firstBit : UInt32) : KernelLaunch where
  program := plan.program
  kernel := "radixsortScatter"
  globalSize := plan.geometry.scatterWorkGroupSize * (shape.blocks / plan.geometry.slices)
  localSize := plan.geometry.scatterWorkGroupSize
  args := [
    .buffer target.keys, .buffer source.keys, .buffer plan.histogram,
    .word32 shape.blockSizeArg, .word32 shape.elementsArg, .word32 firstBit]
    ++ match target.values, source.values with
      | some out, some input => [.buffer out, .buffer input]
      | _, _ => []

/-- Enqueues one pass. -/
def enqueuePass (b : Backend) (plan : RadixsortPlan) (shape : Shape)
    (source target : SortBuffers) (firstBit : UInt32) (waitFor : List Event) :
    Device (List Event) := Device.ofQueue do
  let reduced ← b.dispatch (reduceLaunch plan shape source.keys firstBit) waitFor
  let scanned ← b.dispatch (scanLaunch plan shape) [reduced]
  let scattered ← b.dispatch (scatterLaunch plan shape source target firstBit) [scanned]
  return [reduced, scanned, scattered]

/-- Enqueues passes that alternate between two sets of buffers. -/
def enqueuePasses (b : Backend) (plan : RadixsortPlan) (shape : Shape)
    (source target : SortBuffers) (waitFor : List Event) : List UInt32 → Device (List Event)
  | [] => return []
  | firstBit :: rest => do
    let events ← enqueuePass b plan shape source target firstBit waitFor
    return events ++ (← enqueuePasses b plan shape target source (eventsAfter events waitFor) rest)

/-- The first bits of the passes. -/
def firstBits (plan : RadixsortPlan) (bits : Word) : List UInt32 :=
  let step := plan.geometry.radixBits.toNat
  -- The last pass takes a whole digit too, also where fewer bits are left.
  (List.range ((bits.toNat + step - 1) / step)).map fun pass => UInt32.ofNat (pass * step)

/-- Enqueues the copies from one set of buffers to another. -/
def enqueueCopies (b : Backend) (plan : RadixsortPlan) (source target : SortBuffers)
    (elements : Word) : Device (List Event) := Device.ofQueue do
  let keys ← b.copy source.keys target.keys (elements * plan.keySize)
  match source.values, target.values with
  | some input, some out => return [keys, ← b.copy input out (elements * plan.valueSize)]
  | _, _ => return [keys]

def enqueue (b : Backend) (plan : RadixsortPlan) (args : RadixsortArgs) (waitFor : List Event) :
    Device (List Event) := do
  let bits ← Device.attempt (checkArgs plan args)
  let temporary ← temporaries b plan args
  let shape ← Device.attempt (shapeOf plan args.elements)
  let passes := firstBits plan bits
  let sorted ← enqueuePasses b plan shape args.buffers temporary waitFor passes
  -- After an odd number of passes the result lies in the temporary buffers.
  if passes.length % 2 = 0 then return sorted
  else return sorted ++ (← enqueueCopies b plan temporary args.buffers args.elements)

def measure (b : Backend) (plan : RadixsortPlan) : Device Binary64 :=
  Measurement.score b (plan.keySize + plan.valueSize) fun elements => do
    let keys ← Device.ofQueue (b.createBuffer (elements * plan.keySize) .readWrite)
    let values ←
      if plan.valueSize = 0 then pure none
      else some <$> Device.ofQueue (b.createBuffer (elements * plan.valueSize) .readWrite)
    return enqueue b plan ⟨⟨keys, values⟩, elements, 0⟩ []

def details (plan : RadixsortPlan) : List (String × String) :=
  (Parameter.scatterSlice, toString plan.geometry.scatterSlice)
    :: plan.geometry.fields.map fun f => (f.1, toString f.2)

/-- Sorts on a device. -/
def primitive (b : Backend) :
    Primitive Recorder RadixsortProblem RadixsortPlan RadixsortArgs Unit where
  name
  formatVersion
  device := b.properties
  validate := validate b.properties
  canonical
  candidates := candidates b.properties
  build := build b
  measure := measure b
  enqueue plan args waitFor := do return (← enqueue b plan args waitFor, ())
  details

end Radixsort

end KernelTuning
