import KernelTuning.Digest.Xxh3
import KernelTuning.ElemType

/-!
# Devices

The properties of a compute device, and the fingerprint under which its tuning results are kept.

**Fingerprint.** It holds every property but the two warp sizes, so devices that differ in these
alone share their results. Its digest hashes the four texts, each ended by a zero byte, then the
numbers with fixed widths, then one byte per feature.
-/

namespace KernelTuning

/-! ## Features and kinds -/

/-- Optional capabilities, in their order. -/
inductive DeviceFeature where
  /-- Single bytes and 16-bit words can be stored without touching their neighbours. -/
  | byteAddressableStore
  | fp16
  | fp64
deriving DecidableEq

namespace DeviceFeature

def name : DeviceFeature → String
  | byteAddressableStore => "ByteAddressableStore"
  | fp16 => "Fp16"
  | fp64 => "Fp64"

def all : List DeviceFeature := [byteAddressableStore, fp16, fp64]

def ofName? (name : String) : Option DeviceFeature := all.find? (·.name = name)

/-- The byte of a feature in a digest. -/
def code (f : DeviceFeature) : UInt8 := UInt8.ofNat (all.idxOf f)

instance : Json.Codec DeviceFeature where
  encode f := .str f.name
  decode? n := n.name?.bind ofName?

end DeviceFeature

/-- A set of features. -/
structure FeatureSet where
  byteAddressableStore : Bool
  fp16 : Bool
  fp64 : Bool
deriving DecidableEq

namespace FeatureSet

def empty : FeatureSet := ⟨false, false, false⟩

def contains (s : FeatureSet) : DeviceFeature → Bool
  | .byteAddressableStore => s.byteAddressableStore
  | .fp16 => s.fp16
  | .fp64 => s.fp64

def insert (s : FeatureSet) : DeviceFeature → FeatureSet
  | .byteAddressableStore => { s with byteAddressableStore := true }
  | .fp16 => { s with fp16 := true }
  | .fp64 => { s with fp64 := true }

def ofList (features : List DeviceFeature) : FeatureSet := features.foldl insert empty

/-- The features of a set, in their order. -/
def toList (s : FeatureSet) : List DeviceFeature := DeviceFeature.all.filter s.contains

instance : Json.Codec FeatureSet where
  encode s := .arr (s.toList.map Json.encode)
  decode? n := do
    let items ← n.items?
    return ofList (← items.mapM Json.decode?)

end FeatureSet

inductive DeviceKind where
  | gpu
  | cpu
  | accelerator
deriving DecidableEq

namespace DeviceKind

def name : DeviceKind → String
  | gpu => "Gpu"
  | cpu => "Cpu"
  | accelerator => "Accelerator"

def all : List DeviceKind := [gpu, cpu, accelerator]

def ofName? (name : String) : Option DeviceKind := all.find? (·.name = name)

/-- The byte of a kind in a digest. -/
def code (k : DeviceKind) : UInt8 := UInt8.ofNat (all.idxOf k)

instance : Json.Codec DeviceKind where
  encode k := .str k.name
  decode? n := n.name?.bind ofName?

end DeviceKind

/-! ## Fingerprints -/

/-- The identity of a device for tuning. -/
structure DeviceFingerprint where
  name : String
  vendor : String
  vendorId : UInt32
  platformName : String
  driverVersion : String
  kind : DeviceKind
  computeUnits : UInt32
  maxWorkGroupSize : UInt64
  localMemSize : UInt64
  features : List DeviceFeature
deriving DecidableEq

namespace DeviceFingerprint

/-- The bytes of a text and a zero byte. -/
def terminated (text : String) : List UInt8 := text.toUTF8.toList ++ [0]

/-- The bytes that identify the device. -/
def identity (f : DeviceFingerprint) : List UInt8 :=
  terminated f.name ++ terminated f.vendor ++ terminated f.platformName
    ++ terminated f.driverVersion
    ++ Digest.littleEndian 4 f.vendorId.toNat ++ [f.kind.code]
    ++ Digest.littleEndian 4 f.computeUnits.toNat
    ++ Digest.littleEndian 8 f.maxWorkGroupSize.toNat
    ++ Digest.littleEndian 8 f.localMemSize.toNat
    ++ f.features.map (·.code)

/-- The digest of a device, in hexadecimal. -/
def digest (f : DeviceFingerprint) : String := Digest.Xxh3.hexDigest ⟨f.identity.toArray⟩

def toText (f : DeviceFingerprint) : String :=
  f.name ++ " (" ++ f.platformName ++ ", " ++ f.driverVersion ++ ")"

def fieldNames : List String :=
  ["name", "vendor", "vendor_id", "platform_name", "driver_version", "kind", "compute_units",
    "max_work_group_size", "local_mem_size", "features"]

instance : Json.Codec DeviceFingerprint where
  encode f := .obj [
    ("name", .str f.name), ("vendor", .str f.vendor), ("vendor_id", .nat f.vendorId.toNat),
    ("platform_name", .str f.platformName), ("driver_version", .str f.driverVersion),
    ("kind", Json.encode f.kind), ("compute_units", .nat f.computeUnits.toNat),
    ("max_work_group_size", .nat f.maxWorkGroupSize.toNat),
    ("local_mem_size", .nat f.localMemSize.toNat),
    ("features", .arr (f.features.map Json.encode))]
  decode? n := do
    match ← n.fields? fieldNames with
    | [some name, some vendor, some vendorId, some platform, some driver, some kind, some units,
        some maxWorkGroup, some localMem, some features] =>
      return {
        name := ← name.string?, vendor := ← vendor.string?, vendorId := ← vendorId.word32?
        platformName := ← platform.string?, driverVersion := ← driver.string?
        kind := ← Json.decode? kind, computeUnits := ← units.word32?
        maxWorkGroupSize := ← maxWorkGroup.word?, localMemSize := ← localMem.word?
        features := ← (← features.items?).mapM Json.decode? }
    | _ => none

end DeviceFingerprint

/-! ## Properties -/

/-- What a backend reports about its device. -/
structure DeviceProperties where
  name : String
  vendor : String
  vendorId : UInt32
  platformName : String
  driverVersion : String
  kind : DeviceKind
  computeUnits : UInt32
  /-- The largest work group of a kernel. -/
  maxWorkGroupSize : UInt64
  /-- The local memory of a work group, in bytes. -/
  localMemSize : UInt64
  /-- The work items that access memory together. -/
  warpSizeMem : UInt64
  /-- The work items that are scheduled together. -/
  warpSizeSchedule : UInt64
  features : FeatureSet
deriving DecidableEq

namespace DeviceProperties

def hasFeature (d : DeviceProperties) (f : DeviceFeature) : Bool := d.features.contains f

def registerFeature (d : DeviceProperties) (f : DeviceFeature) : DeviceProperties :=
  { d with features := d.features.insert f }

/-- The number of compute units, at least one. -/
def units (d : DeviceProperties) : UInt64 := max d.computeUnits.toUInt64 1

def fingerprint (d : DeviceProperties) : DeviceFingerprint where
  name := d.name
  vendor := d.vendor
  vendorId := d.vendorId
  platformName := d.platformName
  driverVersion := d.driverVersion
  kind := d.kind
  computeUnits := d.computeUnits
  maxWorkGroupSize := d.maxWorkGroupSize
  localMemSize := d.localMemSize
  features := d.features.toList

def fieldNames : List String :=
  ["name", "vendor", "vendor_id", "platform_name", "driver_version", "kind", "compute_units",
    "max_work_group_size", "local_mem_size", "warp_size_mem", "warp_size_schedule", "features"]

instance : Json.Codec DeviceProperties where
  encode d := .obj [
    ("name", .str d.name), ("vendor", .str d.vendor), ("vendor_id", .nat d.vendorId.toNat),
    ("platform_name", .str d.platformName), ("driver_version", .str d.driverVersion),
    ("kind", Json.encode d.kind), ("compute_units", .nat d.computeUnits.toNat),
    ("max_work_group_size", .nat d.maxWorkGroupSize.toNat),
    ("local_mem_size", .nat d.localMemSize.toNat),
    ("warp_size_mem", .nat d.warpSizeMem.toNat),
    ("warp_size_schedule", .nat d.warpSizeSchedule.toNat),
    ("features", Json.encode d.features)]
  decode? n := do
    match ← n.fields? fieldNames with
    | [some name, some vendor, some vendorId, some platform, some driver, some kind, some units,
        some maxWorkGroup, some localMem, some warpMem, some warpSchedule, some features] =>
      return {
        name := ← name.string?, vendor := ← vendor.string?, vendorId := ← vendorId.word32?
        platformName := ← platform.string?, driverVersion := ← driver.string?
        kind := ← Json.decode? kind, computeUnits := ← units.word32?
        maxWorkGroupSize := ← maxWorkGroup.word?, localMemSize := ← localMem.word?
        warpSizeMem := ← warpMem.word?, warpSizeSchedule := ← warpSchedule.word?
        features := ← Json.decode? features }
    | _ => none

end DeviceProperties

/-! ## Element types on a device -/

namespace ElemType

/-- The feature that elements of this type need in order to be stored, if any. -/
def storeFeature? (t : ElemType) : Option DeviceFeature :=
  match t.base with
  | .uchar | .char => if t.length < 3 then some .byteAddressableStore else none
  | .ushort | .short => if t.length < 2 then some .byteAddressableStore else none
  | .half => some .fp16
  | .double => some .fp64
  | _ => none

/-- The feature that arithmetic on this type needs, if any. -/
def computeFeature? (t : ElemType) : Option DeviceFeature :=
  match t.base with
  | .half => some .fp16
  | .double => some .fp64
  | _ => none

/-- Whether the device can load and store values of this type. -/
def isStorable (t : ElemType) (d : DeviceProperties) : Bool :=
  !t.isVoid && t.storeFeature?.elim true d.hasFeature

/-- Whether the device can compute with values of this type. -/
def isComputable (t : ElemType) (d : DeviceProperties) : Bool :=
  !t.isVoid && t.computeFeature?.elim true d.hasFeature

end ElemType

end KernelTuning
