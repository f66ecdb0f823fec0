import KernelTuning.Device
import KernelTuning.Storage.RecordPath

/-!
# Tuning keys

A key identifies one tuning result: an algorithm, a device, a problem and the version of the
parameter layout. Its record lies at
`algorithm / v<version> / <digest of the device> / <digest of the key>.json`.
-/

namespace KernelTuning

/-- Descriptions of what an algorithm is asked to process. -/
class Problem (P : Type) extends Json.Codec P where
  toText : P → String
  decEq : DecidableEq P

instance {P : Type} [Problem P] : DecidableEq P := Problem.decEq

instance : Problem String where
  toText p := p
  decEq := inferInstance

instance : Problem ElemType where
  toText := ElemType.name
  decEq := inferInstance

/-- What identifies a tuning result. -/
structure TuningKey (P : Type) where
  algorithm : String
  device : DeviceFingerprint
  problem : P
  formatVersion : UInt32
deriving DecidableEq

namespace TuningKey

variable {P : Type} [Problem P]

/-- The number of segments of the path of a key. -/
def recordDepth : Nat := 4

instance : Json.Codec (TuningKey P) where
  encode k := .obj [
    ("algorithm", .str k.algorithm), ("device", Json.encode k.device),
    ("problem", Json.encode k.problem), ("format_version", .nat k.formatVersion.toNat)]
  decode? n := do
    match ← n.fields? ["algorithm", "device", "problem", "format_version"] with
    | [some algorithm, some device, some problem, some version] =>
      return {
        algorithm := ← algorithm.string?, device := ← Json.decode? device
        problem := ← Json.decode? problem, formatVersion := ← version.word32? }
    | _ => none

/-- The name of the record of a key. -/
def recordName (k : TuningKey P) : String :=
  Digest.Xxh3.hexDigest (Json.compactText k).toUTF8 ++ ".json"

/-- Where the record of a key lies. -/
def recordPath (k : TuningKey P) : RecordPath :=
  .ofTexts [k.algorithm, "v" ++ toString k.formatVersion, k.device.digest, k.recordName]

def toText (k : TuningKey P) : String :=
  k.algorithm ++ "_v" ++ toString k.formatVersion ++ "-" ++ Problem.toText k.problem
    ++ " on " ++ k.device.toText

end TuningKey

end KernelTuning
