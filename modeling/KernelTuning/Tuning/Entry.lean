import KernelTuning.Tuning.Key
import KernelTuning.Tuning.Parameters

/-!
# Cache entries

A tuning result with its key, and the record that keeps it: an entry under the version of the
record layout, as indented JSON.
-/

namespace KernelTuning

/-- A tuning result. -/
structure CacheEntry (P : Type) where
  key : TuningKey P
  parameters : TuningParameters
  /-- The score of the parameters, lower is better. -/
  score : Binary64
  /-- When the entry was made, in seconds since 1970. -/
  timestamp : UInt64
  /-- The checksum of the candidate space that the parameters come from. -/
  checksum : String
deriving DecidableEq

namespace CacheEntry

variable {P : Type} [Problem P]

instance : Json.Codec (CacheEntry P) where
  encode e := .obj [
    ("key", Json.encode e.key), ("parameters", Json.encode e.parameters),
    ("score", .float e.score), ("timestamp", .nat e.timestamp.toNat),
    ("checksum", .str e.checksum)]
  decode? n := do
    match ← n.fields? ["key", "parameters", "score", "timestamp", "checksum"] with
    | [some key, some parameters, some score, some timestamp, some checksum] =>
      return {
        key := ← Json.decode? key, parameters := ← Json.decode? parameters
        score := ← score.double?, timestamp := ← timestamp.word?
        checksum := ← checksum.string? }
    | _ => none

end CacheEntry

/-- An entry as it is stored. -/
structure CacheRecord (P : Type) where
  recordVersion : UInt32
  entry : CacheEntry P

namespace CacheRecord

variable {P : Type} [Problem P]

/-- The version of the record layout. -/
def currentVersion : UInt32 := 1

instance : Json.Codec (CacheRecord P) where
  encode r := .obj [
    ("record_version", .nat r.recordVersion.toNat), ("entry", Json.encode r.entry)]
  decode? n := do
    match ← n.fields? ["record_version", "entry"] with
    | [some version, some entry] => return ⟨← version.word32?, ← Json.decode? entry⟩
    | _ => none

/-- The bytes of the record of an entry. -/
def bytes (e : CacheEntry P) : ByteArray :=
  (Json.encode (CacheRecord.mk currentVersion e)).pretty.toUTF8

/-- The entry that a record holds for a key: one of the current version that was stored for this
very key. -/
def entryFor? (key : TuningKey P) (content : ByteArray) : Option (CacheEntry P) := do
  let record : CacheRecord P ← Json.parse? content
  guard (record.recordVersion = currentVersion ∧ record.entry.key = key)
  return record.entry

end CacheRecord

end KernelTuning
