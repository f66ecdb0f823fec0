import KernelTuning.Error
import KernelTuning.Storage.Basic
import KernelTuning.Tuning.Entry

/-!
# The tuning cache

A map from tuning keys to entries on top of a record storage.

**Reading never fails.** A record that is missing, unreadable, malformed, of another version or
stored for another key counts as absent. Writing and removing report their failures.
-/

namespace KernelTuning.RecordStorage

variable {σ P : Type} [Problem P]

/-- The entry of a key. -/
def lookup (s : RecordStorage σ) (key : TuningKey P) (state : σ) : Option (CacheEntry P) :=
  match s.read key.recordPath state with
  | .ok (some content) => CacheRecord.entryFor? key content
  | _ => none

/-- A storage operation whose failure is named as a failure of the cache. -/
def reporting {α : Type} (op : Io σ α) (cause : String → CacheError) :
    ExceptT CacheError (StateM σ) α :=
  ExceptT.mk do return (← op.run).mapError fun e => cause e.message

/-- Stores an entry, over the former entry of its key. -/
def store (s : RecordStorage σ) (entry : CacheEntry P) : ExceptT CacheError (StateM σ) Unit :=
  reporting (s.write entry.key.recordPath (CacheRecord.bytes entry))
    (.write entry.key.recordPath.toText)

/-- Removes the entry of a key and tells whether there was a record. -/
def clearKey (s : RecordStorage σ) (key : TuningKey P) : ExceptT CacheError (StateM σ) Bool :=
  reporting (s.remove key.recordPath) (.remove key.recordPath.toText)

/-- Removes all entries. -/
def clearAll (s : RecordStorage σ) : ExceptT CacheError (StateM σ) Unit :=
  reporting s.clear (.remove "*")

end KernelTuning.RecordStorage
