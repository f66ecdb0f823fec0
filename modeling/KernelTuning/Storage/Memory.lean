import KernelTuning.Storage.Basic
import KernelTuning.SortedMap.Lemmas

/-!
# Storage in memory

Records in a sorted map. Reads and writes can be made to fail, which leaves the records alone.
-/

namespace KernelTuning

/-- Records kept in memory. -/
structure MemoryStorage where
  records : SortedMap RecordPath ByteArray
  failsReads : Bool
  failsWrites : Bool

namespace MemoryStorage

def empty : MemoryStorage := ⟨∅, false, false⟩

instance : Inhabited MemoryStorage := ⟨empty⟩

def unreadable : IoError := .other "memory storage is unreadable"

def readOnly : IoError := .permissionDenied "memory storage is read-only"

def read (path : RecordPath) (s : MemoryStorage) : Except IoError (Option ByteArray) :=
  if s.failsReads then .error unreadable else .ok (s.records.get? path)

/-- Changes the records, unless writes fail. -/
def change {α : Type} (f : SortedMap RecordPath ByteArray → α × SortedMap RecordPath ByteArray) :
    Io MemoryStorage α :=
  ExceptT.mk fun s =>
    if s.failsWrites then (.error readOnly, s)
    else
      let (result, records) := f s.records
      (.ok result, { s with records })

def write (path : RecordPath) (content : ByteArray) : Io MemoryStorage Unit :=
  change fun records => ((), records.insert path content)

def remove (path : RecordPath) : Io MemoryStorage Bool :=
  change fun records => ((records.get? path).isSome, records.erase path)

def clear : Io MemoryStorage Unit := change fun _ => ((), ∅)

/-- The operations of a storage in memory. -/
def storage : RecordStorage MemoryStorage where
  read
  write
  remove
  list s := .ok s.records.keys
  clear

end MemoryStorage

end KernelTuning
