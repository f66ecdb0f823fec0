import KernelTuning.Storage.RecordPath

/-!
# Record storages

A storage keeps records, byte strings addressed by record paths. `RecordStorage σ` says how the
operations act on a state `σ`: reading and listing leave it alone, the others may change it even
if they fail.

**Restriction.** `recordwise` is the storage whose `clear` removes the listed records one after
the other. `focus` lets a storage act on a part of a larger state.
-/

namespace KernelTuning

/-- Why an operation on a storage or on files failed. -/
inductive IoError where
  | notFound
  | notADirectory
  | isADirectory
  | alreadyExists
  | directoryNotEmpty
  | nameTooLong
  | permissionDenied (reason : String)
  | invalidInput (reason : String)
  | other (reason : String)
deriving DecidableEq

namespace IoError

def message : IoError → String
  | notFound => "No such file or directory (os error 2)"
  | notADirectory => "Not a directory (os error 20)"
  | isADirectory => "Is a directory (os error 21)"
  | alreadyExists => "File exists (os error 17)"
  | directoryNotEmpty => "Directory not empty (os error 39)"
  | nameTooLong => "File name too long (os error 36)"
  | permissionDenied reason => reason
  | invalidInput reason => reason
  | other reason => reason

end IoError

/-- An operation on a state that may fail. -/
abbrev Io (σ α : Type) := ExceptT IoError (StateM σ) α

/-- The operations of a storage on its state. -/
structure RecordStorage (σ : Type) where
  /-- The content of a record, if there is one. -/
  read : RecordPath → σ → Except IoError (Option ByteArray)
  /-- Writes a record, over its former content. -/
  write : RecordPath → ByteArray → Io σ Unit
  /-- Removes a record and tells whether there was one. -/
  remove : RecordPath → Io σ Bool
  /-- The paths of all records in increasing order. -/
  list : σ → Except IoError (List RecordPath)
  /-- Removes all records. -/
  clear : Io σ Unit

namespace RecordStorage

variable {σ τ : Type}

/-- The storage that clears by removing every listed record. -/
def recordwise (s : RecordStorage σ) : RecordStorage σ :=
  { s with
    clear := do
      let paths ← ExceptT.mk fun state => (s.list state, state)
      paths.forM fun path => do
        let _ ← s.remove path }

/-- An operation on a part of a larger state. -/
def onPart {α : Type} (view : τ → σ) (update : σ → τ → τ) (op : Io σ α) : Io τ α :=
  ExceptT.mk fun whole =>
    let (result, part) := op.run (view whole)
    (result, update part whole)

/-- The storage acting on a part of a larger state. -/
def focus (s : RecordStorage σ) (view : τ → σ) (update : σ → τ → τ) : RecordStorage τ where
  read path whole := s.read path (view whole)
  write path content := onPart view update (s.write path content)
  remove path := onPart view update (s.remove path)
  list whole := s.list (view whole)
  clear := onPart view update s.clear

end RecordStorage

end KernelTuning
