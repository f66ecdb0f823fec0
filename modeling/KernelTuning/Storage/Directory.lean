import KernelTuning.Storage.FileSystem

/-!
# Storage in a directory

One file per record below a root directory, at the path of the record. Records are the files
exactly `depth` levels below the root whose name is a record name; nothing else is ever listed or
removed, so the root may hold other files as well.

**Writes.** A record is written to a temporary file beside it, which is then renamed, so a file
with a record name always holds a whole record. Temporary files that were left behind are no
records; `clear` removes them too.

**Pruning.** Clearing removes the directories that it leaves empty, those below the root only. The
root itself is created by the first write.
-/

namespace KernelTuning

/-- A directory with records. -/
structure DirectoryStorage where
  root : FilePath
  depth : Nat
  /-- What tells the temporary files of this writer from those of others. -/
  writer : String

namespace DirectoryStorage

/-! ## Names -/

/-- Whether a name ends in `.json` and has something before it, and is not hidden. -/
def isRecordName (name : String) : Bool := !name.startsWith "." && name.endsWith ".json"

/-- Whether `part` stands somewhere in a text. -/
def contains (part : List Char) : List Char → Bool
  | [] => part.isEmpty
  | c :: rest => part.isPrefixOf (c :: rest) || contains part rest

/-- Whether a name is that of a temporary file of some writer. -/
def isTemporaryName (name : String) : Bool :=
  name.startsWith "." && name.endsWith "tmp" && contains ".json.".toList name.toList

def isRecord (s : DirectoryStorage) (path : RecordPath) : Bool :=
  path.segments.length = s.depth && path.name?.elim false isRecordName

/-- The file of a record. -/
def filePath (s : DirectoryStorage) (path : RecordPath) : FilePath := s.root.below path.segments

/-- The temporary file of a writer beside the file of a record. -/
def temporaryPath (s : DirectoryStorage) (path : RecordPath) : FilePath :=
  (s.filePath path).withName ("." ++ path.name?.getD "" ++ "." ++ s.writer ++ ".tmp")

def checkRecord (s : DirectoryStorage) (path : RecordPath) : Except IoError Unit :=
  if s.isRecord path then .ok ()
  else .error (.invalidInput
    (path.toText ++ " is not a record path of depth " ++ toString s.depth))

/-! ## Single records -/

/-- Whether the failure only says that there is no such file. -/
def orMissing {α : Type} (missing : α) : Except IoError α → Except IoError α
  | .error .notFound => .ok missing
  | result => result

def read (s : DirectoryStorage) (path : RecordPath) (files : FileSystem) :
    Except IoError (Option ByteArray) := do
  s.checkRecord path
  orMissing none ((files.read (s.filePath path)).map some)

/-- Runs an operation and another one if it fails. -/
def orCleanUp (op cleanUp : Io FileSystem Unit) : Io FileSystem Unit :=
  tryCatch op fun e => do
    tryCatch cleanUp fun _ => pure ()
    throw e

def write (s : DirectoryStorage) (path : RecordPath) (content : ByteArray) :
    Io FileSystem Unit := do
  ExceptT.mk fun files => (s.checkRecord path, files)
  let target := s.filePath path
  let temporary := s.temporaryPath path
  FileSystem.createParents target
  orCleanUp (do FileSystem.write temporary content; FileSystem.rename temporary target)
    (FileSystem.removeFile temporary)

/-- Removes a file and tells whether there was one. -/
def removeIfPresent (path : FilePath) : Io FileSystem Bool :=
  tryCatch (do FileSystem.removeFile path; pure true) fun
    | .notFound => pure false
    | e => throw e

def remove (s : DirectoryStorage) (path : RecordPath) : Io FileSystem Bool := do
  ExceptT.mk fun files => (s.checkRecord path, files)
  removeIfPresent (s.filePath path)

/-! ## All records -/

/-- The paths of the records, and the names that lead to the temporary files. -/
def found (s : DirectoryStorage) (files : FileSystem) :
    Except IoError (List RecordPath × List (List String)) :=
  if s.depth = 0 then .ok ([], [])
  else do
    match ← orMissing none ((files.directoryAt s.root).map some) with
    | none => return ([], [])
    | some root =>
      let names := files.tree.filesBelow root s.depth
      let named (p : String → Bool) (l : List String) : Bool := l.getLast?.elim false p
      return ((names.filter (named isRecordName)).map RecordPath.ofTexts,
        names.filter (named isTemporaryName))

def list (s : DirectoryStorage) (files : FileSystem) : Except IoError (List RecordPath) :=
  (s.found files).map fun found => found.1.mergeSort fun a b => !decide (b < a)

/-- Removes directories that are left empty, from the one that names lead to up to the root, which
is kept.

The walk ends at the first directory that cannot be removed; a missing one is passed over. -/
def prune (s : DirectoryStorage) (names : List String) : Io FileSystem Unit :=
  if _h : names = [] then pure ()
  else
    ExceptT.mk fun files =>
      let (result, files) := (FileSystem.removeDirectory (s.root.below names)).run files
      match result with
      | .ok () | .error .notFound => (s.prune names.dropLast).run files
      | .error _ => (.ok (), files)
termination_by names.length
decreasing_by
  have := List.length_pos_iff.2 _h
  simp only [List.length_dropLast]
  omega

def clear (s : DirectoryStorage) : Io FileSystem Unit := do
  let (records, temporaries) ← ExceptT.mk fun files => (s.found files, files)
  records.forM fun path => do
    let _ ← s.remove path
    s.prune path.segments.dropLast
  temporaries.forM fun names => do
    if ← removeIfPresent (s.root.below names) then s.prune names.dropLast

/-- The operations of a storage in a directory. -/
def storage (s : DirectoryStorage) : RecordStorage FileSystem where
  read := s.read
  write := s.write
  remove := s.remove
  list := s.list
  clear := s.clear

end DirectoryStorage

end KernelTuning
