import KernelTuning.Storage.FilePath

/-!
# File systems

A `FileSystem` is a file tree with a working directory, where relative paths start.

**Paths.** `resolve` follows all names of a path, `entry` all but the last one. What creates a name
follows the path to it as it is written, so `a/../b` needs a directory `a`. A path with a null
character, an empty path and a path that is too long lead nowhere.

**Failures.** An operation that fails leaves the files as they are, except that `createDirectories`
keeps the directories it has made.
-/

namespace KernelTuning

/-- An operation that changes nothing if it fails. -/
def Io.orKeep {σ : Type} (f : σ → Except IoError σ) : Io σ Unit :=
  ExceptT.mk fun s =>
    match f s with
    | .ok s' => (.ok (), s')
    | .error e => (.error e, s)

/-- Files, and where relative paths start. -/
structure FileSystem where
  tree : FileTree
  workingDirectory : Place
  /-- The number of bytes of the longest path, if there is a limit. -/
  pathLimit : Option Nat

namespace FileSystem

def empty : FileSystem := ⟨.empty, [], none⟩

instance : Inhabited FileSystem := ⟨empty⟩

/-! ## Following paths -/

def nullCharacter : IoError := .invalidInput "file name contained an unexpected NUL byte"

/-- Refuses paths that lead nowhere whatever the files are. -/
def checkPath (s : FileSystem) (path : FilePath) : Except IoError Unit :=
  let text := path.toText
  if text.toList.contains (Char.ofNat 0) then .error nullCharacter
  else if path.isEmpty then .error .notFound
  else if s.pathLimit.any (· < text.utf8ByteSize) then .error .nameTooLong
  else .ok ()

/-- Where a path starts. -/
def start (s : FileSystem) (path : FilePath) : Place :=
  if path.isAbsolute then [] else s.workingDirectory

/-- What a path leads to. -/
def resolve (s : FileSystem) (path : FilePath) : Except IoError (Place × FileNode) := do
  s.checkPath path
  s.tree.follow (s.start path) path.names

/-- The end of a path: a name in a directory. -/
structure Entry where
  directory : Place
  /-- The last name of the path, unless it is that of a directory by its form, as `..` is. -/
  name : Option String
  /-- Whether the name is followed by a slash. -/
  hasSlash : Bool

/-- The end of a path. -/
def entry (s : FileSystem) (path : FilePath) : Except IoError Entry := do
  s.checkPath path
  let names := (path.names.reverse.dropWhile (· = "")).reverse
  match names.getLast? with
  | none => return ⟨s.start path, none, true⟩
  | some name =>
    let (directory, node) ← s.tree.follow (s.start path) names.dropLast
    if !node.isDirectory then throw .notADirectory
    return {
      directory
      name := if name = "." ∨ name = ".." then none else some name
      hasSlash := names.length < path.names.length }

/-! ## Reading -/

def fileExists (s : FileSystem) (path : FilePath) : Bool := (s.resolve path).isOk

def isDirectory (s : FileSystem) (path : FilePath) : Bool :=
  match s.resolve path with
  | .ok (_, node) => node.isDirectory
  | .error _ => false

/-- The content of a file. -/
def read (s : FileSystem) (path : FilePath) : Except IoError ByteArray := do
  match ← s.resolve path with
  | (_, .file content) => return content
  | (_, .directory) => throw .isADirectory

/-- The place of a directory. -/
def directoryAt (s : FileSystem) (path : FilePath) : Except IoError Place := do
  match ← s.resolve path with
  | (place, .directory) => return place
  | (_, .file _) => throw .notADirectory

/-! ## Files -/

/-- Creates a file, or replaces the content of a file by a function of it. -/
def updated (s : FileSystem) (path : FilePath) (content : Option ByteArray → ByteArray) :
    Except IoError FileSystem := do
  match ← s.entry path with
  | ⟨directory, some name, false⟩ =>
    let node := .file (content (s.tree.content? (directory ++ [name])))
    return { s with tree := ← s.tree.insert directory name node }
  | _ => throw .isADirectory

/-- Writes a file, over its former content. -/
def write (path : FilePath) (content : ByteArray) : Io FileSystem Unit :=
  Io.orKeep fun s => s.updated path fun _ => content

/-- Writes at the end of a file, which is created if it is missing. -/
def append (path : FilePath) (content : ByteArray) : Io FileSystem Unit :=
  Io.orKeep fun s => s.updated path fun old => old.getD ByteArray.empty ++ content

def removeFile (path : FilePath) : Io FileSystem Unit :=
  Io.orKeep fun s => do
    match ← s.resolve path with
    | (place, .file _) => return { s with tree := ← s.tree.remove place }
    | (_, .directory) => throw .isADirectory

/-- Gives a file another path, over the file there. -/
def rename (source target : FilePath) : Io FileSystem Unit :=
  Io.orKeep fun s => do
    match ← s.resolve source with
    | (_, .directory) => throw .isADirectory
    | (old, .file content) =>
      let s ← s.updated target fun _ => content
      let (new, _) ← s.resolve target
      if new = old then return s else return { s with tree := ← s.tree.remove old }

/-! ## Directories -/

def createDirectory (path : FilePath) : Io FileSystem Unit :=
  Io.orKeep fun s => do
    match ← s.entry path with
    | ⟨_, none, _⟩ => throw .alreadyExists
    | ⟨directory, some name, _⟩ =>
      if (s.tree.node? (directory ++ [name])).isSome then throw .alreadyExists
      return { s with tree := ← s.tree.insert directory name .directory }

/-- Creates a directory unless there is one. -/
def ensureDirectory (path : FilePath) : Io FileSystem Unit :=
  tryCatch (createDirectory path) fun e => do
    if (← get).isDirectory path then return else throw e

/-- Creates a directory and the directories above it, as far as they are missing. -/
def createDirectories (path : FilePath) : Io FileSystem Unit :=
  if path.isEmpty then return
  else
    tryCatch (ensureDirectory path) fun e =>
      match _h : path.parent? with
      | some parent =>
        if e = .notFound then do
          createDirectories parent
          ensureDirectory path
        else throw e
      | none => throw e
termination_by path.names.length
decreasing_by exact FilePath.length_parent? _h

/-- Creates the directories above a path. -/
def createParents (path : FilePath) : Io FileSystem Unit :=
  match path.parent? with
  | some parent => createDirectories parent
  | none => return

/-- Writes a file in a directory that is created if it is missing. -/
def place (path : FilePath) (content : ByteArray) : Io FileSystem Unit := do
  createParents path
  write path content

/-- Removes a directory that nothing lies in. -/
def removeDirectory (path : FilePath) : Io FileSystem Unit :=
  Io.orKeep fun s => do
    match ← s.resolve path with
    | (place, .directory) => return { s with tree := ← s.tree.remove place }
    | (_, .file _) => throw .notADirectory

/-- Makes a directory the working directory. -/
def enter (path : FilePath) : Io FileSystem Unit :=
  Io.orKeep fun s => return { s with workingDirectory := ← s.directoryAt path }

end FileSystem

end KernelTuning
