import KernelTuning.Storage.Basic
import KernelTuning.SortedMap.Lemmas

/-!
# File trees

A `FileTree` maps places, lists of names from the root, to files and directories. What lies in it
lies in a directory: that is the field `closed`, which `insert` and `remove` keep because they bind
new names in directories only, never replace a directory, and remove one only when nothing is in
it.

**Following names.** `follow` goes from a place one name at a time, where empty names and dots stay
and two dots go back. It fails at a name that is too long, at one that is missing, and at a file
after which there are more names.
-/

namespace KernelTuning

/-- The names from the root to a file or directory. -/
abbrev Place := List String

/-- What lies at a place. -/
inductive FileNode where
  | file (content : ByteArray)
  | directory

namespace FileNode

def isDirectory : FileNode → Bool
  | directory => true
  | file _ => false

end FileNode

namespace FileTree

/-- Whether a map has a directory at a place. The root is a directory in any case. -/
def HasDirectory (nodes : SortedMap Place FileNode) (place : Place) : Prop :=
  place = [] ∨ nodes.get? place = some .directory

end FileTree

/-- Files and directories below a root. -/
structure FileTree where
  nodes : SortedMap Place FileNode
  closed : ∀ dir name, (nodes.get? (dir ++ [name])).isSome → FileTree.HasDirectory nodes dir

namespace FileTree

def empty : FileTree := ⟨∅, fun _ _ h => by simp [EmptyCollection.emptyCollection] at h⟩

instance : Inhabited FileTree := ⟨empty⟩

/-- What lies at a place. -/
def node? (t : FileTree) (place : Place) : Option FileNode :=
  if place = [] then some .directory else t.nodes.get? place

def isDirectory (t : FileTree) (place : Place) : Bool :=
  (t.node? place).elim false (·.isDirectory)

theorem hasDirectory_of_isDirectory {t : FileTree} {place : Place}
    (h : t.isDirectory place = true) : HasDirectory t.nodes place := by
  unfold isDirectory node? at h
  split at h
  · exact .inl ‹_›
  · cases hn : t.nodes.get? place with
    | none => simp [hn] at h
    | some n => cases n <;> simp_all [FileNode.isDirectory, HasDirectory]

/-! ## Changing single nodes -/

/-- Binds a name in a directory. -/
def bind (t : FileTree) (dir : Place) (name : String) (node : FileNode)
    (hdir : t.isDirectory dir = true) (hnew : t.isDirectory (dir ++ [name]) = false) :
    FileTree where
  nodes := t.nodes.insert (dir ++ [name]) node
  closed d n h := by
    rw [SortedMap.get?_insert] at h
    have hkeep : ∀ p, HasDirectory t.nodes p →
        HasDirectory (t.nodes.insert (dir ++ [name]) node) p := by
      intro p hp
      refine hp.imp_right fun hp => ?_
      rw [SortedMap.get?_insert_of_ne _ _ _, hp]
      rintro rfl
      simp [isDirectory, node?, hp, FileNode.isDirectory] at hnew
    split at h
    · rename_i heq
      obtain ⟨rfl, _⟩ := List.append_inj' heq rfl
      exact hkeep _ (hasDirectory_of_isDirectory hdir)
    · exact hkeep _ (t.closed d n h)

/-- Whether something lies directly in a directory. -/
def hasEntries (t : FileTree) (dir : Place) : Bool :=
  t.nodes.entries.any fun e => e.1 ≠ [] && e.1.dropLast = dir

theorem hasEntries_of_get? {t : FileTree} {dir : Place} {name : String}
    (h : (t.nodes.get? (dir ++ [name])).isSome) : t.hasEntries dir = true := by
  obtain ⟨node, hn⟩ := Option.isSome_iff_exists.1 h
  have hmem : (dir ++ [name], node) ∈ t.nodes.entries := SortedMap.mem_of_lookup hn
  exact List.any_eq_true.2 ⟨_, hmem, by simp⟩

/-- Unbinds a place that nothing lies in. -/
def unbind (t : FileTree) (place : Place) (h : t.hasEntries place = false) : FileTree where
  nodes := t.nodes.erase place
  closed d n hsome := by
    rw [SortedMap.get?_erase] at hsome
    split at hsome
    · simp at hsome
    · refine (t.closed d n hsome).imp_right fun hd => ?_
      rw [SortedMap.get?_erase, if_neg, hd]
      rintro rfl
      rw [hasEntries_of_get? hsome] at h
      cases h

/-- The number of bytes of the longest name. -/
def nameLimit : Nat := 255

/-- Puts a file or directory into a directory, in the place of a file at most. -/
def insert (t : FileTree) (dir : Place) (name : String) (node : FileNode) :
    Except IoError FileTree :=
  if nameLimit < name.utf8ByteSize then .error .nameTooLong
  else if hdir : t.isDirectory dir = true then
    if hnew : t.isDirectory (dir ++ [name]) = false then .ok (t.bind dir name node hdir hnew)
    else .error .isADirectory
  else .error .notADirectory

/-- Removes a file, or a directory that nothing lies in. -/
def remove (t : FileTree) (place : Place) : Except IoError FileTree :=
  if h : t.hasEntries place = false then .ok (t.unbind place h) else .error .directoryNotEmpty

/-! ## Following names -/

/-- What lies where names lead to from a place. -/
def follow (t : FileTree) (place : Place) : List String → Except IoError (Place × FileNode)
  | [] =>
    match t.node? place with
    | some node => .ok (place, node)
    | none => .error .notFound
  | name :: rest =>
    match t.node? place with
    | none => .error .notFound
    | some (.file _) => .error .notADirectory
    | some .directory =>
      if name = "" ∨ name = "." then t.follow place rest
      else if name = ".." then t.follow place.dropLast rest
      else if nameLimit < name.utf8ByteSize then .error .nameTooLong
      else t.follow (place ++ [name]) rest

/-! ## Content -/

/-- The content of a file. -/
def content? (t : FileTree) (place : Place) : Option ByteArray :=
  match t.node? place with
  | some (.file content) => some content
  | _ => none

/-- The names that lead from a directory to the files a number of levels below it. -/
def filesBelow (t : FileTree) (dir : Place) (depth : Nat) : List (List String) :=
  t.nodes.entries.filterMap fun (place, node) =>
    if dir.isPrefixOf place ∧ place.length = dir.length + depth ∧ !node.isDirectory then
      some (place.drop dir.length)
    else none

/-- All that lies below a directory, with a slash after directories. -/
def listing (t : FileTree) (dir : Place) : List String :=
  (t.nodes.toList.filter fun (place, _) => dir.isPrefixOf place ∧ place ≠ dir).map
    fun (place, node) =>
      "/".intercalate (place.drop dir.length) ++ (if node.isDirectory then "/" else "")

end FileTree

end KernelTuning
