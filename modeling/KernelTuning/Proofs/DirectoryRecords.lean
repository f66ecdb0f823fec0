import Mathlib.Data.List.Nodup
import KernelTuning.Proofs.Directories
import KernelTuning.Storage.Directory
import KernelTuning.Storage.Memory

/-!
# Records below a directory

When the files below a directory are the records of a map.

**Paths** (`RecordPath.IsShort`). A record lies at a fixed depth below the root, and its name leaves
room for the name of the temporary file beside it. Segments that sanitising leaves alone are plain
names, so a record's path leads exactly to its place.

**The invariant** (`Mirrors`).

- The path of the root leads to a directory, whatever lies below it (`hasRoot`).
- What lies below it are directories above the depth of records, and files that are records
  (`shape`): no temporary files, no other files.
- Every record has its file (`holds`).

Opening directories above the depth of records, putting a file in the place of a record, removing
the file of a record and removing any directory keep the invariant (`opens`, `insert`, `erase`,
`removeDirectory`).
-/

namespace KernelTuning

open FileTree (IsPlain IsUpdate SameOutside)

/-! ## Names of records -/

namespace RecordPath

theorem mem_truncate {limit : Nat} {text : List Char} {c : Char} (h : c ∈ truncate limit text) :
    c ∈ text := by
  induction text generalizing limit with
  | nil => cases h
  | cons d rest ih =>
    unfold truncate at h
    split_ifs at h
    · rcases List.mem_cons.1 h with rfl | h
      · exact List.mem_cons_self
      · exact List.mem_cons_of_mem _ (ih h)
    · cases h

theorem utf8ByteSize_truncate (limit : Nat) (text : List Char) :
    (String.ofList (truncate limit text)).utf8ByteSize ≤ limit := by
  induction text generalizing limit with
  | nil => simp [truncate]
  | cons c rest ih =>
    unfold truncate
    split_ifs with h
    · rw [String.ofList_cons, String.utf8ByteSize_append, String.utf8ByteSize_singleton]
      have := ih (limit - c.utf8Size)
      omega
    · simp

/-- A segment that is clean already can name a file. -/
theorem isPlain_of_sanitize {segment : String} (h : sanitize segment = segment) :
    IsPlain segment := by
  unfold sanitize at h
  simp only at h
  split_ifs at h with hspecial
  · subst h
    exact ⟨by decide, by decide, by decide, by decide, by decide⟩
  · have hlist : segment.toList = clean segment.toList := by
      rw [← @String.toList_ofList (clean segment.toList), h]
    simp only [not_or] at hspecial
    refine ⟨?_, ?_, ?_, ?_, ?_⟩
    · rintro rfl
      exact hspecial.1 (hlist.symm.trans (by decide))
    · rintro rfl
      exact hspecial.2.1 (hlist.symm.trans (by decide))
    · rintro rfl
      exact hspecial.2.2 (hlist.symm.trans (by decide))
    · rw [← h]
      exact utf8ByteSize_truncate _ _
    · intro hnull
      rw [hlist] at hnull
      have hkept := mem_truncate hnull
      split_ifs at hkept
      · cases hkept
      · have := (List.mem_filter.1 hkept).2
        exact absurd this (by decide)

end RecordPath

/-- The path of a record whose file can be written under another name first. -/
structure RecordPath.IsShort (depth : Nat) (path : RecordPath) : Prop where
  depth : path.segments.length = depth
  clean : ∀ segment ∈ path.segments, sanitize segment = segment
  named : ∃ name, path.name? = some name ∧ DirectoryStorage.isRecordName name = true ∧
    name.utf8ByteSize ≤ 200

namespace DirectoryStorage

/-- What tells the temporary files of a writer from others: a process number and sixteen digits
have at most 27 bytes. -/
structure IsWriter (writer : String) : Prop where
  size : writer.utf8ByteSize ≤ 49
  noNull : Char.ofNat 0 ∉ writer.toList

/-- The name of the temporary file of a writer beside a record. -/
def temporaryName (writer name : String) : String := "." ++ name ++ "." ++ writer ++ ".tmp"

theorem isRecordName_iff {name : String} : isRecordName name = true ↔
    ¬ ['.'] <+: name.toList ∧ ".json".toList <:+ name.toList := by
  rw [isRecordName, Bool.and_eq_true, Bool.not_eq_true', ← Bool.not_eq_true,
    String.startsWith_string_iff, String.endsWith_eq_endsWith_toSlice,
    String.Slice.endsWith_string_iff, String.copy_toSlice]
  rfl

theorem isRecordName_temporaryName (writer name : String) :
    isRecordName (temporaryName writer name) = false := by
  rw [← Bool.not_eq_true, isRecordName_iff, not_and_or, not_not]
  exact .inl (by simp [temporaryName])

theorem isTemporaryName_of_isRecordName {name : String} (h : isRecordName name = true) :
    isTemporaryName name = false := by
  unfold isRecordName at h
  unfold isTemporaryName
  simp_all

theorem isPlain_temporaryName {writer name : String} (hwriter : IsWriter writer)
    (hname : IsPlain name) (hsize : name.utf8ByteSize ≤ 200) :
    IsPlain (temporaryName writer name) := by
  have hsize' : (temporaryName writer name).utf8ByteSize =
      name.utf8ByteSize + writer.utf8ByteSize + 6 := by
    simp only [temporaryName, String.utf8ByteSize_append]
    have h₁ : ".".utf8ByteSize = 1 := by decide
    have h₂ : ".tmp".utf8ByteSize = 4 := by decide
    omega
  have hne {other : String} (h : other.utf8ByteSize < 6) : temporaryName writer name ≠ other := by
    rintro rfl
    omega
  refine ⟨hne (by decide), hne (by decide), hne (by decide), ?_, ?_⟩
  · have := hwriter.size
    rw [hsize', FileTree.nameLimit]
    omega
  · have h₁ : Char.ofNat 0 ∉ ".".toList := by decide
    have h₂ : Char.ofNat 0 ∉ ".tmp".toList := by decide
    simp only [temporaryName, String.toList_append, List.mem_append, not_or]
    exact ⟨⟨⟨⟨h₁, hname.noNull⟩, h₁⟩, hwriter.noNull⟩, h₂⟩

end DirectoryStorage

theorem RecordPath.IsShort.exists_name {depth : Nat} {path : RecordPath} (h : path.IsShort depth) :
    ∃ dir name, path.segments = dir ++ [name] ∧ (∀ n ∈ dir ++ [name], IsPlain n) ∧
      DirectoryStorage.isRecordName name = true ∧ name.utf8ByteSize ≤ 200 := by
  obtain ⟨name, hname, hrecord, hsize⟩ := h.named
  obtain ⟨dir, hsegments⟩ := List.getLast?_eq_some_iff.1 hname
  refine ⟨dir, name, hsegments, fun n hn => RecordPath.isPlain_of_sanitize (h.clean n ?_), hrecord, hsize⟩
  rw [hsegments]
  exact hn

theorem RecordPath.IsShort.isPlain {depth : Nat} {path : RecordPath} (h : path.IsShort depth) :
    ∀ segment ∈ path.segments, IsPlain segment :=
  fun segment hsegment => RecordPath.isPlain_of_sanitize (h.clean segment hsegment)

/-! ## Directories that hold records -/

/-- The root is a directory, and what lies below it are directories above the depth of records, and
the records. -/
structure Mirrors (root : FilePath) (depth : Nat) (files : FileSystem) (place : Place)
    (records : SortedMap RecordPath ByteArray) : Prop where
  hasRoot : files.HasRoot root place
  shape : ∀ names node, names ≠ [] → files.tree.node? (place ++ names) = some node →
    node = .directory ∧ names.length < depth ∨
      ∃ content, node = .file content ∧ records.get? ⟨names⟩ = some content
  holds : ∀ path content, records.get? path = some content →
    files.tree.node? (place ++ path.segments) = some (.file content)
  short : ∀ path content, records.get? path = some content → path.IsShort depth

namespace Mirrors

variable {root : FilePath} {depth : Nat} {writer : String} {files : FileSystem} {place : Place}
  {records : SortedMap RecordPath ByteArray} {path : RecordPath} {content : ByteArray}
  {names : List String}

/-- A directory with nothing in it holds no records. -/
theorem of_empty (hasRoot : files.HasRoot root place)
    (nothing : ∀ names, names ≠ [] → files.tree.node? (place ++ names) = none) :
    Mirrors root depth files place ∅ where
  hasRoot := hasRoot
  shape names node hne hnode := by
    rw [nothing names hne] at hnode
    cases hnode
  holds path content h := by cases h
  short path content h := by cases h

/-- The files below the root are the records. -/
theorem content?_eq (h : Mirrors root depth files place records) (names : List String) :
    files.tree.content? (place ++ names) = records.get? ⟨names⟩ := by
  ext content
  rw [FileTree.content?_eq_some]
  refine ⟨fun hfile => ?_, h.holds ⟨names⟩ content⟩
  rcases eq_or_ne names [] with rfl | hne
  · rw [List.append_nil, h.hasRoot.node?_root] at hfile
    cases hfile
  · rcases h.shape names _ hne hfile with ⟨hdir, -⟩ | ⟨_, heq, hrecord⟩
    · cases hdir
    · cases heq
      exact hrecord

/-- Nothing else lies at the depth of records. -/
theorem node?_eq_none (h : Mirrors root depth files place records) (hpath : path.IsShort depth)
    (hnone : records.get? path = none) : files.tree.node? (place ++ path.segments) = none := by
  obtain ⟨dir, name, hsegments, -⟩ := hpath.exists_name
  rcases hnode : files.tree.node? (place ++ path.segments) with _ | node
  · rfl
  · rcases h.shape path.segments node (by simp [hsegments]) hnode with ⟨-, hlt⟩ | ⟨_, -, hrecord⟩
    · exact absurd hpath.depth (Nat.ne_of_lt hlt)
    · rw [show (⟨path.segments⟩ : RecordPath) = path from rfl, hnone] at hrecord
      cases hrecord

/-- The way to a record passes through no file. -/
theorem noFile (h : Mirrors root depth files place records) (hpath : path.IsShort depth)
    {init : List String} (hinit : init <+: path.segments) (hne : init ≠ path.segments)
    (content : ByteArray) : files.tree.node? (place ++ init) ≠ some (.file content) := by
  intro hfile
  have hrecord : records.get? ⟨init⟩ = some content := by
    rw [← h.content?_eq]
    exact FileTree.content?_eq_some.2 hfile
  have hlength : init.length = path.segments.length :=
    (h.short _ _ hrecord).depth.trans hpath.depth.symm
  exact hne (hinit.eq_of_length hlength)

/-- A path without a record leads to nothing. -/
theorem resolve_eq_notFound (h : Mirrors root depth files place records)
    (hpath : path.IsShort depth) (hnone : records.get? path = none) :
    files.resolve (root.below path.segments) = .error .notFound := by
  obtain ⟨dir, name, hsegments, -⟩ := hpath.exists_name
  have hmissing := h.node?_eq_none hpath hnone
  rw [h.hasRoot.resolve_below hpath.isPlain (by simp [hsegments])]
  refine FileTree.follow_eq_notFound hpath.isPlain (fun init hinit content hfile => ?_) hmissing
  rcases eq_or_ne init path.segments with rfl | hne
  · rw [hmissing] at hfile
    cases hfile
  · exact h.noFile hpath hinit hne content hfile

theorem resolve_eq_file (h : Mirrors root depth files place records)
    (hpath : path.IsShort depth) (hsome : records.get? path = some content) :
    files.resolve (root.below path.segments) = .ok (place ++ path.segments, .file content) := by
  obtain ⟨dir, name, hsegments, -⟩ := hpath.exists_name
  rw [h.hasRoot.resolve_below hpath.isPlain (by simp [hsegments])]
  exact FileTree.follow_of_node? hpath.isPlain (h.holds path content hsome)

/-! ### All records -/

/-- The files at the depth of records are the records. -/
theorem mem_filesBelow (h : Mirrors root depth files place records) (hdepth : 1 ≤ depth) :
    names ∈ files.tree.filesBelow place depth ↔ ⟨names⟩ ∈ records.keys := by
  rw [FileTree.mem_filesBelow (by omega), SortedMap.mem_keys]
  simp only [← FileTree.content?_eq_some, h.content?_eq]
  refine and_iff_right_of_imp ?_
  rintro ⟨content, hrecord⟩
  exact (h.short _ _ hrecord).depth

theorem isShort_of_mem_filesBelow (h : Mirrors root depth files place records) (hdepth : 1 ≤ depth)
    (hnames : names ∈ files.tree.filesBelow place depth) :
    (⟨names⟩ : RecordPath).IsShort depth := by
  obtain ⟨content, hrecord⟩ := SortedMap.mem_keys.1 ((h.mem_filesBelow hdepth).1 hnames)
  exact h.short _ _ hrecord

theorem perm_filesBelow (h : Mirrors root depth files place records) (hdepth : 1 ≤ depth) :
    ((files.tree.filesBelow place depth).map RecordPath.mk).Perm records.keys := by
  refine (List.perm_ext_iff_of_nodup ?_ ?_).2 fun path => ?_
  · refine List.Nodup.map (fun a b heq => ?_) (FileTree.nodup_filesBelow _ _ _)
    exact congrArg RecordPath.segments heq
  · refine records.pairwise_keys.imp ?_
    rintro a _ hlt rfl
    exact StrictTotal.irrefl _ hlt
  · obtain ⟨names⟩ := path
    simp [h.mem_filesBelow hdepth]

/-! ### Changes -/

/-- Directories above the depth of records make no difference. -/
theorem opens (h : Mirrors root depth files place records) {t' : FileTree} {dir : List String}
    (hopens : FileSystem.Opens files.tree t' place dir) (hdir : dir.length < depth) :
    Mirrors root depth { files with tree := t' } place records where
  hasRoot := h.hasRoot.withTree hopens.sameOutside
  shape names node hne hnode := by
    rcases hopens.frame (place ++ names) with hsame | ⟨hnew, init, -, hinit, heq⟩
    · exact h.shape names node hne (hsame.symm.trans hnode)
    · obtain rfl := List.append_cancel_left heq
      exact .inl ⟨Option.some.inj (hnode.symm.trans hnew), Nat.lt_of_le_of_lt hinit.length_le hdir⟩
  holds path content hrecord := by
    rcases hopens.frame (place ++ path.segments) with hsame | ⟨-, init, -, hinit, heq⟩
    · exact hsame.trans (h.holds path content hrecord)
    · obtain rfl := List.append_cancel_left heq
      have hdepth := (h.short path content hrecord).depth
      exact absurd (Nat.lt_of_le_of_lt hinit.length_le hdir) (by omega)
  short := h.short

/-- A file in the place of a record, without a file beside it that is no record. -/
theorem insert (h : Mirrors root depth files place records) {t' : FileTree}
    (hpath : path.IsShort depth) {dir : List String} {name temporary : String}
    (hsegments : path.segments = dir ++ [name])
    (htemporary : DirectoryStorage.isRecordName temporary = false)
    (hne : temporary ≠ name)
    (hnodes : ∀ q, t'.node? q = if q = place ++ (dir ++ [temporary]) then none
      else if q = place ++ (dir ++ [name]) then some (.file content) else files.tree.node? q) :
    Mirrors root depth { files with tree := t' } place (records.insert path content) where
  hasRoot := by
    refine h.hasRoot.withTree fun q hq => ?_
    rw [hnodes, if_neg, if_neg]
    · rintro rfl
      exact hq ⟨dir ++ [name], by simp, rfl⟩
    · rintro rfl
      exact hq ⟨dir ++ [temporary], by simp, rfl⟩
  shape names node hnames hnode := by
    rw [hnodes] at hnode
    rw [SortedMap.get?_insert]
    split_ifs at hnode with htemp hname
    · -- The new file belongs to the new record, and any other one to a record from before.
      obtain rfl := List.append_cancel_left hname
      exact .inr ⟨content, (Option.some.inj hnode).symm, if_pos (by rw [← hsegments])⟩
    · rcases h.shape names node hnames hnode with hdir | ⟨content', hcontent, hrecord⟩
      · exact .inl hdir
      · refine .inr ⟨content', hcontent, ?_⟩
        rw [if_neg, hrecord]
        rintro rfl
        exact hname (congrArg _ hsegments)
  holds path' content' hrecord := by
    rw [SortedMap.get?_insert] at hrecord
    rw [hnodes]
    split_ifs at hrecord with hpath'
    · obtain rfl := Option.some.inj hrecord
      rw [hpath', hsegments, if_neg (by simpa using hne.symm), if_pos rfl]
    · have hshort := h.short path' content' hrecord
      rw [if_neg, if_neg, h.holds path' content' hrecord]
      · intro heq
        exact hpath' (congrArg RecordPath.mk ((List.append_cancel_left heq).trans hsegments.symm))
      · -- No record is stored under a temporary name.
        intro heq
        obtain ⟨name', hname', hrecord', -⟩ := hshort.named
        rw [RecordPath.name?, List.append_cancel_left heq, List.getLast?_concat] at hname'
        rw [← Option.some.inj hname', htemporary] at hrecord'
        cases hrecord'
  short path' content' hrecord := by
    rw [SortedMap.get?_insert] at hrecord
    split_ifs at hrecord with hpath'
    · exact hpath' ▸ hpath
    · exact h.short path' content' hrecord

/-- A record less. -/
theorem erase (h : Mirrors root depth files place records) {t' : FileTree}
    (hpath : path.IsShort depth)
    (hupdate : IsUpdate files.tree t' (place ++ path.segments) none) :
    Mirrors root depth { files with tree := t' } place (records.erase path) where
  hasRoot := by
    obtain ⟨dir, name, hsegments, -⟩ := hpath.exists_name
    exact h.hasRoot.withTree (hupdate.sameOutside (by simp [hsegments]))
  shape names node hne hnode := by
    rw [hupdate] at hnode
    split_ifs at hnode with hplace
    rcases h.shape names node hne hnode with hdir | ⟨content, hcontent, hrecord⟩
    · exact .inl hdir
    · refine .inr ⟨content, hcontent, ?_⟩
      rw [SortedMap.get?_erase, if_neg, hrecord]
      rintro rfl
      exact hplace rfl
  holds path' content hrecord := by
    rw [SortedMap.get?_erase] at hrecord
    split_ifs at hrecord with hpath'
    rw [hupdate, if_neg, h.holds path' content hrecord]
    exact fun heq => hpath' (congrArg RecordPath.mk (List.append_cancel_left heq))
  short path' content hrecord := by
    rw [SortedMap.get?_erase] at hrecord
    split_ifs at hrecord
    exact h.short path' content hrecord

/-- A directory less. -/
theorem removeDirectory (h : Mirrors root depth files place records) {t' : FileTree}
    (hne : names ≠ []) (hdir : files.tree.node? (place ++ names) = some .directory)
    (hupdate : IsUpdate files.tree t' (place ++ names) none) :
    Mirrors root depth { files with tree := t' } place records where
  hasRoot := h.hasRoot.withTree (hupdate.sameOutside hne)
  shape names' node hne' hnode := by
    rw [hupdate] at hnode
    split_ifs at hnode
    exact h.shape names' node hne' hnode
  holds path content hrecord := by
    have hfile := h.holds path content hrecord
    rw [hupdate, if_neg, hfile]
    intro heq
    rw [heq, hdir] at hfile
    cases hfile
  short := h.short

end Mirrors

end KernelTuning
