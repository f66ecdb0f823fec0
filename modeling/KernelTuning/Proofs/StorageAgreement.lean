import KernelTuning.Proofs.DirectoryRecords

/-!
# A directory keeps records as memory does

A storage in a directory and one in memory that see the same operations give the same answers.

**The relation** (`Keeps`). Either the root is there and mirrors the records of the storage in
memory, or it is missing, nothing has been written yet, and it can be created.

**One operation** (`exec_perform`). Each of the five operations succeeds on both sides with the same
answer and leaves the relation between the states.

- `write` creates the directories above the record, writes a temporary file beside it and renames
  it, so the two steps together change one place (`exec_replace`).
- `remove` changes one place, or none.
- `list` finds the files at the depth of records, which are all records, and sorts them: this is the
  order of the keys of a map (`SortedMap.mergeSort_eq_keys`).
- `clear` removes the records that are found. The directories that it prunes are empty, and records
  never lie in these (`exec_prune`).

**Histories** (`sameRecords_history`). The root is fresh at the start; then every operation gives
the same answer, none fails, and after each of them the files below the root are the records.
-/

namespace KernelTuning

open FileTree (IsPlain IsUpdate SameOutside)

/-! ## What a directory keeps -/

/-- A directory with some records, or a missing one without any, which can be created. -/
inductive Keeps (root : FilePath) (depth : Nat) (files : FileSystem)
    (records : SortedMap RecordPath ByteArray) : Prop
  | there {place : Place} (mirrors : Mirrors root depth files place records)
  | missing {files₁ : FileSystem} {place : Place}
      (creates : FileSystem.Creates files files₁ root place)
      (mirrors : Mirrors root depth files₁ place ∅)
      (resolve : files.resolve root = .error .notFound) (records_eq : records = ∅)

namespace Keeps

variable {root : FilePath} {depth : Nat} {writer : String} {files : FileSystem}
  {records : SortedMap RecordPath ByteArray} {path : RecordPath} {content : ByteArray}

theorem creates (h : Keeps root depth files records) : ∃ files₁ place,
    FileSystem.Creates files files₁ root place ∧ Mirrors root depth files₁ place records := by
  cases h with
  | there mirrors => exact ⟨files, _, mirrors.hasRoot.creates, mirrors⟩
  | missing creates mirrors _ records_eq => exact ⟨_, _, creates, records_eq ▸ mirrors⟩

/-- A path without a record leads to nothing. -/
theorem resolve_eq_notFound (h : Keeps root depth files records) (hpath : path.IsShort depth)
    (hnone : records.get? path = none) :
    files.resolve (root.below path.segments) = .error .notFound := by
  cases h with
  | there mirrors => exact mirrors.resolve_eq_notFound hpath hnone
  | missing creates mirrors resolve _ =>
    obtain ⟨dir, name, hsegments, -⟩ := hpath.exists_name
    have hstem : files.tree.follow (files.start root) root.stem = .error .notFound := by
      refine creates.start.resolve_left ?_
      rintro rfl
      cases resolve.symm.trans mirrors.hasRoot.resolve_root
    exact FileSystem.resolve_of_missing (FileSystem.checkPath_below creates.limit
      mirrors.hasRoot.noNull hpath.isPlain (by simp [hsegments])) rfl hstem

end Keeps

namespace DirectoryStorage

variable {root : FilePath} {depth : Nat} {writer : String} {files : FileSystem} {place : Place}
  {records : SortedMap RecordPath ByteArray} {path : RecordPath} {content : ByteArray}
  {names : List String}

theorem checkRecord_of_isShort (s : DirectoryStorage) (h : path.IsShort s.depth) :
    s.checkRecord path = .ok () := by
  obtain ⟨name, hname, hrecord, -⟩ := h.named
  refine if_pos ?_
  rw [isRecord, hname, decide_eq_true h.depth, Bool.true_and]
  exact hrecord

theorem exec_checkRecord (s : DirectoryStorage) (h : path.IsShort s.depth) (files : FileSystem) :
    exec (ExceptT.mk fun files => (s.checkRecord path, files) : Io FileSystem Unit) files =
      (.ok (), files) := by
  rw [exec_mk, s.checkRecord_of_isShort h]

/-! ## Writing -/

theorem temporaryPath_eq (s : DirectoryStorage) {dir : List String} {name : String}
    (hsegments : path.segments = dir ++ [name]) :
    s.temporaryPath path = s.root.below (dir ++ [temporaryName s.writer name]) := by
  have hname : path.name? = some name := by
    rw [RecordPath.name?, hsegments, List.getLast?_concat]
  rw [temporaryPath, filePath, hname, hsegments, FilePath.below_eq, FilePath.below_eq,
    FilePath.withName, ← List.append_assoc, ← List.append_assoc, List.dropLast_concat]
  rfl

/-- The directories above a record are created as far as they are missing. -/
theorem exec_createParents (h : Keeps root depth files records) (hpath : path.IsShort depth)
    {dir : List String} {name : String} (hsegments : path.segments = dir ++ [name]) :
    ∃ files' place, exec (FileSystem.createParents (root.below path.segments)) files =
        (.ok (), files') ∧ Mirrors root depth files' place records ∧
      files'.tree.node? (place ++ dir) = some .directory := by
  obtain ⟨files₁, place, creates, mirrors⟩ := h.creates
  have plain := hsegments ▸ hpath.isPlain
  have hlength : dir.length < path.segments.length := by
    rw [hsegments]
    simp
  have noFile : ∀ init, init <+: dir →
      ∀ content, files₁.tree.node? (place ++ init) ≠ some (.file content) := by
    intro init hinit
    refine mirrors.noFile hpath (hinit.trans (hsegments ▸ List.prefix_append _ _)) ?_
    rintro rfl
    exact absurd hinit.length_le (Nat.not_le.2 hlength)
  obtain ⟨t', hcreate, hopens⟩ := creates.exec_createDirectories
    (fun n hn => plain n (List.mem_append_left _ hn)) noFile
  refine ⟨{ files₁ with tree := t' }, place, ?_, mirrors.opens hopens (hpath.depth ▸ hlength),
    hopens.opened⟩
  rw [FileSystem.createParents, hsegments,
    FilePath.parent?_below root dir (plain name (by simp))]
  exact hcreate

/-- A temporary file takes the place of the file of a record. -/
theorem exec_replace (h : Mirrors root depth files place records) (hwriter : IsWriter writer)
    (hpath : path.IsShort depth) {dir : List String} {name : String}
    (hsegments : path.segments = dir ++ [name])
    (hdir : files.tree.node? (place ++ dir) = some .directory) (content : ByteArray) :
    ∃ files', exec (do
        FileSystem.write (root.below (dir ++ [temporaryName writer name])) content
        FileSystem.rename (root.below (dir ++ [temporaryName writer name]))
          (root.below (dir ++ [name]))) files = (.ok (), files') ∧
      Mirrors root depth files' place (records.insert path content) := by
  obtain ⟨dir', name', hsegments', plain, hrecord, hsize⟩ := hpath.exists_name
  obtain ⟨rfl, heq⟩ := List.append_inj' (hsegments.symm.trans hsegments') rfl
  obtain rfl := List.singleton_inj.1 heq
  have plainTemporary := isPlain_temporaryName hwriter (plain name (by simp)) hsize
  have plainBeside : ∀ n ∈ dir ++ [temporaryName writer name], IsPlain n := by
    simpa [or_imp, forall_and] using
      ⟨fun n hn => plain n (List.mem_append_left _ hn), plainTemporary⟩
  have hne : temporaryName writer name ≠ name := by
    intro heq
    rw [← heq, isRecordName_temporaryName] at hrecord
    cases hrecord
  -- No directory is as deep as the records are.
  have hfree (last : String) : files.tree.node? (place ++ (dir ++ [last])) ≠ some .directory := by
    intro hnode
    rcases h.shape (dir ++ [last]) _ (by simp) hnode with ⟨-, hlt⟩ | ⟨_, hfile, -⟩
    · rw [← hpath.depth, hsegments] at hlt
      simp at hlt
    · cases hfile
  -- First the temporary file, then its rename over the tree that this gives.
  obtain ⟨t₁, hwrite, hupdate⟩ :=
    h.hasRoot.exec_write plainBeside hdir (hfree (temporaryName writer name)) content
  have hroot₁ := h.hasRoot.withTree (hupdate.sameOutside (by simp))
  have hfile₁ : t₁.node? (place ++ (dir ++ [temporaryName writer name])) =
      some (.file content) := by rw [hupdate, if_pos rfl]
  have hfree₁ : t₁.node? (place ++ (dir ++ [name])) ≠ some .directory := by
    rw [hupdate, if_neg (by simpa using hne.symm)]
    exact hfree name
  obtain ⟨t', hrename, hnodes⟩ := hroot₁.exec_rename plain plainTemporary hne hfile₁ hfree₁
  refine ⟨{ files with tree := t' }, ?_, ?_⟩
  · rw [exec_bind_of_ok hwrite]
    exact hrename
  · refine h.insert hpath hsegments (isRecordName_temporaryName writer name) hne fun q => ?_
    rw [hnodes]
    split_ifs with htemporary hname
    · rfl
    · rfl
    · exact (hupdate q).trans (if_neg htemporary)

theorem exec_write (h : Keeps root depth files records) (hwriter : IsWriter writer)
    (hpath : path.IsShort depth) (content : ByteArray) :
    ∃ files', exec (write ⟨root, depth, writer⟩ path content) files = (.ok (), files') ∧
      Keeps root depth files' (records.insert path content) := by
  obtain ⟨dir, name, hsegments, -⟩ := hpath.exists_name
  obtain ⟨files₁, place, hparents, mirrors, hdir⟩ := exec_createParents h hpath hsegments
  obtain ⟨files', hreplace, mirrors'⟩ :=
    exec_replace mirrors hwriter hpath hsegments hdir content
  refine ⟨files', ?_, .there mirrors'⟩
  unfold write
  rw [exec_bind_of_ok (exec_checkRecord ⟨root, depth, writer⟩ hpath files)]
  simp only [temporaryPath_eq ⟨root, depth, writer⟩ hsegments]
  rw [filePath, exec_bind_of_ok hparents, hsegments]
  exact exec_tryCatch_of_ok hreplace

variable (writer)

/-! ## Reading -/

theorem read_eq_ok (h : Keeps root depth files records) (hpath : path.IsShort depth) :
    read ⟨root, depth, writer⟩ path files = .ok (records.get? path) := by
  unfold read
  rw [checkRecord_of_isShort ⟨root, depth, writer⟩ hpath]
  show orMissing none ((files.read (root.below path.segments)).map some) = _
  rcases hrecord : records.get? path with _ | content
  · rw [FileSystem.read, h.resolve_eq_notFound hpath hrecord]
    rfl
  · cases h with
    | there mirrors =>
      rw [FileSystem.read, mirrors.resolve_eq_file hpath hrecord]
      rfl
    | missing _ _ _ records_eq =>
      subst records_eq
      cases hrecord

/-! ## Removing -/

theorem exec_remove_of_notFound (hpath : path.IsShort depth)
    (hmissing : files.resolve (root.below path.segments) = .error .notFound) :
    exec (remove ⟨root, depth, writer⟩ path) files = (.ok false, files) := by
  unfold remove
  rw [exec_bind_of_ok (exec_checkRecord ⟨root, depth, writer⟩ hpath files)]
  exact exec_tryCatch_of_error (exec_bind_of_error (FileSystem.exec_removeFile_of_notFound hmissing))

theorem exec_remove_of_mirrors (h : Mirrors root depth files place records)
    (hpath : path.IsShort depth) :
    ∃ files', exec (remove ⟨root, depth, writer⟩ path) files =
        (.ok (records.get? path).isSome, files') ∧
      Mirrors root depth files' place (records.erase path) := by
  rcases hrecord : records.get? path with _ | content
  · rw [SortedMap.erase_of_get? hrecord]
    exact ⟨files, exec_remove_of_notFound writer hpath (h.resolve_eq_notFound hpath hrecord), h⟩
  · obtain ⟨dir, name, hsegments, -⟩ := hpath.exists_name
    obtain ⟨t', hremove, hupdate⟩ := h.hasRoot.exec_removeFile hpath.isPlain
      (by simp [hsegments]) (h.holds path content hrecord)
    refine ⟨{ files with tree := t' }, ?_, h.erase hpath hupdate⟩
    unfold remove
    rw [exec_bind_of_ok (exec_checkRecord ⟨root, depth, writer⟩ hpath files)]
    exact exec_tryCatch_of_ok (exec_bind_of_ok hremove)

theorem exec_remove (h : Keeps root depth files records) (hpath : path.IsShort depth) :
    ∃ files', exec (remove ⟨root, depth, writer⟩ path) files =
        (.ok (records.get? path).isSome, files') ∧
      Keeps root depth files' (records.erase path) := by
  cases h with
  | there mirrors =>
    obtain ⟨files', hremove, mirrors'⟩ := exec_remove_of_mirrors writer mirrors hpath
    exact ⟨files', hremove, .there mirrors'⟩
  | missing creates mirrors resolve records_eq =>
    have keeps := Keeps.missing creates mirrors resolve records_eq
    have hnone : records.get? path = none := by
      subst records_eq
      rfl
    rw [hnone, SortedMap.erase_of_get? hnone]
    exact ⟨files, exec_remove_of_notFound writer hpath (keeps.resolve_eq_notFound hpath hnone), keeps⟩

/-! ## Listing -/

/-- The records are found, and no temporary files. -/
theorem found_of_mirrors (h : Mirrors root depth files place records) (hdepth : 1 ≤ depth) :
    found ⟨root, depth, writer⟩ files =
      .ok ((files.tree.filesBelow place depth).map RecordPath.mk, []) := by
  have hnamed {names : List String} (hnames : names ∈ files.tree.filesBelow place depth) :
      ∃ name, names.getLast? = some name ∧ isRecordName name = true := by
    obtain ⟨name, hname, hrecord, -⟩ := (h.isShort_of_mem_filesBelow hdepth hnames).named
    exact ⟨name, hname, hrecord⟩
  have hrecords : (files.tree.filesBelow place depth).filter
      (fun l => l.getLast?.elim false isRecordName) = files.tree.filesBelow place depth := by
    refine List.filter_eq_self.2 fun names hnames => ?_
    obtain ⟨name, hname, hrecord⟩ := hnamed hnames
    rw [hname]
    exact hrecord
  have htemporaries : (files.tree.filesBelow place depth).filter
      (fun l => l.getLast?.elim false isTemporaryName) = [] := by
    refine List.filter_eq_nil_iff.2 fun names hnames => ?_
    obtain ⟨name, hname, hrecord⟩ := hnamed hnames
    rw [hname]
    simpa using isTemporaryName_of_isRecordName hrecord
  have hpaths : (files.tree.filesBelow place depth).map RecordPath.ofTexts =
      (files.tree.filesBelow place depth).map RecordPath.mk := by
    refine List.map_congr_left fun names hnames => ?_
    have hclean := (h.isShort_of_mem_filesBelow hdepth hnames).clean
    rw [RecordPath.ofTexts, List.map_congr_left hclean, List.map_id']
  unfold found
  dsimp only
  rw [if_neg (by omega), h.hasRoot.directoryAt_root]
  show Except.ok _ = _
  simp only [hrecords, htemporaries, hpaths]

theorem exists_found (h : Keeps root depth files records) (hdepth : 1 ≤ depth) :
    ∃ paths, found ⟨root, depth, writer⟩ files = .ok (paths, []) ∧ paths.Perm records.keys := by
  cases h with
  | there mirrors =>
    exact ⟨_, found_of_mirrors writer mirrors hdepth, mirrors.perm_filesBelow hdepth⟩
  | missing _ _ resolve records_eq =>
    subst records_eq
    refine ⟨[], ?_, .nil⟩
    unfold found
    dsimp only
    rw [if_neg (by omega), FileSystem.directoryAt, resolve]
    rfl

theorem list_eq_ok (h : Keeps root depth files records) (hdepth : 1 ≤ depth) :
    list ⟨root, depth, writer⟩ files = .ok records.keys := by
  obtain ⟨paths, hfound, hperm⟩ := exists_found writer h hdepth
  rw [list, hfound]
  exact congrArg Except.ok (SortedMap.mergeSort_eq_keys hperm)

/-! ## Clearing -/

/-- Pruning only removes directories. -/
theorem exec_prune (h : Mirrors root depth files place records)
    (plain : ∀ n ∈ names, IsPlain n) :
    ∃ files', exec (prune ⟨root, depth, writer⟩ names) files = (.ok (), files') ∧
      Mirrors root depth files' place records := by
  induction names using List.reverseRecOn generalizing files with
  | nil =>
    refine ⟨files, ?_, h⟩
    rw [prune]
    rfl
  | append_singleton init last ih =>
    have plainInit : ∀ n ∈ init, IsPlain n := fun n hn => plain n (List.mem_append_left _ hn)
    rw [prune, dif_neg (by simp), exec_mk, List.dropLast_concat]
    rcases h.hasRoot.exec_removeDirectory plain (by simp) with
      ⟨e, hremove⟩ | ⟨t', hremove, hdir, hupdate⟩
    · rw [show (FileSystem.removeDirectory (root.below (init ++ [last]))).run files =
        (.error e, files) from hremove]
      by_cases hmissing : e = .notFound
      · subst hmissing
        exact ih h plainInit
      · refine ⟨files, ?_, h⟩
        cases e <;> first | rfl | exact absurd rfl hmissing
    · rw [show (FileSystem.removeDirectory (root.below (init ++ [last]))).run files =
        (.ok (), { files with tree := t' }) from hremove]
      exact ih (h.removeDirectory (by simp) hdir hupdate) plainInit

/-- Removing records one by one. -/
theorem exec_forM_remove {paths : List RecordPath} (hpaths : ∀ path ∈ paths, path.IsShort depth)
    (h : Mirrors root depth files place records) :
    ∃ files', exec (paths.forM fun path => do
        let _ ← remove ⟨root, depth, writer⟩ path
        prune ⟨root, depth, writer⟩ path.segments.dropLast) files = (.ok (), files') ∧
      Mirrors root depth files' place (paths.foldl SortedMap.erase records) := by
  induction paths generalizing files records with
  | nil => exact ⟨files, rfl, h⟩
  | cons path paths ih =>
    have hpath := hpaths path List.mem_cons_self
    have plain : ∀ n ∈ path.segments.dropLast, IsPlain n :=
      fun n hn => hpath.isPlain n (List.dropLast_subset _ hn)
    obtain ⟨files₁, hremove, mirrors₁⟩ := exec_remove_of_mirrors writer h hpath
    obtain ⟨files₂, hprune, mirrors₂⟩ := exec_prune writer mirrors₁ plain
    obtain ⟨files', hrest, mirrors'⟩ :=
      ih (fun p hp => hpaths p (List.mem_cons_of_mem _ hp)) mirrors₂
    refine ⟨files', ?_, mirrors'⟩
    rw [List.forM, exec_bind_of_ok ((exec_bind_of_ok hremove).trans hprune)]
    exact hrest

theorem exec_clear (h : Keeps root depth files records) (hdepth : 1 ≤ depth) :
    ∃ files', exec (clear ⟨root, depth, writer⟩) files = (.ok (), files') ∧
      Keeps root depth files' ∅ := by
  obtain ⟨paths, hfound, hperm⟩ := exists_found writer h hdepth
  have hstart : exec (ExceptT.mk fun files => (found ⟨root, depth, writer⟩ files, files) :
      Io FileSystem (List RecordPath × List (List String))) files = (.ok (paths, []), files) := by
    rw [exec_mk, hfound]
  cases h with
  | there mirrors =>
    have hpaths : ∀ path ∈ paths, path.IsShort depth := by
      intro path hpath
      obtain ⟨content, hrecord⟩ := SortedMap.mem_keys.1 (hperm.mem_iff.1 hpath)
      exact mirrors.short path content hrecord
    obtain ⟨files', hremove, mirrors'⟩ := exec_forM_remove writer hpaths mirrors
    rw [SortedMap.foldl_erase_eq_empty fun path hpath => hperm.mem_iff.2 hpath] at mirrors'
    refine ⟨files', ?_, .there mirrors'⟩
    rw [clear, exec_bind_of_ok hstart]
    exact exec_bind_of_ok hremove
  | missing creates mirrors resolve records_eq =>
    -- Where the root is missing nothing is found, and it is not created.
    subst records_eq
    obtain rfl := hperm.eq_nil
    refine ⟨files, ?_, .missing creates mirrors resolve rfl⟩
    rw [clear, exec_bind_of_ok hstart]
    rfl

end DirectoryStorage

/-! ## Histories -/

/-- An operation on a storage. -/
inductive StorageOp where
  | read (path : RecordPath)
  | write (path : RecordPath) (content : ByteArray)
  | remove (path : RecordPath)
  | list
  | clear

/-- What an operation on a storage gives. -/
inductive StorageAnswer where
  | content (content : Option ByteArray)
  | removed (wasThere : Bool)
  | listing (paths : List RecordPath)
  | done

/-- The paths that an operation is given are those of records. -/
def StorageOp.IsShort (depth : Nat) : StorageOp → Prop
  | .read path | .write path _ | .remove path => path.IsShort depth
  | .list | .clear => True

namespace RecordStorage

variable {σ : Type}

def perform (s : RecordStorage σ) : StorageOp → Io σ StorageAnswer
  | .read path => ExceptT.mk fun state => ((s.read path state).map .content, state)
  | .write path content => do
    s.write path content
    return .done
  | .remove path => return .removed (← s.remove path)
  | .list => ExceptT.mk fun state => ((s.list state).map .listing, state)
  | .clear => do
    s.clear
    return .done

/-- What operations one after another give, and the state after each of them. The storage of each
operation may have its own mark for temporary files. -/
def history (storage : String → RecordStorage σ) :
    List (String × StorageOp) → σ → List (Except IoError StorageAnswer × σ)
  | [], _ => []
  | (writer, op) :: ops, state =>
    let step := exec ((storage writer).perform op) state
    step :: history storage ops step.2

end RecordStorage

namespace DirectoryStorage

variable {root : FilePath} {depth : Nat} {writer : String} {files : FileSystem}
  {records : SortedMap RecordPath ByteArray} {op : StorageOp}

/-- One operation does the same to a directory and to records in memory. -/
theorem exec_perform (h : Keeps root depth files records) (hdepth : 1 ≤ depth)
    (hwriter : IsWriter writer) (hop : op.IsShort depth) :
    ∃ answer files' records',
      exec ((storage ⟨root, depth, writer⟩).perform op) files = (.ok answer, files') ∧
      exec (MemoryStorage.storage.perform op) ⟨records, false, false⟩ =
        (.ok answer, ⟨records', false, false⟩) ∧
      Keeps root depth files' records' := by
  cases op with
  | read path =>
    refine ⟨.content (records.get? path), files, records, ?_, rfl, h⟩
    have hread : (storage ⟨root, depth, writer⟩).read path files = .ok (records.get? path) :=
      read_eq_ok writer h hop
    rw [RecordStorage.perform, exec_mk, hread]
    rfl
  | write path content =>
    obtain ⟨files', hwrite, keeps⟩ := exec_write h hwriter hop content
    exact ⟨.done, files', records.insert path content, exec_bind_of_ok hwrite, rfl, keeps⟩
  | remove path =>
    obtain ⟨files', hremove, keeps⟩ := exec_remove writer h hop
    exact ⟨.removed (records.get? path).isSome, files', records.erase path,
      exec_bind_of_ok hremove, rfl, keeps⟩
  | list =>
    refine ⟨.listing records.keys, files, records, ?_, rfl, h⟩
    have hlist : (storage ⟨root, depth, writer⟩).list files = .ok records.keys :=
      list_eq_ok writer h hdepth
    rw [RecordStorage.perform, exec_mk, hlist]
    rfl
  | clear =>
    obtain ⟨files', hclear, keeps⟩ := exec_clear writer h hdepth
    exact ⟨.done, files', ∅, exec_bind_of_ok hclear, rfl, keeps⟩

end DirectoryStorage

/-! ## Fresh roots -/

namespace FileSystem

variable {files : FileSystem} {names : List String}

/-- The root is an empty directory, or it is missing and becomes one when it is created.

A path such as `a/..` with a missing `a` is none of these: it would lead to the directory that `a`
is created in. -/
inductive IsFresh (files : FileSystem) (root : FilePath) : Prop
  | empty {place : Place} (resolve : files.resolve root = .ok (place, .directory))
      (nothing : ∀ names, names ≠ [] → files.tree.node? (place ++ names) = none)
  | missing {files₁ : FileSystem} {place : Place}
      (missing : files.resolve root = .error .notFound)
      (created : exec (createDirectories root.trimmed) files = (.ok (), files₁))
      (resolve : files₁.resolve root = .ok (place, .directory))
      (nothing : ∀ names, names ≠ [] → files₁.tree.node? (place ++ names) = none)

/-- Nothing is a file on the way to a path that leads to nothing. -/
theorem node?_eq_none_of_resolve {base : FilePath} {place : Place} (h : files.HasRoot base place)
    (plain : ∀ n ∈ names, IsPlain n) (hne : names ≠ [])
    (missing : files.resolve (base.below names) = .error .notFound) :
    files.tree.node? (place ++ names) = none ∧
      ∀ init, init <+: names →
        ∀ content, files.tree.node? (place ++ init) ≠ some (.file content) := by
  rw [h.resolve_below plain hne] at missing
  have hnone : files.tree.node? (place ++ names) = none := by
    rw [← Option.not_isSome_iff_eq_none, Option.isSome_iff_exists]
    rintro ⟨node, hnode⟩
    cases missing.symm.trans (FileTree.follow_of_node? plain hnode)
  refine ⟨hnone, ?_⟩
  rintro init ⟨rest, rfl⟩ content hfile
  cases rest with
  | nil =>
    rw [List.append_nil, hfile] at hnone
    cases hnone
  | cons next rest =>
    have hinit := FileTree.follow_of_node? (fun n hn => plain n (List.mem_append_left _ hn)) hfile
    rw [FileTree.follow_append, hinit] at missing
    have missing : files.tree.follow (place ++ init) (next :: rest) = .error .notFound := missing
    rw [FileTree.follow_cons, FileTree.step, hfile] at missing
    cases missing

/-- A missing path of plain names below a directory is fresh. -/
theorem IsFresh.of_below {base : FilePath} {place : Place} (h : files.HasRoot base place)
    (plain : ∀ n ∈ names, IsPlain n) (hne : names ≠ [])
    (missing : files.resolve (base.below names) = .error .notFound) :
    files.IsFresh (base.below names) := by
  obtain ⟨hnone, noFile⟩ := node?_eq_none_of_resolve h plain hne missing
  obtain ⟨t', hcreate, opens⟩ := h.creates.exec_createDirectories plain noFile
  have hroot := h.withTree opens.sameOutside
  have htrimmed : (base.below names).trimmed =
      { base with names := FilePath.trim base.isAbsolute (base.stem ++ names) } := by
    rw [FilePath.trimmed, FilePath.stem_below plain hne]
    rfl
  have hresolve : ({ files with tree := t' } : FileSystem).resolve (base.below names) =
      .ok (place ++ names, .directory) := by
    rw [hroot.resolve_below plain hne]
    exact FileTree.follow_of_node? plain opens.opened
  refine .missing missing (htrimmed ▸ hcreate) hresolve fun more hmore => ?_
  rcases opens.frame (place ++ names ++ more) with hsame | ⟨-, init, -, hinit, heq⟩
  · rw [hsame, ← Option.not_isSome_iff_eq_none]
    intro hsome
    cases hnone.symm.trans (FileTree.node?_eq_directory_of_append hsome hmore)
  · rw [List.append_assoc] at heq
    obtain rfl := List.append_cancel_left heq
    exact absurd hinit.length_le (by simpa [List.length_pos_iff] using hmore)

/-- The files below the root are some records, and there are none if the root is missing. -/
def Stores (files : FileSystem) (root : FilePath) (records : SortedMap RecordPath ByteArray) :
    Prop :=
  (∃ place, files.directoryAt root = .ok place ∧
      ∀ names, files.tree.content? (place ++ names) = records.get? ⟨names⟩) ∨
    files.resolve root = .error .notFound ∧ records = ∅

end FileSystem

namespace Keeps

variable {root : FilePath} {depth : Nat} {files : FileSystem}
  {records : SortedMap RecordPath ByteArray}

theorem of_isFresh (limit : files.pathLimit = none) (h : files.IsFresh root) :
    Keeps root depth files ∅ := by
  cases h with
  | empty resolve nothing =>
    exact .there (.of_empty (.of_empty limit resolve nothing) nothing)
  | missing missing created resolve nothing =>
    have creates := FileSystem.Creates.of_missing limit missing created resolve nothing
    exact .missing creates (.of_empty creates.hasRoot nothing) missing rfl

theorem stores (h : Keeps root depth files records) : files.Stores root records := by
  cases h with
  | there mirrors => exact .inl ⟨_, mirrors.hasRoot.directoryAt_root, mirrors.content?_eq⟩
  | missing _ _ resolve records_eq => exact .inr ⟨resolve, records_eq⟩

end Keeps

/-! ## Agreement -/

/-- What a storage in a directory and one in memory have in common after an operation: the answer,
which is no failure, and the records. -/
structure SameRecords (root : FilePath) (inDirectory : Except IoError StorageAnswer × FileSystem)
    (inMemory : Except IoError StorageAnswer × MemoryStorage) : Prop where
  answer : inDirectory.1 = inMemory.1
  isOk : inMemory.1.isOk = true
  stores : inDirectory.2.Stores root inMemory.2.records

namespace Keeps

variable {root : FilePath} {depth : Nat} {files : FileSystem}
  {records : SortedMap RecordPath ByteArray} {ops : List (String × StorageOp)}

theorem forall₂_history (h : Keeps root depth files records) (hdepth : 1 ≤ depth)
    (hops : ∀ op ∈ ops, DirectoryStorage.IsWriter op.1 ∧ op.2.IsShort depth) :
    List.Forall₂ (SameRecords root)
      (RecordStorage.history (fun writer => DirectoryStorage.storage ⟨root, depth, writer⟩) ops
        files)
      (RecordStorage.history (fun _ => MemoryStorage.storage) ops ⟨records, false, false⟩) := by
  induction ops generalizing files records with
  | nil => exact .nil
  | cons op ops ih =>
    obtain ⟨writer, op⟩ := op
    obtain ⟨hwriter, hop⟩ := hops _ List.mem_cons_self
    obtain ⟨answer, files', records', hdirectory, hmemory, keeps⟩ :=
      DirectoryStorage.exec_perform h hdepth hwriter hop
    rw [RecordStorage.history, RecordStorage.history, hdirectory, hmemory]
    exact .cons ⟨rfl, rfl, keeps.stores⟩
      (ih keeps fun later hlater => hops later (List.mem_cons_of_mem _ hlater))

end Keeps

/-- A storage in a fresh directory gives the same answers as one in memory, without a failure, and
after each operation the files below the root are exactly the records. -/
theorem sameRecords_history {root : FilePath} {depth : Nat} {files : FileSystem}
    {ops : List (String × StorageOp)} (limit : files.pathLimit = none)
    (fresh : files.IsFresh root) (hdepth : 1 ≤ depth)
    (hops : ∀ op ∈ ops, DirectoryStorage.IsWriter op.1 ∧ op.2.IsShort depth) :
    List.Forall₂ (SameRecords root)
      (RecordStorage.history (fun writer => DirectoryStorage.storage ⟨root, depth, writer⟩) ops
        files)
      (RecordStorage.history (fun _ => MemoryStorage.storage) ops .empty) :=
  (Keeps.of_isFresh limit fresh).forall₂_history hdepth hops

/-- A record is written below a missing root, read, listed and removed with all others. -/
theorem sameRecords_history_cache :
    FileSystem.empty.IsFresh ((FilePath.ofPlace []).below ["cache"]) ∧
      List.Forall₂ (SameRecords ((FilePath.ofPlace []).below ["cache"]))
        (RecordStorage.history (fun writer => DirectoryStorage.storage
          ⟨(FilePath.ofPlace []).below ["cache"], 2, writer⟩)
          [("7-a", .write ⟨["gpu", "scan.json"]⟩ "8".toUTF8), ("7-b", .read ⟨["gpu", "scan.json"]⟩),
            ("7-c", .list), ("7-d", .clear), ("7-e", .remove ⟨["gpu", "scan.json"]⟩)] .empty)
        (RecordStorage.history (fun _ => MemoryStorage.storage)
          [("7-a", .write ⟨["gpu", "scan.json"]⟩ "8".toUTF8), ("7-b", .read ⟨["gpu", "scan.json"]⟩),
            ("7-c", .list), ("7-d", .clear), ("7-e", .remove ⟨["gpu", "scan.json"]⟩)] .empty) := by
  have hroot : FileSystem.empty.HasRoot (FilePath.ofPlace []) [] := by
    refine .of_empty rfl rfl fun names hne => ?_
    rw [FileTree.node?_of_ne_nil (by simpa using hne)]
    rfl
  have plain : ∀ n ∈ ["cache"], IsPlain n := by
    intro n hn
    obtain rfl := List.mem_singleton.1 hn
    exact ⟨by decide, by decide, by decide, by decide, by decide⟩
  have fresh := FileSystem.IsFresh.of_below hroot plain (by simp) rfl
  have hpath : (⟨["gpu", "scan.json"]⟩ : RecordPath).IsShort 2 :=
    ⟨rfl, by decide, "scan.json", rfl, DirectoryStorage.isRecordName_iff.2 (by decide), by decide⟩
  refine ⟨fresh, sameRecords_history rfl fresh (by decide) ?_⟩
  intro op hop
  simp only [List.mem_cons, List.not_mem_nil, or_false] at hop
  rcases hop with rfl | rfl | rfl | rfl | rfl
  · exact ⟨⟨by decide, by decide⟩, hpath⟩
  · exact ⟨⟨by decide, by decide⟩, hpath⟩
  · exact ⟨⟨by decide, by decide⟩, trivial⟩
  · exact ⟨⟨by decide, by decide⟩, trivial⟩
  · exact ⟨⟨by decide, by decide⟩, hpath⟩

end KernelTuning
