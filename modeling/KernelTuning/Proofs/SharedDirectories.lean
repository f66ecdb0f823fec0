import KernelTuning.Proofs.Clearing
import KernelTuning.Proofs.Segments

/-!
# Records in a shared directory

The root of a storage may hold other files and directories, with any names that files can have. What
does the storage make of them?

**Names.** The walk turns the names that it finds into record paths by sanitising them. A clean
name comes back as it is. Any other one becomes the name of another file, which need not be there;
then the record file is neither read nor removed under the path that is listed for it.

**Clean names.** The paths of the record files are their names, so each is listed once, and reads as
the file (`lists_of_clean`). Clearing removes the record files and the temporary files, and the
directories in which nothing else was (`clears_of_clean`).

**Other names.** If all listed paths lead to record files, then sanitising has changed no name,
since two files would have one path otherwise (`clean_of_lists`). Clearing only aims at clean names,
so other record files are kept (`node?_clear`, `clean_of_clears`).

**Theorem (`sharesRoot_iff`).** Listing gives the record files and their content if and only if
their names are clean, and so does clearing remove them. No other files are ever removed.
-/

namespace KernelTuning

open FileTree (IsPlain IsBelow IsCleared)

namespace DirectoryStorage

variable {s : DirectoryStorage} {files : FileSystem} {place : Place} {names : List String}
  {content : ByteArray}

/-! ## Files at the depth of records -/

/-- A file at the depth of records with a name of some kind. -/
structure IsFileNamed (s : DirectoryStorage) (kind : String → Bool) (t : FileTree) (place : Place)
    (names : List String) : Prop where
  depth : names.length = s.depth
  named : ∃ name, names.getLast? = some name ∧ kind name = true
  isFile : ∃ content, t.node? (place ++ names) = some (.file content)

/-- The files at the depth of records with a name of some kind. -/
def filesNamed (s : DirectoryStorage) (kind : String → Bool) (t : FileTree) (place : Place) :
    List (List String) :=
  (t.filesBelow place s.depth).filter fun names => names.getLast?.elim false kind

/-- The places of the records and of the temporary files that were left behind. -/
def swept (s : DirectoryStorage) (t : FileTree) (place : Place) : Set Place :=
  {q | ∃ names, (s.IsFileNamed isRecordName t place names ∨
    s.IsFileNamed isTemporaryName t place names) ∧ q = place ++ names}

/-- The names on the way to the records are clean. -/
def HasCleanRecords (s : DirectoryStorage) (t : FileTree) (place : Place) : Prop :=
  ∀ names, s.IsFileNamed isRecordName t place names → ∀ name ∈ names, RecordPath.IsClean name

/-- The names below a directory are those that files can have. -/
def HasPlainNames (t : FileTree) (place : Place) : Prop :=
  ∀ names, (t.node? (place ++ names)).isSome = true → ∀ name ∈ names, IsPlain name

variable {kind : String → Bool} {t : FileTree} {path : RecordPath}

theorem elim_eq_true_iff {names : List String} : names.getLast?.elim false kind = true ↔
    ∃ name, names.getLast? = some name ∧ kind name = true := by
  rcases names.getLast? with _ | name <;> simp

theorem mem_filesNamed (hdepth : 1 ≤ s.depth) :
    names ∈ s.filesNamed kind t place ↔ s.IsFileNamed kind t place names := by
  unfold filesNamed
  rw [List.mem_filter, FileTree.mem_filesBelow (by omega), elim_eq_true_iff]
  exact ⟨fun ⟨⟨depth, isFile⟩, named⟩ => ⟨depth, named, isFile⟩,
    fun h => ⟨⟨h.depth, h.isFile⟩, h.named⟩⟩

theorem nodup_filesNamed : (s.filesNamed kind t place).Nodup :=
  (FileTree.nodup_filesBelow t place s.depth).filter _

theorem found_eq (h : files.HasRoot s.root place) (hdepth : 1 ≤ s.depth) :
    s.found files = .ok ((s.filesNamed isRecordName files.tree place).map RecordPath.ofTexts,
      s.filesNamed isTemporaryName files.tree place) := by
  rw [found, if_neg (by omega), h.directoryAt_root]
  rfl

theorem exec_found (h : files.HasRoot s.root place) (hdepth : 1 ≤ s.depth) :
    exec (ExceptT.mk fun files => (s.found files, files) :
      Io FileSystem (List RecordPath × List (List String))) files =
      (.ok ((s.filesNamed isRecordName files.tree place).map RecordPath.ofTexts,
        s.filesNamed isTemporaryName files.tree place), files) := by
  rw [exec_mk, found_eq h hdepth]

theorem list_eq (h : files.HasRoot s.root place) (hdepth : 1 ≤ s.depth) :
    s.list files = .ok (((s.filesNamed isRecordName files.tree place).map
      RecordPath.ofTexts).mergeSort fun a b => !decide (b < a)) := by
  rw [list, found_eq h hdepth]
  rfl

namespace IsFileNamed

theorem ne_nil (h : s.IsFileNamed kind t place names) : names ≠ [] := by
  rintro rfl
  obtain ⟨_, hname, -⟩ := h.named
  cases hname

theorem isSome (h : s.IsFileNamed kind t place names) :
    (t.node? (place ++ names)).isSome = true := by
  obtain ⟨_, hfile⟩ := h.isFile
  rw [hfile]
  rfl

/-- No record has the name of a temporary file. -/
theorem not_temporary (h : s.IsFileNamed isRecordName t place names) :
    ¬ s.IsFileNamed isTemporaryName t place names := by
  intro htemporary
  obtain ⟨name, hname, hrecord⟩ := h.named
  obtain ⟨name', hname', htemporary⟩ := htemporary.named
  obtain rfl := Option.some.inj (hname.symm.trans hname')
  rw [isTemporaryName_of_isRecordName hrecord] at htemporary
  cases htemporary

end IsFileNamed

/-- Temporary files are hidden. -/
theorem dot_of_isTemporaryName {name : String} (h : isTemporaryName name = true) :
    ['.'] <+: name.toList := by
  unfold isTemporaryName at h
  simp only [Bool.and_eq_true] at h
  exact String.startsWith_string_iff.1 h.1.1

theorem isRecord_iff : s.isRecord path = true ↔
    path.segments.length = s.depth ∧
      ∃ name, path.segments.getLast? = some name ∧ isRecordName name = true := by
  rw [isRecord, Bool.and_eq_true, decide_eq_true_eq, RecordPath.name?, elim_eq_true_iff]

theorem segments_ne_nil (h : s.isRecord path = true) : path.segments ≠ [] := by
  intro hnil
  obtain ⟨-, name, hname, -⟩ := isRecord_iff.1 h
  rw [hnil] at hname
  cases hname

theorem checkRecord_eq_ok : s.checkRecord path = .ok () ↔ s.isRecord path = true := by
  unfold checkRecord
  split_ifs with h <;> simp [h]

theorem isFileNamed_iff_isRecord : s.IsFileNamed isRecordName t place path.segments ↔
    s.isRecord path = true ∧
      ∃ content, t.node? (place ++ path.segments) = some (.file content) := by
  rw [isRecord_iff]
  exact ⟨fun h => ⟨⟨h.depth, h.named⟩, h.isFile⟩, fun h => ⟨h.1.1, h.1.2, h.2⟩⟩

/-- Clean names are their own segments. -/
theorem ofTexts_eq (plain : ∀ name ∈ names, IsPlain name)
    (clean : ∀ name ∈ names, RecordPath.IsClean name) : RecordPath.ofTexts names = ⟨names⟩ := by
  rw [RecordPath.ofTexts, List.map_congr_left fun name hname =>
    (clean name hname).sanitize_eq (plain name hname).size, List.map_id']

theorem map_ofTexts_eq (hdepth : 1 ≤ s.depth) (plain : HasPlainNames t place)
    (clean : s.HasCleanRecords t place) :
    (s.filesNamed isRecordName t place).map RecordPath.ofTexts =
      (s.filesNamed isRecordName t place).map RecordPath.mk := by
  refine List.map_congr_left fun names hnames => ?_
  have hfile := (mem_filesNamed hdepth).1 hnames
  exact ofTexts_eq (plain names hfile.isSome) (clean names hfile)

/-- Segments that are made of names of files are clean. -/
theorem isClean_of_mem_ofTexts (plain : ∀ name ∈ names, IsPlain name) {segment : String}
    (h : segment ∈ (RecordPath.ofTexts names).segments) : RecordPath.IsClean segment := by
  obtain ⟨name, hname, rfl⟩ := List.mem_map.1 h
  exact RecordPath.isClean_sanitize (plain name hname).size

theorem isPlain_of_mem_ofTexts {segment : String}
    (h : segment ∈ (RecordPath.ofTexts names).segments) : IsPlain segment :=
  (RecordPath.isSegment_of_mem_ofTexts h).isPlain

/-! ## Reading -/

/-- What is read is the content of a record file. -/
theorem read_eq_some_iff (h : files.HasRoot s.root place)
    (plain : ∀ segment ∈ path.segments, IsPlain segment) :
    s.read path files = .ok (some content) ↔ s.isRecord path = true ∧
      files.tree.node? (place ++ path.segments) = some (.file content) := by
  unfold read
  by_cases hrecord : s.isRecord path = true
  · rw [checkRecord_eq_ok.2 hrecord, and_iff_right hrecord]
    show orMissing none ((files.read (s.root.below path.segments)).map some) = _ ↔ _
    rw [FileSystem.read, h.resolve_below plain (segments_ne_nil hrecord)]
    constructor
    · intro hread
      rcases hfollow : files.tree.follow place path.segments with e | ⟨q, content' | _⟩ <;>
        rw [hfollow] at hread
      · cases e <;> cases hread
      · obtain rfl := FileTree.eq_of_follow plain hfollow
        cases hread
        exact FileTree.node?_of_follow hfollow
      · cases hread
    · intro hfile
      rw [FileTree.follow_of_node? plain hfile]
      rfl
  · rw [iff_false_right fun hboth => hrecord hboth.1]
    rcases hcheck : s.checkRecord path with e | _
    · intro hread
      cases hread
    · exact absurd (checkRecord_eq_ok.1 hcheck) hrecord

/-! ## Listing -/

/-- Listing gives one path for each record file, in order, and the path reads as the file. -/
structure Lists (s : DirectoryStorage) (files : FileSystem) (place : Place)
    (paths : List RecordPath) (pathOf : List String → RecordPath) : Prop where
  list_eq : s.list files = .ok paths
  /-- The paths are in order, without repetition. -/
  sorted : paths.Pairwise (· < ·)
  mem_iff : ∀ path, path ∈ paths ↔
    ∃ names, s.IsFileNamed isRecordName files.tree place names ∧ pathOf names = path
  injective : ∀ names names', s.IsFileNamed isRecordName files.tree place names →
    s.IsFileNamed isRecordName files.tree place names' → pathOf names = pathOf names' →
    names = names'
  read_eq : ∀ names content, s.IsFileNamed isRecordName files.tree place names →
    files.tree.node? (place ++ names) = some (.file content) →
    s.read (pathOf names) files = .ok (some content)

/-- Records with clean names are listed. -/
theorem lists_of_clean (h : files.HasRoot s.root place) (hdepth : 1 ≤ s.depth)
    (plain : HasPlainNames files.tree place) (clean : s.HasCleanRecords files.tree place) :
    ∃ paths, s.Lists files place paths RecordPath.mk := by
  have nodup : ((s.filesNamed isRecordName files.tree place).map RecordPath.mk).Nodup :=
    nodup_filesNamed.map fun a b heq => congrArg RecordPath.segments heq
  refine ⟨_, ?_, SortedMap.pairwise_lt_mergeSort nodup, fun path => ?_, ?_, ?_⟩
  · rw [DirectoryStorage.list_eq h hdepth, map_ofTexts_eq hdepth plain clean]
  · rw [List.mem_mergeSort, List.mem_map]
    simp only [mem_filesNamed hdepth]
  · exact fun names names' _ _ heq => congrArg RecordPath.segments heq
  · intro names content hnames hfile
    exact (read_eq_some_iff h (plain names hnames.isSome)).2
      ⟨(isFileNamed_iff_isRecord.1 hnames).1, hfile⟩

/-- If each listed path leads to a record file, then the record files have clean names: sanitising
would give two of them one path. -/
theorem clean_of_lists (h : files.HasRoot s.root place) (hdepth : 1 ≤ s.depth)
    (plain : HasPlainNames files.tree place) {paths : List RecordPath}
    {pathOf : List String → RecordPath} (lists : s.Lists files place paths pathOf) :
    s.HasCleanRecords files.tree place := by
  intro names hnames
  have hsorted := Except.ok.inj (lists.list_eq.symm.trans (DirectoryStorage.list_eq h hdepth))
  have hperm := hsorted ▸ List.mergeSort_perm _ _
  have nodup : ((s.filesNamed isRecordName files.tree place).map RecordPath.ofTexts).Nodup := by
    refine hperm.nodup_iff.1 (lists.sorted.imp ?_)
    rintro a _ hlt rfl
    exact StrictTotal.irrefl _ hlt
  have hmem : RecordPath.ofTexts names ∈ paths :=
    hperm.mem_iff.2 (List.mem_map_of_mem ((mem_filesNamed hdepth).2 hnames))
  -- The path of the names reads as a record file, whose names are its segments.
  obtain ⟨names₁, hnames₁, hpath⟩ := (lists.mem_iff _).1 hmem
  obtain ⟨content, hfile⟩ := hnames₁.isFile
  have hread := lists.read_eq names₁ content hnames₁ hfile
  rw [hpath, read_eq_some_iff h fun _ => isPlain_of_mem_ofTexts] at hread
  have hsegments := isFileNamed_iff_isRecord.2 ⟨hread.1, content, hread.2⟩
  have hclean : ∀ segment ∈ (RecordPath.ofTexts names).segments, RecordPath.IsClean segment :=
    fun _ => isClean_of_mem_ofTexts (plain names hnames.isSome)
  -- Two files with one path, and no path is listed twice, so they are the same file.
  have hsame : RecordPath.ofTexts names = RecordPath.ofTexts (RecordPath.ofTexts names).segments :=
    (ofTexts_eq (fun _ => isPlain_of_mem_ofTexts) hclean).symm
  have heq := List.inj_on_of_nodup_map nodup ((mem_filesNamed hdepth).2 hnames)
    ((mem_filesNamed hdepth).2 hsegments) hsame
  rw [heq]
  exact hclean

/-! ## Clearing clean names -/

theorem exec_checkRecord_of_isRecord (hrecord : s.isRecord path = true) (files : FileSystem) :
    exec (ExceptT.mk fun files => (s.checkRecord path, files) : Io FileSystem Unit) files =
      (.ok (), files) := by
  rw [exec_mk, checkRecord_eq_ok.2 hrecord]

/-- Clearing the records, one by one. -/
theorem exec_forM_records {l : List (List String)} (nodup : l.Nodup)
    (h : files.HasRoot s.root place) (plain : HasPlainNames files.tree place)
    (isFile : ∀ names ∈ l, s.IsFileNamed isRecordName files.tree place names) :
    ∃ t', exec ((l.map RecordPath.mk).forM fun path => do
        let _ ← s.remove path
        s.prune path.segments.dropLast) files = (.ok (), { files with tree := t' }) ∧
      IsCleared place {q | ∃ names ∈ l, q = place ++ names} files.tree t' := by
  have nodup' : ((l.map RecordPath.mk).map RecordPath.segments).Nodup := by
    rw [List.map_map]
    show (l.map fun names => names).Nodup
    rwa [List.map_id']
  have htargets : {q | ∃ names ∈ l, q = place ++ names} =
      ({q | ∃ path ∈ l.map RecordPath.mk, q = place ++ path.segments} : Set Place) := by
    ext q
    simp
  rw [htargets]
  refine exec_forM_cleared (fun path hpath files' h' hfile => ?_) nodup' h fun path hpath => ?_
  · obtain ⟨names, hnames, rfl⟩ := List.mem_map.1 hpath
    have hnamed := isFile names hnames
    obtain ⟨content, hfile⟩ := hfile
    obtain ⟨files₁, t', hremove, hprune, hcleared⟩ :=
      exec_remove_prune h' (plain names hnamed.isSome) hnamed.ne_nil hfile
    refine ⟨t', ?_, hcleared⟩
    have hrecord : s.isRecord ⟨names⟩ = true := (isFileNamed_iff_isRecord.1 hnamed).1
    have hremove' : exec (s.remove ⟨names⟩) files' = (.ok true, files₁) := by
      rw [remove, exec_bind_of_ok (exec_checkRecord_of_isRecord hrecord files')]
      exact hremove
    rw [exec_bind_of_ok hremove']
    exact hprune
  · obtain ⟨names, hnames, rfl⟩ := List.mem_map.1 hpath
    exact (isFile names hnames).isFile

/-- Clearing the temporary files, one by one. -/
theorem exec_forM_temporaries {l : List (List String)} (nodup : l.Nodup)
    (h : files.HasRoot s.root place) (plain : ∀ names ∈ l, ∀ name ∈ names, IsPlain name)
    (isFile : ∀ names ∈ l, names ≠ [] ∧
      ∃ content, files.tree.node? (place ++ names) = some (.file content)) :
    ∃ t', exec (l.forM fun names => do
        if ← removeIfPresent (s.root.below names) then s.prune names.dropLast) files =
          (.ok (), { files with tree := t' }) ∧
      IsCleared place {q | ∃ names ∈ l, q = place ++ names} files.tree t' := by
  refine exec_forM_cleared (fun names hnames files' h' hfile => ?_) (by rwa [List.map_id']) h
    fun names hnames => (isFile names hnames).2
  obtain ⟨content, hfile⟩ := hfile
  obtain ⟨files₁, t', hremove, hprune, hcleared⟩ :=
    exec_remove_prune h' (plain names hnames) (isFile names hnames).1 hfile
  refine ⟨t', ?_, hcleared⟩
  rw [exec_bind_of_ok hremove]
  exact hprune

/-- Records with clean names are cleared, and so are the temporary files. -/
theorem exec_clear_of_clean (h : files.HasRoot s.root place) (hdepth : 1 ≤ s.depth)
    (plain : HasPlainNames files.tree place) (clean : s.HasCleanRecords files.tree place) :
    ∃ t', exec s.clear files = (.ok (), { files with tree := t' }) ∧
      IsCleared place (s.swept files.tree place) files.tree t' := by
  have hfound := exec_found h hdepth
  rw [map_ofTexts_eq hdepth plain clean] at hfound
  obtain ⟨t₁, hrecords, hcleared₁⟩ := exec_forM_records nodup_filesNamed h plain
    fun names => (mem_filesNamed hdepth).1
  -- Clearing the records leaves the temporary files, which the second loop clears.
  have isFile₁ : ∀ names ∈ s.filesNamed isTemporaryName files.tree place, names ≠ [] ∧
      ∃ content, t₁.node? (place ++ names) = some (.file content) := by
    intro names hnames
    have htemporary := (mem_filesNamed hdepth).1 hnames
    obtain ⟨content, hfile⟩ := htemporary.isFile
    refine ⟨htemporary.ne_nil, content, hcleared₁.node?_eq_file ?_ hfile ?_⟩
    · rintro _ ⟨others, hothers, rfl⟩
      exact ((mem_filesNamed hdepth).1 hothers).isSome
    · rintro ⟨others, hothers, heq⟩
      obtain rfl := List.append_cancel_left heq
      exact ((mem_filesNamed hdepth).1 hothers).not_temporary htemporary
  obtain ⟨t', htemporaries, hcleared⟩ := exec_forM_temporaries nodup_filesNamed
    (h.withTree hcleared₁.sameOutside)
    (fun names hnames => plain names ((mem_filesNamed hdepth).1 hnames).isSome) isFile₁
  refine ⟨t', ?_, ?_⟩
  · rw [clear, exec_bind_of_ok hfound]
    exact (exec_bind_of_ok hrecords).trans htemporaries
  · have hboth := hcleared₁.append hcleared
    have hswept : ({q | ∃ names ∈ s.filesNamed isRecordName files.tree place, q = place ++ names} ∪
        {q | ∃ names ∈ s.filesNamed isTemporaryName files.tree place, q = place ++ names} :
          Set Place) = s.swept files.tree place := by
      ext q
      simp only [swept, Set.mem_union, Set.mem_ofPred_eq, mem_filesNamed hdepth, or_and_right,
        exists_or]
    rwa [hswept] at hboth

/-- Clearing succeeds and removes the records, the temporary files and the directories in which
nothing else was. -/
structure Clears (s : DirectoryStorage) (files files' : FileSystem) (place : Place) : Prop where
  exec_eq : exec s.clear files = (.ok (), files')
  file_iff : ∀ q content, files'.tree.node? q = some (.file content) ↔
    files.tree.node? q = some (.file content) ∧ q ∉ s.swept files.tree place
  /-- A directory stays unless all that was in it led to removed files. -/
  directory_iff : ∀ q, files'.tree.node? q = some .directory ↔
    files.tree.node? q = some .directory ∧
      ¬ (IsBelow place q ∧ files.tree.LeadsTo (s.swept files.tree place) q)

theorem clears_of_clean (h : files.HasRoot s.root place) (hdepth : 1 ≤ s.depth)
    (plain : HasPlainNames files.tree place) (clean : s.HasCleanRecords files.tree place) :
    ∃ files', s.Clears files files' place := by
  obtain ⟨t', hclear, hcleared⟩ := exec_clear_of_clean h hdepth plain clean
  refine ⟨_, hclear, fun q content => hcleared.file_iff ?_, fun q => hcleared.node?_eq_some⟩
  rintro _ ⟨names, hnames | hnames, rfl⟩
  · exact ⟨⟨names, hnames.ne_nil, rfl⟩, hnames.isFile⟩
  · exact ⟨⟨names, hnames.ne_nil, rfl⟩, hnames.isFile⟩

/-! ## Clearing any names -/

/-- Removing a record removes its file at most, and nothing if it is no record path. -/
theorem removesOnly_remove (plain : ∀ segment ∈ path.segments, IsPlain segment)
    (hmem : s.isRecord path = true → place ++ path.segments ∈ targets) :
    RemovesOnly s.root place targets (s.remove path) := by
  by_cases hrecord : s.isRecord path = true
  · exact (RemovesOnly.of_eq fun _ => rfl).bind fun _ =>
      removesOnly_removeIfPresent plain (segments_ne_nil hrecord) (hmem hrecord)
  · refine .of_eq fun files => ?_
    rcases hcheck : s.checkRecord path with e | _
    · rw [remove, exec_bind_of_error (show exec (ExceptT.mk fun files =>
        (s.checkRecord path, files) : Io FileSystem Unit) files = (.error e, files) from ?_)]
      rw [exec_mk, hcheck]
    · exact absurd (checkRecord_eq_ok.1 hcheck) hrecord

/-- The places of record paths with clean names, and those of temporary files. -/
def removable (s : DirectoryStorage) (place : Place) : Set Place :=
  {q | ∃ names, q = place ++ names ∧ (names.length = s.depth ∧ ∃ name, names.getLast? = some name ∧
    (isRecordName name = true ∧ (∀ n ∈ names, RecordPath.IsClean n) ∨ isTemporaryName name = true))}

/-- Whether clearing fails or not, it removes no other files. -/
theorem node?_clear (h : files.HasRoot s.root place) (hdepth : 1 ≤ s.depth)
    (plain : HasPlainNames files.tree place) {q : Place} {content : ByteArray}
    (hq : q ∉ s.removable place) (hfile : files.tree.node? q = some (.file content)) :
    (exec s.clear files).2.tree.node? q = some (.file content) := by
  have keeps {op : Io FileSystem Unit} (hop : RemovesOnly s.root place (s.removable place) op) :
      (exec op files).2.tree.node? q = some (.file content) :=
    (hop files h).keeps q content hq hfile
  rw [clear, exec_bind_of_ok (exec_found h hdepth)]
  refine keeps (.bind (.forM fun path hpath => ?_) fun _ => .forM fun names hnames => ?_)
  · obtain ⟨names, hnames, rfl⟩ := List.mem_map.1 hpath
    have hnamed := (mem_filesNamed hdepth).1 hnames
    refine .bind (removesOnly_remove (fun _ => isPlain_of_mem_ofTexts) fun hrecord => ?_) fun _ =>
      removesOnly_prune fun n hn => isPlain_of_mem_ofTexts (List.dropLast_subset _ hn)
    obtain ⟨hlength, name, hname, hrecord⟩ := isRecord_iff.1 hrecord
    exact ⟨_, rfl, hlength, name, hname,
      .inl ⟨hrecord, fun _ => isClean_of_mem_ofTexts (plain names hnamed.isSome)⟩⟩
  · have hnamed := (mem_filesNamed hdepth).1 hnames
    have hplain := plain names hnamed.isSome
    obtain ⟨name, hname, htemporary⟩ := hnamed.named
    refine .bind (removesOnly_removeIfPresent hplain hnamed.ne_nil
      ⟨names, rfl, hnamed.depth, name, hname, .inr htemporary⟩) fun removed => ?_
    cases removed
    · exact .of_eq fun _ => rfl
    · exact removesOnly_prune fun n hn => hplain n (List.dropLast_subset _ hn)

/-- Only records and temporary files are removed. -/
theorem node?_clear_of_not_mem_swept (h : files.HasRoot s.root place) (hdepth : 1 ≤ s.depth)
    (plain : HasPlainNames files.tree place) {q : Place} {content : ByteArray}
    (hq : q ∉ s.swept files.tree place) (hfile : files.tree.node? q = some (.file content)) :
    (exec s.clear files).2.tree.node? q = some (.file content) := by
  refine node?_clear h hdepth plain ?_ hfile
  rintro ⟨names, rfl, hlength, name, hname, ⟨hrecord, -⟩ | htemporary⟩
  · exact hq ⟨names, .inl ⟨hlength, ⟨name, hname, hrecord⟩, content, hfile⟩, rfl⟩
  · exact hq ⟨names, .inr ⟨hlength, ⟨name, hname, htemporary⟩, content, hfile⟩, rfl⟩

/-- A record file whose names are not clean is not removed. -/
theorem clean_of_clears (h : files.HasRoot s.root place) (hdepth : 1 ≤ s.depth)
    (plain : HasPlainNames files.tree place) {files' : FileSystem}
    (clears : s.Clears files files' place) : s.HasCleanRecords files.tree place := by
  intro names hnames
  by_contra hclean
  obtain ⟨content, hfile⟩ := hnames.isFile
  have hkept : (exec s.clear files).2.tree.node? (place ++ names) = some (.file content) := by
    refine node?_clear h hdepth plain ?_ hfile
    rintro ⟨names', heq, hlength, name, hname, ⟨-, hclean'⟩ | htemporary⟩
    · obtain rfl := List.append_cancel_left heq
      exact hclean hclean'
    · obtain rfl := List.append_cancel_left heq
      exact hnames.not_temporary ⟨hlength, ⟨name, hname, htemporary⟩, content, hfile⟩
  rw [clears.exec_eq] at hkept
  exact ((clears.file_iff _ _).1 hkept).2 ⟨names, .inl hnames, rfl⟩

/-- **A shared root is handled well if and only if the names on the way to the record files are
clean**: then all record files are listed and cleared. No other files are removed in any case. -/
theorem sharesRoot_iff (h : files.HasRoot s.root place) (hdepth : 1 ≤ s.depth)
    (plain : HasPlainNames files.tree place) :
    ((∃ paths pathOf, s.Lists files place paths pathOf) ↔ s.HasCleanRecords files.tree place) ∧
      ((∃ files', s.Clears files files' place) ↔ s.HasCleanRecords files.tree place) ∧
      ∀ q content, files.tree.node? q = some (.file content) → q ∉ s.swept files.tree place →
        (exec s.clear files).2.tree.node? q = some (.file content) := by
  refine ⟨⟨?_, fun clean => ?_⟩, ⟨?_, clears_of_clean h hdepth plain⟩, fun q content hfile hq =>
    node?_clear_of_not_mem_swept h hdepth plain hq hfile⟩
  · rintro ⟨paths, pathOf, lists⟩
    exact clean_of_lists h hdepth plain lists
  · obtain ⟨paths, lists⟩ := lists_of_clean h hdepth plain clean
    exact ⟨paths, RecordPath.mk, lists⟩
  · rintro ⟨files', clears⟩
    exact clean_of_clears h hdepth plain clears

end DirectoryStorage

/-! ## A record beside other files -/

namespace FileTree

variable {t : FileTree} {name other : String} {content : ByteArray} {q : Place}

/-- A tree with a file at its top. -/
def withFile (t : FileTree) (name : String) (content : ByteArray)
    (h : t.isDirectory [name] = false) : FileTree :=
  t.bind [] name (.file content) rfl h

theorem node?_withFile (h : t.isDirectory [name] = false) :
    (t.withFile name content h).node? q =
      if q = [name] then some (.file content) else t.node? q :=
  isUpdate_bind rfl h (.file content) q

theorem isDirectory_withFile (h : t.isDirectory [name] = false)
    (hother : t.isDirectory [other] = false) :
    (t.withFile name content h).isDirectory [other] = false := by
  rw [← Bool.not_eq_true, isDirectory_iff] at hother ⊢
  rw [node?_withFile]
  split_ifs
  · exact fun heq => by cases heq
  · exact hother

theorem isDirectory_empty (name : String) : empty.isDirectory [name] = false := rfl

end FileTree

/-- The top directory leads to itself. -/
theorem FileSystem.HasRoot.of_top {files : FileSystem} (limit : files.pathLimit = none) :
    files.HasRoot (.ofPlace []) [] where
  limit := limit
  noNull _ hname := absurd hname List.not_mem_nil
  nonempty := rfl
  leads _ _ := rfl

namespace DirectoryStorage

/-- A top directory with some notes and a file. -/
def besideNotes (name : String) (content : ByteArray) : FileSystem where
  tree := FileTree.withFile (FileTree.withFile .empty "notes.txt" "holidays".toUTF8
    (FileTree.isDirectory_empty "notes.txt")) name content
      (FileTree.isDirectory_withFile _ (FileTree.isDirectory_empty name))
  workingDirectory := []
  pathLimit := none

section

variable {name : String} {content : ByteArray} {q : Place} {node : FileNode}

theorem node?_besideNotes : (besideNotes name content).tree.node? q =
    if q = [name] then some (.file content)
    else if q = ["notes.txt"] then some (.file "holidays".toUTF8)
    else if q = [] then some .directory else none := by
  rw [besideNotes, FileTree.node?_withFile, FileTree.node?_withFile]
  rfl

theorem hasPlainNames_besideNotes (h : IsPlain name) :
    HasPlainNames (besideNotes name content).tree [] := by
  intro names hsome
  rw [List.nil_append, node?_besideNotes] at hsome
  split_ifs at hsome with hname hnotes hempty
  · subst hname
    simpa using h
  · subst hnotes
    simpa using (⟨by decide, by decide, by decide, by decide, by decide⟩ : IsPlain "notes.txt")
  · subst hempty
    simp
  · cases hsome

theorem isFileNamed_besideNotes {writer : String} {names : List String} :
    IsFileNamed ⟨.ofPlace [], 1, writer⟩ isRecordName (besideNotes name content).tree [] names ↔
      names = [name] ∧ isRecordName name = true := by
  constructor
  · intro h
    obtain ⟨_, hfile⟩ := h.isFile
    obtain ⟨last, hlast, hrecord⟩ := h.named
    rw [List.nil_append, node?_besideNotes] at hfile
    split_ifs at hfile with hname hnotes
    · subst hname
      obtain rfl := Option.some.inj hlast
      exact ⟨rfl, hrecord⟩
    · subst hnotes
      obtain rfl := Option.some.inj hlast
      exact absurd (isRecordName_iff.1 hrecord).2 (by decide)
    · cases hfile
  · rintro ⟨rfl, hrecord⟩
    refine ⟨rfl, ⟨name, rfl, hrecord⟩, content, ?_⟩
    rw [List.nil_append, node?_besideNotes, if_pos rfl]

theorem not_mem_swept_besideNotes {writer : String} (hne : name ≠ "notes.txt") :
    ["notes.txt"] ∉ swept ⟨.ofPlace [], 1, writer⟩ (besideNotes name content).tree [] := by
  rintro ⟨names, hnames | hnames, rfl⟩
  · obtain ⟨heq, -⟩ := isFileNamed_besideNotes.1 hnames
    exact hne (List.singleton_inj.1 heq).symm
  · obtain ⟨last, hlast, htemporary⟩ := hnames.named
    obtain rfl : "notes.txt" = last := Option.some.inj hlast
    exact absurd (dot_of_isTemporaryName htemporary) (by decide)

end

/-- A record with a clean name is listed and cleared, and the notes beside it stay. -/
theorem sharesRoot_iff_notes :
    let s : DirectoryStorage := ⟨.ofPlace [], 1, "7-a"⟩
    let files := besideNotes "scan.json" "8".toUTF8
    files.HasRoot s.root [] ∧ 1 ≤ s.depth ∧ HasPlainNames files.tree [] ∧
      (∃ paths pathOf, s.Lists files [] paths pathOf) ∧ (∃ files', s.Clears files files' []) ∧
      (exec s.clear files).2.tree.node? ["notes.txt"] = some (.file "holidays".toUTF8) := by
  intro s files
  have hroot : files.HasRoot s.root [] := .of_top rfl
  have plain : HasPlainNames files.tree [] :=
    hasPlainNames_besideNotes ⟨by decide, by decide, by decide, by decide, by decide⟩
  have clean : s.HasCleanRecords files.tree [] := by
    intro names hnames name hname
    obtain ⟨rfl, -⟩ := isFileNamed_besideNotes.1 hnames
    obtain rfl := List.mem_singleton.1 hname
    exact (RecordPath.sanitize_eq_self_iff.1 (by decide)).1
  obtain ⟨lists, clears, keeps⟩ := sharesRoot_iff hroot (Nat.le_refl 1) plain
  refine ⟨hroot, Nat.le_refl 1, plain, lists.2 clean, clears.2 clean, keeps _ _ ?_ ?_⟩
  · rw [node?_besideNotes]
    rfl
  · exact not_mem_swept_besideNotes (by decide)

/-- A record file whose name has a colon is neither listed nor cleared. -/
theorem not_sharesRoot_colon :
    let s : DirectoryStorage := ⟨.ofPlace [], 1, "7-a"⟩
    let files := besideNotes "a:b.json" "8".toUTF8
    files.HasRoot s.root [] ∧ 1 ≤ s.depth ∧ HasPlainNames files.tree [] ∧
      s.IsFileNamed isRecordName files.tree [] ["a:b.json"] ∧
      (¬ ∃ paths pathOf, s.Lists files [] paths pathOf) ∧ ¬ ∃ files', s.Clears files files' [] := by
  intro s files
  have hroot : files.HasRoot s.root [] := .of_top rfl
  have plain : HasPlainNames files.tree [] :=
    hasPlainNames_besideNotes ⟨by decide, by decide, by decide, by decide, by decide⟩
  have named : s.IsFileNamed isRecordName files.tree [] ["a:b.json"] :=
    isFileNamed_besideNotes.2 ⟨rfl, isRecordName_iff.2 (by decide)⟩
  have unclean : ¬ s.HasCleanRecords files.tree [] := by
    intro clean
    have hcolon := ((clean _ named _ List.mem_cons_self).allowed ':' (by decide)).1
    exact absurd hcolon (by decide)
  refine ⟨hroot, Nat.le_refl 1, plain, named, ?_, ?_⟩
  · rintro ⟨paths, pathOf, lists⟩
    exact unclean (clean_of_lists hroot (Nat.le_refl 1) plain lists)
  · rintro ⟨files', clears⟩
    exact unclean (clean_of_clears hroot (Nat.le_refl 1) plain clears)

end DirectoryStorage

end KernelTuning