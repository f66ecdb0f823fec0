import KernelTuning.Proofs.SharedDirectories
import KernelTuning.Proofs.StorageAgreement

/-!
# Single records in a directory

A record is written, read and removed in a directory that may hold other files.

**Paths** (`Accepts`). The storage takes the path for that of a record, its segments can name files,
and so can the name of the temporary file. Unlike in a history of many records, the segments need
not be clean: listing is the only operation that sanitises them again.

**Files** (`IsFree`). Nothing is in the way of the record: no file where a directory has to be, and
no directory where the record or its temporary file will be. The root may be missing, if it can be
created (`FileSystem.Creates`).

**Theorem (`exists_write`).** Then writing succeeds. It changes no other file, and the record is
read and can be removed afterwards. In a fresh directory the record is the only file
(`exists_write_of_isFresh`).
-/

namespace KernelTuning

open FileTree (IsPlain IsUpdate SameOutside)

namespace DirectoryStorage

variable {s : DirectoryStorage} {files files₁ : FileSystem} {place : Place} {path : RecordPath}
  {content : ByteArray} {t t' : FileTree} {dir : List String} {name temporary : String}

/-! ## Paths and free places -/

/-- The path of a record that the storage can keep. -/
structure Accepts (s : DirectoryStorage) (path : RecordPath) : Prop where
  isRecord : s.isRecord path = true
  plain : ∀ segment ∈ path.segments, IsPlain segment
  /-- The name of the record leaves room for that of the temporary file. -/
  temporary : ∀ name, path.name? = some name → IsPlain (temporaryName s.writer name)

/-- Nothing is in the way of a file that is written under another name first. -/
structure IsFree (t : FileTree) (place : Place) (dir : List String) (name temporary : String) :
    Prop where
  way : ∀ init, init <+: dir → ∀ content, t.node? (place ++ init) ≠ some (.file content)
  target : t.node? (place ++ (dir ++ [name])) ≠ some .directory
  beside : t.node? (place ++ (dir ++ [temporary])) ≠ some .directory

/-- A file was put somewhere, another one is gone, and some directories are new. -/
structure Puts (t t' : FileTree) (place : Place) (dir : List String) (name temporary : String)
    (content : ByteArray) : Prop where
  written : t'.node? (place ++ (dir ++ [name])) = some (.file content)
  renamed : t'.node? (place ++ (dir ++ [temporary])) = none
  frame : ∀ q, q ≠ place ++ (dir ++ [name]) → q ≠ place ++ (dir ++ [temporary]) →
    ∀ found, t'.node? q = some (.file found) ↔ t.node? q = some (.file found)

namespace Accepts

theorem exists_segments (h : s.Accepts path) : ∃ dir name, path.segments = dir ++ [name] ∧
    isRecordName name = true ∧ IsPlain (temporaryName s.writer name) := by
  obtain ⟨-, name, hname, hrecord⟩ := isRecord_iff.1 h.isRecord
  obtain ⟨dir, hsegments⟩ := List.getLast?_eq_some_iff.1 hname
  exact ⟨dir, name, hsegments, hrecord, h.temporary name hname⟩

/-- No operation refuses the path. -/
theorem exec_checkRecord (h : s.Accepts path) (files : FileSystem) :
    exec (ExceptT.mk fun files => (s.checkRecord path, files) : Io FileSystem Unit) files =
      (.ok (), files) :=
  exec_checkRecord_of_isRecord h.isRecord files

/-- Sanitised texts are the path of a record if the last one is a record name that leaves room. -/
theorem of_sanitized {texts : List String} {last : String} (hwriter : IsWriter s.writer)
    (hdepth : texts.length = s.depth) (hlast : texts.getLast? = some last)
    (hrecord : isRecordName (RecordPath.sanitize last) = true)
    (hsize : (RecordPath.sanitize last).utf8ByteSize ≤ 200) :
    s.Accepts (RecordPath.ofTexts texts) := by
  have hname : (RecordPath.ofTexts texts).name? = some (RecordPath.sanitize last) := by
    rw [RecordPath.name?, RecordPath.ofTexts, List.getLast?_map, hlast, Option.map_some]
  refine ⟨isRecord_iff.2 ⟨?_, _, hname, hrecord⟩, fun segment hsegment => ?_, fun name hsome => ?_⟩
  · rw [RecordPath.ofTexts, List.length_map, hdepth]
  · exact (RecordPath.isSegment_of_mem_ofTexts hsegment).isPlain
  · obtain rfl := Option.some_inj.1 (hname.symm.trans hsome)
    exact isPlain_temporaryName hwriter (RecordPath.isSegment_sanitize last).isPlain hsize

end Accepts

/-! ## Writing -/

/-- Opened directories are in nobody's way. -/
theorem IsFree.opens (h : IsFree t place dir name temporary)
    (opens : FileSystem.Opens t t' place dir) : IsFree t' place dir name temporary := by
  have keeps {last : String} (hlast : t.node? (place ++ (dir ++ [last])) ≠ some .directory) :
      t'.node? (place ++ (dir ++ [last])) ≠ some .directory := by
    intro hnode
    rcases opens.frame (place ++ (dir ++ [last])) with hsame | ⟨-, init, -, hinit, heq⟩
    · exact hlast (hsame.symm.trans hnode)
    · obtain rfl := List.append_cancel_left heq
      simpa using Nat.not_lt.2 hinit.length_le
  exact ⟨fun init hinit => opens.noFile (h.way init hinit), keeps h.target, keeps h.beside⟩

/-- A file is written under another name and renamed. -/
theorem exec_write_rename (h : files.HasRoot s.root place)
    (plain : ∀ n ∈ dir ++ [name], IsPlain n) (plainTemporary : IsPlain temporary)
    (hne : temporary ≠ name) (free : IsFree files.tree place dir name temporary)
    (hdir : files.tree.node? (place ++ dir) = some .directory) (content : ByteArray) :
    ∃ t', exec (do
        FileSystem.write (s.root.below (dir ++ [temporary])) content
        FileSystem.rename (s.root.below (dir ++ [temporary])) (s.root.below (dir ++ [name])))
          files = (.ok (), { files with tree := t' }) ∧
      SameOutside place files.tree t' ∧ Puts files.tree t' place dir name temporary content := by
  have plainBeside : ∀ n ∈ dir ++ [temporary], IsPlain n := by
    simpa [or_imp, forall_and] using
      ⟨fun n hn => plain n (List.mem_append_left _ hn), plainTemporary⟩
  have hplaces : place ++ (dir ++ [name]) ≠ place ++ (dir ++ [temporary]) := by
    simpa using hne.symm
  -- Two changes, each of them at one place below the root.
  obtain ⟨t₁, hwrite, hupdate⟩ := h.exec_write plainBeside hdir free.beside content
  have hfile₁ : t₁.node? (place ++ (dir ++ [temporary])) = some (.file content) := by
    rw [hupdate, if_pos rfl]
  have hfree₁ : t₁.node? (place ++ (dir ++ [name])) ≠ some .directory := by
    rw [hupdate, if_neg hplaces]
    exact free.target
  obtain ⟨t', hrename, hnodes⟩ := (h.withTree (hupdate.sameOutside (by simp))).exec_rename plain
    plainTemporary hne hfile₁ hfree₁
  refine ⟨t', ?_, fun q hq => ?_, ?_, ?_, fun q hname htemporary found => ?_⟩
  · rw [exec_bind_of_ok hwrite]
    exact hrename
  · rw [hnodes, if_neg, if_neg, hupdate, if_neg]
    all_goals
      rintro rfl
      exact hq ⟨_, by simp, rfl⟩
  · rw [hnodes, if_neg hplaces, if_pos rfl]
  · rw [hnodes, if_pos rfl]
  · rw [hnodes, if_neg htemporary, if_neg hname, hupdate, if_neg htemporary]

/-- **A record is written** where nothing is in its way, and no other file changes. -/
theorem exists_write (h : s.Accepts path) (creates : FileSystem.Creates files files₁ s.root place)
    (hsegments : path.segments = dir ++ [name])
    (free : IsFree files₁.tree place dir name (temporaryName s.writer name))
    (content : ByteArray) :
    ∃ files', exec (s.write path content) files = (.ok (), files') ∧ files'.HasRoot s.root place ∧
      Puts files₁.tree files'.tree place dir name (temporaryName s.writer name) content := by
  obtain ⟨dir', name', hsegments', hrecord, plainTemporary⟩ := h.exists_segments
  obtain ⟨rfl, heq⟩ := List.append_inj' (hsegments.symm.trans hsegments') rfl
  obtain rfl := List.singleton_inj.1 heq
  have plain : ∀ n ∈ dir ++ [name], IsPlain n := hsegments ▸ h.plain
  have hne : temporaryName s.writer name ≠ name := by
    intro heq
    rw [← heq, isRecordName_temporaryName] at hrecord
    cases hrecord
  -- The directories above the record are created as far as they are missing.
  obtain ⟨t₁, hcreate, opens⟩ := creates.exec_createDirectories
    (fun n hn => plain n (List.mem_append_left _ hn)) free.way
  have hparents : exec (FileSystem.createParents (s.root.below (dir ++ [name]))) files =
      (.ok (), { files₁ with tree := t₁ }) := by
    rw [FileSystem.createParents, FilePath.parent?_below s.root dir (plain name (by simp))]
    exact hcreate
  have hroot₁ := creates.hasRoot.withTree opens.sameOutside
  obtain ⟨t', hreplace, same, puts⟩ := exec_write_rename hroot₁ plain plainTemporary hne
    (free.opens opens) opens.opened content
  refine ⟨{ files₁ with tree := t' }, ?_, hroot₁.withTree same, puts.written, puts.renamed,
    fun q hname htemporary found => ?_⟩
  · unfold write
    rw [exec_bind_of_ok (h.exec_checkRecord files)]
    simp only [temporaryPath_eq s hsegments]
    rw [filePath, hsegments, exec_bind_of_ok hparents]
    exact exec_tryCatch_of_ok hreplace
  · rw [puts.frame q hname htemporary]
    rcases opens.frame q with hsame | ⟨hdir, init, -, hinit, rfl⟩
    · rw [← hsame]
    · exact iff_of_false (by simp [hdir]) (free.way init hinit found)

/-! ## Reading and removing -/

theorem read_of_accepts (h : s.Accepts path) (hroot : files.HasRoot s.root place)
    (hfile : files.tree.node? (place ++ path.segments) = some (.file content)) :
    s.read path files = .ok (some content) :=
  (read_eq_some_iff hroot h.plain).2 ⟨h.isRecord, hfile⟩

theorem exec_remove_of_accepts (h : s.Accepts path) (hroot : files.HasRoot s.root place)
    (hfile : files.tree.node? (place ++ path.segments) = some (.file content)) :
    ∃ t', exec (s.remove path) files = (.ok true, { files with tree := t' }) ∧
      IsUpdate files.tree t' (place ++ path.segments) none := by
  obtain ⟨t', hremove, hupdate⟩ :=
    hroot.exec_removeFile h.plain (segments_ne_nil h.isRecord) hfile
  refine ⟨t', ?_, hupdate⟩
  unfold remove
  rw [exec_bind_of_ok (h.exec_checkRecord files)]
  exact exec_tryCatch_of_ok (exec_bind_of_ok hremove)

/-- Where nothing is at the path and no file on the way, nothing is read. -/
theorem read_of_missing (h : s.Accepts path) (hroot : files.HasRoot s.root place)
    (hnone : files.tree.node? (place ++ path.segments) = none)
    (noFile : ∀ init, init <+: path.segments →
      ∀ content, files.tree.node? (place ++ init) ≠ some (.file content)) :
    s.read path files = .ok none := by
  unfold read
  rw [checkRecord_eq_ok.2 h.isRecord]
  show orMissing none ((files.read (s.root.below path.segments)).map some) = _
  rw [FileSystem.read, hroot.resolve_below h.plain (segments_ne_nil h.isRecord),
    FileTree.follow_eq_notFound h.plain noFile hnone]
  rfl

/-- A record can be written at the path, read from there and removed again, wherever nothing is in
the way. -/
structure Serves (s : DirectoryStorage) (path : RecordPath) : Prop where
  accepted : s.checkRecord path = .ok ()
  /-- The temporary file is beside the record, and its name can name a file. -/
  temporary : ∃ dir name, path.segments = dir ++ [name] ∧ IsPlain (temporaryName s.writer name) ∧
    s.temporaryPath path = s.root.below (dir ++ [temporaryName s.writer name])
  served : ∀ {files files₁ : FileSystem} {place : Place} {dir : List String} {name : String},
    path.segments = dir ++ [name] → FileSystem.Creates files files₁ s.root place →
    IsFree files₁.tree place dir name (temporaryName s.writer name) → ∀ content,
      ∃ files' files'', exec (s.write path content) files = (.ok (), files') ∧
        s.read path files' = .ok (some content) ∧
        exec (s.remove path) files' = (.ok true, files'') ∧ s.read path files'' = .ok none

/-- **A storage serves the paths that it accepts.** -/
theorem Accepts.serves (h : s.Accepts path) : s.Serves path where
  accepted := checkRecord_eq_ok.2 h.isRecord
  temporary := by
    obtain ⟨dir, name, hsegments, -, plain⟩ := h.exists_segments
    exact ⟨dir, name, hsegments, plain, temporaryPath_eq s hsegments⟩
  served hsegments creates free content := by
    obtain ⟨files', hwrite, hroot, puts⟩ := exists_write h creates hsegments free content
    have hfile := puts.written
    rw [← hsegments] at hfile
    obtain ⟨t', hremove, hupdate⟩ := exec_remove_of_accepts h hroot hfile
    have hroot' := hroot.withTree (hupdate.sameOutside (segments_ne_nil h.isRecord))
    refine ⟨files', _, hwrite, read_of_accepts h hroot hfile, hremove,
      read_of_missing h hroot' (by rw [hupdate, if_pos rfl]) ?_⟩
    -- What lies on the way to the file that was removed are directories.
    rintro init ⟨rest, heq⟩ found hinit
    rw [hupdate] at hinit
    split_ifs at hinit with hsame
    rcases eq_or_ne rest [] with rfl | hrest
    · exact hsame (by rw [← heq, List.append_nil])
    · rw [← heq, ← List.append_assoc] at hfile
      have hdirectory := FileTree.node?_eq_directory_of_append (by rw [hfile]; rfl) hrest
      cases hinit.symm.trans hdirectory

/-! ## Fresh directories -/

/-- A record that is written in a fresh directory is the only file there. -/
theorem exists_write_of_isFresh (h : s.Accepts path) (limit : files.pathLimit = none)
    (fresh : files.IsFresh s.root) (content : ByteArray) :
    ∃ files' place, exec (s.write path content) files = (.ok (), files') ∧
      files'.HasRoot s.root place ∧
      ∀ names found, files'.tree.node? (place ++ names) = some (.file found) ↔
        names = path.segments ∧ found = content := by
  obtain ⟨files₁, place, creates, nothing⟩ : ∃ files₁ place,
      FileSystem.Creates files files₁ s.root place ∧
        ∀ names, names ≠ [] → files₁.tree.node? (place ++ names) = none := by
    cases fresh with
    | empty resolve nothing =>
      exact ⟨files, _, (FileSystem.HasRoot.of_empty limit resolve nothing).creates, nothing⟩
    | missing missing created resolve nothing =>
      exact ⟨_, _, .of_missing limit missing created resolve nothing, nothing⟩
  obtain ⟨dir, name, hsegments, hrecord, -⟩ := h.exists_segments
  -- Creating the root makes directories only, so no file stands in the way.
  have noFile (names : List String) (found : ByteArray) :
      files₁.tree.node? (place ++ names) ≠ some (.file found) := by
    rcases eq_or_ne names [] with rfl | hne
    · rw [List.append_nil, creates.hasRoot.node?_root]
      simp
    · simp [nothing names hne]
  have free : IsFree files₁.tree place dir name (temporaryName s.writer name) :=
    ⟨fun init _ => noFile init, by simp [nothing], by simp [nothing]⟩
  obtain ⟨files', hwrite, hroot, puts⟩ := exists_write h creates hsegments free content
  refine ⟨files', place, hwrite, hroot, fun names found => ?_⟩
  by_cases hname : names = dir ++ [name]
  · rw [hname, puts.written, hsegments]
    simp [eq_comm]
  · refine iff_of_false (fun hfile => ?_) fun heq => hname (heq.1.trans hsegments)
    by_cases htemporary : names = dir ++ [temporaryName s.writer name]
    · rw [htemporary, puts.renamed] at hfile
      cases hfile
    · rw [puts.frame _ (by simpa using hname) (by simpa using htemporary)] at hfile
      exact noFile names found hfile

/-- A single record file is listed under the path that its names are sanitised to. -/
theorem list_of_single (hroot : files.HasRoot s.root place) (hrecord : s.isRecord path = true)
    (only : ∀ names found, files.tree.node? (place ++ names) = some (.file found) ↔
      names = path.segments ∧ found = content) :
    s.list files = .ok [RecordPath.ofTexts path.segments] := by
  have hdepth : 1 ≤ s.depth := by
    rw [← (isRecord_iff.1 hrecord).1]
    exact List.length_pos_iff.2 (segments_ne_nil hrecord)
  have hnamed : s.filesNamed isRecordName files.tree place = [path.segments] := by
    refine List.perm_singleton.1 ((List.perm_ext_iff_of_nodup nodup_filesNamed
      (List.nodup_singleton _)).2 fun names => ?_)
    rw [mem_filesNamed hdepth, List.mem_singleton]
    constructor
    · intro h
      obtain ⟨found, hfile⟩ := h.isFile
      exact ((only names found).1 hfile).1
    · rintro rfl
      exact isFileNamed_iff_isRecord.2 ⟨hrecord, content, (only _ _).2 ⟨rfl, rfl⟩⟩
  rw [DirectoryStorage.list_eq hroot hdepth, hnamed, List.map_singleton, List.mergeSort_singleton]

end DirectoryStorage

/-- Where there are no files at all, a missing directory is fresh. -/
theorem FileSystem.isFresh_cache :
    FileSystem.empty.IsFresh ((FilePath.ofPlace []).below ["cache"]) := by
  have hroot : FileSystem.empty.HasRoot (FilePath.ofPlace []) [] := by
    refine .of_empty rfl rfl fun names hne => ?_
    rw [FileTree.node?_of_ne_nil (by simpa using hne)]
    rfl
  have plain : ∀ n ∈ ["cache"], IsPlain n := by
    intro n hn
    obtain rfl := List.mem_singleton.1 hn
    exact ⟨by decide, by decide, by decide, by decide, by decide⟩
  exact .of_below hroot plain (by simp) rfl

end KernelTuning
