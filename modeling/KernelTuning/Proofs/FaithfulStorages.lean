import KernelTuning.Proofs.CacheStability
import KernelTuning.Proofs.SingleRecords

/-!
# Faithful storages

What a storage holds can be seen by reading, and it only grows by writing, whether its operations
succeed or fail (`RecordStorage.Faithful`). This says less than that records are found again, but it
holds of all storages in all states, also of those in which anything may fail.

**Memory.** The storage in memory is faithful (`MemoryStorage.faithful`), and so is every faithful
storage as a part of a larger state (`Faithful.focus`).

**Additions** (`AddsOnly`). An operation adds no files but some. This is closed under sequences and
handlers. Removing and creating directories add none, and writing under a temporary name and
renaming adds the content at the record's place and a temporary file (`addsOnly_write_rename`): the
file that is renamed is the one just written, since where names lead to does not depend on the files
(`place_eq_of_follow`).

**Theorem (`DirectoryStorage.faithful`).** A storage in a directory holds the record files at any
place that its root may have (`Holds`). It is faithful, and nothing is assumed of the files.
-/

namespace KernelTuning

open FileTree (IsPlain IsUpdate)

variable {σ τ : Type}

/-! ## Faithful storages -/

/-- Reads give only what the storage holds, and only writes add to that, each its content at its
path. -/
structure RecordStorage.Faithful (s : RecordStorage σ) (Holds : σ → RecordPath → ByteArray → Prop) :
    Prop where
  read : ∀ {texts : List String} {state : σ} {content : ByteArray},
    s.read (.ofTexts texts) state = .ok (some content) → Holds state (.ofTexts texts) content
  write : ∀ {texts : List String} {content : ByteArray} {state : σ} {path : RecordPath}
    {found : ByteArray}, Holds (exec (s.write (.ofTexts texts) content) state).2 path found →
      Holds state path found ∨ path = .ofTexts texts ∧ found = content
  remove : ∀ {texts : List String} {state : σ} {path : RecordPath} {found : ByteArray},
    Holds (exec (s.remove (.ofTexts texts)) state).2 path found → Holds state path found
  clear : ∀ {state : σ} {path : RecordPath} {found : ByteArray},
    Holds (exec s.clear state).2 path found → Holds state path found

/-- A faithful storage stays so as a part of a larger state. -/
theorem RecordStorage.Faithful.focus {s : RecordStorage σ}
    {Holds : σ → RecordPath → ByteArray → Prop} (h : s.Faithful Holds) {view : τ → σ}
    {update : σ → τ → τ} (view_update : ∀ part whole, view (update part whole) = part) :
    (s.focus view update).Faithful fun whole => Holds (view whole) := by
  have onPart {α : Type} (op : Io σ α) (whole : τ) :
      view (exec (onPart view update op) whole).2 = (exec op (view whole)).2 :=
    view_update _ whole
  exact {
    read := h.read
    write := fun {texts content state path found} hfound =>
      h.write (onPart (s.write (.ofTexts texts) content) state ▸ hfound)
    remove := fun {texts state path found} hfound =>
      h.remove (onPart (s.remove (.ofTexts texts)) state ▸ hfound)
    clear := fun {state path found} hfound => h.clear (onPart s.clear state ▸ hfound) }

namespace MemoryStorage

/-- A record in memory. -/
def Holds (m : MemoryStorage) (path : RecordPath) (content : ByteArray) : Prop :=
  m.records.get? path = some content

/-- A change of the records has happened, or writes fail. -/
theorem holds_change {α : Type}
    {f : SortedMap RecordPath ByteArray → α × SortedMap RecordPath ByteArray} {m : MemoryStorage}
    {path : RecordPath} {found : ByteArray} (h : (exec (change f) m).2.Holds path found) :
    m.Holds path found ∨ (f m.records).2.get? path = some found := by
  unfold change at h
  rw [exec_mk] at h
  split at h
  · exact .inl h
  · exact .inr h

theorem faithful : storage.Faithful Holds where
  read hread := by
    change MemoryStorage.read _ _ = _ at hread
    unfold MemoryStorage.read at hread
    split at hread
    · cases hread
    · exact Except.ok.inj hread
  write hfound := by
    rcases holds_change hfound with hfound | hfound
    · exact .inl hfound
    · rw [SortedMap.get?_insert] at hfound
      split at hfound
      · rename_i heq
        exact .inr ⟨heq, (Option.some.inj hfound).symm⟩
      · exact .inl hfound
  remove hfound := by
    rcases holds_change hfound with hfound | hfound
    · exact hfound
    · rw [SortedMap.get?_erase] at hfound
      split at hfound
      · cases hfound
      · exact hfound
  clear hfound := by
    rcases holds_change hfound with hfound | hfound
    · exact hfound
    · cases hfound

end MemoryStorage

theorem Tuner.InMemory.faithful {t : Tuner σ} {memory : σ → MemoryStorage}
    {update : MemoryStorage → σ → σ} (h : t.InMemory memory update) :
    t.storage.Faithful fun state => (memory state).Holds := by
  rw [h.storage]
  exact MemoryStorage.faithful.focus h.memory_update

/-! ## Single nodes -/

namespace FileTree

variable {t t' : FileTree} {place q q' dir : Place} {name : String} {names : List String}
  {node node' : FileNode}

theorem isUpdate_of_insert (h : t.insert dir name node = .ok t') :
    IsUpdate t t' (dir ++ [name]) (some node) := by
  unfold insert at h
  split_ifs at h with hsize hdir hnew
  cases h
  exact isUpdate_bind hdir hnew node

theorem eq_of_step {next : Place} (hname : name ∉ ["", ".", ".."])
    (h : t.step place name = .ok next) : next = place ++ [name] := by
  simp only [List.mem_cons, List.not_mem_nil, or_false, not_or] at hname
  unfold step at h
  rw [node?_of_step h] at h
  dsimp only at h
  rw [if_neg (not_or.2 ⟨hname.1, hname.2.1⟩), if_neg hname.2.2] at h
  split_ifs at h
  exact (Except.ok.inj h).symm

theorem step_unique {next next' : Place} (h : t.step place name = .ok next)
    (h' : t'.step place name = .ok next') : next = next' := by
  unfold step at h h'
  rw [node?_of_step h] at h
  rw [node?_of_step h'] at h'
  dsimp only at h h'
  split_ifs at h h' <;> exact Except.ok.inj (h.symm.trans h')

/-- Names lead to one place in all trees in which they lead anywhere. -/
theorem place_eq_of_follow (h : t.follow place names = .ok (q, node))
    (h' : t'.follow place names = .ok (q', node')) : q = q' := by
  induction names generalizing place with
  | nil =>
    have hhere {t : FileTree} {q : Place} {node : FileNode}
        (h : t.follow place [] = .ok (q, node)) : q = place := by
      simpa using eq_of_follow (List.forall_mem_nil _) h
    exact (hhere h).trans (hhere h').symm
  | cons name names ih =>
    rw [follow_cons] at h h'
    obtain ⟨next, hstep, hrest⟩ := except_bind_eq_ok.1 h
    obtain ⟨next', hstep', hrest'⟩ := except_bind_eq_ok.1 h'
    obtain rfl := step_unique hstep hstep'
    exact ih hrest hrest'

end FileTree

namespace FileSystem

variable {files files' : FileSystem} {path : FilePath} {names : List String} {name : String}
  {content : ByteArray}

/-- A file is created or replaced at the name at the end of its path, in the directory that the
names before it lead to. -/
theorem of_updated {f : Option ByteArray → ByteArray} (hnames : path.names = names ++ [name])
    (hne : name ≠ "") (h : files.updated path f = .ok files') :
    ∃ dir, files.tree.follow (files.start path) names = .ok (dir, .directory) ∧
      IsUpdate files.tree files'.tree (dir ++ [name])
        (some (.file (f (files.tree.content? (dir ++ [name]))))) ∧ files'.start = files.start := by
  have hcore : ((names ++ [name]).reverse.dropWhile (· = "")).reverse = names ++ [name] := by
    rw [List.reverse_append, List.reverse_singleton, List.singleton_append,
      List.dropWhile_cons_of_neg (by simpa using hne)]
    simp
  obtain ⟨e, hentry, h⟩ := except_bind_eq_ok.1 h
  obtain ⟨_, -, hentry⟩ := except_bind_eq_ok.1 hentry
  simp only [hnames, hcore, List.getLast?_concat, List.dropLast_concat, Nat.lt_irrefl,
    decide_false] at hentry
  obtain ⟨⟨dir, node⟩, hdir, hentry⟩ := except_bind_eq_ok.1 hentry
  rcases node with _ | _
  · cases hentry
  · cases hentry
    dsimp only at h
    split_ifs at h with hdots
    obtain ⟨t', hinsert, h⟩ := except_bind_eq_ok.1 h
    cases h
    exact ⟨dir, hdir, FileTree.isUpdate_of_insert hinsert, rfl⟩

/-! ## Additions -/

/-- The files afterwards were there before or are allowed. -/
def Adds (allowed : Place → ByteArray → Prop) (files files' : FileSystem) : Prop :=
  ∀ q found, files'.tree.node? q = some (.file found) →
    files.tree.node? q = some (.file found) ∨ allowed q found

/-- Whatever an operation gives, it adds no files but some. -/
def AddsOnly {α : Type} (allowed : Place → ByteArray → Prop) (op : Io FileSystem α) : Prop :=
  Relates (Adds allowed) op

theorem Adds.refl (allowed : Place → ByteArray → Prop) (files : FileSystem) :
    Adds allowed files files :=
  fun _ _ => .inl

theorem Adds.trans {allowed : Place → ByteArray → Prop} ⦃files files₁ files₂ : FileSystem⦄
    (h : Adds allowed files files₁) (h' : Adds allowed files₁ files₂) :
    Adds allowed files files₂ :=
  fun q found hfound => (h' q found hfound).elim (h q found) .inr

namespace AddsOnly

variable {α β : Type} {allowed : Place → ByteArray → Prop} {op : Io FileSystem α}

theorem of_eq (h : ∀ files, (exec op files).2 = files) : AddsOnly allowed op :=
  Relates.of_eq (Adds.refl allowed) h

theorem bind {f : α → Io FileSystem β} (hop : AddsOnly allowed op)
    (hf : ∀ a, AddsOnly allowed (f a)) : AddsOnly allowed (op >>= f) :=
  Relates.bind Adds.trans hop hf

theorem tryCatch {handler : IoError → Io FileSystem α} (hop : AddsOnly allowed op)
    (hhandler : ∀ e, AddsOnly allowed (handler e)) :
    AddsOnly allowed (MonadExcept.tryCatch op handler) :=
  Relates.tryCatch Adds.trans hop hhandler

theorem forM {l : List β} {body : β → Io FileSystem Unit}
    (hbody : ∀ b ∈ l, AddsOnly allowed (body b)) : AddsOnly allowed (l.forM body) :=
  Relates.forM Adds.trans (Adds.refl allowed) hbody

/-- An operation that changes nothing if it fails. -/
theorem orKeep {f : FileSystem → Except IoError FileSystem}
    (h : ∀ files files', f files = .ok files' → Adds allowed files files') :
    AddsOnly allowed (Io.orKeep f) := by
  intro files q found hfound
  rcases hresult : f files with e | files'
  · rw [exec_orKeep_of_error hresult] at hfound
    exact .inl hfound
  · rw [exec_orKeep_of_ok hresult] at hfound
    exact h files files' hresult q found hfound

/-! ### Files and directories -/

/-- An update that puts no file there adds none. -/
theorem of_isUpdate {t t' : FileTree} {place q : Place} {node : Option FileNode}
    {found : ByteArray} (h : IsUpdate t t' place node)
    (hnode : ∀ content, node ≠ some (.file content))
    (hfound : t'.node? q = some (.file found)) : t.node? q = some (.file found) := by
  rw [h] at hfound
  split_ifs at hfound
  · exact absurd hfound (hnode found)
  · exact hfound

theorem of_remove {t t' : FileTree} {place q : Place} {found : ByteArray}
    (h : t.remove place = .ok t') (hfound : t'.node? q = some (.file found)) :
    t.node? q = some (.file found) := by
  rcases eq_or_ne place [] with rfl | hne
  · -- The node of the top is a directory, whatever is bound there.
    unfold FileTree.remove at h
    split at h
    · cases h
      rcases eq_or_ne q [] with rfl | hq
      · cases hfound
      · rw [FileTree.node?_of_ne_nil hq] at hfound ⊢
        have herased : (t.nodes.erase []).get? q = some (.file found) := hfound
        rwa [SortedMap.get?_erase, if_neg hq] at herased
    · cases h
  · exact of_isUpdate (FileTree.isUpdate_of_remove hne h) (by simp) hfound

theorem removeFile (path : FilePath) : AddsOnly allowed (FileSystem.removeFile path) := by
  refine orKeep fun files files' h q found hfound => .inl ?_
  obtain ⟨⟨place, _ | _⟩, -, h⟩ := except_bind_eq_ok.1 h
  · obtain ⟨t', hremove, h⟩ := except_bind_eq_ok.1 h
    cases h
    exact of_remove hremove hfound
  · cases h

theorem removeDirectory (path : FilePath) : AddsOnly allowed (FileSystem.removeDirectory path) := by
  refine orKeep fun files files' h q found hfound => .inl ?_
  obtain ⟨⟨place, _ | _⟩, -, h⟩ := except_bind_eq_ok.1 h
  · cases h
  · obtain ⟨t', hremove, h⟩ := except_bind_eq_ok.1 h
    cases h
    exact of_remove hremove hfound

theorem createDirectory (path : FilePath) : AddsOnly allowed (FileSystem.createDirectory path) := by
  refine orKeep fun files files' h q found hfound => .inl ?_
  obtain ⟨⟨directory, _ | name, slash⟩, -, h⟩ := except_bind_eq_ok.1 h
  · cases h
  · dsimp only at h
    split_ifs at h
    · cases h
    · obtain ⟨t', hinsert, h⟩ := except_bind_eq_ok.1 h
      cases h
      exact of_isUpdate (FileTree.isUpdate_of_insert hinsert) (by simp) hfound

theorem ensureDirectory (path : FilePath) : AddsOnly allowed (FileSystem.ensureDirectory path) := by
  refine (createDirectory path).tryCatch fun e => of_eq fun files => ?_
  show (exec (if files.isDirectory path = true then pure () else throw e : Io FileSystem Unit)
    files).2 = files
  split_ifs <;> rfl

theorem createDirectories (path : FilePath) :
    AddsOnly allowed (FileSystem.createDirectories path) := by
  induction path using FileSystem.createDirectories.induct with
  | case1 path hempty =>
    rw [FileSystem.createDirectories, if_pos hempty]
    exact of_eq fun _ => rfl
  | case2 path hempty ih =>
    rw [FileSystem.createDirectories, if_neg hempty]
    refine (ensureDirectory path).tryCatch fun e => ?_
    split
    · rename_i parent hparent
      split_ifs
      · exact (ih parent hparent).bind fun _ => ensureDirectory path
      · exact of_eq fun _ => rfl
    · exact of_eq fun _ => rfl

theorem createParents (path : FilePath) : AddsOnly allowed (FileSystem.createParents path) := by
  unfold FileSystem.createParents
  split
  · exact createDirectories _
  · exact of_eq fun _ => rfl

end AddsOnly

/-- A renamed file has the content that it had under its former path. -/
theorem of_rename {source target : FilePath} (hnames : target.names = names ++ [name])
    (hne : name ≠ "") (h : exec (rename source target) files = (.ok (), files')) :
    ∃ old content dir node, files.resolve source = .ok (old, .file content) ∧
      files.tree.follow (files.start target) names = .ok (dir, node) ∧
      Adds (fun q found => q = dir ++ [name] ∧ found = content) files files' := by
  obtain ⟨⟨old, content | _⟩, hold, hmoved⟩ := except_bind_eq_ok.1 (of_exec_orKeep h)
  · obtain ⟨files₁, hupdated, hrest⟩ := except_bind_eq_ok.1 hmoved
    obtain ⟨⟨new, _⟩, -, hremoved⟩ := except_bind_eq_ok.1 hrest
    obtain ⟨dir, hdir, hupdate, -⟩ := of_updated hnames hne hupdated
    refine ⟨old, content, dir, .directory, hold, hdir, fun q found hfound => ?_⟩
    have hfound₁ : files₁.tree.node? q = some (.file found) := by
      dsimp only at hremoved
      split_ifs at hremoved
      · cases hremoved
        exact hfound
      · obtain ⟨t', hremove, hdone⟩ := except_bind_eq_ok.1 hremoved
        cases hdone
        exact AddsOnly.of_remove hremove hfound
    rw [hupdate] at hfound₁
    split_ifs at hfound₁ with hq
    · cases hfound₁
      exact .inr ⟨hq, rfl⟩
    · exact .inl hfound₁
  · cases hmoved

/-- Wherever the names before the last one lead in some tree, they lead there from the same start in
another one, if anywhere, and the last one is a step from there. -/
theorem eq_of_resolve {files₁ : FileSystem} {place old : Place} {node found : FileNode}
    (hnames : path.names = names ++ [name]) (hname : name ∉ ["", ".", ".."])
    (hstart : files₁.start path = files.start path)
    (hplace : files.tree.follow (files.start path) names = .ok (place, node))
    (h : files₁.resolve path = .ok (old, found)) :
    old = place ++ [name] ∧ files₁.tree.node? old = some found := by
  obtain ⟨_, -, hfollow⟩ := except_bind_eq_ok.1 h
  refine ⟨?_, FileTree.node?_of_follow hfollow⟩
  rw [hnames, hstart, FileTree.follow_append] at hfollow
  obtain ⟨⟨place₁, _⟩, hplace₁, hlast⟩ := except_bind_eq_ok.1 hfollow
  obtain rfl := FileTree.place_eq_of_follow hplace₁ hplace
  rw [FileTree.follow_cons] at hlast
  obtain ⟨next, hstep, hnext⟩ := except_bind_eq_ok.1 hlast
  rw [FileTree.eq_of_follow (List.forall_mem_nil _) hnext, FileTree.eq_of_step hname hstep,
    List.append_nil]

/-- A file is written under a temporary name and renamed: it is the one just written, since its path
leads to the same place as before. -/
theorem addsOnly_write_rename {root : FilePath} {dir : List String} {name temporary : String}
    (plain : ∀ n ∈ dir, IsPlain n) (hname : name ≠ "")
    (htemporary : temporary ∉ ["", ".", ".."]) (content : ByteArray) :
    AddsOnly (fun q found => (∃ place, q = place ++ (dir ++ [name])) ∧ found = content ∨
        ∃ place, q = place ++ [temporary])
      (do
        write (root.below (dir ++ [temporary])) content
        rename (root.below (dir ++ [temporary])) (root.below (dir ++ [name]))) := by
  have hnames (last : String) :
      (root.below (dir ++ [last])).names = (root.stem ++ dir) ++ [last] := by
    rw [FilePath.below_eq, List.append_assoc]
  intro files q found hfound
  -- Three outcomes: nothing was written, only the temporary file was, or it was renamed as well.
  rcases hupdated : files.updated (root.below (dir ++ [temporary])) (fun _ => content) with
    e | files₁
  · rw [exec_bind_of_error (show exec (write _ content) files = _ from
      exec_orKeep_of_error hupdated)] at hfound
    exact .inl hfound
  rw [exec_bind_of_ok (show exec (write _ content) files = _ from
    exec_orKeep_of_ok hupdated)] at hfound
  obtain ⟨place, hplace, hwritten, hstart⟩ :=
    of_updated (hnames temporary) (fun heq => htemporary (by simp [heq])) hupdated
  have hfirst (hfound : files₁.tree.node? q = some (.file found)) :
      files.tree.node? q = some (.file found) ∨ ∃ place, q = place ++ [temporary] := by
    rw [hwritten] at hfound
    split_ifs at hfound with hq
    · exact .inr ⟨place, hq⟩
    · exact .inl hfound
  rcases hresult : exec (rename (root.below (dir ++ [temporary])) (root.below (dir ++ [name])))
    files₁ with ⟨e | _, files₂⟩ <;> rw [hresult] at hfound
  · have hkept : files₂ = files₁ := by
      rw [rename, Io.orKeep, exec_mk] at hresult
      split at hresult <;> cases hresult
      rfl
    exact (hfirst (hkept ▸ hfound)).imp_right .inr
  · obtain ⟨old, moved, target, node, hold, htarget, hadds⟩ :=
      of_rename (hnames name) hname hresult
    rcases hadds q found hfound with hfound | ⟨rfl, rfl⟩
    · exact (hfirst hfound).imp_right .inr
    refine .inr (.inl ⟨?_, ?_⟩)
    · obtain ⟨⟨base, _⟩, -, hdir⟩ := except_bind_eq_ok.1 ((FileTree.follow_append ..).symm.trans htarget)
      exact ⟨base, by rw [FileTree.eq_of_follow plain hdir, List.append_assoc]⟩
    · -- The temporary file is still where it was written.
      have hstart₁ := congrFun hstart (root.below (dir ++ [temporary]))
      obtain ⟨rfl, hnode⟩ := eq_of_resolve (hnames temporary) htemporary hstart₁ hplace hold
      rw [hwritten, if_pos rfl] at hnode
      cases hnode
      rfl

end FileSystem

/-! ## The storage -/

namespace DirectoryStorage

open FileSystem (AddsOnly)

variable {s : DirectoryStorage} {path : RecordPath} {texts : List String} {content : ByteArray}
  {allowed : Place → ByteArray → Prop}

/-- The file of a record, at any place that the root may have. -/
def Holds (s : DirectoryStorage) (files : FileSystem) (path : RecordPath) (content : ByteArray) :
    Prop :=
  s.isRecord path = true ∧
    ∃ place, files.tree.node? (place ++ path.segments) = some (.file content)

theorem isPlain_ofTexts (texts : List String) :
    ∀ n ∈ (RecordPath.ofTexts texts).segments, IsPlain n :=
  fun _ hn => (RecordPath.isSegment_of_mem_ofTexts hn).isPlain

theorem holds_of_read {files : FileSystem}
    (h : s.read (.ofTexts texts) files = .ok (some content)) :
    s.Holds files (.ofTexts texts) content := by
  obtain ⟨_, hcheck, hread⟩ := except_bind_eq_ok.1 h
  refine ⟨checkRecord_eq_ok.1 hcheck, ?_⟩
  rcases hcontent : files.read (s.filePath (.ofTexts texts)) with e | found <;>
    rw [hcontent] at hread
  · cases e <;> cases hread
  · cases hread
    obtain ⟨⟨q, found | _⟩, hresolve, hfound⟩ := except_bind_eq_ok.1 hcontent
    · cases hfound
      obtain ⟨_, -, hfollow⟩ := except_bind_eq_ok.1 hresolve
      rw [filePath, FilePath.below_eq] at hfollow
      dsimp only at hfollow
      rw [FileTree.follow_append] at hfollow
      obtain ⟨⟨place, _⟩, -, hrest⟩ := except_bind_eq_ok.1 hfollow
      obtain rfl := FileTree.eq_of_follow (isPlain_ofTexts texts) hrest
      exact ⟨place, FileTree.node?_of_follow hrest⟩
    · cases hfound

theorem addsOnly_checkRecord (path : RecordPath) :
    AddsOnly allowed (ExceptT.mk fun files => (s.checkRecord path, files)) :=
  .of_eq fun _ => rfl

/-- The name of a temporary file leads to a file. -/
theorem temporaryName_not_mem (writer name : String) :
    temporaryName writer name ∉ ["", ".", ".."] := by
  have hlength : 5 ≤ (temporaryName writer name).toList.length := by
    have hend : ".tmp".toList.length = 4 := by decide
    have hstart : ".".toList.length = 1 := by decide
    simp only [temporaryName, String.toList_append, List.length_append, hend, hstart]
    omega
  intro hmem
  simp only [List.mem_cons, List.not_mem_nil, or_false] at hmem
  rcases hmem with heq | heq | heq <;> rw [heq] at hlength <;> exact absurd hlength (by decide)

/-- A write adds the record, and a temporary file. -/
theorem addsOnly_write {dir : List String} {name : String}
    (hsegments : path.segments = dir ++ [name]) (plain : ∀ n ∈ path.segments, IsPlain n) :
    AddsOnly (fun q found => (∃ place, q = place ++ path.segments) ∧ found = content ∨
      ∃ place, q = place ++ [temporaryName s.writer name]) (s.write path content) := by
  rw [hsegments] at plain ⊢
  refine (addsOnly_checkRecord path).bind fun _ => ?_
  dsimp only
  rw [temporaryPath_eq s hsegments, filePath, hsegments]
  refine (AddsOnly.createParents _).bind fun _ => ?_
  refine (FileSystem.addsOnly_write_rename (fun n hn => plain n (List.mem_append_left _ hn))
    (plain name (by simp)).ne_empty (temporaryName_not_mem s.writer name)
    content).tryCatch fun e => ?_
  exact ((AddsOnly.removeFile _).tryCatch fun _ => .of_eq fun _ => rfl).bind fun _ =>
    .of_eq fun _ => rfl

theorem addsOnly_removeIfPresent (path : FilePath) : AddsOnly allowed (removeIfPresent path) :=
  relates_removeIfPresent (FileSystem.Adds.refl allowed) FileSystem.Adds.trans
    (AddsOnly.removeFile path)

theorem addsOnly_remove (path : RecordPath) : AddsOnly allowed (s.remove path) :=
  (addsOnly_checkRecord path).bind fun _ => addsOnly_removeIfPresent _

theorem addsOnly_prune (names : List String) : AddsOnly allowed (s.prune names) :=
  relates_prune (FileSystem.Adds.refl allowed) FileSystem.Adds.trans fun _ _ _ =>
    AddsOnly.removeDirectory _

theorem addsOnly_clear : AddsOnly allowed s.clear := by
  refine AddsOnly.bind (.of_eq fun _ => rfl) fun found => ?_
  refine (AddsOnly.forM fun path _ => ?_).bind fun _ => .forM fun names _ => ?_
  · exact (addsOnly_remove path).bind fun _ => addsOnly_prune _
  · refine (addsOnly_removeIfPresent _).bind fun removed => ?_
    split_ifs
    · exact addsOnly_prune _
    · exact .of_eq fun _ => rfl

/-- What an operation adds to the files, the storage may hold. -/
theorem holds_of_addsOnly {α : Type} {op : Io FileSystem α} (h : AddsOnly allowed op)
    {files : FileSystem} (hfound : s.Holds (exec op files).2 path content) :
    s.Holds files path content ∨
      s.isRecord path = true ∧ ∃ place, allowed (place ++ path.segments) content := by
  obtain ⟨hrecord, place, hfile⟩ := hfound
  exact (h files _ content hfile).imp (fun hbefore => ⟨hrecord, place, hbefore⟩)
    fun hallowed => ⟨hrecord, place, hallowed⟩

/-- An operation that adds no files adds nothing to what the storage holds. -/
theorem holds_of_addsNothing {α : Type} {op : Io FileSystem α}
    (h : AddsOnly (fun _ _ => False) op) {files : FileSystem}
    (hfound : s.Holds (exec op files).2 path content) : s.Holds files path content :=
  (holds_of_addsOnly h hfound).resolve_right fun ⟨_, _, hfalse⟩ => hfalse

theorem exec_write_of_not_isRecord (h : ¬ s.isRecord path = true) (files : FileSystem) :
    (exec (s.write path content) files).2 = files := by
  rcases hcheck : s.checkRecord path with e | _
  · have hwrite : exec (s.write path content) files = (.error e, files) :=
      exec_bind_of_error (by rw [exec_mk, hcheck])
    rw [hwrite]
  · exact absurd (checkRecord_eq_ok.1 hcheck) h

/-- A write adds its content at its path. -/
theorem holds_of_write {files : FileSystem} {found : ByteArray}
    (hfound : s.Holds (exec (s.write (.ofTexts texts) content) files).2 path found) :
    s.Holds files path found ∨ path = .ofTexts texts ∧ found = content := by
  by_cases hrecord : s.isRecord (.ofTexts texts) = true
  · obtain ⟨hdepth, name, hname, -⟩ := isRecord_iff.1 hrecord
    obtain ⟨dir, hsegments⟩ := List.getLast?_eq_some_iff.1 hname
    refine (holds_of_addsOnly (addsOnly_write hsegments (isPlain_ofTexts texts))
      hfound).imp_right ?_
    rintro ⟨hpath, place, ⟨⟨place', heq⟩, rfl⟩ | ⟨place', heq⟩⟩
    · -- Record paths have one length, so they are the ends of the two places.
      obtain ⟨hdepth', -⟩ := isRecord_iff.1 hpath
      obtain ⟨-, hsame⟩ := List.append_inj' heq (hdepth'.trans hdepth.symm)
      exact ⟨congrArg RecordPath.mk hsame, rfl⟩
    · -- The name of a temporary file is not that of a record.
      obtain ⟨-, name', hname', hrecordName⟩ := isRecord_iff.1 hpath
      obtain ⟨dir', hsegments'⟩ := List.getLast?_eq_some_iff.1 hname'
      rw [hsegments', ← List.append_assoc] at heq
      obtain ⟨-, hlast⟩ := List.append_inj' heq rfl
      rw [List.singleton_inj.1 hlast, isRecordName_temporaryName] at hrecordName
      cases hrecordName
  · rw [exec_write_of_not_isRecord hrecord] at hfound
    exact .inl hfound

/-- **A storage in a directory is faithful**, whatever the files are. -/
theorem faithful (s : DirectoryStorage) : s.storage.Faithful s.Holds where
  read := holds_of_read
  write := holds_of_write
  remove := holds_of_addsNothing (addsOnly_remove _)
  clear := holds_of_addsNothing addsOnly_clear

end DirectoryStorage

/-- The storages of a host, as parts of it. -/
theorem Host.faithful_storages :
    (memoryStorage.Faithful fun h => h.memory.Holds) ∧
      (tunerStorage.Faithful fun h => h.tunerMemory.Holds) ∧
      ∀ d : DirectoryStorage, (directoryStorage d).Faithful fun h => d.Holds h.files :=
  ⟨MemoryStorage.faithful.focus fun _ _ => rfl, MemoryStorage.faithful.focus fun _ _ => rfl,
    fun d => d.faithful.focus fun _ _ => rfl⟩

end KernelTuning
