import KernelTuning.Proofs.FaithfulStorages

/-!
# Written records are read

A storage works for a record if the record is read as it was written last (`ReadsWritten`). This is
said of one state, and only of writes that succeed there.

**Memory.** The storage in memory works while reads work, also as a part of a larger state
(`ReadsWritten.focus`).

**Theorem (`DirectoryStorage.readsWritten`).** A storage in a directory works in every state of the
files, for every path. Nothing is assumed of the root and of what lies there: if the two steps of a
write have succeeded, the path leads to the new content (`read_of_write_rename`), since no path
passes through the temporary file that is gone afterwards.
-/

namespace KernelTuning

variable {σ τ : Type}

/-! ## Storages that work -/

/-- What is written to a record is read from it. -/
def RecordStorage.ReadsWritten (s : RecordStorage σ) (path : RecordPath) (state : σ) : Prop :=
  ∀ {content : ByteArray} {state' : σ}, exec (s.write path content) state = (.ok (), state') →
    s.read path state' = .ok (some content)

theorem RecordStorage.ReadsWritten.focus {s : RecordStorage σ} {path : RecordPath} {view : τ → σ}
    {update : σ → τ → τ} (view_update : ∀ part whole, view (update part whole) = part) {whole : τ}
    (h : s.ReadsWritten path (view whole)) : (s.focus view update).ReadsWritten path whole := by
  intro content whole' hwrite
  rcases hpart : exec (s.write path content) (view whole) with ⟨result, part⟩
  have hfocus : exec ((s.focus view update).write path content) whole =
      (result, update part whole) := by
    show ((exec (s.write path content) (view whole)).1,
      update (exec (s.write path content) (view whole)).2 whole) = _
    rw [hpart]
  obtain ⟨rfl, rfl⟩ := Prod.mk.inj (hfocus.symm.trans hwrite)
  show s.read path (view (update part whole)) = _
  rw [view_update]
  exact h hpart

theorem MemoryStorage.readsWritten (path : RecordPath) {m : MemoryStorage}
    (readable : m.failsReads = false) : storage.ReadsWritten path m := by
  intro content m' hwrite
  change exec (write path content) m = _ at hwrite
  unfold write change at hwrite
  rw [exec_mk] at hwrite
  split at hwrite
  · cases hwrite
  · cases hwrite
    show read path { m with records := m.records.insert path content } = _
    unfold read
    rw [readable, SortedMap.get?_insert_self]
    rfl

/-- What a tuner reports before it stores its result is in nobody's way. -/
theorem Tuner.InMemory.readsWritten {t : Tuner σ} {memory : σ → MemoryStorage}
    {update : MemoryStorage → σ → σ} (h : t.InMemory memory update) {s : σ}
    (readable : (memory s).failsReads = false) (path : RecordPath) (events : List TuningEvent) :
    t.storage.ReadsWritten path (t.report events s) := by
  rw [h.storage]
  refine RecordStorage.ReadsWritten.focus h.memory_update (MemoryStorage.readsWritten path ?_)
  rw [h.memory_report]
  exact readable

/-! ## Directories -/

namespace FileSystem

variable {files files' : FileSystem} {names : List String} {name temporary : String}
  {source target : FilePath} {content : ByteArray}

/-- A file that is written and renamed is read under its new path. -/
theorem read_of_write_rename (hsource : source.names = names ++ [temporary])
    (htarget : target.names = names ++ [name]) (htemporary : temporary ∉ ["", ".", ".."])
    (hname : name ∉ ["", ".", ".."])
    (h : exec (do write source content; rename source target) files = (.ok (), files')) :
    files'.read target = .ok content := by
  obtain ⟨_, files₁, hwrite, hrename⟩ := exec_bind_eq_ok h
  obtain ⟨place, hplace, hwritten, hstart⟩ :=
    of_updated hsource (fun heq => htemporary (by simp [heq])) (of_exec_orKeep hwrite)
  obtain ⟨⟨old, moved | _⟩, hold, hmoved⟩ := except_bind_eq_ok.1 (of_exec_orKeep hrename)
  swap
  · cases hmoved
  -- The file that is renamed is the one just written.
  obtain ⟨rfl, hfile⟩ :=
    eq_of_resolve hsource htemporary (congrFun hstart source) hplace hold
  obtain rfl : content = moved := by
    rw [hwritten, if_pos rfl] at hfile
    cases hfile
    rfl
  obtain ⟨files₂, hupdated, hrest⟩ := except_bind_eq_ok.1 hmoved
  obtain ⟨⟨new, node⟩, hnew, hremoved⟩ := except_bind_eq_ok.1 hrest
  obtain ⟨dir, hdir, hupdate, hstart₂⟩ :=
    of_updated htarget (fun heq => hname (by simp [heq])) hupdated
  obtain ⟨rfl, hnode⟩ := eq_of_resolve htarget hname (congrFun hstart₂ target) hdir hnew
  obtain rfl : node = .file content := by
    rw [hupdate, if_pos rfl] at hnode
    cases hnode
    rfl
  have read_of_resolve {files : FileSystem} (hresolve : files.resolve target =
      .ok (dir ++ [name], .file content)) : files.read target = .ok content := by
    rw [read, hresolve]
    rfl
  dsimp only at hremoved
  -- A rename within one place keeps the file. Else removing the old place leaves the new one alone.
  split_ifs at hremoved with hsame
  · cases hremoved
    exact read_of_resolve hnew
  · obtain ⟨t', hremove, hdone⟩ := except_bind_eq_ok.1 hremoved
    cases hdone
    have hupdate' := FileTree.isUpdate_of_remove (by simp) hremove
    obtain ⟨_, hcheck, hfollow⟩ := except_bind_eq_ok.1 hnew
    refine read_of_resolve (except_bind_eq_ok.2 ⟨_, hcheck, ?_⟩)
    refine FileTree.follow_of_directories (fun p hp => ?_) ?_ hfollow
    · rw [hupdate', if_neg, hp]
      rintro rfl
      rw [hupdate, if_neg (Ne.symm hsame), hfile] at hp
      cases hp
    · rw [hupdate', if_neg hsame, hnode]

end FileSystem

namespace DirectoryStorage

theorem exec_of_orCleanUp {op cleanUp : Io FileSystem Unit} {files files' : FileSystem}
    (h : exec (orCleanUp op cleanUp) files = (.ok (), files')) :
    exec op files = (.ok (), files') := by
  unfold orCleanUp at h
  rcases hop : exec op files with ⟨e | _, files₁⟩
  · rw [exec_tryCatch_of_error hop] at h
    obtain ⟨_, _, -, hthrow⟩ := exec_bind_eq_ok h
    cases hthrow
  · rw [exec_tryCatch_of_ok hop] at h
    exact h

/-- **What is written in a directory is read there**, whatever lies in it. -/
theorem readsWritten (s : DirectoryStorage) (path : RecordPath) (files : FileSystem) :
    s.storage.ReadsWritten path files := by
  intro content files' hwrite
  obtain ⟨_, files₀, haccepted, hrest⟩ := exec_bind_eq_ok hwrite
  obtain ⟨hcheck, -⟩ : s.checkRecord path = .ok () ∧ files = files₀ := Prod.mk.inj haccepted
  obtain ⟨-, name, hlast, hrecord⟩ := isRecord_iff.1 (checkRecord_eq_ok.1 hcheck)
  obtain ⟨dir, hsegments⟩ := List.getLast?_eq_some_iff.1 hlast
  have hname : name ∉ ["", ".", ".."] := by
    intro hmem
    rw [isRecordName_iff] at hrecord
    simp only [List.mem_cons, List.not_mem_nil, or_false] at hmem
    rcases hmem with rfl | rfl | rfl <;> revert hrecord <;> decide
  have hnames (last : String) :
      (s.root.below (dir ++ [last])).names = (s.root.stem ++ dir) ++ [last] := by
    rw [FilePath.below_eq, List.append_assoc]
  dsimp only at hrest
  rw [temporaryPath_eq s hsegments, filePath, hsegments] at hrest
  obtain ⟨_, files₁, -, hreplaced⟩ := exec_bind_eq_ok hrest
  -- What creating the directories did does not matter, only the last two operations do.
  have hread := FileSystem.read_of_write_rename (hnames (temporaryName s.writer name))
    (hnames name) (temporaryName_not_mem s.writer name) hname (exec_of_orCleanUp hreplaced)
  show s.read path files' = _
  unfold read
  rw [hcheck, filePath, hsegments]
  show orMissing none ((files'.read (s.root.below (dir ++ [name]))).map some) = _
  rw [hread]
  rfl

end DirectoryStorage

end KernelTuning
