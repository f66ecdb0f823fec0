import KernelTuning.Proofs.FileTrees
import KernelTuning.Proofs.Running

/-!
# Files below a directory

What the operations of a file system do to plain names below a directory.
-/

namespace KernelTuning

open FileTree (IsPlain IsUpdate SameOutside)

/-! ## Operations that may fail -/

section

variable {ε σ α β : Type} {s s' : σ}

theorem exec_tryCatch (x : ExceptT ε (StateM σ) α) (h : ε → ExceptT ε (StateM σ) α) (s : σ) :
    exec (tryCatch x h) s =
      match exec x s with
      | (.ok a, s') => (.ok a, s')
      | (.error e, s') => exec (h e) s' := by
  show (match (exec x s).1 with | .ok a => _ | .error e => _ : StateM σ _) (exec x s).2 = _
  rcases exec x s with ⟨_ | _, _⟩ <;> rfl

theorem exec_tryCatch_of_ok {x : ExceptT ε (StateM σ) α} {h : ε → ExceptT ε (StateM σ) α} {a : α}
    (hx : exec x s = (.ok a, s')) : exec (tryCatch x h) s = (.ok a, s') := by
  rw [exec_tryCatch, hx]

theorem exec_tryCatch_of_error {x : ExceptT ε (StateM σ) α} {h : ε → ExceptT ε (StateM σ) α}
    {e : ε} (hx : exec x s = (.error e, s')) : exec (tryCatch x h) s = exec (h e) s' := by
  rw [exec_tryCatch, hx]

theorem exec_orKeep_of_ok {f : σ → Except IoError σ} (h : f s = .ok s') :
    exec (Io.orKeep f) s = (.ok (), s') := by
  rw [Io.orKeep, exec_mk, h]

theorem exec_orKeep_of_error {f : σ → Except IoError σ} {e : IoError} (h : f s = .error e) :
    exec (Io.orKeep f) s = (.error e, s) := by
  rw [Io.orKeep, exec_mk, h]

theorem of_exec_orKeep {f : σ → Except IoError σ} (h : exec (Io.orKeep f) s = (.ok (), s')) :
    f s = .ok s' := by
  rcases hf : f s with e | s₁
  · rw [exec_orKeep_of_error hf] at h
    cases h
  · rw [exec_orKeep_of_ok hf] at h
    cases h
    rfl

end

/-! ## Relations between states -/

/-- Whatever an operation gives, the state before it is related to the one after it. -/
def Relates {σ α : Type} (R : σ → σ → Prop) (op : Io σ α) : Prop := ∀ s, R s (exec op s).2

namespace Relates

variable {σ α β : Type} {R : σ → σ → Prop} {op : Io σ α}

theorem of_eq (refl : ∀ s, R s s) (h : ∀ s, (exec op s).2 = s) : Relates R op := by
  intro s
  rw [h s]
  exact refl s

section

variable (trans : ∀ ⦃s s₁ s₂⦄, R s s₁ → R s₁ s₂ → R s s₂)

include trans

theorem bind {f : α → Io σ β} (hop : Relates R op) (hf : ∀ a, Relates R (f a)) :
    Relates R (op >>= f) := by
  intro s
  have hbefore := hop s
  rw [exec_bind]
  rcases hresult : exec op s with ⟨e | a, s₁⟩ <;> rw [hresult] at hbefore
  · exact hbefore
  · exact trans hbefore (hf a s₁)

theorem tryCatch {handler : IoError → Io σ α} (hop : Relates R op)
    (hhandler : ∀ e, Relates R (handler e)) : Relates R (MonadExcept.tryCatch op handler) := by
  intro s
  have hbefore := hop s
  rw [exec_tryCatch]
  rcases hresult : exec op s with ⟨e | a, s₁⟩ <;> rw [hresult] at hbefore
  · exact trans hbefore (hhandler e s₁)
  · exact hbefore

theorem forM (refl : ∀ s, R s s) {l : List β} {body : β → Io σ Unit}
    (hbody : ∀ b ∈ l, Relates R (body b)) : Relates R (l.forM body) := by
  induction l with
  | nil => exact of_eq refl fun s => rfl
  | cons b rest ih =>
    rw [List.forM]
    exact bind trans (hbody b List.mem_cons_self) fun _ =>
      ih fun c hc => hbody c (List.mem_cons_of_mem _ hc)

end

end Relates

/-! ## Paths -/

namespace FilePath

/-- The names of a path without a slash at its end. -/
def stem (p : FilePath) : List String :=
  if p.names.getLast? = some "" then p.names.dropLast else p.names

theorem below_eq (p : FilePath) (names : List String) :
    p.below names = { p with names := p.stem ++ names } := rfl

/-- The path without idle names at its end. -/
def trimmed (p : FilePath) : FilePath := { p with names := trim p.isAbsolute p.stem }

theorem names_eq_stem (p : FilePath) : p.names = p.stem ∨ p.names = p.stem ++ [""] := by
  unfold stem
  split
  · rename_i h
    obtain ⟨init, hinit⟩ := List.getLast?_eq_some_iff.1 h
    rw [hinit, List.dropLast_concat]
    exact .inr rfl
  · exact .inl rfl

theorem trim_concat {name : String} (h : isIdle name = false) (isAbsolute : Bool)
    (names : List String) : trim isAbsolute (names ++ [name]) = names ++ [name] := by
  unfold trim
  rw [List.reverse_append, List.reverse_singleton, List.singleton_append,
    List.dropWhile_cons_of_neg (by simp [h])]
  simp

/-- The parent of a path below a directory. -/
theorem parent?_below (p : FilePath) (names : List String) {name : String} (h : IsPlain name) :
    (p.below (names ++ [name])).parent? =
      some { p with names := trim p.isAbsolute (p.stem ++ names) } := by
  have htrim : trim p.isAbsolute (p.stem ++ (names ++ [name])) = p.stem ++ names ++ [name] := by
    rw [← List.append_assoc]
    exact trim_concat h.not_isIdle _ _
  rw [below_eq]
  unfold parent?
  simp only
  rw [htrim]
  split
  · rename_i hnil
    simp at hnil
  · rw [List.dropLast_concat]

/-- The path of a directory that names are looked up in. -/
theorem trim_below {names : List String} (plain : ∀ name ∈ names, IsPlain name)
    (hne : names ≠ []) (p : FilePath) :
    { p with names := trim p.isAbsolute (p.stem ++ names) } = p.below names := by
  have hlast := plain _ (List.getLast_mem hne)
  rw [below_eq, ← List.dropLast_concat_getLast hne, ← List.append_assoc,
    trim_concat hlast.not_isIdle]

theorem stem_below {names : List String} (plain : ∀ name ∈ names, IsPlain name)
    (hne : names ≠ []) (p : FilePath) : (p.below names).stem = p.stem ++ names := by
  have hlast := plain _ (List.getLast_mem hne)
  refine if_neg ?_
  rw [below_eq, List.getLast?_append, List.getLast?_eq_some_getLast hne, Option.some_or]
  exact fun heq => hlast.ne_empty (Option.some.inj heq)

/-! ### Characters -/

theorem mem_intercalate {sep c : Char} (hne : c ≠ sep) {parts : List (List Char)} :
    c ∈ [sep].intercalate parts ↔ ∃ part ∈ parts, c ∈ part := by
  induction parts with
  | nil => simp [List.intercalate]
  | cons part parts ih =>
    cases parts with
    | nil => simp
    | cons next rest =>
      rw [List.intercalate_cons_cons, List.mem_append, List.mem_append, ih]
      simp [hne]

/-- The null character stands in the text of a path if and only if it stands in a name. -/
theorem mem_toText {p : FilePath} {c : Char} (hne : c ≠ '/') :
    c ∈ p.toText.toList ↔ ∃ name ∈ p.names, c ∈ name.toList := by
  have hslash : "/".toList = ['/'] := by decide
  unfold toText
  rw [String.toList_append, String.toList_intercalate, List.mem_append, hslash,
    mem_intercalate hne]
  cases p.isAbsolute <;> simp [hne]

end FilePath

/-! ## Roots -/

namespace FileSystem

variable {files : FileSystem} {root : FilePath} {place : Place} {dir names : List String}
  {name : String} {content : ByteArray} {t t' : FileTree}

theorem checkPath_eq_ok {path : FilePath} : files.checkPath path = .ok () ↔
    (∀ name ∈ path.names, Char.ofNat 0 ∉ name.toList) ∧ path.isEmpty = false ∧
      files.pathLimit.any (· < path.toText.utf8ByteSize) = false := by
  have hnull : path.toText.toList.contains (Char.ofNat 0) = false ↔
      ∀ name ∈ path.names, Char.ofNat 0 ∉ name.toList := by
    rw [← Bool.not_eq_true, List.contains_iff_mem, FilePath.mem_toText (by decide)]
    simp
  rw [← hnull]
  unfold checkPath
  simp only
  split_ifs with h₁ h₂ h₃ <;> simp_all

/-- The entry of a path that ends with a plain name. -/
theorem entry_of_concat {path : FilePath} (hcheck : files.checkPath path = .ok ())
    (hnames : path.names = names ++ [name]) (plain : IsPlain name) :
    files.entry path = files.tree.follow (files.start path) names >>= fun found =>
      if found.2.isDirectory then .ok ⟨found.1, some name, false⟩ else .error .notADirectory := by
  have hcore : ((names ++ [name]).reverse.dropWhile (· = "")).reverse = names ++ [name] := by
    rw [List.reverse_append, List.reverse_singleton, List.singleton_append,
      List.dropWhile_cons_of_neg (by simpa using plain.ne_empty)]
    simp
  have hlast : (names ++ [name]).getLast? = some name := List.getLast?_concat ..
  have hname : (if name = "." ∨ name = ".." then none else some name) = some name :=
    if_neg (not_or.2 ⟨plain.ne_dot, plain.ne_dots⟩)
  rw [entry, hcheck]
  simp only [hnames, hcore, hlast, List.dropLast_concat, hname, Nat.lt_irrefl, decide_false]
  show (files.tree.follow (files.start path) names >>= _) = _
  rcases files.tree.follow (files.start path) names with e | ⟨found, _ | _⟩ <;> rfl

theorem exec_removeFile_of_notFound {path : FilePath} (h : files.resolve path = .error .notFound) :
    exec (removeFile path) files = (.error .notFound, files) := by
  refine exec_orKeep_of_error ?_
  rw [h]
  rfl

theorem checkPath_below (limit : files.pathLimit = none)
    (noNull : ∀ name ∈ root.names, Char.ofNat 0 ∉ name.toList)
    (plain : ∀ name ∈ names, IsPlain name) (hne : names ≠ []) :
    files.checkPath (root.below names) = .ok () := by
  rw [checkPath_eq_ok, FilePath.below_eq]
  refine ⟨fun name hname => ?_, ?_, by rw [limit]; rfl⟩
  · rcases List.mem_append.1 hname with hname | hname
    · refine noNull name ?_
      rcases root.names_eq_stem with heq | heq <;> rw [heq]
      · exact hname
      · exact List.mem_append_left _ hname
    · exact (plain name hname).noNull
  · simp [FilePath.isEmpty, hne]

/-- A path leads to a directory, whatever lies below it, and the length of paths has no limit. -/
structure HasRoot (files : FileSystem) (root : FilePath) (place : Place) : Prop where
  limit : files.pathLimit = none
  noNull : ∀ name ∈ root.names, Char.ofNat 0 ∉ name.toList
  nonempty : root.isEmpty = false
  leads : ∀ t', SameOutside place files.tree t' →
    t'.follow (files.start root) root.names = .ok (place, .directory)

/-- A path to an empty directory keeps leading there. -/
theorem HasRoot.of_empty (limit : files.pathLimit = none)
    (h : files.resolve root = .ok (place, .directory))
    (nothing : ∀ names, names ≠ [] → files.tree.node? (place ++ names) = none) :
    files.HasRoot root place := by
  obtain ⟨_, hcheck, hfollow⟩ := except_bind_eq_ok.1 h
  obtain ⟨noNull, nonempty, -⟩ := checkPath_eq_ok.1 hcheck
  exact ⟨limit, noNull, nonempty, fun t' same => FileTree.follow_of_sameOutside nothing same hfollow⟩

namespace HasRoot

/-- What happens below the root does not move it. -/
theorem withTree (h : files.HasRoot root place) (same : SameOutside place files.tree t') :
    ({ files with tree := t' } : FileSystem).HasRoot root place where
  limit := h.limit
  noNull := h.noNull
  nonempty := h.nonempty
  leads t'' same' := h.leads t'' (same.trans same')

theorem follow_names (h : files.HasRoot root place) :
    files.tree.follow (files.start root) root.names = .ok (place, .directory) :=
  h.leads files.tree (.refl _ _)

theorem node?_root (h : files.HasRoot root place) : files.tree.node? place = some .directory :=
  FileTree.node?_of_follow h.follow_names

/-- A slash at the end of the root makes no difference. -/
theorem follow_stem (h : files.HasRoot root place) :
    files.tree.follow (files.start root) root.stem = .ok (place, .directory) := by
  have hnames := h.follow_names
  rcases root.names_eq_stem with heq | heq
  · rwa [heq] at hnames
  · rw [heq, FileTree.follow_append] at hnames
    obtain ⟨⟨q, node⟩, hstem, hlast⟩ := except_bind_eq_ok.1 hnames
    rw [FileTree.follow_cons] at hlast
    obtain ⟨next, hstep, hnil⟩ := except_bind_eq_ok.1 hlast
    have hdir := FileTree.node?_of_step hstep
    have hself : files.tree.step q "" = .ok q := by
      rw [FileTree.step, hdir]
      exact if_pos (.inl rfl)
    obtain rfl := Except.ok.inj (hself.symm.trans hstep)
    obtain rfl := Option.some.inj ((FileTree.node?_of_follow hstem).symm.trans hdir)
    rw [FileTree.follow, hdir] at hnil
    cases hnil
    exact hstem

theorem resolve_root (h : files.HasRoot root place) :
    files.resolve root = .ok (place, .directory) := by
  have hcheck : files.checkPath root = .ok () :=
    checkPath_eq_ok.2 ⟨h.noNull, h.nonempty, by rw [h.limit]; rfl⟩
  rw [resolve, hcheck]
  exact h.follow_names

theorem directoryAt_root (h : files.HasRoot root place) : files.directoryAt root = .ok place := by
  rw [directoryAt, h.resolve_root]
  rfl

theorem checkPath_below (h : files.HasRoot root place) (plain : ∀ name ∈ names, IsPlain name)
    (hne : names ≠ []) : files.checkPath (root.below names) = .ok () :=
  FileSystem.checkPath_below h.limit h.noNull plain hne

/-- Plain names below the root are looked up in the root. -/
theorem resolve_below (h : files.HasRoot root place) (plain : ∀ name ∈ names, IsPlain name)
    (hne : names ≠ []) : files.resolve (root.below names) = files.tree.follow place names := by
  rw [resolve, h.checkPath_below plain hne]
  show files.tree.follow (files.start root) (root.stem ++ names) = _
  rw [FileTree.follow_append, h.follow_stem]
  rfl

/-- The entry of plain names is the last of them, in the directory that the others lead to. -/
theorem entry_below (h : files.HasRoot root place) (plain : ∀ n ∈ dir ++ [name], IsPlain n)
    (hdir : files.tree.node? (place ++ dir) = some .directory) :
    files.entry (root.below (dir ++ [name])) = .ok ⟨place ++ dir, some name, false⟩ := by
  have hfollow : files.tree.follow (files.start root) (root.stem ++ dir) =
      .ok (place ++ dir, .directory) := by
    rw [FileTree.follow_append, h.follow_stem]
    exact FileTree.follow_of_node? (fun n hn => plain n (List.mem_append_left _ hn)) hdir
  rw [entry_of_concat (h.checkPath_below plain (by simp)) (List.append_assoc ..).symm
    (plain name (by simp))]
  show files.tree.follow (files.start root) (root.stem ++ dir) >>= _ = _
  rw [hfollow]
  rfl

/-! ## Files below the root -/

theorem exists_updated (h : files.HasRoot root place) (plain : ∀ n ∈ dir ++ [name], IsPlain n)
    (hdir : files.tree.node? (place ++ dir) = some .directory)
    (hnew : files.tree.node? (place ++ (dir ++ [name])) ≠ some .directory) (content : ByteArray) :
    ∃ t', files.updated (root.below (dir ++ [name])) (fun _ => content) =
        .ok { files with tree := t' } ∧
      IsUpdate files.tree t' (place ++ (dir ++ [name])) (some (.file content)) := by
  rw [← List.append_assoc] at hnew ⊢
  obtain ⟨t', hinsert, hupdate⟩ := FileTree.exists_insert (plain name (by simp)).size hdir hnew
    (.file content)
  refine ⟨t', ?_, hupdate⟩
  rw [updated, h.entry_below plain hdir]
  show (do return { files with tree := ← files.tree.insert _ _ _ } : Except IoError FileSystem) = _
  rw [hinsert]
  rfl

theorem exec_write (h : files.HasRoot root place) (plain : ∀ n ∈ dir ++ [name], IsPlain n)
    (hdir : files.tree.node? (place ++ dir) = some .directory)
    (hnew : files.tree.node? (place ++ (dir ++ [name])) ≠ some .directory) (content : ByteArray) :
    ∃ t', exec (FileSystem.write (root.below (dir ++ [name])) content) files =
        (.ok (), { files with tree := t' }) ∧
      IsUpdate files.tree t' (place ++ (dir ++ [name])) (some (.file content)) := by
  obtain ⟨t', hupdated, hupdate⟩ := h.exists_updated plain hdir hnew content
  exact ⟨t', exec_orKeep_of_ok hupdated, hupdate⟩

/-- A file can be removed. -/
theorem exec_removeFile (h : files.HasRoot root place) (plain : ∀ n ∈ names, IsPlain n)
    (hne : names ≠ []) (hfile : files.tree.node? (place ++ names) = some (.file content)) :
    ∃ t', exec (removeFile (root.below names)) files = (.ok (), { files with tree := t' }) ∧
      IsUpdate files.tree t' (place ++ names) none := by
  obtain ⟨t', hremove, hupdate⟩ := FileTree.exists_remove hfile
  refine ⟨t', exec_orKeep_of_ok ?_, hupdate⟩
  rw [h.resolve_below plain hne, FileTree.follow_of_node? plain hfile]
  show (do return { files with tree := ← files.tree.remove _ } : Except IoError FileSystem) = _
  rw [hremove]
  rfl

/-- A file takes the place of another one in its directory. -/
theorem exec_rename {temporary : String} (h : files.HasRoot root place)
    (plain : ∀ n ∈ dir ++ [name], IsPlain n) (plainTemporary : IsPlain temporary)
    (hne : temporary ≠ name)
    (hfile : files.tree.node? (place ++ (dir ++ [temporary])) = some (.file content))
    (hnew : files.tree.node? (place ++ (dir ++ [name])) ≠ some .directory) :
    ∃ t', exec (rename (root.below (dir ++ [temporary])) (root.below (dir ++ [name]))) files =
        (.ok (), { files with tree := t' }) ∧
      ∀ q, t'.node? q = if q = place ++ (dir ++ [temporary]) then none
        else if q = place ++ (dir ++ [name]) then some (.file content) else files.tree.node? q := by
  have plainDir : ∀ n ∈ dir, IsPlain n := fun n hn => plain n (List.mem_append_left _ hn)
  have plainSource : ∀ n ∈ dir ++ [temporary], IsPlain n := by
    simpa [or_imp, forall_and] using ⟨plainDir, plainTemporary⟩
  have hdir : files.tree.node? (place ++ dir) = some .directory := by
    rw [← List.append_assoc] at hfile
    exact FileTree.node?_eq_directory (by rw [hfile]; rfl)
  have hplaces : place ++ (dir ++ [name]) ≠ place ++ (dir ++ [temporary]) := by
    simpa using hne.symm
  -- The new place is filled before the old one is emptied.
  obtain ⟨t₁, hupdated, hupdate⟩ := h.exists_updated plain hdir hnew content
  have hroot₁ := h.withTree (hupdate.sameOutside (by simp))
  have hfile₁ : t₁.node? (place ++ (dir ++ [temporary])) = some (.file content) := by
    rw [hupdate, if_neg hplaces.symm, hfile]
  have hnew₁ : t₁.node? (place ++ (dir ++ [name])) = some (.file content) := by
    rw [hupdate, if_pos rfl]
  obtain ⟨t', hremove, hupdate'⟩ := FileTree.exists_remove hfile₁
  refine ⟨t', exec_orKeep_of_ok ?_, fun q => ?_⟩
  · rw [h.resolve_below plainSource (by simp), FileTree.follow_of_node? plainSource hfile]
    show (do
      let s ← files.updated (root.below (dir ++ [name])) fun _ => content
      let new ← s.resolve (root.below (dir ++ [name]))
      if new.1 = place ++ (dir ++ [temporary]) then return s
      else return { s with tree := ← s.tree.remove (place ++ (dir ++ [temporary])) }) = _
    rw [hupdated]
    show (do
      let new ← ({ files with tree := t₁ } : FileSystem).resolve (root.below (dir ++ [name]))
      if new.1 = place ++ (dir ++ [temporary]) then return { files with tree := t₁ }
      else return { files with tree := ← t₁.remove (place ++ (dir ++ [temporary])) }) = _
    rw [hroot₁.resolve_below plain (by simp), FileTree.follow_of_node? plain hnew₁]
    show (if place ++ (dir ++ [name]) = place ++ (dir ++ [temporary]) then _ else _) = _
    rw [if_neg hplaces, hremove]
    rfl
  · rw [hupdate', hupdate]

end HasRoot

/-! ## Directories that exist -/

/-- The name of an entry stands in the path, after names that lead to the directory of the entry and
before slashes. -/
theorem names_of_entry {path : FilePath} {e : Entry} (hentry : files.entry path = .ok e)
    (hname : e.name = some name) :
    ∃ init slashes, path.names = init ++ name :: slashes ∧ ¬ (name = "" ∨ name = ".") ∧
      name ≠ ".." ∧ files.tree.follow (files.start path) init = .ok (e.directory, .directory) := by
  obtain ⟨_, -, hentry⟩ := except_bind_eq_ok.1 hentry
  -- The trailing slashes of a path are empty names at its end.
  have hnames : path.names = (path.names.reverse.dropWhile (· = "")).reverse ++
      (path.names.reverse.takeWhile (· = "")).reverse := by
    rw [← List.reverse_append, List.takeWhile_append_dropWhile, List.reverse_reverse]
  dsimp only at hentry
  split at hentry
  · cases hentry
    cases hname
  · rename_i last hlast
    obtain ⟨init, hinit⟩ := List.getLast?_eq_some_iff.1 hlast
    obtain ⟨⟨directory, node⟩, hdir, hentry⟩ := except_bind_eq_ok.1 hentry
    rw [hinit, List.dropLast_concat] at hdir
    have hempty : last ≠ "" := by
      have hhead := List.head?_dropWhile_not (· = "") path.names.reverse
      rw [← List.getLast?_reverse, hlast] at hhead
      simpa using hhead
    rcases node with content | _ <;> cases hentry
    dsimp only at hname
    split_ifs at hname with hdots
    obtain rfl := Option.some.inj hname
    rw [not_or] at hdots
    refine ⟨init, (path.names.reverse.takeWhile (· = "")).reverse, hnames.trans ?_,
      not_or.2 ⟨hempty, hdots.1⟩, hdots.2, hdir⟩
    rw [hinit, List.append_assoc]
    rfl

/-- A path that leads somewhere has an entry in its directory. -/
theorem isSome_of_entry {path : FilePath} {found : Place × FileNode} {e : Entry}
    (hentry : files.entry path = .ok e) (hname : e.name = some name)
    (hresolve : files.resolve path = .ok found) :
    (files.tree.node? (e.directory ++ [name])).isSome = true := by
  obtain ⟨_, -, hfollow⟩ := except_bind_eq_ok.1 hresolve
  obtain ⟨init, slashes, hnames, hidle, hdots, hinit⟩ := names_of_entry hentry hname
  rw [hnames, FileTree.follow_append, hinit] at hfollow
  have hfollow : files.tree.follow e.directory (name :: slashes) = .ok found := hfollow
  rw [FileTree.follow_cons] at hfollow
  obtain ⟨next, hstep, hrest⟩ := except_bind_eq_ok.1 hfollow
  unfold FileTree.step at hstep
  rw [FileTree.node?_of_follow hinit] at hstep
  dsimp only at hstep
  rw [if_neg hidle, if_neg hdots] at hstep
  split_ifs at hstep
  cases hstep
  by_contra hmissing
  rw [FileTree.follow_eq_notFound_of_node? (Option.not_isSome_iff_eq_none.1 hmissing)] at hrest
  cases hrest

/-! ## Creating directories -/

theorem exec_ensureDirectory_of_isDirectory {path : FilePath} (h : files.isDirectory path = true) :
    exec (ensureDirectory path) files = (.ok (), files) := by
  obtain ⟨found, hfound⟩ : ∃ found, files.resolve path = .ok found := by
    unfold isDirectory at h
    split at h
    · exact ⟨_, by assumption⟩
    · cases h
  -- Creating fails, with whatever error, and the failure is forgiven.
  obtain ⟨e, hcreate⟩ : ∃ e, exec (createDirectory path) files = (.error e, files) := by
    rcases hentry : files.entry path with e | ⟨directory, _ | name, slash⟩
    · exact ⟨e, exec_orKeep_of_error (by rw [hentry]; rfl)⟩
    · exact ⟨.alreadyExists, exec_orKeep_of_error (by rw [hentry]; rfl)⟩
    · have hsome := isSome_of_entry hentry rfl hfound
      refine ⟨.alreadyExists, exec_orKeep_of_error ?_⟩
      rw [hentry]
      show (do
        if (files.tree.node? (directory ++ [name])).isSome then throw IoError.alreadyExists
        return { files with tree := ← files.tree.insert directory name .directory }) = _
      rw [if_pos hsome]
      rfl
  rw [ensureDirectory, exec_tryCatch_of_error hcreate]
  show exec (if files.isDirectory path = true then pure () else throw e : Io FileSystem Unit)
    files = _
  rw [if_pos h]
  rfl

/-- Creating a directory that is there changes nothing. -/
theorem exec_createDirectories_of_isDirectory {path : FilePath}
    (h : files.isDirectory path = true) :
    exec (createDirectories path) files = (.ok (), files) := by
  rw [createDirectories]
  split_ifs
  · rfl
  · exact exec_tryCatch_of_ok (exec_ensureDirectory_of_isDirectory h)

namespace HasRoot

theorem isDirectory_below (h : files.HasRoot root place) (plain : ∀ n ∈ names, IsPlain n)
    (hne : names ≠ []) (hdir : files.tree.node? (place ++ names) = some .directory) :
    files.isDirectory (root.below names) = true := by
  rw [isDirectory, h.resolve_below plain hne, FileTree.follow_of_node? plain hdir]
  rfl

theorem exec_ensureDirectory (h : files.HasRoot root place)
    (plain : ∀ n ∈ dir ++ [name], IsPlain n)
    (hdir : files.tree.node? (place ++ dir) = some .directory)
    (noFile : ∀ content, files.tree.node? (place ++ (dir ++ [name])) ≠ some (.file content)) :
    ∃ t', exec (ensureDirectory (root.below (dir ++ [name]))) files =
        (.ok (), { files with tree := t' }) ∧
      IsUpdate files.tree t' (place ++ (dir ++ [name])) (some .directory) := by
  rcases hnode : files.tree.node? (place ++ (dir ++ [name])) with _ | content | _
  · obtain ⟨t', hinsert, hupdate⟩ := FileTree.exists_insert (plain name (by simp)).size hdir
      (by rw [List.append_assoc, hnode]; simp) .directory
    rw [List.append_assoc] at hupdate
    refine ⟨t', exec_tryCatch_of_ok (exec_orKeep_of_ok ?_), hupdate⟩
    rw [h.entry_below plain hdir]
    show (do
      if (files.tree.node? (place ++ dir ++ [name])).isSome then throw IoError.alreadyExists
      return { files with tree := ← files.tree.insert (place ++ dir) name .directory }) = _
    rw [List.append_assoc, hnode, hinsert]
    rfl
  · exact absurd hnode (noFile content)
  · refine ⟨files.tree, exec_ensureDirectory_of_isDirectory
      (h.isDirectory_below plain (by simp) hnode), fun q => ?_⟩
    split_ifs with hq
    · rw [hq, hnode]
    · rfl

end HasRoot

/-- A path with names that lead to nothing leads to nothing. -/
theorem resolve_of_missing {path : FilePath} {more : List String}
    (hcheck : files.checkPath path = .ok ()) (hnames : path.names = names ++ more)
    (hmissing : files.tree.follow (files.start path) names = .error .notFound) :
    files.resolve path = .error .notFound := by
  rw [resolve, hcheck]
  show files.tree.follow (files.start path) path.names = _
  rw [hnames, FileTree.follow_append, hmissing]
  rfl

/-- A directory cannot be created where the one above is missing. -/
theorem exec_ensureDirectory_of_missing
    (hcheck : files.checkPath (root.below (dir ++ [name])) = .ok ())
    (hmissing : files.tree.follow (files.start root) (root.stem ++ dir) = .error .notFound)
    (plain : IsPlain name) :
    exec (ensureDirectory (root.below (dir ++ [name]))) files = (.error .notFound, files) := by
  have hentry : files.entry (root.below (dir ++ [name])) = .error .notFound := by
    rw [entry_of_concat hcheck (List.append_assoc ..).symm plain]
    show files.tree.follow (files.start root) (root.stem ++ dir) >>= _ = _
    rw [hmissing]
    rfl
  have hcreate : exec (createDirectory (root.below (dir ++ [name]))) files =
      (.error .notFound, files) :=
    exec_orKeep_of_error (by rw [hentry]; rfl)
  have hresolve := resolve_of_missing hcheck (List.append_assoc ..).symm hmissing
  rw [ensureDirectory, exec_tryCatch_of_error hcreate]
  show exec (if files.isDirectory _ = true then pure () else throw .notFound : Io FileSystem Unit)
    files = _
  rw [isDirectory, hresolve]
  rfl

/-- A tree in which names lead to a directory, as far as it was missing. -/
structure Opens (t t' : FileTree) (place : Place) (dir : List String) : Prop where
  opened : t'.node? (place ++ dir) = some .directory
  frame : ∀ q, t'.node? q = t.node? q ∨ t'.node? q = some .directory ∧
    ∃ init, init ≠ [] ∧ init <+: dir ∧ q = place ++ init

theorem Opens.sameOutside {dir : List String} (h : Opens t t' place dir) :
    SameOutside place t t' := by
  intro q hq
  rcases h.frame q with hsame | ⟨-, init, hne, -, rfl⟩
  · exact hsame
  · exact absurd ⟨init, hne, rfl⟩ hq

theorem Opens.refl (h : t.node? (place ++ dir) = some .directory) : Opens t t place dir :=
  ⟨h, fun _ => .inl rfl⟩

/-- One more directory. -/
theorem Opens.concat {t₁ : FileTree} (h : Opens t t₁ place dir)
    (hupdate : IsUpdate t₁ t' (place ++ (dir ++ [name])) (some .directory)) :
    Opens t t' place (dir ++ [name]) where
  opened := by rw [hupdate, if_pos rfl]
  frame q := by
    rw [hupdate]
    split_ifs with hq
    · exact .inr ⟨rfl, dir ++ [name], by simp, List.prefix_refl _, hq⟩
    · rcases h.frame q with hsame | ⟨hdir, init, hne, hinit, hq⟩
      · exact .inl hsame
      · exact .inr ⟨hdir, init, hne, hinit.trans (List.prefix_append _ _), hq⟩

theorem Opens.noFile {q : Place} (h : Opens t t' place dir)
    (hfile : ∀ content, t.node? q ≠ some (.file content)) (content : ByteArray) :
    t'.node? q ≠ some (.file content) := by
  rcases h.frame q with hsame | ⟨hdir, -⟩
  · rw [hsame]
    exact hfile content
  · simp [hdir]

/-- The root of some files is there, or can be created. -/
structure Creates (files files₁ : FileSystem) (root : FilePath) (place : Place) : Prop where
  limit : files.pathLimit = none
  created : exec (createDirectories root.trimmed) files = (.ok (), files₁)
  hasRoot : files₁.HasRoot root place
  start : files = files₁ ∨ files.tree.follow (files.start root) root.stem = .error .notFound

/-- Names below the root lead to nothing, unless the root and the directory are there. -/
theorem Creates.follow_eq_notFound {files₁ : FileSystem} (h : Creates files files₁ root place)
    (plain : ∀ n ∈ dir, IsPlain n)
    (noFile : ∀ init, init <+: dir →
      ∀ content, files₁.tree.node? (place ++ init) ≠ some (.file content))
    (hmissing : ¬ (files = files₁ ∧ files.tree.node? (place ++ dir) = some .directory)) :
    files.tree.follow (files.start root) (root.stem ++ dir) = .error .notFound := by
  rw [FileTree.follow_append]
  rcases h.start with rfl | hstart
  · rw [h.hasRoot.follow_stem]
    refine FileTree.follow_eq_notFound plain noFile ?_
    rcases hnode : files.tree.node? (place ++ dir) with _ | content | _
    · rfl
    · exact absurd hnode (noFile dir (List.prefix_refl _) content)
    · exact absurd ⟨rfl, hnode⟩ hmissing
  · rw [hstart]
    rfl

/-- Where the parent is missing it is created before. -/
theorem exec_createDirectories_of_parent {path parent : FilePath} {files' : FileSystem}
    (nonempty : ¬ path.isEmpty = true) (hparent : path.parent? = some parent)
    (hensure : exec (ensureDirectory path) files = (.error .notFound, files))
    (hcreate : exec (createDirectories parent) files = (.ok (), files')) :
    exec (createDirectories path) files = exec (ensureDirectory path) files' := by
  rw [createDirectories, if_neg nonempty, exec_tryCatch_of_error hensure]
  split
  · rename_i _ heq
    obtain rfl := Option.some.inj (hparent.symm.trans heq)
    rw [if_pos rfl, exec_bind_of_ok hcreate]
  · rename_i heq
    rw [hparent] at heq
    cases heq

/-- Plain directories below the root are created as far as they are missing, the root too. -/
theorem Creates.exec_createDirectories {files₁ : FileSystem} (h : Creates files files₁ root place)
    (plain : ∀ n ∈ dir, IsPlain n)
    (noFile : ∀ init, init <+: dir →
      ∀ content, files₁.tree.node? (place ++ init) ≠ some (.file content)) :
    ∃ t', exec (createDirectories
        { root with names := FilePath.trim root.isAbsolute (root.stem ++ dir) }) files =
        (.ok (), { files₁ with tree := t' }) ∧ Opens files₁.tree t' place dir := by
  -- By the last directory: what is above it is created first, and only if it has to be.
  induction dir using List.reverseRecOn with
  | nil =>
    refine ⟨files₁.tree, ?_, .refl ?_⟩
    · rw [List.append_nil]
      exact h.created
    · rw [List.append_nil]
      exact h.hasRoot.node?_root
  | append_singleton init last ih =>
    have plainInit : ∀ n ∈ init, IsPlain n := fun n hn => plain n (List.mem_append_left _ hn)
    have noFileInit : ∀ start, start <+: init →
        ∀ content, files₁.tree.node? (place ++ start) ≠ some (.file content) :=
      fun start hstart => noFile start (hstart.trans (List.prefix_append _ _))
    have nonempty : ¬ (root.below (init ++ [last])).isEmpty = true := by
      simp [FilePath.below_eq, FilePath.isEmpty]
    rw [FilePath.trim_below plain (by simp)]
    by_cases hready : files = files₁ ∧ files.tree.node? (place ++ init) = some .directory
    · -- At most the last directory is missing.
      obtain ⟨rfl, hdir⟩ := hready
      obtain ⟨t', hensure, hupdate⟩ := h.hasRoot.exec_ensureDirectory plain hdir
        (noFile _ (List.prefix_refl _))
      refine ⟨t', ?_, (Opens.refl hdir).concat hupdate⟩
      rw [createDirectories, if_neg nonempty]
      exact exec_tryCatch_of_ok hensure
    · -- The directory above is missing too.
      have hmissing := h.follow_eq_notFound plainInit noFileInit hready
      have hensure := exec_ensureDirectory_of_missing
        (checkPath_below h.limit h.hasRoot.noNull plain (by simp)) hmissing (plain last (by simp))
      obtain ⟨t₁, hparent, opens⟩ := ih plainInit noFileInit
      obtain ⟨t', hensure', hupdate⟩ :=
        (h.hasRoot.withTree opens.sameOutside).exec_ensureDirectory plain opens.opened
          (opens.noFile (noFile _ (List.prefix_refl _)))
      refine ⟨t', ?_, opens.concat hupdate⟩
      rw [exec_createDirectories_of_parent nonempty
        (FilePath.parent?_below root init (plain last (by simp))) hensure hparent]
      exact hensure'

/-! ## Roots that are there or can be created -/

theorem follow_of_isIdle {t : FileTree} {start : Place} (hdir : t.node? start = some .directory)
    (hidle : ∀ name ∈ names, FilePath.isIdle name = true) :
    t.follow start names = .ok (start, .directory) := by
  induction names with
  | nil => rw [FileTree.follow, hdir]
  | cons name names ih =>
    have hname : name = "" ∨ name = "." := by
      simpa [FilePath.isIdle] using hidle name List.mem_cons_self
    have hstep : t.step start name = .ok start := by
      rw [FileTree.step, hdir]
      exact if_pos hname
    rw [FileTree.follow_cons, hstep]
    exact ih fun n hn => hidle n (List.mem_cons_of_mem _ hn)

/-- Idle names at the end make no difference, if names lead to a directory. -/
theorem follow_of_append_isIdle {t : FileTree} {start : Place} {idle : List String}
    (hidle : ∀ name ∈ idle, FilePath.isIdle name = true)
    (h : t.follow start (names ++ idle) = .ok (place, .directory)) :
    t.follow start names = .ok (place, .directory) := by
  rw [FileTree.follow_append] at h
  obtain ⟨⟨q, node⟩, hnames, hrest⟩ := except_bind_eq_ok.1 h
  have hnode := FileTree.node?_of_follow hnames
  have hdir : node = .directory := by
    rcases node with content | _
    · cases idle with
      | nil =>
        rw [FileTree.follow, hnode] at hrest
        cases hrest
      | cons name idle =>
        rw [FileTree.follow_cons, FileTree.step, hnode] at hrest
        cases hrest
    · rfl
  subst hdir
  cases (follow_of_isIdle hnode hidle).symm.trans hrest
  exact hnames

/-- Idle names at the end of a path make no difference, if it leads to a directory. -/
theorem HasRoot.follow_trimmed (h : files.HasRoot root place) :
    files.tree.follow (files.start root) root.trimmed.names = .ok (place, .directory) := by
  have hstem : root.stem = (root.stem.reverse.dropWhile FilePath.isIdle).reverse ++
      (root.stem.reverse.takeWhile FilePath.isIdle).reverse := by
    rw [← List.reverse_append, List.takeWhile_append_dropWhile, List.reverse_reverse]
  have hkept : files.tree.follow (files.start root)
      (root.stem.reverse.dropWhile FilePath.isIdle).reverse = .ok (place, .directory) := by
    have hfollow := h.follow_stem
    rw [hstem] at hfollow
    refine follow_of_append_isIdle (fun name hname => ?_) hfollow
    exact List.all_eq_true.1 List.all_takeWhile name (List.mem_reverse.1 hname)
  unfold FilePath.trimmed FilePath.trim
  dsimp only
  split_ifs with hdot
  · simp only [Bool.and_eq_true, List.isEmpty_iff] at hdot
    rw [hdot.1.1, FileTree.follow] at hkept
    split at hkept
    · rename_i hnode
      cases hkept
      exact follow_of_isIdle hnode (by simp [FilePath.isIdle])
    · cases hkept
  · exact hkept

theorem noNull_trimmed (noNull : ∀ name ∈ root.names, Char.ofNat 0 ∉ name.toList) :
    ∀ name ∈ root.trimmed.names, Char.ofNat 0 ∉ name.toList := by
  intro name hname
  unfold FilePath.trimmed FilePath.trim at hname
  dsimp only at hname
  split_ifs at hname
  · obtain rfl := List.mem_singleton.1 hname
    decide
  · have hstem : name ∈ root.stem :=
      List.mem_reverse.1 (List.dropWhile_subset _ (List.mem_reverse.1 hname))
    refine noNull name ?_
    rcases root.names_eq_stem with heq | heq <;> rw [heq]
    · exact hstem
    · exact List.mem_append_left _ hstem

theorem HasRoot.creates (h : files.HasRoot root place) : Creates files files root place where
  limit := h.limit
  created := by
    by_cases hempty : root.trimmed.isEmpty = true
    · rw [createDirectories, if_pos hempty]
      rfl
    · refine exec_createDirectories_of_isDirectory ?_
      have hcheck : files.checkPath root.trimmed = .ok () :=
        checkPath_eq_ok.2 ⟨noNull_trimmed h.noNull, Bool.eq_false_iff.2 hempty,
          by rw [h.limit]; rfl⟩
      have hresolve : files.resolve root.trimmed = .ok (place, .directory) := by
        rw [resolve, hcheck]
        exact h.follow_trimmed
      rw [isDirectory, hresolve]
      rfl
  hasRoot := h
  start := .inl rfl

theorem pathLimit_createDirectory (path : FilePath) (files : FileSystem) :
    (exec (createDirectory path) files).2.pathLimit = files.pathLimit := by
  rcases hresult : exec (createDirectory path) files with ⟨result, files'⟩
  rw [createDirectory, Io.orKeep, exec_mk] at hresult
  split at hresult
  · rename_i hok
    cases hresult
    obtain ⟨⟨directory, _ | name, slash⟩, -, hok⟩ := except_bind_eq_ok.1 hok
    · cases hok
    · dsimp only at hok
      split_ifs at hok
      · cases hok
      · obtain ⟨t', -, hok⟩ := except_bind_eq_ok.1 hok
        cases hok
        rfl
  · cases hresult
    rfl

theorem pathLimit_ensureDirectory (path : FilePath) (files : FileSystem) :
    (exec (ensureDirectory path) files).2.pathLimit = files.pathLimit := by
  have hcreate := pathLimit_createDirectory path files
  rw [ensureDirectory, exec_tryCatch]
  rcases hresult : exec (createDirectory path) files with ⟨e | _, files'⟩ <;>
    rw [hresult] at hcreate
  · show (exec (if files'.isDirectory path = true then pure () else throw e : Io FileSystem Unit)
      files').2.pathLimit = _
    split_ifs <;> exact hcreate
  · exact hcreate

theorem pathLimit_createDirectories (path : FilePath) (files : FileSystem) :
    (exec (createDirectories path) files).2.pathLimit = files.pathLimit := by
  induction path using createDirectories.induct generalizing files with
  | case1 path hempty =>
    rw [createDirectories, if_pos hempty]
    rfl
  | case2 path hempty ih =>
    have hensure := pathLimit_ensureDirectory path files
    rw [createDirectories, if_neg hempty, exec_tryCatch]
    -- The parents are tried only after a failure, in whatever state that has left.
    rcases hresult : exec (ensureDirectory path) files with ⟨e | _, files'⟩ <;>
      rw [hresult] at hensure
    · dsimp only
      split
      · rename_i parent hparent
        split_ifs
        · have hcreate := ih parent hparent files'
          rw [exec_bind]
          rcases hresult' : exec (createDirectories parent) files' with ⟨e | _, files''⟩ <;>
            rw [hresult'] at hcreate
          · exact hcreate.trans hensure
          · exact (pathLimit_ensureDirectory path files'').trans (hcreate.trans hensure)
        · exact hensure
      · exact hensure
    · exact hensure

/-- A missing root that becomes an empty directory once it is created. -/
theorem Creates.of_missing {files₁ : FileSystem} (limit : files.pathLimit = none)
    (missing : files.resolve root = .error .notFound)
    (created : exec (createDirectories root.trimmed) files = (.ok (), files₁))
    (resolved : files₁.resolve root = .ok (place, .directory))
    (nothing : ∀ names, names ≠ [] → files₁.tree.node? (place ++ names) = none) :
    Creates files files₁ root place := by
  have limit₁ : files₁.pathLimit = none := by
    rw [← limit, ← pathLimit_createDirectories root.trimmed files, created]
  have hroot := HasRoot.of_empty limit₁ resolved nothing
  refine ⟨limit, created, hroot, .inr ?_⟩
  have hcheck : files.checkPath root = .ok () :=
    checkPath_eq_ok.2 ⟨hroot.noNull, hroot.nonempty, by rw [limit]; rfl⟩
  rw [resolve, hcheck] at missing
  have missing : files.tree.follow (files.start root) root.names = .error .notFound := missing
  -- A slash at the end of the root does not change what is missing.
  rcases root.names_eq_stem with heq | heq
  · rwa [heq] at missing
  · rw [heq, FileTree.follow_append] at missing
    rcases hstem : files.tree.follow (files.start root) root.stem with e | ⟨q, node⟩
    · rw [hstem] at missing
      exact missing
    · have hnode := FileTree.node?_of_follow hstem
      have missing : files.tree.follow q [""] = .error .notFound := by rwa [hstem] at missing
      rw [FileTree.follow_cons, FileTree.step, hnode] at missing
      rcases node with content | _
      · cases missing
      · have hnil : files.tree.follow q [] = .error .notFound := missing
        rw [FileTree.follow, hnode] at hnil
        cases hnil

/-! ## Removing directories -/

/-- A directory is removed if there is one and nothing lies in it. -/
theorem HasRoot.exec_removeDirectory (h : files.HasRoot root place)
    (plain : ∀ n ∈ names, IsPlain n) (hne : names ≠ []) :
    (∃ e, exec (removeDirectory (root.below names)) files = (.error e, files)) ∨
      ∃ t', exec (removeDirectory (root.below names)) files =
          (.ok (), { files with tree := t' }) ∧
        files.tree.node? (place ++ names) = some .directory ∧
        IsUpdate files.tree t' (place ++ names) none := by
  rcases hfollow : files.tree.follow place names with e | ⟨q, content | _⟩
  · refine .inl ⟨e, exec_orKeep_of_error ?_⟩
    rw [h.resolve_below plain hne, hfollow]
    rfl
  · refine .inl ⟨.notADirectory, exec_orKeep_of_error ?_⟩
    rw [h.resolve_below plain hne, hfollow]
    rfl
  · obtain rfl := FileTree.eq_of_follow plain hfollow
    rcases hremove : files.tree.remove (place ++ names) with e | t'
    · refine .inl ⟨e, exec_orKeep_of_error ?_⟩
      rw [h.resolve_below plain hne, hfollow]
      show (do return { files with tree := ← files.tree.remove (place ++ names) }) = _
      rw [hremove]
      rfl
    · refine .inr ⟨t', exec_orKeep_of_ok ?_, FileTree.node?_of_follow hfollow,
        FileTree.isUpdate_of_remove (by simp [hne]) hremove⟩
      rw [h.resolve_below plain hne, hfollow]
      show (do return { files with tree := ← files.tree.remove (place ++ names) }) = _
      rw [hremove]
      rfl

end FileSystem

end KernelTuning
