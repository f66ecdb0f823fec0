import Mathlib.Data.Set.Insert
import KernelTuning.Proofs.DirectoryRecords

/-!
# Clearing files out of a directory

A file is removed, and then the directories above it as far as they are left empty.

**What is cleared** (`FileTree.IsCleared`). A place goes when all that lies there leads to a file
that is removed (`FileTree.LeadsTo`); everything else is kept. Removing a file and pruning the
directory that it was in clears one file (`exec_remove_prune`): each step up the walk either
removes a directory or finds an entry that leads elsewhere (`exec_prune_of_directory`).

**Loops.** Clearing after clearing clears the targets of both (`IsCleared.append`), so a loop that
clears one file in each step clears all of them (`exec_forM_cleared`).

**Frames** (`RemovesOnly`). Whether an operation fails or not, the files that it does not aim at are
kept (`Spares`). This is closed under sequences, handlers and loops, and pruning aims at none.
-/

namespace KernelTuning

open FileTree (IsPlain IsUpdate SameOutside IsBelow)

/-! ## Clearing places -/

namespace FileTree

variable {t t' t'' : FileTree} {place q : Place} {targets more : Set Place}
  {dir names : List String} {name : String} {node : FileNode} {content : ByteArray}

/-- All that lies at a place and below it leads to one of some targets. -/
def LeadsTo (t : FileTree) (targets : Set Place) (q : Place) : Prop :=
  ∀ names, (t.node? (q ++ names)).isSome = true → ∃ target ∈ targets, q ++ names <+: target

/-- A tree without what leads to nothing but some targets below a place. -/
structure IsCleared (place : Place) (targets : Set Place) (t t' : FileTree) : Prop where
  gone : ∀ q, IsBelow place q → t.LeadsTo targets q → t'.node? q = none
  kept : ∀ q, ¬ (IsBelow place q ∧ t.LeadsTo targets q) → t'.node? q = t.node? q

/-- Nothing lies below a file, or where nothing is. -/
theorem node?_append_eq_none (h : t.node? place ≠ some .directory) (hne : names ≠ []) :
    t.node? (place ++ names) = none := by
  rw [← Option.not_isSome_iff_eq_none]
  exact fun hsome => h (node?_eq_directory_of_append hsome hne)

/-- Nothing lies below a directory without entries. -/
theorem node?_append_of_hasEntries (h : t.hasEntries place = false) (hne : names ≠ []) :
    t.node? (place ++ names) = none := by
  obtain ⟨name, rest, rfl⟩ := List.exists_cons_of_ne_nil hne
  have hentry : t.node? (place ++ [name]) = none := by
    rw [← Option.not_isSome_iff_eq_none, node?_of_ne_nil (by simp)]
    intro hsome
    rw [hasEntries_of_get? hsome] at h
    cases h
  rw [List.append_cons]
  rcases eq_or_ne rest [] with rfl | hrest
  · rw [List.append_nil, hentry]
  · exact node?_append_eq_none (by simp [hentry]) hrest

theorem exists_of_hasEntries (h : t.hasEntries place = true) :
    ∃ name, (t.node? (place ++ [name])).isSome = true := by
  by_contra hnone
  rw [hasEntries_eq_false fun name => ?_] at h
  · cases h
  · exact Option.not_isSome_iff_eq_none.1 fun hsome => hnone ⟨name, hsome⟩

/-- A file on the way to something is that itself. -/
theorem eq_of_prefix (hfile : t.node? q = some (.file content)) {target : Place}
    (hnode : (t.node? target).isSome = true) (h : q <+: target) : q = target := by
  obtain ⟨rest, rfl⟩ := h
  by_contra hne
  have hrest : rest ≠ [] := by
    rintro rfl
    exact hne (List.append_nil q).symm
  cases hfile.symm.trans (node?_eq_directory_of_append hnode hrest)

theorem IsBelow.append (h : IsBelow place q) (names : List String) :
    IsBelow place (q ++ names) := by
  obtain ⟨first, hne, rfl⟩ := h
  exact ⟨first ++ names, by simp [hne], List.append_assoc ..⟩

theorem LeadsTo.exists_target (h : t.LeadsTo targets q) (hsome : (t.node? q).isSome = true) :
    ∃ target ∈ targets, q <+: target := by
  have hleads := h [] (by rwa [List.append_nil])
  rwa [List.append_nil] at hleads

/-- A file leads to itself. -/
theorem leadsTo_of_mem (hfile : t.node? q = some (.file content)) (hq : q ∈ targets) :
    t.LeadsTo targets q := by
  intro names hsome
  rcases eq_or_ne names [] with rfl | hne
  · exact ⟨q, hq, List.append_nil _ ▸ List.prefix_rfl⟩
  · rw [node?_append_eq_none (by simp [hfile]) hne] at hsome
    cases hsome

namespace IsCleared

theorem sameOutside (h : IsCleared place targets t t') : SameOutside place t t' :=
  fun q hq => h.kept q fun hgone => hq hgone.1

theorem node?_eq_some (h : IsCleared place targets t t') :
    t'.node? q = some node ↔
      t.node? q = some node ∧ ¬ (IsBelow place q ∧ t.LeadsTo targets q) := by
  by_cases hgone : IsBelow place q ∧ t.LeadsTo targets q
  · simp [h.gone q hgone.1 hgone.2, hgone]
  · rw [h.kept q hgone, and_iff_left hgone]

theorem refl (place : Place) (t : FileTree) : IsCleared place ∅ t t where
  gone q _ hleads := by
    rw [← Option.not_isSome_iff_eq_none]
    intro hsome
    obtain ⟨target, hmem, -⟩ := hleads.exists_target hsome
    exact hmem
  kept _ _ := rfl

/-- What leads to nothing but targets of either clearing is what leads to nothing but the later
ones once the earlier ones are gone. -/
theorem leadsTo_union (h : IsCleared place targets t t') (hbelow : IsBelow place q) :
    t.LeadsTo (targets ∪ more) q ↔ t'.LeadsTo more q := by
  constructor
  · intro hleads names hsome
    -- What is kept has something below it that leads to no earlier target.
    have hkept : ¬ t.LeadsTo targets (q ++ names) := by
      intro hgone
      rw [h.gone _ (hbelow.append names) hgone] at hsome
      cases hsome
    simp only [LeadsTo, not_forall] at hkept
    obtain ⟨deeper, hdeeper, hno⟩ := hkept
    rw [List.append_assoc] at hdeeper hno
    obtain ⟨target, hmem | hmem, hprefix⟩ := hleads (names ++ deeper) hdeeper
    · exact absurd ⟨target, hmem, hprefix⟩ hno
    · rw [← List.append_assoc] at hprefix
      exact ⟨target, hmem, (List.prefix_append _ _).trans hprefix⟩
  · intro hleads names hsome
    by_cases hgone : t.LeadsTo targets (q ++ names)
    · obtain ⟨target, hmem, hprefix⟩ := hgone.exists_target hsome
      exact ⟨target, .inl hmem, hprefix⟩
    · rw [← h.kept _ fun hboth => hgone hboth.2] at hsome
      obtain ⟨target, hmem, hprefix⟩ := hleads names hsome
      exact ⟨target, .inr hmem, hprefix⟩

/-- Clearing after clearing clears the targets of both. -/
theorem append (h : IsCleared place targets t t') (h' : IsCleared place more t' t'') :
    IsCleared place (targets ∪ more) t t'' where
  gone q hbelow hleads := h'.gone q hbelow ((h.leadsTo_union hbelow).1 hleads)
  kept q hkept := by
    have hlater : t''.node? q = t'.node? q :=
      h'.kept q fun hgone => hkept ⟨hgone.1, (h.leadsTo_union hgone.1).2 hgone.2⟩
    rw [hlater]
    refine h.kept q fun hgone => hkept ⟨hgone.1, fun names hsome => ?_⟩
    obtain ⟨target, hmem, hprefix⟩ := hgone.2 names hsome
    exact ⟨target, .inl hmem, hprefix⟩

/-- What nothing lies in is removed, and then the directory is cleared that it was in. -/
theorem of_isUpdate (hupdate : IsUpdate t t' (place ++ (dir ++ [name])) none)
    (nothing : ∀ names, names ≠ [] → t.node? (place ++ (dir ++ [name]) ++ names) = none)
    (h : IsCleared place {place ++ dir} t' t'') :
    IsCleared place {place ++ (dir ++ [name])} t t'' := by
  have hbelow : IsBelow place (place ++ (dir ++ [name])) := ⟨dir ++ [name], by simp, rfl⟩
  rw [← List.append_assoc] at hupdate nothing hbelow ⊢
  -- The removed place is on the way to itself only, and the ways to its directory are the others.
  have hiff (q : Place) : t.LeadsTo {place ++ dir ++ [name]} q ↔ t'.LeadsTo {place ++ dir} q := by
    refine forall_congr' fun names => ?_
    simp only [Set.mem_singleton_iff, exists_eq_left, hupdate _, List.prefix_concat_iff]
    split_ifs with hlast
    · simp [hlast]
    · rw [or_iff_right hlast]
  refine ⟨fun q hq hleads => h.gone q hq ((hiff q).1 hleads), fun q hkept => ?_⟩
  rw [hiff] at hkept
  rw [h.kept q hkept, hupdate, if_neg]
  rintro rfl
  refine hkept ⟨hbelow, (hiff _).1 fun names hsome => ?_⟩
  rcases eq_or_ne names [] with rfl | hne
  · exact ⟨_, rfl, List.append_nil _ ▸ List.prefix_rfl⟩
  · rw [nothing names hne] at hsome
    cases hsome

/-- The directory itself is never cleared away. -/
theorem of_place (place : Place) (t : FileTree) : IsCleared place {place} t t where
  gone q hbelow hleads := by
    rw [← Option.not_isSome_iff_eq_none]
    intro hsome
    obtain ⟨target, rfl, hprefix⟩ := hleads.exists_target hsome
    obtain ⟨names, hne, rfl⟩ := hbelow
    have hlength := hprefix.length_le
    rw [List.length_append] at hlength
    exact hne (List.length_eq_zero_iff.1 (by omega))
  kept _ _ := rfl

/-- A directory with something in it is not cleared away. -/
theorem of_entry (h : (t.node? (q ++ [name])).isSome = true) : IsCleared place {q} t t where
  gone p _ hleads := by
    rw [← Option.not_isSome_iff_eq_none]
    intro hsome
    obtain ⟨target, rfl, rest, rfl⟩ := hleads.exists_target hsome
    rw [List.append_assoc] at h
    obtain ⟨target, rfl, hprefix⟩ := hleads _ h
    have hlength := hprefix.length_le
    simp only [List.length_append, List.length_singleton] at hlength
    omega
  kept _ _ := rfl

/-- Files that are no targets are kept. -/
theorem node?_eq_file (h : IsCleared place targets t t')
    (isNode : ∀ target ∈ targets, (t.node? target).isSome = true)
    (hfile : t.node? q = some (.file content)) (hq : q ∉ targets) :
    t'.node? q = some (.file content) := by
  refine h.node?_eq_some.2 ⟨hfile, fun hgone => ?_⟩
  obtain ⟨target, hmem, hprefix⟩ := hgone.2.exists_target (by rw [hfile]; rfl)
  obtain rfl := eq_of_prefix hfile (isNode target hmem) hprefix
  exact hq hmem

/-- If the targets are files, the other files are those that are kept. -/
theorem file_iff (h : IsCleared place targets t t')
    (isFile : ∀ target ∈ targets, IsBelow place target ∧
      ∃ content, t.node? target = some (.file content)) :
    t'.node? q = some (.file content) ↔ t.node? q = some (.file content) ∧ q ∉ targets := by
  constructor
  · intro hfile
    obtain ⟨hbefore, hkept⟩ := h.node?_eq_some.1 hfile
    exact ⟨hbefore, fun hq => hkept ⟨(isFile q hq).1, leadsTo_of_mem hbefore hq⟩⟩
  · rintro ⟨hfile, hq⟩
    refine h.node?_eq_file (fun target hmem => ?_) hfile hq
    obtain ⟨_, hnode⟩ := (isFile target hmem).2
    rw [hnode]
    rfl

end IsCleared

end FileTree

open FileTree (IsCleared)

/-! ## Removing and pruning -/

namespace FileSystem.HasRoot

variable {files : FileSystem} {root : FilePath} {place : Place} {names : List String}

/-- A directory is removed exactly if nothing lies in it. -/
theorem exec_removeDirectory_of_directory (h : files.HasRoot root place)
    (plain : ∀ n ∈ names, IsPlain n) (hne : names ≠ [])
    (hdir : files.tree.node? (place ++ names) = some .directory) :
    (exec (removeDirectory (root.below names)) files = (.error .directoryNotEmpty, files) ∧
        files.tree.hasEntries (place ++ names) = true) ∨
      ∃ t', exec (removeDirectory (root.below names)) files =
          (.ok (), { files with tree := t' }) ∧
        files.tree.hasEntries (place ++ names) = false ∧
        IsUpdate files.tree t' (place ++ names) none := by
  rcases hentries : files.tree.hasEntries (place ++ names) with _ | _
  · refine .inr ⟨files.tree.unbind _ hentries, exec_orKeep_of_ok ?_, rfl,
      FileTree.isUpdate_unbind (by simp [hne]) hentries⟩
    rw [h.resolve_below plain hne, FileTree.follow_of_node? plain hdir]
    show (do return { files with tree := ← files.tree.remove _ } : Except IoError FileSystem) = _
    rw [FileTree.remove, dif_pos hentries]
    rfl
  · refine .inl ⟨exec_orKeep_of_error ?_, rfl⟩
    rw [h.resolve_below plain hne, FileTree.follow_of_node? plain hdir]
    show (do return { files with tree := ← files.tree.remove _ } : Except IoError FileSystem) = _
    rw [FileTree.remove, dif_neg (by simp [hentries])]
    rfl

end FileSystem.HasRoot

namespace DirectoryStorage

variable {s : DirectoryStorage} {files : FileSystem} {place : Place} {names : List String}
  {content : ByteArray}

/-- Pruning clears a directory. -/
theorem exec_prune_of_directory (h : files.HasRoot s.root place) (plain : ∀ n ∈ names, IsPlain n)
    (hdir : files.tree.node? (place ++ names) = some .directory) :
    ∃ t', exec (s.prune names) files = (.ok (), { files with tree := t' }) ∧
      IsCleared place {place ++ names} files.tree t' := by
  -- From the last directory upwards, as pruning goes on only after it has removed one.
  induction names using List.reverseRecOn generalizing files with
  | nil =>
    refine ⟨files.tree, ?_, ?_⟩
    · rw [prune]
      rfl
    · rw [List.append_nil]
      exact .of_place _ _
  | append_singleton init last ih =>
    have plainInit : ∀ n ∈ init, IsPlain n := fun n hn => plain n (List.mem_append_left _ hn)
    rw [prune, dif_neg (by simp), exec_mk, List.dropLast_concat]
    rcases h.exec_removeDirectory_of_directory plain (by simp) hdir with
      ⟨hremove, hentries⟩ | ⟨t₁, hremove, hentries, hupdate⟩
    · rw [show (FileSystem.removeDirectory (s.root.below (init ++ [last]))).run files =
        (.error .directoryNotEmpty, files) from hremove]
      obtain ⟨name, hentry⟩ := FileTree.exists_of_hasEntries hentries
      exact ⟨files.tree, rfl, .of_entry hentry⟩
    · rw [show (FileSystem.removeDirectory (s.root.below (init ++ [last]))).run files =
        (.ok (), { files with tree := t₁ }) from hremove]
      have hsome : (files.tree.node? (place ++ init ++ [last])).isSome = true := by
        rw [List.append_assoc, hdir]
        rfl
      have hinit : t₁.node? (place ++ init) = some .directory := by
        rw [hupdate, if_neg (by simp)]
        exact FileTree.node?_eq_directory hsome
      obtain ⟨t', hprune, hcleared⟩ :=
        ih (h.withTree (hupdate.sameOutside (by simp))) plainInit hinit
      exact ⟨t', hprune, .of_isUpdate hupdate
        (fun _ => FileTree.node?_append_of_hasEntries hentries) hcleared⟩

/-- Removing a file and pruning the directory that it was in clears the file. -/
theorem exec_remove_prune (h : files.HasRoot s.root place) (plain : ∀ n ∈ names, IsPlain n)
    (hne : names ≠ []) (hfile : files.tree.node? (place ++ names) = some (.file content)) :
    ∃ files₁ t', exec (removeIfPresent (s.root.below names)) files = (.ok true, files₁) ∧
      exec (s.prune names.dropLast) files₁ = (.ok (), { files with tree := t' }) ∧
      IsCleared place {place ++ names} files.tree t' := by
  obtain ⟨dir, name, rfl⟩ : ∃ dir name, names = dir ++ [name] :=
    ⟨_, _, (List.dropLast_concat_getLast hne).symm⟩
  obtain ⟨t₁, hremove, hupdate⟩ := h.exec_removeFile plain hne hfile
  have hsome : (files.tree.node? (place ++ dir ++ [name])).isSome = true := by
    rw [List.append_assoc, hfile]
    rfl
  have hdir : t₁.node? (place ++ dir) = some .directory := by
    rw [hupdate, if_neg (by simp)]
    exact FileTree.node?_eq_directory hsome
  obtain ⟨t', hprune, hcleared⟩ := exec_prune_of_directory
    (h.withTree (hupdate.sameOutside hne)) (fun n hn => plain n (List.mem_append_left _ hn)) hdir
  refine ⟨{ files with tree := t₁ }, t', exec_tryCatch_of_ok (exec_bind_of_ok hremove), ?_,
    .of_isUpdate hupdate (fun _ => FileTree.node?_append_eq_none (by simp [hfile])) hcleared⟩
  rw [List.dropLast_concat]
  exact hprune

/-- A loop that clears one file in each step clears all of them. -/
theorem exec_forM_cleared {α : Type} {body : α → Io FileSystem Unit} {target : α → List String}
    {l : List α} (clears : ∀ a ∈ l, ∀ files : FileSystem, files.HasRoot s.root place →
      (∃ content, files.tree.node? (place ++ target a) = some (.file content)) →
      ∃ t', exec (body a) files = (.ok (), { files with tree := t' }) ∧
        IsCleared place {place ++ target a} files.tree t')
    (nodup : (l.map target).Nodup) (h : files.HasRoot s.root place)
    (isFile : ∀ a ∈ l, ∃ content, files.tree.node? (place ++ target a) = some (.file content)) :
    ∃ t', exec (l.forM body) files = (.ok (), { files with tree := t' }) ∧
      IsCleared place {q | ∃ a ∈ l, q = place ++ target a} files.tree t' := by
  -- By the list of steps: clearing one file keeps the files of the others, which are elsewhere.
  induction l generalizing files with
  | nil =>
    refine ⟨files.tree, rfl, ?_⟩
    simpa using IsCleared.refl place files.tree
  | cons a rest ih =>
    rw [List.map_cons, List.nodup_cons] at nodup
    have hfirst := isFile a List.mem_cons_self
    obtain ⟨t₁, hbody, hcleared₁⟩ := clears a List.mem_cons_self files h hfirst
    have isFile₁ : ∀ b ∈ rest, ∃ content, t₁.node? (place ++ target b) = some (.file content) := by
      intro b hb
      obtain ⟨content, hfile⟩ := isFile b (List.mem_cons_of_mem _ hb)
      refine ⟨content, hcleared₁.node?_eq_file ?_ hfile ?_⟩
      · rintro _ rfl
        obtain ⟨_, hnode⟩ := hfirst
        rw [hnode]
        rfl
      · intro heq
        exact nodup.1 (List.append_cancel_left heq ▸ List.mem_map_of_mem hb)
    obtain ⟨t', hrest, hcleared⟩ := ih (fun b hb => clears b (List.mem_cons_of_mem _ hb)) nodup.2
      (h.withTree hcleared₁.sameOutside) isFile₁
    refine ⟨t', ?_, ?_⟩
    · rw [List.forM, exec_bind_of_ok hbody]
      exact hrest
    · have hboth := hcleared₁.append hcleared
      have htargets : ({place ++ target a} ∪ {q | ∃ b ∈ rest, q = place ++ target b} : Set Place) =
          {q | ∃ b ∈ a :: rest, q = place ++ target b} := by
        ext q
        simp
      rwa [htargets] at hboth

end DirectoryStorage

/-! ## Files that are kept -/

/-- The root is still in its place, and no files are gone but some. -/
structure Spares (root : FilePath) (place : Place) (targets : Set Place)
    (files files' : FileSystem) : Prop where
  hasRoot : files'.HasRoot root place
  keeps : ∀ q content, q ∉ targets → files.tree.node? q = some (.file content) →
    files'.tree.node? q = some (.file content)

/-- Whatever an operation gives, it removes no files but some. -/
def RemovesOnly {α : Type} (root : FilePath) (place : Place) (targets : Set Place)
    (op : Io FileSystem α) : Prop :=
  ∀ files : FileSystem, files.HasRoot root place →
    Spares root place targets files (exec op files).2

namespace Spares

variable {root : FilePath} {place : Place} {targets : Set Place} {files files₁ files₂ : FileSystem}
  {names : List String}

theorem refl (h : files.HasRoot root place) : Spares root place targets files files :=
  ⟨h, fun _ _ _ hfile => hfile⟩

theorem trans (h : Spares root place targets files files₁)
    (h' : Spares root place targets files₁ files₂) : Spares root place targets files files₂ :=
  ⟨h'.hasRoot, fun q content hq hfile => h'.keeps q content hq (h.keeps q content hq hfile)⟩

/-- Something is removed that is a target or no file. -/
theorem of_isUpdate (h : files.HasRoot root place) {t' : FileTree}
    (hupdate : IsUpdate files.tree t' (place ++ names) none) (hne : names ≠ [])
    (hmem : place ++ names ∈ targets ∨ files.tree.node? (place ++ names) = some .directory) :
    Spares root place targets files { files with tree := t' } := by
  refine ⟨h.withTree (hupdate.sameOutside hne), fun q content hq hfile => ?_⟩
  rw [hupdate, if_neg, hfile]
  rintro rfl
  rcases hmem with hmem | hdir
  · exact hq hmem
  · cases hdir.symm.trans hfile

end Spares

namespace RemovesOnly

variable {α β : Type} {root : FilePath} {place : Place} {targets : Set Place}
  {op : Io FileSystem α} {names : List String}

/-- As a relation between the states before and after: where the root is in its place, files are
spared. -/
theorem iff_relates : RemovesOnly root place targets op ↔
    Relates (fun files files' => files.HasRoot root place → Spares root place targets files files')
      op :=
  .rfl

theorem trans ⦃files files₁ files₂ : FileSystem⦄
    (h : files.HasRoot root place → Spares root place targets files files₁)
    (h' : files₁.HasRoot root place → Spares root place targets files₁ files₂)
    (hroot : files.HasRoot root place) : Spares root place targets files files₂ :=
  (h hroot).trans (h' (h hroot).hasRoot)

theorem of_eq (h : ∀ files, (exec op files).2 = files) : RemovesOnly root place targets op :=
  iff_relates.2 (.of_eq (fun _ => .refl) h)

theorem bind {f : α → Io FileSystem β} (hop : RemovesOnly root place targets op)
    (hf : ∀ a, RemovesOnly root place targets (f a)) :
    RemovesOnly root place targets (op >>= f) :=
  iff_relates.2 (.bind trans hop hf)

theorem forM {l : List β} {body : β → Io FileSystem Unit}
    (hbody : ∀ b ∈ l, RemovesOnly root place targets (body b)) :
    RemovesOnly root place targets (l.forM body) :=
  iff_relates.2 (.forM trans (fun _ => .refl) hbody)

theorem removeFile (plain : ∀ n ∈ names, IsPlain n) (hne : names ≠ [])
    (hmem : place ++ names ∈ targets) :
    RemovesOnly root place targets (FileSystem.removeFile (root.below names)) := by
  intro files hroot
  have hresolve := hroot.resolve_below plain hne
  rcases hfollow : files.tree.follow place names with e | ⟨q, content | _⟩ <;>
    rw [hfollow] at hresolve
  · rw [FileSystem.removeFile, exec_orKeep_of_error (by rw [hresolve]; rfl)]
    exact .refl hroot
  · obtain rfl := FileTree.eq_of_follow plain hfollow
    obtain ⟨t', hremove, hupdate⟩ :=
      hroot.exec_removeFile plain hne (FileTree.node?_of_follow hfollow)
    rw [hremove]
    exact .of_isUpdate hroot hupdate hne (.inl hmem)
  · rw [FileSystem.removeFile, exec_orKeep_of_error (by rw [hresolve]; rfl)]
    exact .refl hroot

theorem removeDirectory (plain : ∀ n ∈ names, IsPlain n) (hne : names ≠ []) :
    RemovesOnly root place targets (FileSystem.removeDirectory (root.below names)) := by
  intro files hroot
  rcases hroot.exec_removeDirectory plain hne with ⟨e, hremove⟩ | ⟨t', hremove, hdir, hupdate⟩
  · rw [hremove]
    exact .refl hroot
  · rw [hremove]
    exact .of_isUpdate hroot hupdate hne (.inr hdir)

end RemovesOnly

namespace DirectoryStorage

variable {s : DirectoryStorage} {place : Place} {targets : Set Place} {names : List String}

section

variable {R : FileSystem → FileSystem → Prop} (refl : ∀ files, R files files)
  (trans : ∀ ⦃files files₁ files₂⦄, R files files₁ → R files₁ files₂ → R files files₂)

include refl trans

/-- What holds of removing a file does so if it may be missing. -/
theorem relates_removeIfPresent {path : FilePath} (h : Relates R (FileSystem.removeFile path)) :
    Relates R (removeIfPresent path) := by
  refine .tryCatch trans (.bind trans h fun _ => .of_eq refl fun _ => rfl)
    fun e => .of_eq refl fun files => ?_
  cases e <;> rfl

/-- What holds of removing each directory of a walk holds of the walk. -/
theorem relates_prune
    (h : ∀ init, init <+: names → init ≠ [] →
      Relates R (FileSystem.removeDirectory (s.root.below init))) :
    Relates R (s.prune names) := by
  induction names using List.reverseRecOn with
  | nil =>
    rw [prune]
    exact .of_eq refl fun _ => rfl
  | append_singleton init last ih =>
    intro files
    have hfirst := h (init ++ [last]) (List.prefix_refl _) (by simp) files
    obtain ⟨result, files₁, hresult⟩ : ∃ result files₁,
        exec (FileSystem.removeDirectory (s.root.below (init ++ [last]))) files =
          (result, files₁) := ⟨_, _, rfl⟩
    rw [hresult] at hfirst
    have both := trans hfirst
      (ih (fun names hnames => h names (hnames.trans (List.prefix_append ..))) files₁)
    rw [prune, dif_neg (by simp), exec_mk, List.dropLast_concat,
      show (FileSystem.removeDirectory (s.root.below (init ++ [last]))).run files =
        (result, files₁) from hresult]
    -- The walk goes on after a directory that was removed or missing, and ends at any other error.
    rcases result with e | _
    · cases e <;> first | exact both | exact hfirst
    · exact both

end

theorem removesOnly_removeIfPresent (plain : ∀ n ∈ names, IsPlain n) (hne : names ≠ [])
    (hmem : place ++ names ∈ targets) :
    RemovesOnly s.root place targets (removeIfPresent (s.root.below names)) :=
  RemovesOnly.iff_relates.2 (relates_removeIfPresent (fun _ => .refl) RemovesOnly.trans
    (RemovesOnly.removeFile plain hne hmem))

/-- Pruning removes no files. -/
theorem removesOnly_prune (plain : ∀ n ∈ names, IsPlain n) :
    RemovesOnly s.root place targets (s.prune names) :=
  RemovesOnly.iff_relates.2 (relates_prune (fun _ => .refl) RemovesOnly.trans
    fun _ hinit hne => RemovesOnly.removeDirectory (fun n hn => plain n (hinit.subset hn)) hne)

end DirectoryStorage

end KernelTuning
