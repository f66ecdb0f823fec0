import Mathlib.Data.List.Induction
import Mathlib.Order.Basic
import KernelTuning.Storage.FileSystem

/-!
# Places in file trees

What the operations of a file tree do to its nodes, one place at a time, and where names lead to.

**Plain names.** A name that is not idle, does not go back and is not too long (`IsPlain`) leads
from a directory to the node of this name in it. So plain names lead exactly to the place that they
spell out (`follow_of_node?`, `node?_of_follow`).

**Names that lead to a directory with nothing below it** do not depend on what lies below it later
(`follow_of_sameOutside`): on their way they never enter it.
-/

namespace KernelTuning.FileTree

variable {t t' : FileTree} {dir place q : Place} {name : String} {names : List String}
  {node : FileNode} {content : ByteArray}

/-! ## Nodes -/

theorem node?_of_ne_nil (h : place ≠ []) : t.node? place = t.nodes.get? place := if_neg h

theorem isDirectory_iff : t.isDirectory place = true ↔ t.node? place = some .directory := by
  unfold isDirectory
  rcases t.node? place with _ | _ | _ <;> simp [FileNode.isDirectory]

/-- What lies somewhere lies in a directory. -/
theorem node?_eq_directory (h : (t.node? (dir ++ [name])).isSome = true) :
    t.node? dir = some .directory := by
  rw [node?_of_ne_nil (by simp)] at h
  rcases t.closed dir name h with rfl | hdir
  · rfl
  · unfold node?
    split
    · rfl
    · exact hdir

/-- All that names pass through is a directory. -/
theorem node?_eq_directory_of_append (h : (t.node? (place ++ names)).isSome = true)
    (hne : names ≠ []) : t.node? place = some .directory := by
  induction names using List.reverseRecOn with
  | nil => exact absurd rfl hne
  | append_singleton init last ih =>
    rw [← List.append_assoc] at h
    have hinit := node?_eq_directory h
    rcases eq_or_ne init [] with rfl | hne'
    · rwa [List.append_nil] at hinit
    · exact ih (by rw [hinit]; rfl) hne'

theorem content?_eq_some : t.content? place = some content ↔
    t.node? place = some (.file content) := by
  unfold content?
  rcases t.node? place with _ | _ | _ <;> simp

/-! ## Changes -/

/-- A tree with another node, or none, at one place. -/
def IsUpdate (t t' : FileTree) (place : Place) (node : Option FileNode) : Prop :=
  ∀ q, t'.node? q = if q = place then node else t.node? q

theorem isUpdate_bind (hdir : t.isDirectory dir = true) (hnew : t.isDirectory (dir ++ [name]) = false)
    (node : FileNode) :
    IsUpdate t (t.bind dir name node hdir hnew) (dir ++ [name]) (some node) := by
  intro q
  rcases eq_or_ne q [] with rfl | hq
  · rw [if_neg (by simp)]
    rfl
  · rw [node?_of_ne_nil hq, node?_of_ne_nil hq]
    exact SortedMap.get?_insert ..

/-- A file or directory can be put under a name that is not that of a directory. -/
theorem exists_insert (hsize : name.utf8ByteSize ≤ nameLimit)
    (hdir : t.node? dir = some .directory) (hnew : t.node? (dir ++ [name]) ≠ some .directory)
    (node : FileNode) :
    ∃ t', t.insert dir name node = .ok t' ∧ IsUpdate t t' (dir ++ [name]) (some node) := by
  have hdir := isDirectory_iff.2 hdir
  have hnew : t.isDirectory (dir ++ [name]) = false := by
    rw [← Bool.not_eq_true, isDirectory_iff]
    exact hnew
  refine ⟨t.bind dir name node hdir hnew, ?_, isUpdate_bind hdir hnew node⟩
  rw [insert, if_neg (Nat.not_lt.2 hsize), dif_pos hdir, dif_pos hnew]

theorem hasEntries_eq_false (h : ∀ name, t.node? (place ++ [name]) = none) :
    t.hasEntries place = false := by
  rw [← Bool.not_eq_true, hasEntries, List.any_eq_true]
  rintro ⟨⟨q, node⟩, hmem, hq⟩
  simp only [Bool.and_eq_true, decide_eq_true_eq] at hq
  obtain ⟨hne, rfl⟩ := hq
  have hnode : t.node? q = some node := by
    rw [node?_of_ne_nil hne]
    exact SortedMap.get?_eq_some.2 hmem
  have hnone := h (q.getLast hne)
  rw [List.dropLast_concat_getLast, hnode] at hnone
  cases hnone

theorem isUpdate_unbind (hne : place ≠ []) (h : t.hasEntries place = false) :
    IsUpdate t (t.unbind place h) place none := by
  intro q
  rcases eq_or_ne q [] with rfl | hq
  · rw [if_neg hne.symm]
    rfl
  · rw [node?_of_ne_nil hq, node?_of_ne_nil hq]
    exact SortedMap.get?_erase ..

/-- Nothing lies in a file, or where nothing is. -/
theorem node?_concat_eq_none (h : t.node? place ≠ some .directory) (name : String) :
    t.node? (place ++ [name]) = none := by
  rw [← Option.not_isSome_iff_eq_none]
  exact fun hsome => h (node?_eq_directory hsome)

/-- A file can be removed. -/
theorem exists_remove (h : t.node? place = some (.file content)) :
    ∃ t', t.remove place = .ok t' ∧ IsUpdate t t' place none := by
  have hne : place ≠ [] := by
    rintro rfl
    cases h
  have hnothing : t.hasEntries place = false :=
    hasEntries_eq_false (node?_concat_eq_none (by simp [h]))
  exact ⟨_, dif_pos hnothing, isUpdate_unbind hne _⟩

/-- What can be removed is all that changes. -/
theorem isUpdate_of_remove (hne : place ≠ []) (h : t.remove place = .ok t') :
    IsUpdate t t' place none := by
  unfold remove at h
  split at h
  · cases h
    exact isUpdate_unbind hne _
  · cases h

/-! ## Following names -/

/-- A name that leads to the node of this name. -/
structure IsPlain (name : String) : Prop where
  ne_empty : name ≠ ""
  ne_dot : name ≠ "."
  ne_dots : name ≠ ".."
  size : name.utf8ByteSize ≤ nameLimit
  noNull : Char.ofNat 0 ∉ name.toList

theorem IsPlain.not_isIdle (h : IsPlain name) : FilePath.isIdle name = false := by
  simp [FilePath.isIdle, h.ne_empty, h.ne_dot]

/-- Where one name leads. -/
def step (t : FileTree) (place : Place) (name : String) : Except IoError Place :=
  match t.node? place with
  | none => .error .notFound
  | some (.file _) => .error .notADirectory
  | some .directory =>
    if name = "" ∨ name = "." then .ok place
    else if name = ".." then .ok place.dropLast
    else if nameLimit < name.utf8ByteSize then .error .nameTooLong
    else .ok (place ++ [name])

theorem follow_cons (t : FileTree) (place : Place) (name : String) (names : List String) :
    t.follow place (name :: names) = t.step place name >>= (t.follow · names) := by
  unfold step
  rw [follow]
  rcases t.node? place with _ | _ | _
  · rfl
  · rfl
  · dsimp only
    split_ifs <;> rfl

theorem follow_eq_notFound_of_node? (h : t.node? place = none) (names : List String) :
    t.follow place names = .error .notFound := by
  cases names with
  | nil => rw [follow, h]
  | cons name names =>
    rw [follow_cons, step, h]
    rfl

theorem follow_append (t : FileTree) (place : Place) (names more : List String) :
    t.follow place (names ++ more) = t.follow place names >>= fun found => t.follow found.1 more := by
  induction names generalizing place with
  | nil =>
    rcases hnode : t.node? place with _ | node
    · rw [follow_eq_notFound_of_node? hnode, follow_eq_notFound_of_node? hnode]
      rfl
    · have hnil : t.follow place [] = .ok (place, node) := by rw [follow, hnode]
      rw [hnil]
      rfl
  | cons name names ih =>
    rw [List.cons_append, follow_cons, follow_cons]
    rcases t.step place name with e | next
    · rfl
    · exact ih next

theorem node?_of_follow (h : t.follow place names = .ok (q, node)) : t.node? q = some node := by
  induction names generalizing place with
  | nil =>
    unfold follow at h
    split at h
    · rename_i hnode
      cases h
      exact hnode
    · cases h
  | cons name names ih =>
    rw [follow_cons] at h
    rcases hstep : t.step place name with e | next <;> rw [hstep] at h
    · cases h
    · exact ih h

theorem step_of_isPlain (h : IsPlain name) (hdir : t.node? place = some .directory) :
    t.step place name = .ok (place ++ [name]) := by
  unfold step
  rw [hdir]
  dsimp only
  rw [if_neg (not_or.2 ⟨h.ne_empty, h.ne_dot⟩), if_neg h.ne_dots, if_neg (Nat.not_lt.2 h.size)]

/-- One name leads on from directories only. -/
theorem node?_of_step {next : Place} (h : t.step place name = .ok next) :
    t.node? place = some .directory := by
  unfold step at h
  split at h
  · cases h
  · cases h
  · assumption

/-- Plain names lead to what lies at the place that they spell out. -/
theorem follow_of_node? (plain : ∀ name ∈ names, IsPlain name)
    (h : t.node? (place ++ names) = some node) :
    t.follow place names = .ok (place ++ names, node) := by
  induction names generalizing place with
  | nil =>
    rw [List.append_nil] at h ⊢
    rw [follow, h]
  | cons name names ih =>
    have hdir := node?_eq_directory_of_append (by rw [h]; rfl) (List.cons_ne_nil name names)
    rw [List.append_cons] at h ⊢
    rw [follow_cons, step_of_isPlain (plain name List.mem_cons_self) hdir]
    exact ih (fun n hn => plain n (List.mem_cons_of_mem _ hn)) h

/-- Plain names lead nowhere else. -/
theorem eq_of_follow (plain : ∀ name ∈ names, IsPlain name)
    (h : t.follow place names = .ok (q, node)) : q = place ++ names := by
  induction names generalizing place with
  | nil =>
    unfold follow at h
    split at h
    · cases h
      rw [List.append_nil]
    · cases h
  | cons name names ih =>
    rw [follow_cons] at h
    rcases hstep : t.step place name with e | next <;> rw [hstep] at h
    · cases h
    · have hplain := step_of_isPlain (plain name List.mem_cons_self) (node?_of_step hstep)
      obtain rfl := Except.ok.inj (hstep.symm.trans hplain)
      rw [List.append_cons]
      exact ih (fun n hn => plain n (List.mem_cons_of_mem _ hn)) h

/-- Plain names that pass through no file and end where nothing is lead to nothing. -/
theorem follow_eq_notFound (plain : ∀ name ∈ names, IsPlain name)
    (noFile : ∀ init, init <+: names → ∀ content, t.node? (place ++ init) ≠ some (.file content))
    (h : t.node? (place ++ names) = none) : t.follow place names = .error .notFound := by
  induction names generalizing place with
  | nil =>
    rw [List.append_nil] at h
    exact follow_eq_notFound_of_node? h []
  | cons name names ih =>
    rcases hnode : t.node? place with _ | content | _
    · exact follow_eq_notFound_of_node? hnode _
    · have hfile := noFile [] List.nil_prefix content
      rw [List.append_nil] at hfile
      exact absurd hnode hfile
    · rw [List.append_cons] at h
      rw [follow_cons, step_of_isPlain (plain name List.mem_cons_self) hnode]
      refine ih (fun n hn => plain n (List.mem_cons_of_mem _ hn)) (fun init hinit content => ?_) h
      rw [← List.append_cons]
      exact noFile (name :: init) ((List.prefix_cons_inj name).2 hinit) content

/-! ## Files below a directory -/

theorem mem_filesBelow {depth : Nat} (hdepth : depth ≠ 0) : names ∈ t.filesBelow dir depth ↔
    names.length = depth ∧ ∃ content, t.node? (dir ++ names) = some (.file content) := by
  have hnode {place : Place} {node : FileNode} (hne : place ≠ []) :
      (place, node) ∈ t.nodes.entries ↔ t.node? place = some node := by
    rw [node?_of_ne_nil hne, SortedMap.get?_eq_some]
  -- The root of the tree is not among the entries, and `node?` treats it apart.
  have hbelow {names : List String} (hlength : names.length = depth) : dir ++ names ≠ [] := by
    intro heq
    rw [List.append_eq_nil_iff] at heq
    exact hdepth (by rw [← hlength, heq.2]; rfl)
  unfold filesBelow
  rw [List.mem_filterMap]
  constructor
  · rintro ⟨⟨place, node⟩, hmem, hsome⟩
    dsimp only at hsome
    split_ifs at hsome with hfile
    cases hsome
    obtain ⟨hstarts, hlength, hnot⟩ := hfile
    obtain ⟨names, rfl⟩ := List.isPrefixOf_iff_prefix.1 hstarts
    rw [List.length_append, Nat.add_left_cancel_iff] at hlength
    rw [List.drop_left]
    refine ⟨hlength, ?_⟩
    rcases node with content | _
    · exact ⟨content, (hnode (hbelow hlength)).1 hmem⟩
    · simp [FileNode.isDirectory] at hnot
  · rintro ⟨hlength, content, hfile⟩
    refine ⟨(dir ++ names, .file content), (hnode (hbelow hlength)).2 hfile, ?_⟩
    dsimp only
    rw [if_pos, List.drop_left]
    refine ⟨List.isPrefixOf_iff_prefix.2 (List.prefix_append _ _), ?_, rfl⟩
    rw [List.length_append, hlength]

theorem nodup_filesBelow (t : FileTree) (dir : Place) (depth : Nat) :
    (t.filesBelow dir depth).Nodup := by
  refine List.pairwise_filterMap.2 (t.nodes.ordered.imp ?_)
  rintro ⟨place, node⟩ ⟨place', node'⟩ hlt names hnames names' hnames' rfl
  dsimp only at hnames hnames'
  split_ifs at hnames hnames' with hfile hfile'
  obtain ⟨init, rfl⟩ := List.isPrefixOf_iff_prefix.1 hfile.1
  obtain ⟨init', rfl⟩ := List.isPrefixOf_iff_prefix.1 hfile'.1
  rw [List.drop_left, Option.some.injEq] at hnames hnames'
  subst hnames hnames'
  exact StrictTotal.irrefl _ hlt

/-! ## Below a directory -/

/-- A place strictly below a directory. -/
def IsBelow (place q : Place) : Prop := ∃ names, names ≠ [] ∧ q = place ++ names

/-- The trees only differ below a directory. -/
def SameOutside (place : Place) (t t' : FileTree) : Prop :=
  ∀ q, ¬ IsBelow place q → t'.node? q = t.node? q

theorem SameOutside.refl (place : Place) (t : FileTree) : SameOutside place t t := fun _ _ => rfl

theorem SameOutside.trans {t'' : FileTree} (h : SameOutside place t t')
    (h' : SameOutside place t' t'') : SameOutside place t t'' :=
  fun q hq => (h' q hq).trans (h q hq)

theorem IsUpdate.sameOutside {node : Option FileNode} (h : IsUpdate t t' (place ++ names) node)
    (hne : names ≠ []) : SameOutside place t t' := by
  intro q hq
  rw [h q, if_neg]
  rintro rfl
  exact hq ⟨names, hne, rfl⟩

/-- Names pass through directories only, so they lead to what is kept, if all directories are. -/
theorem follow_of_directories {start : Place}
    (directories : ∀ p, t.node? p = some .directory → t'.node? p = some .directory)
    (kept : t'.node? q = some node) (h : t.follow start names = .ok (q, node)) :
    t'.follow start names = .ok (q, node) := by
  induction names generalizing start with
  | nil =>
    unfold follow at h ⊢
    split at h
    · cases h
      rw [kept]
    · cases h
  | cons name names ih =>
    rw [follow_cons] at h ⊢
    rcases hstep : t.step start name with e | next <;> rw [hstep] at h
    · cases h
    · have hdir := node?_of_step hstep
      have hstep' : t'.step start name = .ok next := by
        rw [← hstep]
        unfold step
        rw [hdir, directories start hdir]
      rw [hstep']
      exact ih h

/-- Where names lead does not depend on what lies below an empty directory later. -/
theorem follow_of_sameOutside {start : Place}
    (nothing : ∀ names, names ≠ [] → t.node? (place ++ names) = none)
    (same : SameOutside place t t') (h : t.follow start names = .ok (q, node)) :
    t'.follow start names = .ok (q, node) := by
  have keeps {p : Place} {found : FileNode} (hfound : t.node? p = some found) :
      t'.node? p = some found := by
    rw [same p, hfound]
    rintro ⟨below, hne, rfl⟩
    rw [nothing below hne] at hfound
    cases hfound
  exact follow_of_directories (fun _ => keeps) (keeps (node?_of_follow h)) h

end KernelTuning.FileTree
