import KernelTuning.Proofs.DirectoryRecords

/-!
# Segments of record paths

Any text becomes a segment that can name a file, and the file of a record lies below the root.

**Segments** (`IsSegment`). Sanitising leaves characters out, empties a text of dots, cuts what
remains and replaces what still cannot be a name. Every step but the last one keeps a part of the
characters before it, so none that was left out comes back (`mem_clean`); what the steps may leave
behind, nothing or one or two dots, is just what the last one replaces.

**Clean names** (`IsClean`). Of the names that files can have, sanitising leaves alone just those
without characters that it leaves out and with something else than dots (`sanitize_eq_self_iff`).

**Paths.** A path is read as its components: the slash at its start, names, and steps that stay or
go up (`FilePath.components`). They are those of its text, if the names hold no slashes
(`components_ofText_toText`). Segments below a root are components of their own
(`components_below`).

**Theorem (`staysBelow_ofTexts`).** Whatever the texts are, there is one segment for each of them,
the components of the file are those of the root and the segments as names, and where the path of
the file leads is below where the root leads.
-/

namespace KernelTuning

open FileTree (IsPlain)

/-! ## Characters of segments -/

namespace RecordPath

/-- A text that can name a file in any directory. -/
structure IsSegment (segment : String) : Prop where
  ne_empty : segment ≠ ""
  ne_dot : segment ≠ "."
  ne_dots : segment ≠ ".."
  /-- The bytes are those of the encoding as UTF-8. -/
  size : segment.utf8ByteSize ≤ 255
  noSlash : '/' ∉ segment.toList
  /-- The null character is the first one of these. -/
  noControl : ∀ c ∈ segment.toList, ¬ c.toNat < 0x20

/-- What remains of a text was in it and has a place in file names. -/
theorem mem_clean {text : List Char} {c : Char} (h : c ∈ clean text) :
    c ∈ text ∧ isReserved c = false ∧ isControl c = false := by
  have hkept := mem_truncate h
  split_ifs at hkept
  · cases hkept
  · obtain ⟨hunreserved, hcontrol⟩ := List.mem_filter.1 hkept
    obtain ⟨htext, hreserved⟩ := List.mem_filter.1 hunreserved
    simp only [Bool.not_eq_true'] at hreserved hcontrol
    exact ⟨htext, hreserved, hcontrol⟩

theorem mem_toList_underscore {c : Char} (h : c ∈ "_".toList) : c = '_' := by
  have htext : "_".toList = ['_'] := by decide
  exact List.mem_singleton.1 (htext ▸ h)

theorem isSegment_underscore : IsSegment "_" := by
  refine ⟨by decide, by decide, by decide, by decide, by decide, fun c hc => ?_⟩
  rw [mem_toList_underscore hc]
  decide

/-- Every text becomes a segment. -/
theorem isSegment_sanitize (text : String) : IsSegment (sanitize text) := by
  unfold sanitize
  dsimp only
  split_ifs with hspecial
  · exact isSegment_underscore
  · simp only [not_or] at hspecial
    have hne {name : String} (h : clean text.toList ≠ name.toList) :
        String.ofList (clean text.toList) ≠ name := by
      rintro rfl
      exact h String.toList_ofList.symm
    have hmem {c : Char} (h : c ∈ (String.ofList (clean text.toList)).toList) :=
      mem_clean (String.toList_ofList ▸ h)
    refine ⟨hne hspecial.1, hne hspecial.2.1, hne hspecial.2.2, utf8ByteSize_truncate _ _,
      fun h => ?_, fun c h hlt => ?_⟩
    · exact absurd (hmem h).2.1 (by decide)
    · simpa [isControl, hlt] using (hmem h).2.2

theorem isSegment_of_mem_ofTexts {texts : List String} {segment : String}
    (h : segment ∈ (ofTexts texts).segments) : IsSegment segment := by
  obtain ⟨text, -, rfl⟩ := List.mem_map.1 h
  exact isSegment_sanitize text

theorem IsSegment.isPlain {segment : String} (h : IsSegment segment) : IsPlain segment where
  ne_empty := h.ne_empty
  ne_dot := h.ne_dot
  ne_dots := h.ne_dots
  size := h.size
  noNull hnull := h.noControl _ hnull (by decide)

end RecordPath

/-! ## Clean names -/

namespace RecordPath

/-- A name without characters that sanitising leaves out, and not of dots only. -/
structure IsClean (name : String) : Prop where
  allowed : ∀ c ∈ name.toList, isReserved c = false ∧ isControl c = false
  notDots : ∃ c ∈ name.toList, c ≠ '.'

theorem truncate_of_le {limit : Nat} {text : List Char}
    (h : (String.ofList text).utf8ByteSize ≤ limit) : truncate limit text = text := by
  induction text generalizing limit with
  | nil => rfl
  | cons c rest ih =>
    rw [String.ofList_cons, String.utf8ByteSize_append, String.utf8ByteSize_singleton] at h
    rw [truncate, if_pos (by omega), ih (by omega)]

theorem utf8ByteSize_filter_le (p : Char → Bool) (text : List Char) :
    (String.ofList (text.filter p)).utf8ByteSize ≤ (String.ofList text).utf8ByteSize := by
  induction text with
  | nil => exact Nat.le_refl _
  | cons c rest ih =>
    rw [List.filter_cons]
    split_ifs
    · simp only [String.ofList_cons, String.utf8ByteSize_append]
      omega
    · rw [String.ofList_cons, String.utf8ByteSize_append]
      omega

/-- Nothing is cut off a text that is short enough. -/
theorem clean_of_le {text : String} (h : text.utf8ByteSize ≤ nameLimit) :
    clean text.toList =
      if ((text.toList.filter (!isReserved ·)).filter (!isControl ·)).all (· = '.') then []
      else (text.toList.filter (!isReserved ·)).filter (!isControl ·) := by
  have hkept := Nat.le_trans (utf8ByteSize_filter_le (!isControl ·)
    (text.toList.filter (!isReserved ·))) (utf8ByteSize_filter_le _ _)
  rw [String.ofList_toList] at hkept
  unfold clean
  dsimp only
  split_ifs
  · rfl
  · exact truncate_of_le (Nat.le_trans hkept h)

theorem IsClean.clean_eq {name : String} (h : IsClean name)
    (hsize : name.utf8ByteSize ≤ nameLimit) : clean name.toList = name.toList := by
  have hreserved : name.toList.filter (!isReserved ·) = name.toList :=
    List.filter_eq_self.2 fun c hc => by rw [(h.allowed c hc).1]; rfl
  have hcontrol : name.toList.filter (!isControl ·) = name.toList :=
    List.filter_eq_self.2 fun c hc => by rw [(h.allowed c hc).2]; rfl
  obtain ⟨c, hc, hdot⟩ := h.notDots
  rw [clean_of_le hsize, hreserved, hcontrol, if_neg]
  exact fun hall => hdot (by simpa using List.all_eq_true.1 hall c hc)

theorem IsClean.sanitize_eq {name : String} (h : IsClean name)
    (hsize : name.utf8ByteSize ≤ nameLimit) : sanitize name = name := by
  obtain ⟨c, hc, hdot⟩ := h.notDots
  unfold sanitize
  dsimp only
  rw [h.clean_eq hsize, if_neg, String.ofList_toList]
  rintro (heq | heq | heq) <;> simp_all

/-- Sanitising a text that is short enough gives a clean name. Cutting a longer one may leave dots
only. -/
theorem isClean_sanitize {text : String} (h : text.utf8ByteSize ≤ nameLimit) :
    IsClean (sanitize text) := by
  unfold sanitize
  dsimp only
  split_ifs with hspecial
  · refine ⟨fun c hc => ?_, '_', by decide, by decide⟩
    rw [mem_toList_underscore hc]
    decide
  · simp only [not_or] at hspecial
    refine ⟨fun c hc => (mem_clean (String.toList_ofList ▸ hc)).2, ?_⟩
    rw [String.toList_ofList, clean_of_le h]
    have hne := hspecial.1
    rw [clean_of_le h] at hne
    split_ifs at hne ⊢ with hall
    · exact absurd rfl hne
    · simpa [and_assoc] using hall

/-- The names that sanitising leaves alone are the clean ones that can name a file. -/
theorem sanitize_eq_self_iff {name : String} :
    sanitize name = name ↔ IsClean name ∧ name.utf8ByteSize ≤ nameLimit := by
  refine ⟨fun h => ?_, fun h => h.1.sanitize_eq h.2⟩
  have hsize : name.utf8ByteSize ≤ nameLimit := h ▸ (isSegment_sanitize name).size
  exact ⟨h ▸ isClean_sanitize hsize, hsize⟩

end RecordPath

open RecordPath (IsSegment)

/-! ## Components of paths -/

namespace FilePath

/-- A part of a path. -/
inductive Component where
  /-- The slash at the start. -/
  | root
  /-- A dot at the start. -/
  | current
  /-- Two dots. -/
  | parent
  | normal (name : String)
deriving DecidableEq

/-- The component of a name, unless the name leads nowhere else. -/
def componentOf? (name : String) : Option Component :=
  if isIdle name then none else if name = ".." then some .parent else some (.normal name)

/-- The components of a path. Of the names that lead nowhere else, only a dot at the start of a
relative path is one. -/
def components (p : FilePath) : List Component :=
  (if p.isAbsolute then [.root] else if p.names.head? = some "." then [.current] else []) ++
    p.names.filterMap componentOf?

variable {p : FilePath} {segments : List String}

theorem componentOf?_of_isPlain {name : String} (h : IsPlain name) :
    componentOf? name = some (.normal name) := by
  unfold componentOf?
  rw [h.not_isIdle, if_neg Bool.false_ne_true, if_neg h.ne_dots]

/-- An idle name at the end is no component. -/
theorem filterMap_stem (p : FilePath) :
    p.stem.filterMap componentOf? = p.names.filterMap componentOf? := by
  rcases p.names_eq_stem with h | h
  · rw [h]
  · rw [h, List.filterMap_append]
    exact (List.append_nil _).symm

/-- The first name of a longer path is that of the path, if there is one. -/
theorem head?_stem_append (p : FilePath) (segments : List String) :
    (p.stem ++ segments).head? = p.names.head? ∨
      p.stem = [] ∧ (p.names = [] ∨ p.names = [""]) := by
  rcases hstem : p.stem with _ | ⟨first, rest⟩
  · refine .inr ⟨rfl, ?_⟩
    simpa [hstem] using p.names_eq_stem
  · refine .inl ?_
    rcases p.names_eq_stem with h | h <;> rw [h, hstem] <;> rfl

/-- Plain names below a path are components of their own. -/
theorem components_below (plain : ∀ name ∈ segments, IsPlain name) (p : FilePath) :
    (p.below segments).components = p.components ++ segments.map .normal := by
  have hnames : segments.filterMap componentOf? = segments.map .normal := by
    rw [← List.filterMap_eq_map]
    exact List.filterMap_congr fun name hname => componentOf?_of_isPlain (plain name hname)
  have hdot : (p.stem ++ segments).head? = some "." ↔ p.names.head? = some "." := by
    rcases head?_stem_append p segments with h | ⟨hstem, hp⟩
    · rw [h]
    · rw [hstem, List.nil_append]
      refine iff_of_false (fun h => ?_) (by rcases hp with h | h <;> simp [h])
      exact (plain _ (List.mem_of_head? h)).ne_dot rfl
  simp only [components, below_eq, List.filterMap_append, filterMap_stem, hnames, hdot,
    List.append_assoc]

/-! ## Texts of paths -/

theorem betweenSlashes_cons_slash (text : List Char) :
    betweenSlashes ('/' :: text) = [] :: betweenSlashes text := by
  unfold betweenSlashes
  rw [List.foldr_cons, if_pos rfl]

theorem betweenSlashes_ne_nil (text : List Char) : betweenSlashes text ≠ [] := by
  unfold betweenSlashes
  cases text with
  | nil => simp
  | cons c text =>
    rw [List.foldr_cons]
    split_ifs
    · simp
    · split <;> simp

theorem betweenSlashes_cons {c : Char} (h : c ≠ '/') {text first : List Char}
    {rest : List (List Char)} (htext : betweenSlashes text = first :: rest) :
    betweenSlashes (c :: text) = (c :: first) :: rest := by
  unfold betweenSlashes at htext ⊢
  rw [List.foldr_cons, htext, if_neg h]

/-- A part without slashes belongs to what follows up to the next slash. -/
theorem betweenSlashes_append {part : List Char} (h : '/' ∉ part) {text first : List Char}
    {rest : List (List Char)} (htext : betweenSlashes text = first :: rest) :
    betweenSlashes (part ++ text) = (part ++ first) :: rest := by
  induction part with
  | nil => exact htext
  | cons c part ih =>
    rw [List.mem_cons, not_or] at h
    exact betweenSlashes_cons (Ne.symm h.1) (ih h.2)

/-- Parts without slashes are found again between the slashes that separate them. -/
theorem betweenSlashes_intercalate {parts : List (List Char)} (hne : parts ≠ [])
    (h : ∀ part ∈ parts, '/' ∉ part) : betweenSlashes (['/'].intercalate parts) = parts := by
  induction parts with
  | nil => exact absurd rfl hne
  | cons part parts ih =>
    have hpart := h part List.mem_cons_self
    cases parts with
    | nil =>
      have hend := betweenSlashes_append hpart (show betweenSlashes [] = [] :: [] from rfl)
      rw [List.append_nil] at hend
      rw [List.intercalate_singleton, hend]
    | cons next rest =>
      have hrest := ih (List.cons_ne_nil _ _) fun q hq => h q (List.mem_cons_of_mem _ hq)
      have hslash : betweenSlashes ('/' :: ['/'].intercalate (next :: rest)) =
          [] :: next :: rest := by
        rw [betweenSlashes_cons_slash, hrest]
      have happend := betweenSlashes_append hpart hslash
      rwa [List.append_nil] at happend

/-- Nothing between slashes holds a slash. -/
theorem noSlash_of_mem_betweenSlashes {text part : List Char} (h : part ∈ betweenSlashes text) :
    '/' ∉ part := by
  induction text generalizing part with
  | nil =>
    obtain rfl := List.mem_singleton.1 h
    exact List.not_mem_nil
  | cons c text ih =>
    rcases hrest : betweenSlashes text with _ | ⟨first, rest⟩
    · exact absurd hrest (betweenSlashes_ne_nil text)
    · rw [hrest] at ih
      by_cases hc : c = '/'
      · rw [hc, betweenSlashes_cons_slash, hrest] at h
        rcases List.mem_cons.1 h with rfl | h
        · exact List.not_mem_nil
        · exact ih h
      · rw [betweenSlashes_cons hc hrest] at h
        rcases List.mem_cons.1 h with rfl | h
        · simpa [Ne.symm hc] using ih List.mem_cons_self
        · exact ih (List.mem_cons_of_mem _ h)

/-- A path whose text has the slashes of the path only. -/
structure IsWritten (p : FilePath) : Prop where
  noSlash : ∀ name ∈ p.names, '/' ∉ name.toList
  relative : p.isAbsolute = false → p.names.head? ≠ some ""

theorem isWritten_ofText (text : String) : (ofText text).IsWritten := by
  have hnames {characters : List Char} {name : String} (h : name ∈ namesOf characters) :
      '/' ∉ name.toList := by
    unfold namesOf at h
    split_ifs at h
    · cases h
    · obtain ⟨part, hpart, rfl⟩ := List.mem_map.1 h
      rw [String.toList_ofList]
      exact noSlash_of_mem_betweenSlashes hpart
  unfold ofText
  split
  · exact ⟨fun name => hnames, fun h => by cases h⟩
  · -- A relative text does not start with a slash, so its first name has a character.
    rename_i characters hslash
    refine ⟨fun name => hnames, fun _ => ?_⟩
    rcases hcharacters : text.toList with _ | ⟨c, rest⟩
    · exact (by decide : ([] : List String).head? ≠ some "")
    · have hc : c ≠ '/' := by
        rintro rfl
        exact hslash rest hcharacters
      rcases hrest : betweenSlashes rest with _ | ⟨first, others⟩
      · exact absurd hrest (betweenSlashes_ne_nil rest)
      · rw [namesOf, List.isEmpty_cons, if_neg Bool.false_ne_true, betweenSlashes_cons hc hrest]
        simp [String.ofList_eq_empty_iff]

theorem IsWritten.below (h : p.IsWritten) (hsegments : ∀ name ∈ segments, IsSegment name) :
    (p.below segments).IsWritten where
  noSlash name hname := by
    rw [below_eq] at hname
    rcases List.mem_append.1 hname with hname | hname
    · refine h.noSlash name ?_
      rcases p.names_eq_stem with heq | heq <;> rw [heq]
      · exact hname
      · exact List.mem_append_left _ hname
    · exact (hsegments name hname).noSlash
  relative hrelative := by
    rw [below_eq]
    rcases head?_stem_append p segments with heq | ⟨hstem, -⟩
    · exact heq ▸ h.relative hrelative
    · rw [hstem, List.nil_append]
      exact fun heq => (hsegments _ (List.mem_of_head? heq)).ne_empty rfl

theorem toList_toText (p : FilePath) : p.toText.toList =
    (if p.isAbsolute then ['/'] else []) ++ ['/'].intercalate (p.names.map String.toList) := by
  unfold toText
  rw [String.toList_append, String.toList_intercalate]
  cases p.isAbsolute <;> rfl

/-- The names are found again in their text. A single empty name has no text. -/
theorem namesOf_intercalate {names : List String} (h : ∀ name ∈ names, '/' ∉ name.toList) :
    namesOf (['/'].intercalate (names.map String.toList)) = names ∨
      names = [""] ∧ namesOf (['/'].intercalate (names.map String.toList)) = [] := by
  unfold namesOf
  rcases eq_or_ne names [] with rfl | hne
  · exact .inl rfl
  · have hbetween : betweenSlashes (['/'].intercalate (names.map String.toList)) =
        names.map String.toList :=
      betweenSlashes_intercalate (by simpa using hne) (by simpa using h)
    have hback : ((names.map String.toList).map String.ofList) = names := by simp
    split_ifs with hempty
    · rw [List.isEmpty_iff] at hempty
      rw [hempty] at hbetween
      refine .inr ⟨?_, rfl⟩
      rw [← hback, ← hbetween]
      rfl
    · exact .inl (by rw [hbetween, hback])

/-- The components of a path are those of its text. -/
theorem components_ofText_toText (h : p.IsWritten) :
    (ofText p.toText).components = p.components := by
  obtain ⟨isAbsolute, names⟩ := p
  have hnames := namesOf_intercalate h.noSlash
  cases isAbsolute with
  | true =>
    have hread : ofText (toText ⟨true, names⟩) =
        ⟨true, namesOf (['/'].intercalate (names.map String.toList))⟩ := by
      rw [ofText, toList_toText]
      rfl
    rw [hread]
    rcases hnames with hnames | ⟨rfl, hnames⟩
    · rw [hnames]
    · -- A root without names and one with an empty name have one text, and no components.
      rw [hnames]
      rfl
  | false =>
    have hrelative := h.relative rfl
    have hnames := hnames.resolve_right fun hempty => hrelative (by rw [hempty.1]; rfl)
    have htext : (toText ⟨false, names⟩).toList = ['/'].intercalate (names.map String.toList) :=
      toList_toText _
    have hread : ofText (toText ⟨false, names⟩) = ⟨false, names⟩ := by
      unfold ofText
      rw [htext]
      split
      · -- A text that starts with a slash has an empty first name.
        rename_i rest hslash
        rw [hslash, namesOf, List.isEmpty_cons, if_neg Bool.false_ne_true,
          betweenSlashes_cons_slash] at hnames
        exact absurd (by rw [← hnames]; rfl) hrelative
      · rw [hnames]
    rw [hread]

/-! ## Segments one by one -/

/-- A segment is a relative path of one name. -/
theorem ofText_of_isSegment {segment : String} (h : IsSegment segment) :
    ofText segment = ⟨false, [segment]⟩ := by
  have hne : segment.toList ≠ [] := fun hnil => h.ne_empty (String.toList_eq_nil_iff.1 hnil)
  have hbetween := betweenSlashes_append h.noSlash (show betweenSlashes [] = [] :: [] from rfl)
  rw [List.append_nil] at hbetween
  have hnames : namesOf segment.toList = [segment] := by
    rw [namesOf, if_neg (by simpa using hne), hbetween]
    simp
  unfold ofText
  split
  · rename_i rest hslash
    exact absurd (hslash ▸ List.mem_cons_self) h.noSlash
  · rw [hnames]

/-- Joining the segments one by one puts them below the path. -/
theorem foldl_join (hsegments : ∀ name ∈ segments, IsSegment name) (hne : segments ≠ [])
    (p : FilePath) :
    segments.foldl (fun file segment => file.join (ofText segment)) p = p.below segments := by
  induction segments generalizing p with
  | nil => exact absurd rfl hne
  | cons segment rest ih =>
    have hsegment := hsegments segment List.mem_cons_self
    have hjoin : p.join (ofText segment) = p.below [segment] := by
      rw [ofText_of_isSegment hsegment]
      rfl
    rw [List.foldl_cons, hjoin]
    rcases eq_or_ne rest [] with rfl | hrest
    · rfl
    · rw [ih (fun name hname => hsegments name (List.mem_cons_of_mem _ hname)) hrest, below_eq,
        stem_below (by simpa using hsegment.isPlain) (by simp), List.append_assoc]
      rfl

end FilePath

/-! ## Files of records -/

namespace RecordPath

/-- The file of a record lies below the root, one level for each segment. -/
structure StaysBelow (s : DirectoryStorage) (path : RecordPath) : Prop where
  segments : ∀ segment ∈ path.segments, IsSegment segment
  /-- The text of the file's path is that of the root and the segments as names. -/
  components : (FilePath.ofText (s.filePath path).toText).components =
    s.root.components ++ path.segments.map .normal
  /-- No segment replaces the path that it is joined to. -/
  joined : path.segments ≠ [] → s.filePath path =
    path.segments.foldl (fun file segment => file.join (.ofText segment)) s.root
  /-- What the path leads to is below what the root leads to, whatever the files are. -/
  leads : ∀ (files : FileSystem) (place : Place) (node : FileNode),
    files.resolve (s.filePath path) = .ok (place, node) →
      ∃ root, files.tree.follow (files.start s.root) s.root.stem = .ok root ∧
        place = root.1 ++ path.segments

/-- **The file of a record never leaves the root**, whatever texts its path is made of. -/
theorem staysBelow_ofTexts (root : String) (depth : Nat) (writer : String) (texts : List String) :
    (ofTexts texts).segments.length = texts.length ∧
      StaysBelow ⟨.ofText root, depth, writer⟩ (ofTexts texts) := by
  have hsegments : ∀ segment ∈ (ofTexts texts).segments, IsSegment segment :=
    fun segment => isSegment_of_mem_ofTexts
  have plain : ∀ segment ∈ (ofTexts texts).segments, IsPlain segment :=
    fun segment hsegment => (hsegments segment hsegment).isPlain
  have written := (FilePath.isWritten_ofText root).below hsegments
  refine ⟨List.length_map _, hsegments, ?_, fun hne => ?_, fun files place node hresolve => ?_⟩
  · exact (FilePath.components_ofText_toText written).trans
      (FilePath.components_below plain (.ofText root))
  · exact (FilePath.foldl_join hsegments hne (.ofText root)).symm
  · obtain ⟨-, -, hfollow⟩ := except_bind_eq_ok.1 hresolve
    have hfollow : files.tree.follow (files.start (.ofText root))
        ((FilePath.ofText root).stem ++ (ofTexts texts).segments) = .ok (place, node) := hfollow
    rw [FileTree.follow_append] at hfollow
    obtain ⟨found, hroot, hbelow⟩ := except_bind_eq_ok.1 hfollow
    exact ⟨found, hroot, FileTree.eq_of_follow plain hbelow⟩

end RecordPath

end KernelTuning
