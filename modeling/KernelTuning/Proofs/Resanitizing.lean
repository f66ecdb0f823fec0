import KernelTuning.Proofs.SingleRecords

/-!
# Sanitising twice

A listing makes record paths of the names that it finds, which were sanitised when the records were
written. Does sanitising leave its own results alone?

**Cut texts** (`CutToDots`). The steps that leave characters out and the one that replaces what
cannot be a name do. The one that empties a text of dots comes before the cut, though: if dots fill
the text up to the limit and something else follows, then the cut leaves dots only
(`sanitize_of_cutToDots`), and the next time these become an underscore. All other results are clean
(`isClean_sanitize_iff`), and clean names are left alone. So is everything after the second time.

**Theorem (`resanitizes_iff`).** Sanitising a path again gives the same path if and only if no text
is cut to dots. The same condition tells whether a record that is written in a fresh directory is
listed under its path.
-/

namespace KernelTuning

open DirectoryStorage (Accepts list_of_single exists_write_of_isFresh)

namespace RecordPath

/-! ## Texts that are cut to dots -/

/-- The characters of a text that have a place in file names. -/
def kept (text : String) : List Char := (text.toList.filter (!isReserved ·)).filter (!isControl ·)

/-- Dots are followed by something else, which ends past the limit. -/
def CutToDots (text : String) : Prop :=
  ∃ n c rest, kept text = List.replicate n '.' ++ c :: rest ∧ c ≠ '.' ∧ nameLimit < n + c.utf8Size

theorem clean_eq_truncate (text : String) :
    clean text.toList =
      truncate nameLimit (if (kept text).all (· = '.') then [] else kept text) := rfl

/-- A text that is not of dots only has a first other character. -/
theorem exists_eq_replicate_append {l : List Char} (h : ∃ c ∈ l, c ≠ '.') :
    ∃ n c rest, l = List.replicate n '.' ++ c :: rest ∧ c ≠ '.' := by
  induction l with
  | nil =>
    obtain ⟨_, hc, -⟩ := h
    cases hc
  | cons d l ih =>
    by_cases hd : d = '.'
    · obtain ⟨c, hc, hne⟩ := h
      have hmem : c ∈ l := (List.mem_cons.1 hc).resolve_left fun heq => hne (heq.trans hd)
      obtain ⟨n, c, rest, rfl, hne⟩ := ih ⟨c, hmem, hne⟩
      exact ⟨n + 1, c, rest, by rw [hd, List.replicate_succ, List.cons_append], hne⟩
    · exact ⟨0, d, l, rfl, hd⟩

/-- Each dot takes one byte of the limit. -/
theorem truncate_replicate_append (n limit : Nat) (rest : List Char) :
    truncate limit (List.replicate n '.' ++ rest) =
      if n ≤ limit then List.replicate n '.' ++ truncate (limit - n) rest
      else List.replicate limit '.' := by
  have hsize : '.'.utf8Size = 1 := by decide
  induction n generalizing limit with
  | zero => simp
  | succ n ih =>
    rw [List.replicate_succ, List.cons_append, truncate, hsize]
    rcases limit with _ | limit
    · rfl
    · rw [if_pos (by omega), Nat.add_sub_cancel, ih, Nat.add_sub_add_right]
      split_ifs
      all_goals first | rfl | omega

/-- The cut goes by the end of the first character other than a dot. -/
theorem clean_of_kept {text : String} {n : Nat} {c : Char} {rest : List Char}
    (h : kept text = List.replicate n '.' ++ c :: rest) (hc : c ≠ '.') :
    clean text.toList =
      if n + c.utf8Size ≤ nameLimit then
        List.replicate n '.' ++ c :: truncate (nameLimit - n - c.utf8Size) rest
      else List.replicate (min n nameLimit) '.' := by
  have hpos := c.utf8Size_pos
  have hall : ¬ (kept text).all (· = '.') = true := by
    rw [h]
    simp [hc]
  rw [clean_eq_truncate, if_neg hall, h, truncate_replicate_append, truncate]
  split_ifs
  · rfl
  · omega
  · omega
  · rw [List.append_nil, Nat.min_eq_left ‹_›]
  · omega
  · rw [Nat.min_eq_right (by omega)]

/-- Dots that were cut off are what remains. -/
theorem sanitize_of_cutToDots {text : String} (h : CutToDots text) :
    ∃ n, 252 ≤ n ∧ sanitize text = String.ofList (List.replicate n '.') := by
  obtain ⟨n, c, rest, hkept, hc, hlimit⟩ := h
  have hsize := c.utf8Size_le_four
  have hmin : 252 ≤ min n nameLimit := by
    rw [nameLimit] at hlimit ⊢
    omega
  refine ⟨min n nameLimit, hmin, ?_⟩
  have hclean := clean_of_kept hkept hc
  rw [if_neg (by omega)] at hclean
  unfold sanitize
  dsimp only
  rw [hclean, if_neg]
  intro hspecial
  have hlength : (List.replicate (min n nameLimit) '.').length ≤ 2 := by
    rcases hspecial with heq | heq | heq <;> simp [heq]
  rw [List.length_replicate] at hlength
  omega

/-- A text of dots is replaced. -/
theorem sanitize_replicate (n : Nat) :
    sanitize (String.ofList (List.replicate n '.')) = "_" := by
  have hall : (kept (String.ofList (List.replicate n '.'))).all (· = '.') = true := by
    rw [List.all_eq_true]
    intro c hc
    have hmem := List.mem_of_mem_filter (List.mem_of_mem_filter hc)
    rw [String.toList_ofList] at hmem
    exact decide_eq_true (List.eq_of_mem_replicate hmem)
  unfold sanitize
  dsimp only
  rw [clean_eq_truncate, if_pos hall]
  rfl

/-- Unless a text is cut to dots, sanitising it gives a clean name. -/
theorem isClean_sanitize_iff {text : String} : IsClean (sanitize text) ↔ ¬ CutToDots text := by
  constructor
  · rintro ⟨-, c, hc, hdot⟩ hcut
    obtain ⟨n, -, hdots⟩ := sanitize_of_cutToDots hcut
    rw [hdots, String.toList_ofList] at hc
    exact hdot (List.eq_of_mem_replicate hc)
  · intro hcut
    unfold sanitize
    dsimp only
    split_ifs with hspecial
    · exact (sanitize_eq_self_iff.1 (by decide)).1
    · refine ⟨fun c hc => (mem_clean (String.toList_ofList ▸ hc)).2, ?_⟩
      rw [String.toList_ofList]
      have hdots : ∃ c ∈ kept text, c ≠ '.' := by
        by_contra hnone
        have hall : (kept text).all (· = '.') = true :=
          List.all_eq_true.2 fun c hc => decide_eq_true (not_not.1 fun hne => hnone ⟨c, hc, hne⟩)
        rw [clean_eq_truncate, if_pos hall] at hspecial
        exact hspecial (.inl rfl)
      -- The first other character is kept, since the dots before it leave room for it.
      obtain ⟨n, c, rest, hkept, hc⟩ := exists_eq_replicate_append hdots
      have hlimit : n + c.utf8Size ≤ nameLimit :=
        Nat.not_lt.1 fun hlt => hcut ⟨n, c, rest, hkept, hc, hlt⟩
      rw [clean_of_kept hkept hc, if_pos hlimit]
      exact ⟨c, by simp, hc⟩

theorem sanitize_sanitize_iff {text : String} :
    sanitize (sanitize text) = sanitize text ↔ ¬ CutToDots text := by
  have hsize : (sanitize text).utf8ByteSize ≤ nameLimit := (isSegment_sanitize text).size
  rw [sanitize_eq_self_iff, isClean_sanitize_iff, and_iff_left hsize]

theorem sanitize_sanitize_of_cutToDots {text : String} (h : CutToDots text) :
    sanitize (sanitize text) = "_" := by
  obtain ⟨n, -, hdots⟩ := sanitize_of_cutToDots h
  rw [hdots, sanitize_replicate]

/-- From the second time on nothing changes. -/
theorem sanitize_sanitize_sanitize (text : String) :
    sanitize (sanitize (sanitize text)) = sanitize (sanitize text) := by
  by_cases h : CutToDots text
  · rw [sanitize_sanitize_of_cutToDots h]
    decide
  · rw [sanitize_sanitize_iff.2 h, sanitize_sanitize_iff.2 h]

/-! ## Paths -/

theorem ofTexts_segments_iff {texts : List String} :
    ofTexts (ofTexts texts).segments = ofTexts texts ↔ ∀ text ∈ texts, ¬ CutToDots text := by
  simp only [ofTexts, RecordPath.mk.injEq, List.map_map]
  rw [List.map_inj_left]
  simp only [Function.comp_apply, sanitize_sanitize_iff]

/-- Sanitising a path settles at the second time. -/
theorem ofTexts_segments_segments (texts : List String) :
    ofTexts (ofTexts (ofTexts texts).segments).segments = ofTexts (ofTexts texts).segments := by
  have hmap : ((texts.map sanitize).map sanitize).map sanitize =
      (texts.map sanitize).map sanitize := by
    simp only [List.map_map]
    rw [List.map_inj_left]
    intro text _
    simp only [Function.comp_apply, sanitize_sanitize_sanitize]
  exact congrArg RecordPath.mk hmap

/-- **A path is sanitised to itself if and only if none of its texts was cut to dots**, and then a
record comes back from a directory under the path that it was written to. -/
theorem resanitizes_iff (texts : List String) :
    (ofTexts (ofTexts texts).segments = ofTexts texts ↔ ∀ text ∈ texts, ¬ CutToDots text) ∧
      (∀ text ∈ texts, CutToDots text → sanitize (sanitize text) = "_") ∧
      ofTexts (ofTexts (ofTexts texts).segments).segments = ofTexts (ofTexts texts).segments ∧
      ∀ (s : DirectoryStorage) (files : FileSystem) (content : ByteArray),
        s.Accepts (ofTexts texts) → files.pathLimit = none → files.IsFresh s.root →
          ∃ files', exec (s.write (ofTexts texts) content) files = (.ok (), files') ∧
            s.read (ofTexts texts) files' = .ok (some content) ∧
            (s.list files' = .ok [ofTexts texts] ↔ ∀ text ∈ texts, ¬ CutToDots text) := by
  refine ⟨ofTexts_segments_iff, fun text _ => sanitize_sanitize_of_cutToDots,
    ofTexts_segments_segments texts, fun s files content haccepts limit fresh => ?_⟩
  obtain ⟨files', place, hwrite, hroot, only⟩ :=
    exists_write_of_isFresh haccepts limit fresh content
  refine ⟨files', hwrite, ?_, ?_⟩
  · exact DirectoryStorage.read_of_accepts haccepts hroot ((only _ _).2 ⟨rfl, rfl⟩)
  · rw [list_of_single hroot haccepts.isRecord only, Except.ok.injEq, List.singleton_inj]
    exact ofTexts_segments_iff

/-- Dots alone are no name, and few of them before something else are not cut. The record is listed
under its path. -/
theorem resanitizes_iff_dots :
    let s : DirectoryStorage := ⟨(FilePath.ofPlace []).below ["cache"], 3, "7-a"⟩
    let path := ofTexts ["...", "...a", "8.json"]
    ofTexts path.segments = path ∧
      ∃ files', exec (s.write path "8".toUTF8) .empty = (.ok (), files') ∧
        s.read path files' = .ok (some "8".toUTF8) ∧ s.list files' = .ok [path] := by
  intro s path
  obtain ⟨same, -, -, written⟩ := resanitizes_iff ["...", "...a", "8.json"]
  have haccepts : s.Accepts path :=
    .of_sanitized ⟨by decide, by decide⟩ rfl rfl
      (DirectoryStorage.isRecordName_iff.2 (by decide)) (by decide)
  have hsame : ofTexts path.segments = path := by decide
  obtain ⟨files', hwrite, hread, hlist⟩ :=
    written s .empty "8".toUTF8 haccepts rfl FileSystem.isFresh_cache
  exact ⟨hsame, files', hwrite, hread, hlist.2 (same.1 hsame)⟩

/-- One dot more than a name can have, but for the letter at its end. -/
def dottedText : String := String.ofList (List.replicate nameLimit '.' ++ ['a'])

theorem cutToDots_dottedText : CutToDots dottedText := by
  refine ⟨nameLimit, 'a', [], ?_, by decide, by decide⟩
  have keeps (p : Char → Bool) (hdot : p '.' = true) (ha : p 'a' = true) :
      (List.replicate nameLimit '.' ++ ['a']).filter p = List.replicate nameLimit '.' ++ ['a'] := by
    refine List.filter_eq_self.2 fun c hc => ?_
    rcases List.mem_append.1 hc with hc | hc
    · rw [List.eq_of_mem_replicate hc, hdot]
    · rw [List.mem_singleton.1 hc, ha]
  rw [kept, dottedText, String.toList_ofList, keeps _ (by decide) (by decide),
    keeps _ (by decide) (by decide)]

/-- A record with a path of such a text is written and listed under another path. -/
theorem not_resanitizes_dottedText :
    ofTexts (ofTexts [dottedText, "8.json"]).segments ≠ ofTexts [dottedText, "8.json"] ∧
      ∃ files', exec ((DirectoryStorage.mk ((FilePath.ofPlace []).below ["cache"]) 2 "7-a").write
          (ofTexts [dottedText, "8.json"]) "8".toUTF8) .empty = (.ok (), files') ∧
        (DirectoryStorage.mk ((FilePath.ofPlace []).below ["cache"]) 2 "7-a").list files' =
          .ok [⟨["_", "8.json"]⟩] := by
  have haccepts : Accepts ⟨(FilePath.ofPlace []).below ["cache"], 2, "7-a"⟩
      (ofTexts [dottedText, "8.json"]) :=
    .of_sanitized ⟨by decide, by decide⟩ rfl rfl
      (DirectoryStorage.isRecordName_iff.2 (by decide)) (by decide)
  obtain ⟨files', place, hwrite, hroot, only⟩ :=
    exists_write_of_isFresh haccepts rfl FileSystem.isFresh_cache "8".toUTF8
  refine ⟨fun heq => ?_, files', hwrite, ?_⟩
  · exact ofTexts_segments_iff.1 heq dottedText (by simp) cutToDots_dottedText
  · rw [list_of_single hroot haccepts.isRecord only]
    simp only [ofTexts, List.map_cons, List.map_nil,
      sanitize_sanitize_of_cutToDots cutToDots_dottedText]
    congr

end RecordPath

end KernelTuning
