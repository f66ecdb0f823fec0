import KernelTuning.Proofs.Unambiguous
import KernelTuning.Tuning.CandidateSpace

/-!
# Texts of candidate spaces

The checksum of a space is taken of its text: the base and the candidates on lines of their own,
with a mark before each stage, and each line with the bindings of its parameters between commas.

**Plain parameters** (`TuningParameters.IsPlain`). Names have no equals sign, comma or line break,
and values are integers. Then each part of the text ends where the separator of its kind stands: a
name at the equals sign, a binding at a comma (`TuningParameters.toText_injective`), a set of
parameters at the end of its line. A mark is none of these, since a set of parameters is empty or
has an equals sign (`TuningParameters.IsPlain.ne_mark`), so the lines between marks are the stages.

**Theorem (`content_injective`).** Spaces of plain parameters with one text are equal.
-/

namespace KernelTuning

/-! ## Parameters -/

namespace TuningParameters

/-- The text of a binding. -/
def bindingText (b : String × ParamValue) : String := b.1 ++ "=" ++ b.2.toText

/-- An integer under a name without separators. -/
structure IsPlainBinding (b : String × ParamValue) : Prop where
  noEquals : '=' ∉ b.1.toList
  noComma : ',' ∉ b.1.toList
  noBreak : '\n' ∉ b.1.toList
  word : ∃ n, b.2 = .int n

/-- All parameters are integers under names without separators. -/
def IsPlain (p : TuningParameters) : Prop := ∀ b ∈ p.toList, IsPlainBinding b

namespace IsPlainBinding

variable {b c : String × ParamValue}

/-- The characters of a binding. -/
theorem exists_toList (h : IsPlainBinding b) : ∃ n : Word, b.2 = .int n ∧
    (bindingText b).toList = b.1.toList ++ '=' :: Nat.toDigits 10 n.toNat := by
  obtain ⟨n, hn⟩ := h.word
  have htext : b.2.toText = toString n.toNat := by
    rw [hn]
    rfl
  refine ⟨n, hn, ?_⟩
  rw [bindingText, htext, Nat.toString_eq_ofList_toDigits, String.toList_append,
    String.toList_append, List.append_assoc]
  exact congrArg (b.1.toList ++ '=' :: ·) String.toList_ofList

/-- A binding adds the equals sign and digits to the characters of its name. -/
theorem notMem_toList (h : IsPlainBinding b) {d : Char} (hname : d ∉ b.1.toList) (hne : d ≠ '=')
    (hdigit : d.isDigit = false) : d ∉ (bindingText b).toList := by
  obtain ⟨n, -, hlist⟩ := h.exists_toList
  rw [hlist, List.mem_append, List.mem_cons, not_or, not_or]
  refine ⟨hname, hne, fun hd => ?_⟩
  rw [Nat.isDigit_of_mem_toDigits (by decide) (by decide) hd] at hdigit
  cases hdigit

theorem equals_mem (h : IsPlainBinding b) : '=' ∈ (bindingText b).toList := by
  obtain ⟨n, -, hlist⟩ := h.exists_toList
  simp [hlist]

theorem bindingText_injective (hb : IsPlainBinding b) (hc : IsPlainBinding c)
    (h : bindingText b = bindingText c) : b = c := by
  obtain ⟨m, hm, hbList⟩ := hb.exists_toList
  obtain ⟨n, hn, hcList⟩ := hc.exists_toList
  rw [h, hcList] at hbList
  obtain ⟨hname, hdigits⟩ := append_cons_inj hc.noEquals hb.noEquals hbList
  have hvalue : n = m := UInt64.toNat_inj.1 (toDigits_inj hdigits)
  exact Prod.ext (String.toList_inj.1 hname.symm) (by rw [hm, hn, hvalue])

end IsPlainBinding

variable {p q : TuningParameters}

/-- The characters of a text: bindings with a comma and a blank between them. -/
theorem toList_toText (p : TuningParameters) :
    p.toText.toList = [',', ' '].intercalate (p.toList.map fun b => (bindingText b).toList) := by
  rw [toText, String.toList_intercalate, List.map_map]
  rfl

/-- What the bindings do not have is not in the text either, but for commas and blanks. -/
theorem IsPlain.noBreak (h : p.IsPlain) : '\n' ∉ p.toText.toList := by
  rw [toList_toText]
  intro hmem
  have hmem' : ∀ l ∈ p.toList.map fun b => (bindingText b).toList, '\n' ∉ l := by
    intro l hl
    obtain ⟨b, hb, rfl⟩ := List.mem_map.1 hl
    exact (h b hb).notMem_toList (h b hb).noBreak (by decide) (by decide)
  rcases hlist : p.toList.map fun b => (bindingText b).toList with _ | ⟨x, xs⟩
  · rw [hlist] at hmem
    cases hmem
  · rw [hlist] at hmem hmem'
    rw [intercalate_cons_eq, List.mem_append, List.mem_flatMap] at hmem
    rcases hmem with hx | ⟨l, hl, hbreak⟩
    · exact hmem' x List.mem_cons_self hx
    · simp only [List.cons_append, List.nil_append, List.mem_cons] at hbreak
      rcases hbreak with heq | heq | hbreak
      · exact absurd heq (by decide)
      · exact absurd heq (by decide)
      · exact hmem' l (List.mem_cons_of_mem _ hl) hbreak

/-- A set of parameters is empty, or it has an equals sign. -/
theorem IsPlain.ne_mark (h : p.IsPlain) : p.toText ≠ "#" := by
  intro hmark
  have hlist := toList_toText p
  rcases hbindings : p.toList with _ | ⟨b, bs⟩
  · rw [hmark, hbindings] at hlist
    cases hlist
  · have hb : b ∈ p.toList := by simp [hbindings]
    rw [hbindings, List.map_cons, intercalate_cons_eq, hmark] at hlist
    have hequals := List.mem_append_left (bs.map (fun b => (bindingText b).toList) |>.flatMap
      ([',', ' '] ++ ·)) (h b hb).equals_mem
    rw [← hlist] at hequals
    exact absurd hequals (by decide)

/-- **Plain parameters are told apart by their texts.** -/
theorem toText_injective (hp : p.IsPlain) (hq : q.IsPlain) (h : p.toText = q.toText) : p = q := by
  have parts {r : TuningParameters} (hr : r.IsPlain) :
      ∀ l ∈ r.toList.map fun b => (bindingText b).toList, ',' ∉ l ∧ l ≠ [] := by
    intro l hl
    obtain ⟨b, hb, rfl⟩ := List.mem_map.1 hl
    exact ⟨(hr b hb).notMem_toList (hr b hb).noComma (by decide) (by decide),
      List.ne_nil_of_mem (hr b hb).equals_mem⟩
  have hlist := congrArg String.toList h
  rw [toList_toText, toList_toText] at hlist
  have hbindings : p.toList = q.toList :=
    eq_of_map_eq (fun b hb c hc heq => (hp b hb).bindingText_injective (hq c hc)
      (String.toList_inj.1 heq)) (intercalate_inj (parts hp) (parts hq) hlist)
  obtain ⟨⟨entries, _⟩⟩ := p
  obtain ⟨⟨entries', _⟩⟩ := q
  obtain rfl : entries = entries' := hbindings
  rfl

end TuningParameters

/-! ## Spaces -/

namespace CandidateSpace

/-- All parameters of the base and of the candidates are plain. -/
structure IsPlain (s : CandidateSpace) : Prop where
  base : s.base.IsPlain
  stages : ∀ stage ∈ s.stages, ∀ candidate ∈ stage, candidate.IsPlain

/-- The lines after the first one: each stage with its mark. -/
def stageLines (s : CandidateSpace) : List String :=
  (s.stages.map fun stage => stage.map (·.toText)).flatMap (["#"] ++ ·)

theorem toList_content (s : CandidateSpace) :
    s.content.toList =
      s.base.toText.toList ++ (s.stageLines.map (·.toList)).flatMap (['\n'] ++ ·) := by
  have hstages : (String.join (s.stages.map fun stage =>
      "\n#" ++ String.join (stage.map fun candidate => "\n" ++ candidate.toText))).toList =
        (s.stageLines.map (·.toList)).flatMap (['\n'] ++ ·) := by
    unfold stageLines
    induction s.stages with
    | nil => rfl
    | cons stage stages ih =>
      rw [List.map_cons, String.join_cons, String.toList_append, ih, String.toList_append,
        String.toList_join, List.flatMap_map]
      simp [List.flatMap_map, List.flatMap_append, String.toList_append]
  rw [content, String.toList_append, hstages]

variable {s t : CandidateSpace}

theorem IsPlain.noBreak (h : s.IsPlain) :
    ∀ l ∈ s.base.toText.toList :: s.stageLines.map (·.toList), '\n' ∉ l := by
  intro l hl
  rcases List.mem_cons.1 hl with rfl | hl
  · exact h.base.noBreak
  · obtain ⟨line, hline, rfl⟩ := List.mem_map.1 hl
    simp only [stageLines, List.mem_flatMap, List.mem_map, List.singleton_append,
      List.mem_cons] at hline
    obtain ⟨_, ⟨stage, hstage, rfl⟩, rfl | hline⟩ := hline
    · decide
    · obtain ⟨candidate, hcandidate, rfl⟩ := List.mem_map.1 hline
      exact (h.stages stage hstage candidate hcandidate).noBreak

/-- No line of a stage is a mark. -/
theorem IsPlain.noMark (h : s.IsPlain) :
    ∀ l ∈ [] :: s.stages.map (fun stage => stage.map (·.toText)), "#" ∉ l := by
  intro l hl hmark
  rcases List.mem_cons.1 hl with rfl | hl
  · cases hmark
  · obtain ⟨stage, hstage, rfl⟩ := List.mem_map.1 hl
    obtain ⟨candidate, hcandidate, heq⟩ := List.mem_map.1 hmark
    exact (h.stages stage hstage candidate hcandidate).ne_mark heq

/-- **Plain spaces are told apart by the texts that their checksums are taken of.** -/
theorem content_injective (hs : s.IsPlain) (ht : t.IsPlain) (h : s.content = t.content) :
    s = t := by
  have hlist := congrArg String.toList h
  rw [toList_content, toList_content] at hlist
  -- From the outside in: lines by their breaks, stages by their marks, candidates by their texts.
  obtain ⟨hbase, hlines⟩ := append_flatMap_inj hs.noBreak ht.noBreak hlist
  have hlines : s.stageLines = t.stageLines :=
    eq_of_map_eq (fun _ _ _ _ => String.toList_inj.1) hlines
  obtain ⟨-, hstages⟩ := append_flatMap_inj hs.noMark ht.noMark (congrArg ([] ++ ·) hlines)
  have hstages : s.stages = t.stages :=
    eq_of_map_eq (fun stage hstage stage' hstage' =>
      eq_of_map_eq fun c hc c' hc' =>
        TuningParameters.toText_injective (hs.stages stage hstage c hc)
          (ht.stages stage' hstage' c' hc')) hstages
  have hbase := TuningParameters.toText_injective hs.base ht.base (String.toList_inj.1 hbase)
  cases s
  cases t
  simp_all only

end CandidateSpace

end KernelTuning
