import KernelTuning.Config
import KernelTuning.Proofs.Codecs
import KernelTuning.Proofs.ScoreReading

/-!
# What is written as JSON is read back

A value has two texts, one on a single line and one with indentation. Both split into the tokens of
the same tree, so a value is read back from either one if its codec is lawful
(`readsBack_of_lawful`). The scores of entries are the one exception: they are read back but for
their last bits (`Resembles`).

**Theorem** (`readsBack_all`). Devices, types, problems, parameters, keys and configurations are
read back from their texts, and entries with finite scores but for the last bits of these. A number
never comes back as a choice, or a choice as a number, and the sentinel comes back as itself.
-/

namespace KernelTuning

namespace Json

/-! ## Choices -/

@[simp] theorem choice?_str (s : String) : (node (.str s)).choice? = some (s, none) := by
  show Node.choice? (.string (literalOf s)) = _
  simp [Node.choice?]

@[simp] theorem choice?_single (name : String) (v : Json) :
    (node (.obj [(name, v)])).choice? = some (name, some (node v)) := by
  show Node.choice? (.object [(literalOf name, node v)]) = _
  simp [Node.choice?]

/-! ## Devices -/

theorem ofList_toList (s : FeatureSet) : FeatureSet.ofList s.toList = s := by
  obtain ⟨byteAddressableStore, fp16, fp64⟩ := s
  cases byteAddressableStore <;> cases fp16 <;> cases fp64 <;> rfl

instance : LawfulCodec FeatureSet where
  decode?_encode s := by
    show ((node (.arr (s.toList.map encode))).items?).bind _ = _
    rw [items?_node, Option.bind_some]
    simp [ofList_toList]

instance : LawfulCodec DeviceProperties where
  decode?_encode d := by
    show ((node (.obj [_, _, _, _, _, _, _, _, _, _, _, _])).fields?
      DeviceProperties.fieldNames).bind _ = _
    rw [fields?_node (by rfl) (by decide)]
    simp

/-! ## Configurations -/

instance : LawfulCodec Verbosity where
  decode?_encode v := by
    show ((node (.str v.name)).name?.bind Verbosity.ofName?) = some v
    rw [name?_node]
    cases v <;> rfl

instance : LawfulCodec OutputConfig where
  decode?_encode c := by
    cases c <;> simp [encode, decode?]

instance : LawfulCodec CacheConfig where
  decode?_encode c := by
    cases c <;> simp [encode, decode?]

instance : LawfulCodec AutotuneConfig where
  decode?_encode c := by
    show ((node (.obj [_, _, _, _])).fields? AutotuneConfig.fieldNames).bind _ = _
    rw [fields?_node (by rfl) (by decide)]
    simp [AutotuneConfig.optional, node, Node.bool?]

instance : LawfulCodec GlobalConfig where
  decode?_encode c := by
    show ((node (.obj [_])).fields? ["autotune"]).bind _ = _
    rw [fields?_node (by rfl) (by decide)]
    simp [AutotuneConfig.optional]

/-! ## Texts -/

variable {α : Type} [Codec α]

/-- The text of a value on one line, and the one with indentation. -/
def texts (a : α) : List String := [(encode a).compact, (encode a).pretty]

/-- A value is read back from its texts. -/
def ReadsBack (a : α) : Prop := ∀ text ∈ texts a, parseText? text = some a

/-- Both texts of a value hold its tree. -/
theorem parseText?_of_mem_texts {β : Type} [Codec β] {a : α} {text : String}
    (h : text ∈ texts a) : (parseText? text : Option β) = decode? (node (encode a)) := by
  have hparse {text : String} (hnode : Node.ofBytes? (bytesOf text) = some (node (encode a))) :
      (parseText? text : Option β) = decode? (node (encode a)) := by
    show (Node.ofBytes? (bytesOf text)).bind decode? = _
    rw [hnode, Option.bind_some]
  simp only [texts, List.mem_cons, List.not_mem_nil, or_false] at h
  rcases h with rfl | rfl
  · exact hparse (Node.ofBytes?_compact _)
  · exact hparse (Node.ofBytes?_pretty _)

theorem readsBack_of_lawful [LawfulCodec α] (a : α) : ReadsBack a := fun text htext => by
  rw [parseText?_of_mem_texts htext, LawfulCodec.decode?_encode]

/-! ## Entries -/

/-- The node of a finite score is read as a close number. -/
theorem exists_close_double?_node {x : Binary64} (h : x.isFinite = true) :
    ∃ y, (node (.float x)).double? = some y ∧ x.Close y := by
  obtain ⟨y, hy⟩ := exists_double?_node h
  exact ⟨y, hy, Binary64.close_of_double?_literal h (double?_node h ▸ hy)⟩

end Json

/-- Two entries agree but for the last bits of their scores. -/
structure CacheEntry.Resembles {P : Type} (e e' : CacheEntry P) : Prop where
  key : e'.key = e.key
  parameters : e'.parameters = e.parameters
  score : e.score.Close e'.score
  timestamp : e'.timestamp = e.timestamp
  checksum : e'.checksum = e.checksum

namespace Json

/-- The keys and the entries for one type of problems are read back. -/
structure RecordsReadBack (P : Type) [Problem P] : Prop where
  problem : ∀ p : P, ReadsBack p
  key : ∀ k : TuningKey P, ReadsBack k
  entry : ∀ e : CacheEntry P, e.score.isFinite = true →
    ∃ e' : CacheEntry P, e.Resembles e' ∧ ∀ text ∈ texts e, parseText? text = some e'

theorem recordsReadBack (P : Type) [Problem P] [LawfulCodec P] : RecordsReadBack P where
  problem := readsBack_of_lawful
  key := readsBack_of_lawful
  entry e h := by
    obtain ⟨score, hscore, hclose⟩ := exists_close_double?_node h
    refine ⟨{ e with score }, ⟨rfl, rfl, hclose, rfl, rfl⟩, fun text htext => ?_⟩
    rw [parseText?_of_mem_texts htext, decode?_entry_of_score hscore, LawfulCodec.decode?_encode,
      Option.map_some]

/-- **All that is written as JSON is read back.** -/
theorem readsBack_all :
    (∀ p : TuningParameters, ReadsBack p) ∧ (∀ d : DeviceProperties, ReadsBack d) ∧
      (∀ t : ElemType, ReadsBack t) ∧ (∀ p : ScanProblem, ReadsBack p) ∧
      (∀ p : ReduceProblem, ReadsBack p) ∧ (∀ p : RadixsortProblem, ReadsBack p) ∧
      (∀ c : GlobalConfig, ReadsBack c) ∧
      RecordsReadBack String ∧ RecordsReadBack ElemType ∧ RecordsReadBack ScanProblem ∧
      RecordsReadBack ReduceProblem ∧ RecordsReadBack RadixsortProblem ∧
      (∀ w : Word, ReadsBack (ParamValue.int w)) ∧
      (∀ name : String, ReadsBack (ParamValue.choice name)) ∧ ReadsBack ElemType.void :=
  ⟨readsBack_of_lawful, readsBack_of_lawful, readsBack_of_lawful, readsBack_of_lawful,
    readsBack_of_lawful, readsBack_of_lawful, readsBack_of_lawful, recordsReadBack _,
    recordsReadBack _, recordsReadBack _, recordsReadBack _, recordsReadBack _,
    fun _ => readsBack_of_lawful _, fun _ => readsBack_of_lawful _, readsBack_of_lawful _⟩

end Json

end KernelTuning
