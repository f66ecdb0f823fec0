import KernelTuning.Proofs.JsonReading
import KernelTuning.Radixsort.Plan
import KernelTuning.Reduce
import KernelTuning.Scan.Plan
import KernelTuning.SortedMap.Lemmas

/-!
# Codecs read back what they write

A codec is lawful if each value is read back from its node (`LawfulCodec`). The views of a node
undo the constructors of `Json` one at a time, and a record gets its fields by their names, which
are different (`fields?_node`).

**Scores.** An entry is not read back exactly, since the text of a double may be read as a
neighbour. All but the score is the same (`decode?_entry`), for every finite score.
-/

namespace KernelTuning

namespace Json

/-- Types whose values are read back from what they are written as. -/
class LawfulCodec (α : Type) [Codec α] : Prop where
  decode?_encode : ∀ a : α, decode? (node (encode a)) = some a

attribute [simp] LawfulCodec.decode?_encode

/-! ## Views -/

@[simp] theorem string?_node (s : String) : (node (.str s)).string? = some s := text?_literalOf s

@[simp] theorem name?_node (s : String) : (node (.str s)).name? = some s := by
  show Node.name? (.string (literalOf s)) = some s
  simp [Node.name?, Node.choice?]

@[simp] theorem word?_node (w : UInt64) : (node (.nat w.toNat)).word? = some w := by
  show (NumberLiteral.ofInt w.toNat).word?.map UInt64.ofNat = some w
  rw [NumberLiteral.word?_ofInt w.toNat_lt]
  simp

@[simp] theorem word32?_node (w : UInt32) : (node (.nat w.toNat)).word32? = some w := by
  have hw : w.toNat < 2 ^ 32 := w.toNat_lt
  have hword : (node (.nat w.toNat)).word? = some w.toUInt64 := word?_node w.toUInt64
  unfold Node.word32?
  rw [hword, Option.bind_some, if_pos (by simpa using hw)]
  simp

theorem itemNodes_eq (items : List Json) : itemNodes items = items.map node := by
  induction items with
  | nil => rfl
  | cons v items ih => rw [itemNodes, ih, List.map_cons]

@[simp] theorem items?_node (items : List Json) :
    (node (.arr items)).items? = some (items.map node) := by
  unfold node Node.items?
  rw [itemNodes_eq]

theorem mapM_map_eq_some {α β γ : Type} {f : β → Option γ} {g : α → β} {h : α → γ} {l : List α}
    (hf : ∀ a ∈ l, f (g a) = some (h a)) : (l.map g).mapM f = some (l.map h) := by
  induction l with
  | nil => rfl
  | cons a l ih =>
    rw [List.map_cons, List.mapM_cons, hf a (by simp), ih fun b hb => hf b (by simp [hb])]
    rfl

/-- The fields of an object, each with its node. -/
theorem members?_node (fields : List (String × Json)) :
    (node (.obj fields)).members? = some (fields.map fun field => (field.1, node field.2)) := by
  have hfields : fieldNodes fields =
      fields.map fun field => (literalOf field.1, node field.2) := by
    induction fields with
    | nil => rfl
    | cons field fields ih => rw [fieldNodes, ih, List.map_cons]
  show Node.members? (.object (fieldNodes fields)) = _
  unfold Node.members?
  rw [hfields]
  apply mapM_map_eq_some
  rintro ⟨name, v⟩ -
  simp

theorem filter_of_nodup {β : Type} {l : List (String × β)} (h : (l.map (·.1)).Nodup)
    {b : String × β} (hb : b ∈ l) : l.filter (fun c => c.1 == b.1) = [b] := by
  induction l with
  | nil => cases hb
  | cons a l ih =>
    obtain ⟨hhead, htail⟩ := List.nodup_cons.1 h
    rcases List.mem_cons.1 hb with rfl | hmem
    · rw [List.filter_cons_of_pos (by simp), List.filter_eq_nil_iff.2]
      intro c hc heq
      exact hhead (List.mem_map.2 ⟨c, hc, by simpa using heq⟩)
    · have hne : a.1 ≠ b.1 := fun heq => hhead (List.mem_map.2 ⟨b, hmem, heq.symm⟩)
      rw [List.filter_cons_of_neg (by simpa using hne), ih htail hmem]

/-- A record finds each of its fields. -/
theorem fields?_node {fields : List (String × Json)} {names : List String}
    (hnames : fields.map (·.1) = names) (hnodup : names.Nodup) :
    (node (.obj fields)).fields? names = some (fields.map fun field => some (node field.2)) := by
  subst hnames
  have hmembers : Node.members? (.object (fieldNodes fields)) = _ := members?_node fields
  show Node.fields? _ (.object (fieldNodes fields)) = _
  unfold Node.fields?
  dsimp only
  rw [hmembers]
  apply mapM_map_eq_some
  intro field hfield
  have hnode : (field.1, node field.2) ∈ fields.map fun field => (field.1, node field.2) :=
    List.mem_map_of_mem hfield
  have hkeys : ((fields.map fun field => (field.1, node field.2)).map (·.1)).Nodup := by
    rw [List.map_map]
    exact hnodup
  simp only [filter_of_nodup hkeys hnode]

@[simp] theorem mapM_decode? {α : Type} [Codec α] [LawfulCodec α] (l : List α) :
    l.mapM ((decode? : Node → Option α) ∘ node ∘ encode) = some l := by
  have h := @mapM_map_eq_some α α α (decode? ∘ node ∘ encode) id id l fun a _ => by simp
  simpa using h

/-! ## Devices, types and problems -/

instance : LawfulCodec String := ⟨string?_node⟩

instance : LawfulCodec BaseType where
  decode?_encode b := by
    show ((node (.str b.name)).name?.bind BaseType.ofName?) = some b
    rw [name?_node]
    cases b <;> rfl

instance : LawfulCodec DeviceFeature where
  decode?_encode f := by
    show ((node (.str f.name)).name?.bind DeviceFeature.ofName?) = some f
    rw [name?_node]
    cases f <;> rfl

instance : LawfulCodec DeviceKind where
  decode?_encode k := by
    show ((node (.str k.name)).name?.bind DeviceKind.ofName?) = some k
    rw [name?_node]
    cases k <;> rfl

theorem ofParts?_eq (t : ElemType) : ElemType.ofParts? t.base t.length = some t := by
  obtain ⟨base, length, valid⟩ := t
  unfold ElemType.ofParts?
  by_cases hbase : base = .void
  · subst hbase
    have hlength : length = 0 := by simpa using valid
    subst hlength
    rfl
  · rw [if_neg hbase] at valid
    rw [if_neg fun h => hbase h.1]
    simp [ElemType.vector, hbase, valid, Except.toOption]

instance : LawfulCodec ElemType where
  decode?_encode t := by
    show ((node (.obj [_, _])).fields? ["base", "length"]).bind _ = _
    rw [fields?_node (by rfl) (by decide)]
    simp [ofParts?_eq]

instance : LawfulCodec DeviceFingerprint where
  decode?_encode f := by
    show ((node (.obj [_, _, _, _, _, _, _, _, _, _])).fields? DeviceFingerprint.fieldNames).bind _
      = _
    rw [fields?_node (by rfl) (by decide)]
    simp

instance : LawfulCodec ScanProblem where
  decode?_encode p := by
    show ((node (.obj [_])).fields? ["elem"]).bind _ = _
    rw [fields?_node (by rfl) (by decide)]
    simp

instance : LawfulCodec ReduceProblem where
  decode?_encode p := by
    show ((node (.obj [_])).fields? ["elem"]).bind _ = _
    rw [fields?_node (by rfl) (by decide)]
    simp

instance : LawfulCodec RadixsortProblem where
  decode?_encode p := by
    show ((node (.obj [_, _])).fields? ["key", "value"]).bind _ = _
    rw [fields?_node (by rfl) (by decide)]
    simp

/-! ## Parameters -/

/-- A number is never read as a choice, and no choice as a number. -/
instance : LawfulCodec ParamValue where
  decode?_encode
    | .int w => by
      show ((node (.nat w.toNat)).word?.map ParamValue.int).orElse _ = _
      rw [word?_node]
      rfl
    | .choice name => by
      show ((node (.str name)).word?.map ParamValue.int).orElse
        (fun _ => (node (.str name)).string?.map ParamValue.choice) = _
      rw [string?_node]
      rfl

instance : LawfulCodec TuningParameters where
  decode?_encode p := by
    have hvalues : ((p.toList.map fun b => (b.1, encode b.2)).map fun field =>
        (field.1, node field.2)).mapM
          (fun member : String × Node => (decode? member.2).map (member.1, ·)) =
        some (p.toList.map id) := by
      rw [List.map_map]
      apply mapM_map_eq_some
      rintro ⟨name, value⟩ -
      simp
    rw [List.map_id] at hvalues
    show ((node (.obj (p.toList.map fun b => (b.1, encode b.2)))).members?).bind _ = _
    rw [members?_node, Option.bind_some]
    show Option.bind (List.mapM _ _) _ = _
    rw [hvalues]
    show some (TuningParameters.mk (SortedMap.ofList p.values.toList)) = some p
    rw [SortedMap.ofList_toList]

/-! ## Keys and records -/

variable {P : Type} [Problem P] [LawfulCodec P]

instance : LawfulCodec (TuningKey P) where
  decode?_encode k := by
    show ((node (.obj [_, _, _, _])).fields?
      ["algorithm", "device", "problem", "format_version"]).bind _ = _
    rw [fields?_node (by rfl) (by decide)]
    simp

/-- A finite number is written as its literal. -/
theorem double?_node {x : Binary64} (h : x.isFinite = true) :
    (node (.float x)).double? = x.literal.double? := by
  unfold node
  rw [if_pos h]
  rfl

theorem exists_double?_node {x : Binary64} (h : x.isFinite = true) :
    ∃ y, (node (.float x)).double? = some y := by
  rw [double?_node h]
  exact Option.isSome_iff_exists.1 (Binary64.isSome_double?_literal h)

/-- An entry read for problems of any type: all but the key and the score is read back. -/
theorem decode?_entry_of_score {Q : Type} [Problem Q] {e : CacheEntry Q} {score : Binary64}
    (hscore : (node (.float e.score)).double? = some score) {R : Type} [Problem R] :
    (decode? (node (encode e)) : Option (CacheEntry R)) =
      (decode? (node (encode e.key))).map fun key =>
        ⟨key, e.parameters, score, e.timestamp, e.checksum⟩ := by
  show ((node (.obj [_, _, _, _, _])).fields?
    ["key", "parameters", "score", "timestamp", "checksum"]).bind _ = _
  rw [fields?_node (by rfl) (by decide)]
  simp [hscore, Option.map_eq_bind]

theorem decode?_entry_eq_map {Q : Type} [Problem Q] {e : CacheEntry Q}
    (h : e.score.isFinite = true) :
    ∃ score, ∀ {R : Type} [Problem R], (decode? (node (encode e)) : Option (CacheEntry R)) =
      (decode? (node (encode e.key))).map fun key =>
        ⟨key, e.parameters, score, e.timestamp, e.checksum⟩ := by
  obtain ⟨score, hscore⟩ := exists_double?_node h
  exact ⟨score, fun {R} _ => decode?_entry_of_score hscore⟩

/-- An entry is read back but for its score. -/
theorem decode?_entry {e : CacheEntry P} (h : e.score.isFinite = true) :
    ∃ score, decode? (node (encode e)) = some { e with score } := by
  obtain ⟨score, hentry⟩ := decode?_entry_eq_map h
  exact ⟨score, by rw [hentry, LawfulCodec.decode?_encode, Option.map_some]⟩

/-- A record holds what is read of its entry. -/
theorem parse?_bytes_eq_map {Q R : Type} [Problem Q] [Problem R] (e : CacheEntry Q) :
    parse? (CacheRecord.bytes e) = (decode? (node (encode e)) : Option (CacheEntry R)).map
      (CacheRecord.mk CacheRecord.currentVersion) := by
  show (Node.ofBytes? (bytesOf (encode (CacheRecord.mk CacheRecord.currentVersion e)).pretty)).bind
    decode? = _
  rw [Node.ofBytes?_pretty, Option.bind_some]
  show ((node (.obj [_, _])).fields? ["record_version", "entry"]).bind _ = _
  rw [fields?_node (by rfl) (by decide)]
  simp [Option.map_eq_bind]

/-- A record is read back but for its score. -/
theorem parse?_bytes {e : CacheEntry P} (h : e.score.isFinite = true) :
    ∃ score, parse? (CacheRecord.bytes e) =
      some (CacheRecord.mk CacheRecord.currentVersion { e with score }) := by
  obtain ⟨score, hentry⟩ := decode?_entry h
  exact ⟨score, by rw [parse?_bytes_eq_map, hentry, Option.map_some]⟩

end Json

end KernelTuning
