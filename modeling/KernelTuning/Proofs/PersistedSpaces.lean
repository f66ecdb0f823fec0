import KernelTuning.Proofs.FaithfulStorages
import KernelTuning.Proofs.SpaceTexts

/-!
# Entries come from equal spaces

A tuner persists what it has found for a key together with the checksum of the space that it has
searched, and a lookup refuses entries with another checksum.

**Runs** (`Reaches`). From some state on, results are persisted for any keys, records are removed,
and other things happen that add nothing to what the storage holds. On a faithful storage the
invariant says where every content comes from: it was there at the start, or it is the record of a
persisted result (`Reaches.holds`). A tuning run is one of these steps or two (`Reaches.tune`).

**Theorem (`persisted_for_equal_space`).** Plain spaces with the same text are equal. So if no two
texts involved have the same checksum, then a lookup only finds results that were persisted for the
same key and an equal space.
-/

namespace KernelTuning

variable {σ δ P Q : Type} [Problem P] [Problem Q]

/-! ## Persisted results -/

/-- A result that is persisted for a key of some kind of problem. -/
structure PersistCall where
  {Q : Type}
  [problem : Problem Q]
  key : TuningKey Q
  space : CandidateSpace
  now : UInt64
  outcome : TuneOutcome

attribute [instance] PersistCall.problem

namespace PersistCall

/-- The entry that is stored. -/
def entry (call : PersistCall) : CacheEntry call.Q :=
  ⟨call.key, call.outcome.parameters, call.outcome.score, call.now, call.space.checksum⟩

/-- The state after the result was persisted. -/
def after (t : Tuner σ) (call : PersistCall) (state : σ) : σ :=
  ((t.persist call.key call.space call.now call.outcome).run state).2

/-- The key is written as the given one is read: keys of one kind of problem are then equal
(`hasKey_iff`). -/
def HasKey (call : PersistCall) (key : TuningKey P) : Prop :=
  Json.decode? (Json.node (Json.encode call.key)) = some key

theorem hasKey_iff [Json.LawfulCodec P] {k key : TuningKey P} {space : CandidateSpace}
    {now : UInt64} {outcome : TuneOutcome} : HasKey ⟨k, space, now, outcome⟩ key ↔ k = key := by
  unfold HasKey
  rw [Json.LawfulCodec.decode?_encode, Option.some_inj]

/-- To persist is to write the record of the entry. -/
theorem after_eq (t : Tuner σ) (call : PersistCall) (state : σ) :
    call.after t state =
      (exec (t.storage.write call.key.recordPath (CacheRecord.bytes call.entry)) state).2 := by
  have hstored : call.after t state = (exec (t.storage.store call.entry) state).2 := by
    unfold after Tuner.persist exec entry
    rw [StateT.run_bind]
    rcases (t.storage.store _).run.run state with ⟨e | _, _⟩ <;> rfl
  exact hstored

/-- A result with a finite score that could be persisted in memory is found for its key and its
space. -/
theorem exists_found [Json.LawfulCodec P] {t : Tuner σ} {memory : σ → MemoryStorage}
    {update : MemoryStorage → σ → σ} (h : t.InMemory memory update) {state : σ}
    (readable : (memory state).failsReads = false) (writable : (memory state).failsWrites = false)
    (key : TuningKey P) (space : CandidateSpace) (now : UInt64) {outcome : TuneOutcome}
    (finite : outcome.score.isFinite = true) :
    ∃ found, t.lookup key space (after t ⟨key, space, now, outcome⟩ state) = some found := by
  obtain ⟨score, hfound⟩ := MemoryStorage.lookup_written
    (⟨key, outcome.parameters, outcome.score, now, space.checksum⟩ : CacheEntry P) readable
    (if_neg (Bool.eq_false_iff.1 writable)) finite
  have hmemory : memory (after t ⟨key, space, now, outcome⟩ state) = _ :=
    (congrArg memory (after_eq t ⟨key, space, now, outcome⟩ state)).trans
      (h.memory_store (entry ⟨key, space, now, outcome⟩) state)
  refine ⟨⟨key, outcome.parameters, score, now, space.checksum⟩, ?_⟩
  rw [h.lookup_eq, hmemory, Option.filter_eq_some_iff]
  exact ⟨hfound, decide_eq_true rfl⟩

end PersistCall

/-- An entry that is read from the record of another one has its data, but for the score. -/
theorem of_entryFor?_bytes {e : CacheEntry Q} {key : TuningKey P} {found : CacheEntry P}
    (h : CacheRecord.entryFor? key (CacheRecord.bytes e) = some found) :
    Json.decode? (Json.node (Json.encode e.key)) = some key ∧ found.key = key ∧
      found.parameters = e.parameters ∧ found.timestamp = e.timestamp ∧
      found.checksum = e.checksum := by
  obtain ⟨record, hparse, -, hkey, rfl⟩ := Algorithm.entryFor?_eq_some_iff.1 h
  rw [Json.parse?_bytes_eq_map, Option.map_eq_some_iff] at hparse
  obtain ⟨entry, hentry, rfl⟩ := hparse
  rcases hscore : (Json.node (.float e.score)).double? with _ | score
  · -- A score without a number, such as an infinite one, makes the record unreadable.
    change ((Json.node (.obj [_, _, _, _, _])).fields?
      ["key", "parameters", "score", "timestamp", "checksum"]).bind _ = _ at hentry
    rw [Json.fields?_node (by rfl) (by decide)] at hentry
    simp [hscore] at hentry
  · rw [Json.decode?_entry_of_score hscore, Option.map_eq_some_iff] at hentry
    obtain ⟨k, hk, rfl⟩ := hentry
    obtain rfl : k = key := hkey
    exact ⟨hk, rfl, rfl, rfl, rfl⟩

/-! ## Runs -/

/-- The states that a run leads to, with the results that were persisted on the way. -/
inductive Reaches (t : Tuner σ) (Holds : σ → RecordPath → ByteArray → Prop) (start : σ) :
    List PersistCall → σ → Prop
  | start : Reaches t Holds start [] start
  | persist {calls : List PersistCall} {state : σ} (h : Reaches t Holds start calls state)
      (call : PersistCall) : Reaches t Holds start (calls ++ [call]) (call.after t state)
  | clear {calls : List PersistCall} {state : σ} (h : Reaches t Holds start calls state) {Q : Type}
      [Problem Q] (key : TuningKey Q) :
      Reaches t Holds start calls (exec (t.storage.clearKey key) state).2
  | clearAll {calls : List PersistCall} {state : σ} (h : Reaches t Holds start calls state) :
      Reaches t Holds start calls (exec t.storage.clearAll state).2
  /-- Whatever else happens, it adds nothing to what the storage holds. -/
  | other {calls : List PersistCall} {state state' : σ} (h : Reaches t Holds start calls state)
      (adds : ∀ path found, Holds state' path found → Holds state path found) :
      Reaches t Holds start calls state'

namespace Reaches

variable {t : Tuner σ} {Holds : σ → RecordPath → ByteArray → Prop} {start state : σ}
  {calls : List PersistCall}

/-- What the storage holds was there at the start, or it was persisted. -/
theorem holds (h : Reaches t Holds start calls state) (faithful : t.storage.Faithful Holds)
    {path : RecordPath} {found : ByteArray} (hfound : Holds state path found) :
    Holds start path found ∨
      ∃ call ∈ calls, path = call.key.recordPath ∧ found = CacheRecord.bytes call.entry := by
  induction h with
  | start => exact .inl hfound
  | @persist calls state _ call ih =>
    rw [call.after_eq] at hfound
    rcases faithful.write hfound with hfound | ⟨hpath, hcontent⟩
    · refine (ih hfound).imp_right ?_
      rintro ⟨call', hcall', hsame⟩
      exact ⟨call', List.mem_append_left _ hcall', hsame⟩
    · exact .inr ⟨call, by simp, hpath, hcontent⟩
  | clear _ key ih => exact ih (faithful.remove hfound)
  | clearAll _ ih => exact ih (faithful.clear hfound)
  | other _ adds ih => exact ih (adds _ _ hfound)

/-- A tuning run searches, which only writes its report, and then persists its outcome. -/
theorem tune (h : Reaches t Holds start calls state)
    (quiet : ∀ line state path found,
      Holds (t.emit t.policy.output line state) path found → Holds state path found)
    (key : TuningKey P) (space : CandidateSpace) (now : UInt64) (measure : Measure δ)
    (device : δ) :
    Reaches t Holds start calls (exec (t.tune key space now measure) (state, device)).2.1 ∨
      ∃ outcome, Reaches t Holds start (calls ++ [⟨key, space, now, outcome⟩])
        (exec (t.tune key space now measure) (state, device)).2.1 := by
  -- Lines of a report go to the output, one after the other, and change no record.
  have hreport (events : List TuningEvent) :
      Reaches t Holds start calls (t.report events state) := by
    unfold Tuner.report
    generalize (Reporter.start t.policy.verbosity).lines events = lines
    induction lines generalizing state with
    | nil => exact h
    | cons line lines ih => exact ih (h.other fun _ _ => quiet line state _ _)
  have hsearch : Reaches t Holds start calls
      (exec (t.search key.algorithm key.device.name space measure) (state, device)).2.1 := by
    unfold Tuner.search
    rw [exec_mk]
    dsimp only
    split_ifs
    · exact h
    · exact h
    · exact hreport _
  unfold Tuner.tune
  rw [exec_bind]
  rcases hresult : exec (t.search key.algorithm key.device.name space measure) (state, device) with
    ⟨e | outcome, state₁, device₁⟩ <;> rw [hresult] at hsearch
  · exact .inl hsearch
  · exact .inr ⟨outcome, hsearch.persist ⟨key, space, now, outcome⟩⟩

/-- An entry that is found was persisted, with the checksum of the space. -/
theorem of_lookup (h : Reaches t Holds start calls state) (faithful : t.storage.Faithful Holds)
    {key : TuningKey P} {space : CandidateSpace} {found : CacheEntry P}
    (fresh : ∀ content, Holds start key.recordPath content →
      CacheRecord.entryFor? key content = none)
    (hfound : t.lookup key space state = some found) :
    found.key = key ∧ ∃ call ∈ calls, call.HasKey key ∧
      call.space.checksum = space.checksum ∧ found.parameters = call.outcome.parameters ∧
      found.timestamp = call.now := by
  rw [Tuner.lookup, Option.filter_eq_some_iff] at hfound
  obtain ⟨hlookup, hchecksum⟩ := hfound
  unfold RecordStorage.lookup at hlookup
  rcases hread : t.storage.read key.recordPath state with e | _ | content <;>
    rw [hread] at hlookup
  · cases hlookup
  · cases hlookup
  · rcases h.holds faithful (faithful.read hread) with hstart | ⟨call, hcall, -, rfl⟩
    · cases (fresh content hstart).symm.trans hlookup
    · obtain ⟨hkey, hfoundKey, hparameters, htimestamp, hsame⟩ := of_entryFor?_bytes hlookup
      exact ⟨hfoundKey, call, hcall, hkey, hsame.symm.trans (of_decide_eq_true hchecksum),
        hparameters, htimestamp⟩

end Reaches

/-- **What is found for a key and a space was persisted for that key and an equal space**, in every
run on a faithful storage, such as those of a host, if the texts of different spaces have different
checksums. Texts of plain spaces are different if the spaces are. -/
theorem persisted_for_equal_space :
    (∀ s s' : CandidateSpace, s.IsPlain → s'.IsPlain → s.content = s'.content → s = s') ∧
    ((Host.memoryStorage.Faithful fun h => h.memory.Holds) ∧
      (Host.tunerStorage.Faithful fun h => h.tunerMemory.Holds) ∧
      ∀ d : DirectoryStorage, (Host.directoryStorage d).Faithful fun h => d.Holds h.files) ∧
    ∀ {σ P : Type} [Problem P] (t : Tuner σ) (Holds : σ → RecordPath → ByteArray → Prop)
      (start state : σ) (calls : List PersistCall) (key : TuningKey P) (space : CandidateSpace)
      (found : CacheEntry P),
      t.storage.Faithful Holds → Reaches t Holds start calls state →
      (∀ content, Holds start key.recordPath content →
        CacheRecord.entryFor? key content = none) →
      space.IsPlain → (∀ call ∈ calls, call.space.IsPlain) →
      (∀ call ∈ calls, Digest.Md5.ofText call.space.content = Digest.Md5.ofText space.content →
        call.space.content = space.content) →
      t.lookup key space state = some found →
        found.key = key ∧ ∃ call ∈ calls, call.HasKey key ∧ call.space = space ∧
          found.parameters = call.outcome.parameters ∧ found.timestamp = call.now := by
  refine ⟨fun s s' => CandidateSpace.content_injective, Host.faithful_storages, ?_⟩
  intro σ P _ t Holds start state calls key space found faithful reaches fresh plain plains
    distinct hfound
  obtain ⟨hkey, call, hcall, hcallKey, hchecksum, hdata⟩ :=
    reaches.of_lookup faithful fresh hfound
  have hcontent := distinct call hcall hchecksum
  exact ⟨hkey, call, hcall, hcallKey,
    CandidateSpace.content_injective (plains call hcall) plain hcontent, hdata⟩

/-- The key of a scan. -/
def scanKey : TuningKey String :=
  ⟨"scan", ⟨"gpu", "maker", 1, "platform", "1.0", .gpu, 4, 256, 8192, [.fp16]⟩, "uint", 6⟩

/-- A space with one candidate. -/
def scanSpace : CandidateSpace := .flat [.single "scan_blocks" 64]

/-- What was persisted for a scan in memory is found, and it was persisted for the same space. -/
theorem persisted_for_equal_space_scan :
    ∃ found, (Host.tuner Host.memoryStorage .silent).lookup scanKey scanSpace
        (PersistCall.after (Host.tuner Host.memoryStorage .silent)
          ⟨scanKey, scanSpace, 7, ⟨.single "scan_blocks" 64, .zero, 1, none⟩⟩ .empty) =
            some found ∧
      found.key = scanKey ∧
      ∃ call ∈ [PersistCall.mk scanKey scanSpace 7 ⟨.single "scan_blocks" 64, .zero, 1, none⟩],
        call.HasKey scanKey ∧ call.space = scanSpace ∧
          found.parameters = call.outcome.parameters ∧ found.timestamp = call.now := by
  have plain : scanSpace.IsPlain := by
    refine ⟨fun b hb => (by cases hb), fun stage hstage candidate hcandidate b hb => ?_⟩
    obtain rfl := List.mem_singleton.1 hstage
    obtain rfl := List.mem_singleton.1 hcandidate
    obtain rfl := List.mem_singleton.1 hb
    exact ⟨by decide, by decide, by decide, 64, rfl⟩
  have inMemory := Host.inMemory_tuner .silent
  have hscore : (TuneOutcome.mk (.single "scan_blocks" 64) .zero 1 none).score.isFinite = true := by
    decide
  obtain ⟨found, hfound⟩ := PersistCall.exists_found inMemory
    (show Host.empty.memory.failsReads = false from rfl) rfl scanKey scanSpace 7 hscore
  have begun : Reaches (Host.tuner Host.memoryStorage .silent) (fun h => h.memory.Holds) .empty []
      .empty := .start
  have reaches := begun.persist
    ⟨scanKey, scanSpace, 7, ⟨.single "scan_blocks" 64, .zero, 1, none⟩⟩
  refine ⟨found, hfound, persisted_for_equal_space.2.2 _ _ _ _ _ scanKey scanSpace found
    inMemory.faithful reaches (fun content hcontent => ?_) plain ?_ ?_ hfound⟩
  · cases hcontent
  · intro call hcall
    rwa [List.mem_singleton.1 hcall]
  · intro call hcall _
    rw [List.mem_singleton.1 hcall]

end KernelTuning
