import KernelTuning.Host
import KernelTuning.Probe
import KernelTuning.Proofs.CacheUse
import KernelTuning.Proofs.Codecs
import KernelTuning.Storage.Memory

/-!
# What a construction does to the storage

The storage is one in memory, in a part of the state that the output of the tuner leaves alone
(`Tuner.InMemory`); the tuners of a host are of this kind. The primitive is arbitrary: any
candidates, and builds and measurements that fail or crash in any pattern.

**Theorem (`keepsRecords_create`).** Only a construction that ends with tuned parameters changes
the records, and only the one of its key, after the final build has succeeded (`KeepsRecords`).

* A failure or a crash of any kind leaves all records alone, and so does a cached result.
* An invalid problem or an empty candidate space is refused before anything is read or built.
* If the record cannot be written, the algorithm is the same as if it could, but for
  `persistError`.
-/

namespace KernelTuning

variable {σ δ Q L A O β : Type} [Problem Q]

/-! ## Records in memory -/

namespace MemoryStorage

/-- The failure to write a record, if writes fail. -/
def writeError? (m : MemoryStorage) (path : RecordPath) : Option CacheError :=
  if m.failsWrites then some (.write path.toText readOnly.message) else none

/-- The storage after an attempt to write a record. -/
def written (m : MemoryStorage) (path : RecordPath) (content : ByteArray) : MemoryStorage :=
  if m.failsWrites then m else { m with records := m.records.insert path content }

/-- A record that cannot be written leaves all of them alone. -/
theorem written_of_writeError? {m : MemoryStorage} {path : RecordPath} {e : CacheError}
    (h : m.writeError? path = some e) (content : ByteArray) : m.written path content = m := by
  unfold writeError? at h
  split at h
  · rename_i hfails
    exact if_pos hfails
  · cases h

/-- Writing a record leaves the others alone. -/
theorem get?_written_of_ne {m : MemoryStorage} {path path' : RecordPath} (content : ByteArray)
    (h : path' ≠ path) : (m.written path content).records.get? path' = m.records.get? path' := by
  unfold written
  split
  · rfl
  · exact SortedMap.get?_insert_of_ne _ _ h

/-! ## Records that are read back -/

variable {m m' : MemoryStorage} {key : TuningKey Q}

theorem failsReads_written (m : MemoryStorage) (path : RecordPath) (content : ByteArray) :
    (m.written path content).failsReads = m.failsReads := by
  unfold written
  split <;> rfl

/-- What is found for a key depends on its own record only. -/
theorem lookup_congr (hreads : m'.failsReads = m.failsReads)
    (hrecord : m'.records.get? key.recordPath = m.records.get? key.recordPath) :
    storage.lookup key m' = storage.lookup key m := by
  have hread : storage.read key.recordPath m' = storage.read key.recordPath m := by
    show read _ m' = read _ m
    simp only [read, hreads, hrecord]
  unfold RecordStorage.lookup
  rw [hread]

theorem lookup_written_of_ne {path : RecordPath} (content : ByteArray)
    (h : path ≠ key.recordPath) :
    storage.lookup key (m.written path content) = storage.lookup key m :=
  lookup_congr (failsReads_written m path content) (get?_written_of_ne content h.symm)

/-- An entry that could be written is found, but for its score. -/
theorem lookup_written [Json.LawfulCodec Q] (entry : CacheEntry Q)
    (readable : m.failsReads = false) (writable : m.writeError? entry.key.recordPath = none)
    (finite : entry.score.isFinite = true) :
    ∃ score, storage.lookup entry.key
      (m.written entry.key.recordPath (CacheRecord.bytes entry)) = some { entry with score } := by
  obtain ⟨score, hparse⟩ := Json.parse?_bytes finite
  refine ⟨score, Algorithm.lookup_eq_some_iff.2 ⟨_, _, ?_, hparse, rfl, rfl, rfl⟩⟩
  have hwrites : m.failsWrites = false := by
    unfold writeError? at writable
    split at writable
    · cases writable
    · rename_i hfails
      exact Bool.eq_false_iff.2 hfails
  show read _ (m.written _ _) = _
  unfold read
  rw [failsReads_written, readable, written, hwrites]
  simp only [Bool.false_eq_true, if_false, SortedMap.get?_insert_self]

end MemoryStorage

/-! ## Tuners with records in memory -/

/-- The tuner keeps its records in memory, in a part of its state that its output leaves alone. -/
structure Tuner.InMemory (t : Tuner σ) (memory : σ → MemoryStorage)
    (update : MemoryStorage → σ → σ) : Prop where
  storage : t.storage = MemoryStorage.storage.focus memory update
  memory_update : ∀ m s, memory (update m s) = m
  memory_emit : ∀ sink line s, memory (t.emit sink line s) = memory s

theorem Host.inMemory_tuner (policy : TunePolicy) :
    (tuner memoryStorage policy).InMemory Host.memory fun memory h => { h with memory } where
  storage := rfl
  memory_update _ _ := rfl
  memory_emit sink _ _ := by cases sink <;> rfl

namespace Tuner.InMemory

variable {t : Tuner σ} {memory : σ → MemoryStorage} {update : MemoryStorage → σ → σ}

theorem lookup_eq (h : t.InMemory memory update) (key : TuningKey Q) (space : CandidateSpace)
    (s : σ) :
    t.lookup key space s = (MemoryStorage.storage.lookup key (memory s)).filter fun entry =>
      entry.checksum = space.checksum := by
  unfold Tuner.lookup
  rw [h.storage]
  rfl

/-- An entry for a problem is found in the storage that it was written to, but for its score. -/
theorem exists_lookup_of_written [Json.LawfulCodec Q] (h : t.InMemory memory update)
    (p : Primitive δ Q L A O) (problem : Q) (now : UInt64) (found : TuningParameters × Binary64)
    {m : MemoryStorage} {s : σ} (readable : m.failsReads = false)
    (writable : m.writeError? (Algorithm.keyOf p problem).recordPath = none)
    (finite : found.2.isFinite = true)
    (written : memory s = m.written (Algorithm.keyOf p problem).recordPath
      (CacheRecord.bytes (Algorithm.foundEntry p problem now found))) :
    ∃ score, t.lookup (Algorithm.keyOf p problem) (Algorithm.spaceOf p problem) s =
      some { Algorithm.foundEntry p problem now found with score } := by
  obtain ⟨score, hlookup⟩ := MemoryStorage.lookup_written (Algorithm.foundEntry p problem now found)
    readable writable finite
  refine ⟨score, ?_⟩
  rw [h.lookup_eq, written]
  exact (congrArg _ hlookup).trans (Option.filter_some_pos (decide_eq_true rfl))

theorem memory_report (h : t.InMemory memory update) (events : List TuningEvent) (s : σ) :
    memory (t.report events s) = memory s := by
  unfold Tuner.report
  generalize (Reporter.start t.policy.verbosity).lines events = lines
  induction lines generalizing s with
  | nil => rfl
  | cons line rest ih => rw [List.foldl_cons, ih, h.memory_emit]

theorem failure?_store (h : t.InMemory memory update) (entry : CacheEntry Q) (s : σ) :
    Algorithm.failure? (exec (t.storage.store entry) s).1 =
      (memory s).writeError? entry.key.recordPath := by
  unfold RecordStorage.store RecordStorage.reporting MemoryStorage.writeError?
  rw [h.storage, exec_mapError]
  show Algorithm.failure? (Except.mapError _
    (exec (MemoryStorage.write _ _) (memory s)).1) = _
  unfold MemoryStorage.write MemoryStorage.change
  rw [exec_mk]
  split <;> rfl

theorem memory_store (h : t.InMemory memory update) (entry : CacheEntry Q) (s : σ) :
    memory (exec (t.storage.store entry) s).2 =
      (memory s).written entry.key.recordPath (CacheRecord.bytes entry) := by
  unfold RecordStorage.store RecordStorage.reporting MemoryStorage.written
  rw [h.storage, exec_mapError]
  show memory (update (exec (MemoryStorage.write _ _) (memory s)).2 s) = _
  rw [h.memory_update]
  unfold MemoryStorage.write MemoryStorage.change
  rw [exec_mk]
  split <;> rfl

end Tuner.InMemory

namespace Algorithm

/-! ## The frame -/

/-- The problem is refused for its own sake, or for want of candidates. -/
def Refused (p : Primitive δ Q L A O) (problem : Q) (e : Failure Error) : Prop :=
  p.validate problem = .error e ∨
    p.validate problem = .ok () ∧ (spaceOf p problem).isEmpty = true ∧
      e = .error (.tune (.emptySpace p.name))

/-- What a construction with tuned parameters does: after all else, the final build succeeds, and
then the record of the key is written, if it can be. -/
structure StoresTuned (p : Primitive δ Q L A O) (t : Tuner σ) (memory : σ → MemoryStorage)
    (now : UInt64) (problem : Q) (s : σ) (a : ReadyAlgorithm Q L β) (s' : σ) (d' : δ) : Prop where
  /-- The records are those of the start when the final build succeeds. -/
  built : ∃ d s₁, exec (p.build problem a.parameters) d = (.ok a.plan, d') ∧
    memory s₁ = memory s ∧
    s' = (exec (t.storage.store
      (foundEntry p problem now (a.parameters, a.resolution.score))) s₁).2
  written : memory s' = (memory s).written (keyOf p problem).recordPath
    (CacheRecord.bytes (foundEntry p problem now (a.parameters, a.resolution.score)))
  others : ∀ path ≠ (keyOf p problem).recordPath,
    (memory s').records.get? path = (memory s).records.get? path
  persistError : a.persistError = (memory s).writeError? (keyOf p problem).recordPath
  unwritten : ∀ e, a.persistError = some e → memory s' = memory s

/-- What a construction does to records in memory. -/
structure KeepsRecords (p : Primitive δ Q L A O) (t : Tuner σ) (memory : σ → MemoryStorage)
    (now : UInt64) (problem : Q) (s : σ) (d : δ) (result : Except (Failure Error) (Algorithm Q L β))
    (s' : σ) (d' : δ) : Prop where
  error : ∀ e, result = .error e → memory s' = memory s
  /-- What is refused comes to the same with any other storage, builds and measurements: nothing
  was read, built or measured. -/
  refused : ∀ e, Refused p problem e → result = .error e ∧ s' = s ∧ d' = d ∧
    ∀ {σ' : Type} (t' : Tuner σ') build measure s d,
      exec (create { p with build, measure } t' now problem : Action (σ' × δ) (Algorithm Q L β))
        (s, d) = (.error e, s, d)
  ready : ∀ a, result = .ok a → ∃ state, a = .ready state
  cached : ∀ a score, result = .ok (.ready a) → a.resolution = .cached score →
    s' = s ∧ exec (p.build problem a.parameters) d = (.ok a.plan, d')
  tuned : ∀ a evaluated score, result = .ok (.ready a) → a.resolution = .tuned evaluated score →
    StoresTuned p t memory now problem s a s' d'
  /-- Once the final build has succeeded, there is an algorithm, whether its record can be written
  or not. -/
  succeeds : ∀ d₁ d₂ d₃ trace found plan, p.validate problem = .ok () →
    (spaceOf p problem).isEmpty = false → Unused p t problem s d d₁ → t.policy.enabled = true →
    (Search.run (score p problem) (spaceOf p problem)).run d₁ = (trace, d₂) →
    Search.selected? trace = some found → exec (p.build problem found.1) d₂ = (.ok plan, d₃) →
    result = .ok (ofPlan p problem found.1 plan (.tuned (Search.evaluated trace) found.2)
      ((memory s).writeError? (keyOf p problem).recordPath)) ∧ d' = d₃

/-! ## Every construction keeps it -/

section

variable {p : Primitive δ Q L A O} {t : Tuner σ} {memory : σ → MemoryStorage}
  {update : MemoryStorage → σ → σ} {now : UInt64} {problem : Q} {s s' : σ} {d d₁ d' : δ}
  {result : Except (Failure Error) (Algorithm Q L β)}

theorem exec_create_of_refused {e : Failure Error} (h : Refused p problem e) :
    exec (create p t now problem : Action (σ × δ) (Algorithm Q L β)) (s, d) = (.error e, s, d) := by
  unfold create
  rcases h with h | ⟨hvalid, hempty, rfl⟩
  · rw [h]
    rfl
  · rw [hvalid, hempty]
    rfl

theorem SearchExit.memory_of_error (h : t.InMemory memory update) {e : Failure Error}
    (exit : SearchExit p t now problem s d (.error e : Except _ (Algorithm Q L β)) s' d') :
    memory s' = memory s := by
  cases exit with
  | disabled => rfl
  | exhausted | unbuilt => exact h.memory_report _ s

theorem SearchExit.storesTuned (h : t.InMemory memory update) {a : ReadyAlgorithm Q L β}
    (exit : SearchExit p t now problem s d (.ok (.ready a)) s' d') :
    StoresTuned p t memory now problem s a s' d' := by
  generalize hresult : (.ok (.ready a) : Except (Failure Error) (Algorithm Q L β)) = result at exit
  cases exit with
  | disabled | exhausted | unbuilt => cases hresult
  | @tuned trace d₁ _ found plan stored _ on searched selected built store =>
    cases hresult
    have hmemory : memory (afterReport p t trace s) = memory s := h.memory_report _ s
    have herror := h.failure?_store (foundEntry p problem now found) (afterReport p t trace s)
    have hstored := h.memory_store (foundEntry p problem now found) (afterReport p t trace s)
    rw [store, hmemory] at herror hstored
    refine ⟨⟨d₁, _, built, hmemory, ?_⟩, hstored, fun path hne => ?_, herror, fun e he => ?_⟩
    · exact (congrArg Prod.snd store).symm
    · exact hstored ▸ MemoryStorage.get?_written_of_ne _ hne
    · exact hstored.trans (MemoryStorage.written_of_writeError? (herror.symm.trans he) _)

theorem keepsRecords_create (h : t.InMemory memory update)
    (run : exec (create p t now problem : Action (σ × δ) (Algorithm Q L β)) (s, d) =
      (result, s', d')) : KeepsRecords p t memory now problem s d result s' d' := by
  -- Every promise is read off the exit that was taken, and most exits contradict its premise.
  have exit := create_exit run
  refine ⟨fun e he => ?error, fun e refused => ?refused, fun a ha => ?ready,
    fun a score ha cached => ?cached, fun a evaluated score ha tuned => ?tuned, ?succeeds⟩
  case error =>
    subst he
    cases exit with
    | invalid | noCandidate | crashed => rfl
    | searched _ _ _ search => exact search.memory_of_error h
  case refused =>
    rw [exec_create_of_refused refused] at run
    cases run
    exact ⟨rfl, rfl, rfl, fun t' build measure s d => exec_create_of_refused refused⟩
  case ready =>
    cases exit with
    | invalid | noCandidate | crashed => cases ha
    | cached => cases ha; exact ⟨_, rfl⟩
    | searched _ _ _ search => cases search <;> cases ha; exact ⟨_, rfl⟩
  case cached =>
    cases exit with
    | invalid | noCandidate | crashed => cases ha
    | cached _ _ _ built => cases ha; exact ⟨rfl, built⟩
    | searched _ _ _ search => cases search <;> cases ha; cases cached
  case tuned =>
    cases exit with
    | invalid | noCandidate | crashed => cases ha
    | cached => cases ha; cases tuned
    | searched _ _ _ search => exact (ha ▸ search).storesTuned h
  case succeeds =>
    intro d₁ d₂ d₃ trace found plan valid nonempty unused on searched selected built
    rw [exec_create_of_unused valid nonempty unused,
      exec_fromSearch_of_built nonempty on searched selected built] at run
    cases run
    have herror := h.failure?_store (foundEntry p problem now found) (afterReport p t trace s)
    rw [show memory (afterReport p t trace s) = memory s from h.memory_report _ s] at herror
    rw [herror]
    exact ⟨rfl, rfl⟩

end

/-- Constructions with cached parameters launch nothing. -/
def CachedIsQuiet (p : Primitive Recorder Q L A O) (t : Tuner σ) : Prop :=
  ∀ {β : Type} (now : UInt64) (problem : Q) (s s' : σ) (d d' : Recorder)
    (a : ReadyAlgorithm Q L β) (score : Binary64),
    exec (create p t now problem : Action (σ × Recorder) (Algorithm Q L β)) (s, d) =
      (.ok (.ready a), s', d') →
    a.resolution = .cached score → d'.launches = d.launches ∧ d'.costCalls = d.costCalls

theorem cachedIsQuiet {p : Primitive Recorder Q L A O} {t : Tuner σ}
    {memory : σ → MemoryStorage} {update : MemoryStorage → σ → σ} (h : t.InMemory memory update)
    (free : ∀ problem parameters, LaunchFree (p.build problem parameters)) : CachedIsQuiet p t := by
  intro β now problem s s' d d' a score run cached
  have built := ((keepsRecords_create h run).cached a score rfl cached).2
  have hfree := free problem a.parameters d
  rw [built] at hfree
  exact hfree

/-- **Only a tuned result changes the storage**, and only the record of its key. This holds of all
primitives; those of the library launch nothing if the result is cached. -/
theorem create_keeps_storage {t : Tuner σ} {memory : σ → MemoryStorage}
    {update : MemoryStorage → σ → σ} (h : t.InMemory memory update) :
    (∀ {δ Q L A O β : Type} [Problem Q] (p : Primitive δ Q L A O) (now : UInt64) (problem : Q)
      (s s' : σ) (d d' : δ) (result : Except (Failure Error) (Algorithm Q L β)),
      exec (create p t now problem : Action (σ × δ) (Algorithm Q L β)) (s, d) = (result, s', d') →
      KeepsRecords p t memory now problem s d result s' d') ∧
    ∀ b : Backend, CachedIsQuiet (Scan.primitive b) t ∧ CachedIsQuiet (Reduce.primitive b) t ∧
      CachedIsQuiet (Radixsort.primitive b) t :=
  ⟨fun _ _ _ _ _ _ _ _ run => keepsRecords_create h run,
    fun b => ⟨cachedIsQuiet h (Scan.launchFree_build b),
      cachedIsQuiet h (Reduce.launchFree_build b),
      cachedIsQuiet h (Radixsort.launchFree_build b)⟩⟩

/-- A host with nothing but the record of a probe, for a graphics device. -/
def probedHost (parameters : TuningParameters) : Host :=
  let entry := foundEntry (Probe.primitive (.ofProperties Backend.gpuProperties)) "sum" 0
    (parameters, .zero)
  { Host.empty with memory := .written .empty entry.key.recordPath (CacheRecord.bytes entry) }

/-- The construction of that probe. -/
def probeOnHost (problem : String) (h : Host) :
    Except (Failure Error) (Algorithm String ProbePlan Unit) × Host × Recorder :=
  exec (create (Probe.primitive (.ofProperties Backend.gpuProperties))
    (Host.tuner Host.memoryStorage .standard) 1 problem) (h, .start)

/-- How the parameters of a construction were found. -/
def resolution? : Except (Failure Error) (Algorithm Q L β) → Option Resolution
  | .ok (.ready a) => some a.resolution
  | _ => none

theorem exists_lookup_probedHost (parameters : TuningParameters) :
    ∃ score, (Host.tuner Host.memoryStorage .standard).lookup
      (keyOf (Probe.primitive (.ofProperties Backend.gpuProperties)) "sum")
      (spaceOf (Probe.primitive (.ofProperties Backend.gpuProperties)) "sum")
      (probedHost parameters) =
        some { foundEntry (Probe.primitive (.ofProperties Backend.gpuProperties)) "sum" 0
          (parameters, .zero) with score } :=
  (Host.inMemory_tuner .standard).exists_lookup_of_written (m := .empty) _ _ _ _ rfl rfl
    (show Binary64.zero.isFinite = true by decide) rfl

/-- A work group of four items is used. -/
theorem cached_probeOnHost :
    ∃ score, resolution? (probeOnHost "sum" (probedHost (.ofWords [("work_group_size", 4)]))).1 =
      some (.cached score) := by
  obtain ⟨score, found⟩ := exists_lookup_probedHost (.ofWords [("work_group_size", 4)])
  obtain ⟨plan, d, built⟩ : ∃ plan d, exec (Probe.build (.ofProperties Backend.gpuProperties) "sum"
      (.ofWords [("work_group_size", 4)])) .start = (.ok plan, d) := ⟨_, _, rfl⟩
  refine ⟨score, ?_⟩
  unfold probeOnHost
  rw [exec_create_of_found rfl (by decide +kernel) found built]
  rfl

/-- A record without the work group is refused, and the probe is tuned. -/
theorem tuned_probeOnHost :
    ∃ score, resolution? (probeOnHost "sum" (probedHost (.ofWords []))).1 =
      some (.tuned 9 score) := by
  obtain ⟨score, found⟩ := exists_lookup_probedHost (.ofWords [])
  obtain ⟨e, built⟩ : ∃ e, exec (Probe.build (.ofProperties Backend.gpuProperties) "sum"
      (.ofWords [])) .start = (.error (.error e), .start) := ⟨_, rfl⟩
  refine ⟨⟨4659008998886866944⟩, ?_⟩
  unfold probeOnHost
  rw [exec_create_of_unused rfl (by decide +kernel) (.refused found built)]
  decide +kernel

/-- The tuners of a host are among them. A record that can be used is used, one that is refused is
replaced by a tuned result, and an invalid problem is refused whatever the records are. -/
theorem create_keeps_storage_host :
    let usable := probedHost (.ofWords [("work_group_size", 4)])
    let refused := probedHost (.ofWords [])
    let keeps (problem : String) (h : Host) := KeepsRecords
      (Probe.primitive (.ofProperties Backend.gpuProperties))
      (Host.tuner Host.memoryStorage .standard) Host.memory 1 problem h Recorder.start
      (probeOnHost problem h).1 (probeOnHost problem h).2.1 (probeOnHost problem h).2.2
    ((∃ score, resolution? (probeOnHost "sum" usable).1 = some (.cached score)) ∧
        keeps "sum" usable) ∧
      ((∃ score, resolution? (probeOnHost "sum" refused).1 = some (.tuned 9 score)) ∧
        keeps "sum" refused) ∧
      resolution? (probeOnHost "invalid" usable).1 = none ∧ keeps "invalid" usable := by
  intro usable refused keeps
  have hkeeps (problem : String) (h : Host) : keeps problem h :=
    (create_keeps_storage (Host.inMemory_tuner .standard)).1 _ _ _ _ _ _ _ _ rfl
  exact ⟨⟨cached_probeOnHost, hkeeps _ _⟩, ⟨tuned_probeOnHost, hkeeps _ _⟩, rfl, hkeeps _ _⟩

end Algorithm

end KernelTuning
