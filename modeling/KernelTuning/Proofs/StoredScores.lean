import KernelTuning.Proofs.ExactReading
import KernelTuning.Proofs.RoundTrip
import KernelTuning.Proofs.WrittenRecords

/-!
# The scores of stored entries

An entry that was stored is found under its key, and all of it is as it was but for the score. The
score has gone through its shortest text, and the reader of numbers rounds more than once, so it may
come back with other last bits.

**Theorem (`restoresScores`).** On every storage that works for the record, in memory or in a
directory or elsewhere, and for every finite score (`Restores`):

* the entry that is found is the one that was stored if and only if the reader gives the score back
  from its own text (`Binary64.IsReadBack`), for which a short text is enough;
* otherwise only the last bits of the score differ (`CacheEntry.Resembles`);
* an algorithm that takes its parameters from the cache reports the score that is found.

A construction that tunes stores such an entry, so what is reported later is the score of the tuning
if and only if this is read back. One eleventh is not (`not_restores_eleventh`).
-/

namespace KernelTuning

open Algorithm (create foundEntry keyOf)

variable {σ δ Q L A O β : Type} [Problem Q]

/-! ## Entries -/

namespace RecordStorage

variable {s : RecordStorage σ} {entry : CacheEntry Q} {state state' : σ}

theorem exec_write_of_store (h : exec (s.store entry) state = (.ok (), state')) :
    exec (s.write entry.key.recordPath (CacheRecord.bytes entry)) state = (.ok (), state') := by
  unfold store reporting at h
  rw [exec_mapError] at h
  rcases hwrite : exec (s.write entry.key.recordPath (CacheRecord.bytes entry)) state with
    ⟨e | _, state₁⟩ <;> rw [hwrite] at h
  · cases h
  · cases h
    rfl

/-- An entry that was stored is found, with the score that is read from the text of its own. -/
theorem exists_lookup_of_store [Json.LawfulCodec Q] (finite : entry.score.isFinite = true)
    (works : s.ReadsWritten entry.key.recordPath state)
    (stored : exec (s.store entry) state = (.ok (), state')) :
    ∃ score, entry.score.literal.double? = some score ∧
      s.lookup entry.key state' = some { entry with score } := by
  obtain ⟨score, hscore⟩ := Json.exists_double?_node finite
  refine ⟨score, Json.double?_node finite ▸ hscore, Algorithm.lookup_eq_some_iff.2
    ⟨_, ⟨_, { entry with score }⟩, works (exec_write_of_store stored), ?_, rfl, rfl, rfl⟩⟩
  rw [Json.parse?_bytes_eq_map, Json.decode?_entry_of_score hscore, Json.LawfulCodec.decode?_encode]
  rfl

end RecordStorage

/-! ## What is restored -/

/-- What the cache gives later for an entry that was stored. -/
structure Restores (storage : RecordStorage σ) (entry found : CacheEntry Q) (state : σ) : Prop where
  lookup : storage.lookup entry.key state = some found
  /-- At most the last bits of the score are different. -/
  resembles : entry.Resembles found
  exact : storage.lookup entry.key state = some entry ↔ entry.score.IsReadBack
  short : entry.score.HasShortText → found = entry
  /-- What an algorithm reports that is made from the entry. -/
  cached : ∀ {δ L A O β : Type} (p : Primitive δ Q L A O) (t : Tuner σ) (now : UInt64)
    (problem : Q) (state' : σ) (d d' : δ) (a : ReadyAlgorithm Q L β) (score : Binary64),
    t.storage = storage → keyOf p problem = entry.key →
    exec (create p t now problem : Action (σ × δ) (Algorithm Q L β)) (state, d) =
      (.ok (.ready a), state', d') →
    a.resolution = .cached score →
    a.parameters = entry.parameters ∧ score = found.score ∧
      (score = entry.score ↔ entry.score.IsReadBack)

/-- The entries that are stored on a storage are restored, and so are the results of searches. -/
structure RestoresScores (storage : RecordStorage σ) : Prop where
  stored : ∀ {Q : Type} [Problem Q] [Json.LawfulCodec Q] (entry : CacheEntry Q) (state state' : σ),
    entry.score.isFinite = true → storage.ReadsWritten entry.key.recordPath state →
    exec (storage.store entry) state = (.ok (), state') →
    ∃ found, Restores storage entry found state'
  tuned : ∀ {δ Q L A O β : Type} [Problem Q] [Json.LawfulCodec Q] (p : Primitive δ Q L A O)
    (t : Tuner σ) (now : UInt64) (problem : Q) (state state' : σ) (d d' : δ)
    (a : ReadyAlgorithm Q L β) (evaluated : Nat) (score : Binary64),
    t.storage = storage →
    (∀ events, storage.ReadsWritten (keyOf p problem).recordPath (t.report events state)) →
    exec (create p t now problem : Action (σ × δ) (Algorithm Q L β)) (state, d) =
      (.ok (.ready a), state', d') →
    a.resolution = .tuned evaluated score → a.persistError = none →
    ∃ found, Restores storage (foundEntry p problem now (a.parameters, score)) found state'

section

variable {storage : RecordStorage σ} {entry found : CacheEntry Q} {state state' : σ}

/-- An algorithm that takes its parameters from the cache has those and the score of the entry that
is found for its key. -/
theorem eq_of_cached {p : Primitive δ Q L A O} {t : Tuner σ} {now : UInt64} {problem : Q}
    {d d' : δ} {a : ReadyAlgorithm Q L β} {score : Binary64}
    (lookup : t.storage.lookup (keyOf p problem) state = some found)
    (run : exec (create p t now problem : Action (σ × δ) (Algorithm Q L β)) (state, d) =
      (.ok (.ready a), state', d')) (cached : a.resolution = .cached score) :
    a.parameters = found.parameters ∧ score = found.score := by
  generalize hresult : (.ok (.ready a) : Except (Failure Error) (Algorithm Q L β)) = result at run
  cases Algorithm.create_exit run with
  | invalid | noCandidate | crashed => cases hresult
  | @cached entry _ _ _ _ hentry _ =>
    cases hresult
    cases cached
    obtain ⟨hlookup, -⟩ := Option.filter_eq_some_iff.1 hentry
    obtain rfl := Option.some.inj (hlookup.symm.trans lookup)
    exact ⟨rfl, rfl⟩
  | searched _ _ _ search => exact absurd cached (search.not_cached hresult.symm)

/-- **An entry that was stored is restored.** -/
theorem exists_restores [Json.LawfulCodec Q] (finite : entry.score.isFinite = true)
    (works : storage.ReadsWritten entry.key.recordPath state)
    (stored : exec (storage.store entry) state = (.ok (), state')) :
    ∃ found, Restores storage entry found state' := by
  obtain ⟨score, hscore, hlookup⟩ := RecordStorage.exists_lookup_of_store finite works stored
  have hread : score = entry.score ↔ entry.score.IsReadBack := by
    rw [Binary64.IsReadBack, hscore, Option.some_inj]
  have hexact : { entry with score } = entry ↔ entry.score.IsReadBack :=
    ⟨fun h => hread.1 (congrArg CacheEntry.score h), fun h => by rw [hread.2 h]⟩
  refine ⟨{ entry with score }, hlookup, ?resembles, ?exact, fun short => ?short, ?cached⟩
  case resembles =>
    exact ⟨rfl, rfl, Binary64.close_of_double?_literal finite hscore, rfl, rfl⟩
  case exact => rw [hlookup, Option.some_inj, hexact]
  case short => exact hexact.2 (Binary64.isReadBack_of_hasShortText finite short)
  case cached =>
    rintro δ L A O β p t now problem state₂ d d' a x rfl hkey run cached
    obtain ⟨hparameters, rfl⟩ := eq_of_cached (hkey ▸ hlookup) run cached
    exact ⟨hparameters, rfl, hread⟩

/-- The result of a search is restored, if there was no failure to store it. -/
theorem exists_restores_of_create [Json.LawfulCodec Q] {p : Primitive δ Q L A O} {t : Tuner σ}
    {now : UInt64} {problem : Q} {d d' : δ} {a : ReadyAlgorithm Q L β} {evaluated : Nat}
    {score : Binary64}
    (works : ∀ events, t.storage.ReadsWritten (keyOf p problem).recordPath (t.report events state))
    (run : exec (create p t now problem : Action (σ × δ) (Algorithm Q L β)) (state, d) =
      (.ok (.ready a), state', d'))
    (tuned : a.resolution = .tuned evaluated score) (stored : a.persistError = none) :
    ∃ found, Restores t.storage (foundEntry p problem now (a.parameters, score)) found state' := by
  generalize hresult : (.ok (.ready a) : Except (Failure Error) (Algorithm Q L β)) = result at run
  cases Algorithm.create_exit run with
  | invalid | noCandidate | crashed => cases hresult
  | cached => cases hresult; cases tuned
  | searched _ _ _ search =>
    cases search with
    | disabled | exhausted | unbuilt => cases hresult
    | @tuned trace _ _ found plan result _ _ searched selected _ store =>
      cases hresult
      cases tuned
      -- A search selects finite scores only.
      have finite := Search.isFinite_of_isValidScore
        (Search.isValidScore_of_selected? searched selected)
      rcases result with e | _
      · cases stored
      · exact exists_restores finite (works _) store

end

/-- **Scores are restored but for their last bits**, and exactly if and only if they are read back
from their own texts. The storages in memory and in directories work for all records. -/
theorem restoresScores (storage : RecordStorage σ) : RestoresScores storage ∧
    (∀ (path : RecordPath) (m : MemoryStorage), m.failsReads = false →
      MemoryStorage.storage.ReadsWritten path m) ∧
    ∀ (s : DirectoryStorage) (path : RecordPath) (files : FileSystem),
      s.storage.ReadsWritten path files := by
  refine ⟨⟨?stored, ?tuned⟩, fun path m => MemoryStorage.readsWritten path,
    DirectoryStorage.readsWritten⟩
  case stored =>
    intro Q _ _ entry state state' finite works stored
    exact exists_restores finite works stored
  case tuned =>
    rintro δ Q L A O β _ _ p t now problem state state' d d' a evaluated score rfl works run tuned
      stored
    exact exists_restores_of_create works run tuned stored

/-! ## Two scores -/

/-- An entry with a score. -/
def scored (score : Binary64) : CacheEntry String :=
  ⟨⟨"scan", Backend.gpuProperties.fingerprint, "p", 1⟩, .ofList [("a", .int 1)], score, 5, "c"⟩

/-- A quarter. -/
def quarter : Binary64 := ⟨0x3FD0000000000000⟩

/-- The double next to one eleventh. -/
def eleventh : Binary64 := ⟨0x3FB745D1745D1746⟩

/-- Whether there is an algorithm with tuned parameters that could be stored. -/
def isTuned : Except (Failure Error) (Algorithm Q L β) → Bool
  | .ok (.ready ⟨_, _, _, .tuned _ _, _, none, _⟩) => true
  | _ => false

/-- An entry with the score one quarter is found as it was stored. On a host, the result of a search
is found with a close score. -/
theorem restoresScores_host :
    (∃ m, exec (MemoryStorage.storage.store (scored quarter)) .empty = (.ok (), m) ∧
      MemoryStorage.storage.lookup (scored quarter).key m = some (scored quarter)) ∧
    ∃ (a : ReadyAlgorithm ReduceProblem ReducePlan Unit) (h : Host) (d : Recorder)
        (evaluated : Nat) (score : Binary64) (found : CacheEntry ReduceProblem),
      exec (Algorithm.reduceOnHost .standard 0 ⟨⟨.uint, 1, by decide⟩⟩)
        (Host.empty, Recorder.start) = (.ok (.ready a), h, d) ∧
      a.resolution = .tuned evaluated score ∧
      Host.memoryStorage.lookup (keyOf (Reduce.primitive (.ofProperties Backend.gpuProperties))
        ⟨⟨.uint, 1, by decide⟩⟩) h = some found ∧
      score.Close found.score := by
  obtain ⟨restores, works, -⟩ := restoresScores MemoryStorage.storage
  obtain ⟨restoresHost, -⟩ := restoresScores Host.memoryStorage
  refine ⟨⟨_, rfl, ?quarter⟩, ?host⟩
  case quarter =>
    obtain ⟨found, restored⟩ := restores.stored (scored quarter) .empty _
      (by decide) (works _ _ rfl) rfl
    rw [restored.lookup, restored.short]
    exact ⟨by decide +kernel, by decide +kernel, by decide +kernel⟩
  case host =>
    have tuned : isTuned (exec (Algorithm.reduceOnHost .standard 0 ⟨⟨.uint, 1, by decide⟩⟩)
        (Host.empty, Recorder.start)).1 = true := by decide +kernel
    have inMemory := Host.inMemory_tuner TunePolicy.standard
    rcases run : exec (Algorithm.reduceOnHost .standard 0 ⟨⟨.uint, 1, by decide⟩⟩)
      (Host.empty, Recorder.start) with ⟨e | a | _, h, d⟩ <;> rw [run] at tuned
    · cases tuned
    · unfold isTuned at tuned
      split at tuned
      · rename_i hresult
        cases hresult
        obtain ⟨found, restored⟩ := restoresHost.tuned _ _ _ _ _ _ _ _ _ _ _ rfl
          (inMemory.readsWritten rfl _) run rfl rfl
        exact ⟨_, h, d, _, _, found, rfl, rfl, restored.lookup, restored.resembles.score⟩
      · cases tuned
    · cases tuned

/-- **One eleventh is not restored**: the entry is stored, and found with the next double. -/
theorem not_restores_eleventh :
    ¬ ∀ (entry : CacheEntry String) (m m' : MemoryStorage), entry.score.isFinite = true →
      entry.score.isNegative = false → m.failsReads = false →
      exec (MemoryStorage.storage.store entry) m = (.ok (), m') →
      MemoryStorage.storage.lookup entry.key m' = some entry := by
  intro h
  have stored : exec (MemoryStorage.storage.store (scored eleventh)) .empty = (.ok (), _) := rfl
  have hlookup := h (scored eleventh) .empty _ (by decide) (by decide) rfl stored
  obtain ⟨score, hscore, hfound⟩ :=
    RecordStorage.exists_lookup_of_store (by decide) (MemoryStorage.readsWritten _ rfl) stored
  have hread : (scored eleventh).score.literal.double? = some ⟨0x3FB745D1745D1747⟩ := by
    decide +kernel
  have heq := congrArg CacheEntry.score (Option.some.inj (hfound.symm.trans hlookup))
  obtain rfl := Option.some.inj (hscore.symm.trans hread)
  exact absurd heq (by decide)

end KernelTuning
