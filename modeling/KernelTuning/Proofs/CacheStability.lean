import KernelTuning.Proofs.Searching
import KernelTuning.Proofs.StorageFrame

/-!
# Cached parameters stay

Once a problem has an algorithm, and its parameters could be stored if they are new, nothing is
tuned again for the problem or for any other that is tuned alike (`Alike`).

**Invariant.** A construction leaves a storage in memory that remembers its parameters
(`Remembers`): the record of the key is read back, and its checksum is that of the candidates. It
does not matter what the storage held at first. Two more facts carry it on.

* A construction for another record path leaves the record alone, however it ends (`Later`).
* The parameters fit every problem that is tuned alike, so their plan is never refused.

**Theorem (`staysCached_primitives`).** For scans, reductions and radix sorts: after a
construction that reports no failure to store its parameters, and after any later constructions,
those for problems that are tuned alike give the same parameters from the cache, under every
policy, and measure nothing.
-/

namespace KernelTuning

variable {σ δ Q L A O β : Type} [Problem Q]

namespace Algorithm

/-! ## What a storage remembers -/

/-- The record of a key holds the parameters, and comes from the same candidates. -/
def Remembers (m : MemoryStorage) (key : TuningKey Q) (space : CandidateSpace)
    (parameters : TuningParameters) : Prop :=
  ∃ entry, MemoryStorage.storage.lookup key m = some entry ∧ entry.checksum = space.checksum ∧
    entry.parameters = parameters

section

variable {p : Primitive δ Q L A O} {t : Tuner σ} {memory : σ → MemoryStorage}
  {update : MemoryStorage → σ → σ} {now : UInt64} {problem : Q} {s s' : σ} {d d' : δ}
  {key : TuningKey Q} {space : CandidateSpace} {parameters : TuningParameters}

/-- The tuner finds the parameters that its storage remembers, and no others. -/
theorem remembers_iff (h : t.InMemory memory update) :
    Remembers (memory s) key space parameters ↔
      ∃ entry, t.lookup key space s = some entry ∧ entry.parameters = parameters := by
  simp only [Remembers, h.lookup_eq, Option.filter_eq_some_iff, decide_eq_true_eq,
    and_assoc]

/-- An algorithm has the plan of its parameters. -/
theorem exists_built {a : ReadyAlgorithm Q L β}
    (run : exec (create p t now problem : Action (σ × δ) (Algorithm Q L β)) (s, d) =
      (.ok (.ready a), s', d')) :
    ∃ d₀, exec (p.build problem a.parameters) d₀ = (.ok a.plan, d') := by
  generalize hresult : (.ok (.ready a) : Except (Failure Error) (Algorithm Q L β)) = result at run
  cases create_exit run with
  | invalid | noCandidate | crashed => cases hresult
  | cached _ _ _ built => cases hresult; exact ⟨_, built⟩
  | searched _ _ _ search =>
    cases search with
    | disabled | exhausted | unbuilt => cases hresult
    | tuned _ _ _ built => cases hresult; exact ⟨_, built⟩

/-- **A construction leaves its parameters in the storage**, unless it reports that it could not
store them. -/
theorem remembers_of_create [Json.LawfulCodec Q] (h : t.InMemory memory update)
    (readable : (memory s).failsReads = false) {a : ReadyAlgorithm Q L β}
    (run : exec (create p t now problem : Action (σ × δ) (Algorithm Q L β)) (s, d) =
      (.ok (.ready a), s', d')) (stored : a.persistError = none) :
    Remembers (memory s') (keyOf p problem) (spaceOf p problem) a.parameters := by
  generalize hresult : (.ok (.ready a) : Except (Failure Error) (Algorithm Q L β)) = result at run
  cases create_exit run with
  | invalid | noCandidate | crashed => cases hresult
  | cached _ _ found _ =>
    cases hresult
    exact (remembers_iff h).2 ⟨_, found, rfl⟩
  | searched _ _ _ search =>
    have htuned := (hresult ▸ search).storesTuned h
    cases search with
    | disabled | exhausted | unbuilt => cases hresult
    | @tuned trace d₁ _ found plan _ _ on searched selected built store =>
      cases hresult
      -- The score that was stored is finite, so its record is read back.
      have hfinite := Search.isFinite_of_isValidScore
        (Search.isValidScore_of_selected? searched selected)
      obtain ⟨score, hlookup⟩ := MemoryStorage.lookup_written (foundEntry p problem now found)
        readable (htuned.persistError.symm.trans stored) hfinite
      exact ⟨_, htuned.written ▸ hlookup, rfl, rfl⟩

/-- A construction for another record path neither makes the storage forget nor remember. -/
theorem remembers_create_iff {K : Type} [Problem K] {key : TuningKey K}
    (inMemory : t.InMemory memory update) (other : (keyOf p problem).recordPath ≠ key.recordPath)
    {result : Except (Failure Error) (Algorithm Q L β)}
    (run : exec (create p t now problem : Action (σ × δ) (Algorithm Q L β)) (s, d) =
      (result, s', d')) :
    Remembers (memory s') key space parameters ↔ Remembers (memory s) key space parameters := by
  have keeps := keepsRecords_create inMemory run
  rcases result with e | a
  · rw [keeps.error e rfl]
  · obtain ⟨state, rfl⟩ := keeps.ready a rfl
    rcases hresolution : state.resolution with score | ⟨evaluated, score⟩
    · rw [(keeps.cached state score rfl hresolution).1]
    · unfold Remembers
      rw [(keeps.tuned state evaluated score rfl hresolution).written,
        MemoryStorage.lookup_written_of_ne _ other]

end

/-! ## Problems that are tuned alike -/

/-- A backend and a problem whose constructions share the record with those of another: the same
device, and the same canonical problem. The backend accepts all programs. -/
structure Alike (prim : Backend → Primitive Recorder Q L A O) (b : Backend) (problem : Q)
    (b' : Backend) (problem' : Q) : Prop where
  device : b'.properties = b.properties
  canonical : (prim b').canonical problem' = (prim b).canonical problem
  valid : (prim b').validate problem' = .ok ()
  accepts : b'.Accepts

/-- What the stability of the cache rests on: the device and the canonical problem decide the key,
the candidates, and which parameters fit. -/
structure Cacheable (prim : Backend → Primitive Recorder Q L A O)
    (fits : DeviceProperties → Q → TuningParameters → Prop) : Prop where
  name : ∀ b b', (prim b').name = (prim b).name
  formatVersion : ∀ b b', (prim b').formatVersion = (prim b).formatVersion
  device : ∀ b, (prim b).device = b.properties
  space : ∀ {b problem b' problem'}, Alike prim b problem b' problem' →
    spaceOf (prim b') problem' = spaceOf (prim b) problem
  nonempty : ∀ {b problem}, (prim b).validate problem = .ok () →
    (spaceOf (prim b) problem).isEmpty = false
  fits_of_build : ∀ {b problem parameters d plan d'},
    exec ((prim b).build problem parameters) d = (.ok plan, d') →
    fits b.properties problem parameters
  fits_of_alike : ∀ {b problem b' problem' parameters}, Alike prim b problem b' problem' →
    fits b.properties problem parameters → fits b'.properties problem' parameters
  exists_build : ∀ {b problem parameters}, b.Accepts → (prim b).validate problem = .ok () →
    fits b.properties problem parameters →
    ∀ d, ∃ plan d', exec ((prim b).build problem parameters) d = (.ok plan, d')
  launchFree : ∀ b problem parameters, LaunchFree ((prim b).build problem parameters)

/-- The algorithm has the parameters from the cache, and nothing was measured. -/
structure Reuses (parameters : TuningParameters) (problem : Q) (a : ReadyAlgorithm Q L β)
    (d d' : Recorder) : Prop where
  cached : ∃ score, a.resolution = .cached score
  parameters : a.parameters = parameters
  problem : a.problem = problem
  persistError : a.persistError = none
  launches : d'.launches = d.launches
  costCalls : d'.costCalls = d.costCalls

/-- The states of storages in memory after constructions: any for other record paths, on whatever
device and with whatever end, and those for problems that are tuned alike. -/
inductive Later (memory : σ → MemoryStorage) (prim : Backend → Primitive Recorder Q L A O)
    (b : Backend) (problem : Q) (s : σ) : σ → Prop
  | refl : Later memory prim b problem s s
  | elsewhere {δ' Q' L' A' O' β' : Type} [Problem Q'] {p : Primitive δ' Q' L' A' O'}
      {t : Tuner σ} {update : MemoryStorage → σ → σ} {now : UInt64} {problem' : Q'} {s₁ s₂ : σ}
      {d d' : δ'} {result : Except (Failure Error) (Algorithm Q' L' β')}
      (earlier : Later memory prim b problem s s₁) (inMemory : t.InMemory memory update)
      (other : (keyOf p problem').recordPath ≠ (keyOf (prim b) problem).recordPath)
      (run : exec (create p t now problem' : Action (σ × δ') (Algorithm Q' L' β')) (s₁, d) =
        (result, s₂, d')) : Later memory prim b problem s s₂
  | again {β' : Type} {t : Tuner σ} {update : MemoryStorage → σ → σ} {now : UInt64} {b' : Backend}
      {problem' : Q} {s₁ s₂ : σ} {d d' : Recorder}
      {result : Except (Failure Error) (Algorithm Q L β')}
      (earlier : Later memory prim b problem s s₁) (inMemory : t.InMemory memory update)
      (alike : Alike prim b problem b' problem')
      (run : exec (create (prim b') t now problem' : Action (σ × Recorder) (Algorithm Q L β'))
        (s₁, d) = (result, s₂, d')) : Later memory prim b problem s s₂

/-- After a construction that stores its parameters, all constructions for problems that are tuned
alike reuse them. -/
def StaysCached (prim : Backend → Primitive Recorder Q L A O) : Prop :=
  ∀ {σ β : Type} {memory : σ → MemoryStorage} {update update' : MemoryStorage → σ → σ}
    (t t' : Tuner σ) (now now' : UInt64) (b b' : Backend) (problem problem' : Q) (s s₁ s₂ : σ)
    (d d₁ d₂ : Recorder) (a : ReadyAlgorithm Q L β),
    t.InMemory memory update → (memory s).failsReads = false →
    exec (create (prim b) t now problem : Action (σ × Recorder) (Algorithm Q L β)) (s, d) =
      (.ok (.ready a), s₁, d₁) →
    a.persistError = none →
    Later memory prim b problem s₁ s₂ →
    t'.InMemory memory update' → Alike prim b problem b' problem' →
    ∃ (a' : ReadyAlgorithm Q L β) (d₃ : Recorder),
      exec (create (prim b') t' now' problem' : Action (σ × Recorder) (Algorithm Q L β)) (s₂, d₂) =
        (.ok (.ready a'), s₂, d₃) ∧
      Reuses a.parameters problem' a' d₂ d₃

section

variable {prim : Backend → Primitive Recorder Q L A O}
  {fits : DeviceProperties → Q → TuningParameters → Prop} {memory : σ → MemoryStorage}
  {update : MemoryStorage → σ → σ} {t : Tuner σ} {b b' : Backend} {problem problem' : Q}
  {parameters : TuningParameters} {s s' : σ}

omit [Problem Q] in
theorem Cacheable.keyOf_eq (c : Cacheable prim fits) (alike : Alike prim b problem b' problem') :
    keyOf (prim b') problem' = keyOf (prim b) problem := by
  simp only [keyOf, c.name b b', c.formatVersion b b', c.device, alike.device, alike.canonical]

/-- A construction reuses the parameters that are remembered and that fit. -/
theorem exists_create_of_remembers (β : Type) (c : Cacheable prim fits)
    (inMemory : t.InMemory memory update) (alike : Alike prim b problem b' problem')
    (remembers :
      Remembers (memory s) (keyOf (prim b) problem) (spaceOf (prim b) problem) parameters)
    (fit : fits b.properties problem parameters) (now : UInt64) (d : Recorder) :
    ∃ (a : ReadyAlgorithm Q L β) (d' : Recorder),
      exec (create (prim b') t now problem' : Action (σ × Recorder) (Algorithm Q L β)) (s, d) =
        (.ok (.ready a), s, d') ∧
      Reuses parameters problem' a d d' := by
  rw [← c.keyOf_eq alike, ← c.space alike, remembers_iff inMemory] at remembers
  obtain ⟨entry, found, rfl⟩ := remembers
  obtain ⟨plan, d', built⟩ := c.exists_build alike.accepts alike.valid (c.fits_of_alike alike fit) d
  have free := c.launchFree b' problem' entry.parameters d
  rw [built] at free
  exact ⟨_, d', exec_create_of_found alike.valid (c.nonempty alike.valid) found built,
    ⟨_, rfl⟩, rfl, rfl, rfl, free.1, free.2⟩

/-- What is remembered stays, if it fits. -/
theorem Later.remembers (c : Cacheable prim fits) (later : Later memory prim b problem s s')
    (fit : fits b.properties problem parameters)
    (h : Remembers (memory s) (keyOf (prim b) problem) (spaceOf (prim b) problem) parameters) :
    Remembers (memory s') (keyOf (prim b) problem) (spaceOf (prim b) problem) parameters := by
  induction later with
  | refl => exact h
  | elsewhere _ inMemory other run ih => exact (remembers_create_iff inMemory other run).2 ih
  | @again β' t _ now b' problem' s₁ s₂ d _ _ _ inMemory alike run ih =>
    obtain ⟨a, d', hrun, -⟩ := exists_create_of_remembers β' c inMemory alike ih fit now d
    rw [hrun] at run
    cases run
    exact ih

theorem staysCached [Json.LawfulCodec Q] (c : Cacheable prim fits) : StaysCached prim := by
  intro σ β memory update update' t t' now now' b b' problem problem' s s₁ s₂ d d₁ d₂ a inMemory
    readable run stored later inMemory' alike
  obtain ⟨d₀, built⟩ := exists_built run
  have fit := c.fits_of_build built
  have remembers := remembers_of_create inMemory readable run stored
  exact exists_create_of_remembers β c inMemory' alike (later.remembers c fit remembers) fit now' d₂

end

/-! ## Primitives -/

theorem cacheable_scan : Cacheable Scan.primitive Scan.Fits where
  name _ _ := rfl
  formatVersion _ _ := rfl
  device _ := rfl
  space alike := congrArg₂ Scan.candidates alike.device alike.canonical
  nonempty := Scan.isEmpty_candidates
  fits_of_build := Scan.fits_of_build
  fits_of_alike alike fits := alike.device ▸ Scan.fits_of_canonical_eq alike.canonical fits
  exists_build accepts valid fits d := Scan.exists_build_of_fits accepts valid fits d
  launchFree := Scan.launchFree_build

theorem cacheable_reduce : Cacheable Reduce.primitive Reduce.Fits where
  name _ _ := rfl
  formatVersion _ _ := rfl
  device _ := rfl
  space alike := congrArg₂ Reduce.candidates alike.device alike.canonical
  nonempty := Reduce.isEmpty_candidates
  fits_of_build := Reduce.fits_of_build
  fits_of_alike alike fits := alike.device ▸ Reduce.fits_of_canonical_eq alike.canonical fits
  exists_build accepts valid fits d := Reduce.exists_build_of_fits accepts valid fits d
  launchFree := Reduce.launchFree_build

theorem cacheable_radixsort : Cacheable Radixsort.primitive Radixsort.Fits where
  name _ _ := rfl
  formatVersion _ _ := rfl
  device _ := rfl
  space alike := congrArg₂ Radixsort.candidates alike.device alike.canonical
  nonempty := Radixsort.isEmpty_candidates
  fits_of_build := Radixsort.fits_of_build
  fits_of_alike alike fits := alike.device ▸ fits
  exists_build accepts _ fits d := Radixsort.exists_build_of_fits accepts fits d
  launchFree := Radixsort.launchFree_build

/-- **Cached parameters stay.** Once a problem of a scan, a reduction or a radix sort has an
algorithm with stored parameters, these are reused for all problems that are tuned alike, whatever
else is constructed in between. -/
theorem staysCached_primitives : StaysCached Scan.primitive ∧ StaysCached Reduce.primitive ∧
    StaysCached Radixsort.primitive :=
  ⟨staysCached cacheable_scan, staysCached cacheable_reduce, staysCached cacheable_radixsort⟩

/-! ## An example on a host -/

/-- The construction of a reduction on a host with a graphics device. -/
def reduceOnHost (policy : TunePolicy) (now : UInt64) (problem : ReduceProblem) :
    Action (Host × Recorder) (Algorithm ReduceProblem ReducePlan Unit) :=
  create (Reduce.primitive (.ofProperties Backend.gpuProperties))
    (Host.tuner Host.memoryStorage policy) now problem

/-- Whether there is an algorithm, without a failure to store its parameters. -/
def isStored : Except (Failure Error) (Algorithm Q L β) → Bool
  | .ok (.ready a) => a.persistError.isNone
  | _ => false

/-- A reduction of unsigned integers is tuned on an empty host. Then one of signed integers reuses
its parameters, with tuning disabled. -/
theorem staysCached_host :
    ∃ (a a' : ReadyAlgorithm ReduceProblem ReducePlan Unit) (h : Host) (d d' : Recorder),
      exec (reduceOnHost .standard 0 ⟨⟨.uint, 1, by decide⟩⟩) (Host.empty, Recorder.start) =
        (.ok (.ready a), h, d) ∧
      exec (reduceOnHost { TunePolicy.standard with enabled := false } 1
        ⟨⟨.int, 1, by decide⟩⟩) (h, d) = (.ok (.ready a'), h, d') ∧
      Reuses a.parameters ⟨⟨.int, 1, by decide⟩⟩ a' d d' := by
  have stored : isStored (exec (reduceOnHost .standard 0 ⟨⟨.uint, 1, by decide⟩⟩)
      (Host.empty, Recorder.start)).1 = true := by decide +kernel
  have alike : Alike Reduce.primitive (.ofProperties Backend.gpuProperties)
      ⟨⟨.uint, 1, by decide⟩⟩ (.ofProperties Backend.gpuProperties) ⟨⟨.int, 1, by decide⟩⟩ :=
    ⟨rfl, rfl, rfl, fun _ _ => rfl⟩
  rcases run : exec (reduceOnHost .standard 0 ⟨⟨.uint, 1, by decide⟩⟩)
    (Host.empty, Recorder.start) with ⟨e | a | _, h, d⟩ <;> rw [run] at stored
  · cases stored
  · obtain ⟨a', d', run', reuses⟩ := staysCached_primitives.2.1 _ _ _ 1 _ _ _ _ _ _ _ _ _ d a
      (Host.inMemory_tuner .standard) rfl run (Option.isNone_iff_eq_none.1 stored) .refl
      (Host.inMemory_tuner { TunePolicy.standard with enabled := false }) alike
    exact ⟨a, a', h, d, d', rfl, run', reuses⟩
  · cases stored

end Algorithm

end KernelTuning
