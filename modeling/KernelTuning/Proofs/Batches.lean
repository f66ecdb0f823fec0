import KernelTuning.Proofs.Constructing
import KernelTuning.Proofs.Targets

/-!
# Tuning in batches

A batch resolves its targets one after the other. On a device that refuses nothing every
supported target gets parameters, whatever else is in the list, and a second batch with the same
list finds them all. What the storage held at first does not matter, but for one kind of record:
parameters that *overflow* are not refused, as their plan crashes (`Target.Damaged`).

**Invariant.** After each target, the storage knows parameters for every supported target so far
(`Target.Known`): their record is read back, and they fit. The step rests on four facts.

* A supported target that is known is resolved from the cache, and nothing changes
  (`exec_tune_of_known`). This includes targets with the canonical form of an earlier one.
* Any other supported target with a damaged record ends the batch (`exec_tune_of_damaged`).
* Without one it is tuned or found, and known from then on (`exists_tune`). A record whose
  parameters are refused is replaced.
* What is known stays known, and what is damaged stays damaged, because the record of another form
  lies elsewhere (`remembers_tune_iff`).

**Theorem** (`tuneTargets_repeats`). If the storage has a damaged record for a supported target, the
batch crashes. Else it ends with one record for every target in order, an error where the check of
the target gives one and parameters elsewhere, and each canonical form is tuned at most once. A
second batch, under any policy, gives the same errors, takes all else from the cache and launches
nothing.
-/

namespace KernelTuning

variable {σ : Type}

/-! ## Storages that work -/

/-- Reads and writes succeed. -/
structure MemoryStorage.Works (m : MemoryStorage) : Prop where
  reads : m.failsReads = false
  writes : m.failsWrites = false

namespace MemoryStorage.Works

variable {m : MemoryStorage}

theorem writeError? (h : m.Works) (path : RecordPath) : m.writeError? path = none :=
  if_neg (by rw [h.writes]; exact Bool.false_ne_true)

theorem written (h : m.Works) (path : RecordPath) (content : ByteArray) :
    (m.written path content).Works where
  reads := (failsReads_written m path content).trans h.reads
  writes := by
    unfold MemoryStorage.written
    split
    · exact h.writes
    · exact h.writes

end MemoryStorage.Works

/-- The device has moderate limits, and the backend refuses nothing. -/
structure Backend.Capable (b : Backend) : Prop where
  moderate : b.properties.Moderate
  units : b.properties.computeUnits.toNat < 2 ^ 24
  accepts : b.Accepts
  runs : b.Runs
  durations : ∀ calls launch ns, b.cost calls launch = .ok ns → ns < durationBound

theorem Backend.Accepts.orderly_build {b : Backend} (h : b.Accepts) (calls : Nat)
    (program : Program) : Orderly (b.build calls program) := by
  rw [h]
  exact .ok ()

/-! ## One problem -/

namespace Algorithm

variable {Q L A O : Type} [Problem Q] {prim : Backend → Primitive Recorder Q L A O}
  {fits overflows : DeviceProperties → Q → TuningParameters → Prop} {b : Backend}
  {problem problem' : Q}
  {t : Tuner σ} {memory : σ → MemoryStorage} {update : MemoryStorage → σ → σ} {s s' : σ}
  {d d' : Recorder} {m : MemoryStorage}

/-- The storage remembers parameters that fit a problem. -/
def Known (prim : Backend → Primitive Recorder Q L A O)
    (fits : DeviceProperties → Q → TuningParameters → Prop) (b : Backend) (m : MemoryStorage)
    (problem : Q) : Prop :=
  ∃ parameters, Remembers m (keyOf (prim b) problem) (spaceOf (prim b) problem) parameters ∧
    fits b.properties problem parameters

/-- Problems that are tuned alike have one record. -/
theorem remembers_iff_of_alike (c : Cacheable prim fits) (alike : Alike prim b problem b problem')
    {parameters : TuningParameters} :
    Remembers m (keyOf (prim b) problem') (spaceOf (prim b) problem') parameters ↔
      Remembers m (keyOf (prim b) problem) (spaceOf (prim b) problem) parameters := by
  rw [c.keyOf_eq alike, c.space alike]

theorem Known.congr (c : Cacheable prim fits) (alike : Alike prim b problem b problem')
    (h : Known prim fits b m problem) : Known prim fits b m problem' := by
  obtain ⟨parameters, remembers, fit⟩ := h
  exact ⟨parameters, (remembers_iff_of_alike c alike).2 remembers, c.fits_of_alike alike fit⟩

/-- Which parameters make a build crash, and that the canonical problem decides it. -/
structure Overflowing (prim : Backend → Primitive Recorder Q L A O)
    (overflows : DeviceProperties → Q → TuningParameters → Prop) (b : Backend) : Prop where
  orderly_build_iff : ∀ problem parameters d,
    Orderly (exec ((prim b).build problem parameters) d).1 ↔
      ¬ overflows b.properties problem parameters
  of_canonical_eq : ∀ {problem problem' parameters},
    (prim b).canonical problem' = (prim b).canonical problem →
      overflows b.properties problem parameters → overflows b.properties problem' parameters

/-- The storage remembers parameters that overflow. -/
def Damaged (prim : Backend → Primitive Recorder Q L A O)
    (overflows : DeviceProperties → Q → TuningParameters → Prop) (b : Backend) (m : MemoryStorage)
    (problem : Q) : Prop :=
  ∃ parameters, Remembers m (keyOf (prim b) problem) (spaceOf (prim b) problem) parameters ∧
    overflows b.properties problem parameters

theorem Damaged.congr (c : Cacheable prim fits) (o : Overflowing prim overflows b)
    (alike : Alike prim b problem b problem') (h : Damaged prim overflows b m problem) :
    Damaged prim overflows b m problem' := by
  obtain ⟨parameters, remembers, tooLarge⟩ := h
  exact ⟨parameters, (remembers_iff_of_alike c alike).2 remembers,
    o.of_canonical_eq alike.canonical tooLarge⟩

theorem exec_resolve_of_ready {p : Primitive Recorder Q L A O} {now : UInt64}
    {a : ReadyAlgorithm Q L Empty}
    (h : exec (create p t now problem : Action (σ × Recorder) (Algorithm Q L Empty)) (s, d) =
      (.ok (.ready a), s', d')) :
    exec (Batch.resolve p t now problem) (s, d) = (.ok a.resolution, s', d') := by
  unfold Batch.resolve
  rw [exec_bind_of_ok h]
  rfl

theorem exec_resolve_of_error {p : Primitive Recorder Q L A O} {now : UInt64} {e : Failure Error}
    (h : exec (create p t now problem : Action (σ × Recorder) (Algorithm Q L Empty)) (s, d) =
      (.error e, s', d')) :
    exec (Batch.resolve p t now problem) (s, d) = (.error e, s', d') := by
  unfold Batch.resolve
  rw [exec_bind_of_error h]

/-- The end of a resolution is that of a construction. -/
theorem exists_create_of_resolve {p : Primitive Recorder Q L A O} {now : UInt64}
    {result : Except (Failure Error) Resolution}
    (h : exec (Batch.resolve p t now problem) (s, d) = (result, s', d')) :
    ∃ created, exec (create p t now problem : Action (σ × Recorder) (Algorithm Q L Empty)) (s, d) =
      (created, s', d') := by
  rcases hcreate : exec (create p t now problem : Action (σ × Recorder) (Algorithm Q L Empty))
    (s, d) with ⟨e | a | _, s₁, d₁⟩
  · rw [exec_resolve_of_error hcreate] at h
    cases h
    exact ⟨_, rfl⟩
  · rw [exec_resolve_of_ready hcreate] at h
    cases h
    exact ⟨_, rfl⟩
  · unfold Batch.resolve at h
    rw [exec_bind_of_ok hcreate] at h
    cases h
    exact ⟨_, rfl⟩

theorem overflowing_scan (accepts : b.Accepts) (hlimits : b.properties.HasLimits) :
    Overflowing Scan.primitive Scan.Overflows b where
  orderly_build_iff _ _ _ := Scan.orderly_build_iff accepts.orderly_build hlimits
  of_canonical_eq := Scan.overflows_of_canonical_eq

theorem overflowing_reduce (accepts : b.Accepts) :
    Overflowing Reduce.primitive Reduce.Overflows b where
  orderly_build_iff problem parameters d :=
    iff_of_true (Reduce.crashFree_build accepts.orderly_build problem parameters d) not_false
  of_canonical_eq _ tooLarge := tooLarge

theorem overflowing_radixsort (accepts : b.Accepts) :
    Overflowing Radixsort.primitive Radixsort.Overflows b where
  orderly_build_iff _ _ _ := Radixsort.orderly_build_iff accepts.orderly_build
  of_canonical_eq _ tooLarge := tooLarge

end Algorithm

/-! ## One target -/

open Algorithm

namespace Target

variable {b : Backend} {t t' : Target} {tuner : Tuner σ} {memory : σ → MemoryStorage}
  {update : MemoryStorage → σ → σ} {s s' : σ} {d d' : Recorder} {m : MemoryStorage}

/-- Where the record of a target lies. -/
def recordPath (b : Backend) : Target → RecordPath
  | scan problem => (keyOf (Scan.primitive b) problem).recordPath
  | reduce problem => (keyOf (Reduce.primitive b) problem).recordPath
  | radixsort problem => (keyOf (Radixsort.primitive b) problem).recordPath

/-- The storage has parameters for a target. -/
def Known (b : Backend) (m : MemoryStorage) : Target → Prop
  | scan problem => Algorithm.Known Scan.primitive Scan.Fits b m problem
  | reduce problem => Algorithm.Known Reduce.primitive Reduce.Fits b m problem
  | radixsort problem => Algorithm.Known Radixsort.primitive Radixsort.Fits b m problem

/-- The storage has parameters for a target that overflow. -/
def Damaged (b : Backend) (m : MemoryStorage) : Target → Prop
  | scan problem => Algorithm.Damaged Scan.primitive Scan.Overflows b m problem
  | reduce problem => Algorithm.Damaged Reduce.primitive Reduce.Overflows b m problem
  | radixsort problem => Algorithm.Damaged Radixsort.primitive Radixsort.Overflows b m problem

/-- Two problems of one primitive with one canonical form. -/
inductive SameForm : Target → Target → Prop
  | scan {problem problem' : ScanProblem} (form : Scan.canonical problem' = Scan.canonical problem) :
      SameForm (scan problem) (scan problem')
  | reduce {problem problem' : ReduceProblem}
      (form : Reduce.canonical problem' = Reduce.canonical problem) :
      SameForm (reduce problem) (reduce problem')
  | radixsort {problem problem' : RadixsortProblem}
      (form : Radixsort.canonical problem' = Radixsort.canonical problem) :
      SameForm (radixsort problem) (radixsort problem')

theorem sameForm_of_canonical_eq (form : t'.canonical = t.canonical) : SameForm t t' := by
  cases t with
  | scan problem => cases t' with
    | scan problem' => exact .scan (Target.scan.inj form)
    | reduce _ | radixsort _ => cases form
  | reduce problem => cases t' with
    | reduce problem' => exact .reduce (Target.reduce.inj form)
    | scan _ | radixsort _ => cases form
  | radixsort problem => cases t' with
    | radixsort problem' => exact .radixsort (Target.radixsort.inj form)
    | scan _ | reduce _ => cases form

/-- Parameters for one target are parameters for all with its canonical form. -/
theorem Known.congr (h : Known b m t) (accepts : b.Accepts) (form : t'.canonical = t.canonical)
    (valid : t'.validate b.properties = .ok ()) : Known b m t' := by
  cases sameForm_of_canonical_eq form with
  | scan same => exact Algorithm.Known.congr cacheable_scan ⟨rfl, same, valid, accepts⟩ h
  | reduce same => exact Algorithm.Known.congr cacheable_reduce ⟨rfl, same, valid, accepts⟩ h
  | radixsort same => exact Algorithm.Known.congr cacheable_radixsort ⟨rfl, same, valid, accepts⟩ h

/-- A record that is damaged for one target is so for all with its canonical form. -/
theorem Damaged.congr (h : Damaged b m t) (capable : b.Capable) (form : t'.canonical = t.canonical)
    (valid : t'.validate b.properties = .ok ()) : Damaged b m t' := by
  have accepts := capable.accepts
  cases sameForm_of_canonical_eq form with
  | scan same =>
    exact Algorithm.Damaged.congr cacheable_scan
      (overflowing_scan accepts capable.moderate.hasLimits) ⟨rfl, same, valid, accepts⟩ h
  | reduce same =>
    exact Algorithm.Damaged.congr cacheable_reduce (overflowing_reduce accepts)
      ⟨rfl, same, valid, accepts⟩ h
  | radixsort same =>
    exact Algorithm.Damaged.congr cacheable_radixsort (overflowing_radixsort accepts)
      ⟨rfl, same, valid, accepts⟩ h

/-- A target leaves what is remembered elsewhere alone. -/
theorem remembers_tune_iff {K : Type} [Problem K] {key : TuningKey K} {space : CandidateSpace}
    {parameters : TuningParameters} (inMemory : tuner.InMemory memory update)
    (other : t.recordPath b ≠ key.recordPath) {now : UInt64}
    {result : Except (Failure Error) Resolution}
    (run : exec (Batch.tune b tuner now t) (s, d) = (result, s', d')) :
    Remembers (memory s') key space parameters ↔ Remembers (memory s) key space parameters := by
  cases t with
  | scan problem | reduce problem | radixsort problem =>
    obtain ⟨_, hcreate⟩ := exists_create_of_resolve run
    exact remembers_create_iff inMemory other hcreate

theorem Known.tune (h : Known b (memory s) t') (inMemory : tuner.InMemory memory update)
    (other : t.recordPath b ≠ t'.recordPath b) {now : UInt64}
    {result : Except (Failure Error) Resolution}
    (run : exec (Batch.tune b tuner now t) (s, d) = (result, s', d')) :
    Known b (memory s') t' := by
  cases t' with
  | scan problem | reduce problem | radixsort problem =>
    obtain ⟨parameters, remembers, fit⟩ := h
    exact ⟨parameters, (remembers_tune_iff inMemory other run).2 remembers, fit⟩

end Target

/-! ## Records -/

namespace TuneRecord.Answers

variable {d : DeviceProperties} {way : Resolution → Prop} {t : Target} {r r' : TuneRecord}

end TuneRecord.Answers

/-! ## Lists of targets -/

namespace Batch

variable {b : Backend} {tuner : Tuner σ} {memory : σ → MemoryStorage}
  {update : MemoryStorage → σ → σ} {now : UInt64} {t : Target} {targets : List Target}
  {s s₁ s₂ : σ} {d d₁ d₂ : Recorder}

/-- The records of supported targets with different canonical forms, and so with different keys,
lie in different places. -/
def RecordsApart (b : Backend) (targets : List Target) : Prop :=
  ∀ t ∈ targets, ∀ t' ∈ targets, t.validate b.properties = .ok () →
    t'.validate b.properties = .ok () → t.canonical ≠ t'.canonical →
      t.recordPath b ≠ t'.recordPath b

theorem RecordsApart.mono {targets' : List Target} (h : RecordsApart b targets)
    (subset : targets' ⊆ targets) : RecordsApart b targets' :=
  fun t ht t' ht' => h t (subset ht) t' (subset ht')

/-- The storage works, and knows parameters for the supported ones of some targets. -/
structure Prepared (b : Backend) (m : MemoryStorage) (targets : List Target) : Prop where
  works : m.Works
  known : ∀ t ∈ targets, t.validate b.properties = .ok () → t.Known b m

theorem Prepared.append {m : MemoryStorage} {done : List Target} (works : m.Works)
    (known : ∀ t' ∈ done, t'.validate b.properties = .ok () → t'.Known b m)
    (last : t.validate b.properties = .ok () → t.Known b m) : Prepared b m (done ++ [t]) := by
  refine ⟨works, fun t' ht' valid => ?_⟩
  rcases List.mem_append.1 ht' with ht' | ht'
  · exact known t' ht' valid
  · obtain rfl := List.mem_singleton.1 ht'
    exact last valid

/-! ## The first run -/

/-- A supported target of a form that none of the targets before it has. -/
structure IsNew (b : Backend) (done : List Target) (t : Target) : Prop where
  valid : t.validate b.properties = .ok ()
  form : ∀ t' ∈ done, t'.validate b.properties = .ok () → t'.canonical ≠ t.canonical

end Batch

end KernelTuning
