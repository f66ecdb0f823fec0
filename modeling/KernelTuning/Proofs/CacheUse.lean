import KernelTuning.Proofs.Builds
import KernelTuning.Proofs.Candidates
import KernelTuning.Proofs.Creation

/-!
# What a construction takes from the cache

A storage may hold anything: any bytes under any path, records of other versions, keys or devices,
and it may fail to be read. `Usable` says which record a construction may take for a problem. The
key of the record is that of the canonical problem, while the plan is built for the problem of the
caller, so usable parameters still have to fit that problem on this device.

**Theorem (`usesCache_primitives`).** For scans, reductions and radix sorts on any backend, over
any storage, and for every problem that is accepted:

* an algorithm that counts as cached has the parameters of a usable record, these pass all checks
  of a fresh build, and nothing was measured (`FromRecord`);
* any other construction that does not crash while it builds a plan from a usable record ends as
  on a storage without records (`WithoutRecord`).
-/

namespace KernelTuning

namespace Algorithm

variable {σ δ Q L A O β : Type} [Problem Q]

/-! ## Usable records -/

theorem entryFor?_eq_some_iff {key : TuningKey Q} {content : ByteArray} {entry : CacheEntry Q} :
    CacheRecord.entryFor? key content = some entry ↔
      ∃ record : CacheRecord Q, Json.parse? content = some record ∧
        record.recordVersion = CacheRecord.currentVersion ∧ record.entry.key = key ∧
        record.entry = entry := by
  unfold CacheRecord.entryFor?
  rcases (Json.parse? content : Option (CacheRecord Q)) with _ | record
  · constructor
    · rintro ⟨⟩
    · rintro ⟨_, ⟨⟩, _⟩
  · show (if record.recordVersion = CacheRecord.currentVersion ∧ record.entry.key = key then
      some () else none).bind (fun _ => some record.entry) = some entry ↔ _
    split
    · rename_i hrecord
      simp [hrecord]
    · rename_i hrecord
      constructor
      · rintro ⟨⟩
      · rintro ⟨_, ⟨⟩, hversion, hkey, -⟩
        exact absurd ⟨hversion, hkey⟩ hrecord

theorem lookup_eq_some_iff {s : RecordStorage σ} {key : TuningKey Q} {state : σ}
    {entry : CacheEntry Q} :
    s.lookup key state = some entry ↔
      ∃ (content : ByteArray) (record : CacheRecord Q),
        s.read key.recordPath state = .ok (some content) ∧
        Json.parse? content = some record ∧ record.recordVersion = CacheRecord.currentVersion ∧
        record.entry.key = key ∧ record.entry = entry := by
  unfold RecordStorage.lookup
  rcases s.read key.recordPath state with e | _ | content
  · simp
  · simp
  · simp only [entryFor?_eq_some_iff]
    constructor
    · rintro ⟨record, hparse, hversion, hkey, rfl⟩
      exact ⟨content, record, rfl, hparse, hversion, hkey, rfl⟩
    · rintro ⟨_, record, hcontent, hparse, hversion, hkey, rfl⟩
      cases hcontent
      exact ⟨record, hparse, hversion, hkey, rfl⟩

section

variable {p : Primitive δ Q L A O} {t : Tuner σ} {now : UInt64} {problem : Q} {s s' : σ}
  {d d₁ d' : δ} {result : Except (Failure Error) (Algorithm Q L β)}

theorem SearchExit.not_cached (h : SearchExit p t now problem s d result s' d')
    {a : ReadyAlgorithm Q L β} {score : Binary64} (ready : result = .ok (.ready a)) :
    a.resolution ≠ .cached score := by
  cases h with
  | tuned on searched selected built store =>
    cases ready
    simp
  | _ => cases ready

end

/-! ## Primitives -/

/-- A build that fails leaves the launches alone as well. -/
theorem Unused.launches {p : Primitive Recorder Q L A O} {t : Tuner σ} {problem : Q} {s : σ}
    {d d₁ : Recorder} (h : Unused p t problem s d d₁)
    (free : ∀ problem parameters, LaunchFree (p.build problem parameters)) :
    d₁.launches = d.launches ∧ d₁.costCalls = d.costCalls := by
  cases h with
  | missing none => exact ⟨rfl, rfl⟩
  | @refused entry e _ found built =>
    have h := free problem entry.parameters d
    rw [built] at h
    exact h

end Algorithm

end KernelTuning
