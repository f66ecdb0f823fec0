import KernelTuning.Proofs.CacheStability

/-!
# The cache as a map

A cache on a storage in memory is used in any order: entries are stored, removed and looked up
under keys of all kinds of problems, and reads and writes fail and work again at any time. All
that it answers can be told from the history of these operations (`CacheEvent`), without a look
at bytes or digests.

**Records.** A path holds the entry that was stored there last, unless it was removed since
(`LastStored`). Different keys may have one path, so an entry is found by its own key only
(`AnyEntry.HasKey`), and it hides the entries that were stored at its path before.

**Invariant.** The record at a path is that of the entry last stored there, and reads work as they
were last switched (`Agrees`). One operation keeps this (`agrees_step`), because a record only
changes where the event of the operation stores or removes one (`get?_step_of_keeps`).

**Theorem (`refinesMap_run`).** After every run, the cache answers as the map from paths to
entries last stored (`RefinesMap`), and an operation that fails makes no difference to whatever
follows.
-/

namespace KernelTuning

open MemoryStorage (storage)

/-! ## Operations -/

/-- An entry of some kind of problem, with a finite score. -/
structure AnyEntry where
  {Q : Type}
  [problem : Problem Q]
  [lawful : Json.LawfulCodec Q]
  entry : CacheEntry Q
  finite : entry.score.isFinite = true

attribute [instance] AnyEntry.problem AnyEntry.lawful

/-- An operation on the cache, or a switch of the storage below. -/
inductive CacheOp where
  | store (e : AnyEntry)
  | clear {P : Type} [Problem P] (key : TuningKey P)
  | clearAll
  | lookup {P : Type} [Problem P] (key : TuningKey P)
  | failReads (fail : Bool)
  | failWrites (fail : Bool)

/-- What an operation answers. -/
inductive CacheReply where
  | done
  | removed (existed : Bool)
  | found {P : Type} (result : Option (CacheEntry P))

/-- An operation with its result. -/
structure CacheEvent where
  op : CacheOp
  result : Except CacheError CacheReply

namespace AnyEntry

variable {P : Type} [Problem P]

def recordPath (e : AnyEntry) : RecordPath := e.entry.key.recordPath

/-- The entry was stored for the key: this is what the record says when it is read. Keys of
different kinds of problems may be written alike; those of one kind are then equal
(`hasKey_iff`). -/
def HasKey (e : AnyEntry) (key : TuningKey P) : Prop :=
  Json.decode? (Json.node (Json.encode e.entry.key)) = some key

theorem hasKey_iff [Json.LawfulCodec P] {entry : CacheEntry P} {finite} {key : TuningKey P} :
    HasKey ⟨entry, finite⟩ key ↔ entry.key = key := by
  unfold HasKey
  rw [Json.LawfulCodec.decode?_encode, Option.some_inj]

/-- What a record says of its entry, read for a key. -/
theorem entryFor?_bytes (e : AnyEntry) :
    ∃ score, ∀ {P : Type} [Problem P] (key : TuningKey P) (found : CacheEntry P),
      CacheRecord.entryFor? key (CacheRecord.bytes e.entry) = some found ↔
        e.HasKey key ∧
          found = ⟨key, e.entry.parameters, score, e.entry.timestamp, e.entry.checksum⟩ := by
  obtain ⟨score, hentry⟩ := Json.decode?_entry_eq_map e.finite
  refine ⟨score, fun {P} _ key found => ?_⟩
  rw [Algorithm.entryFor?_eq_some_iff]
  simp only [Json.parse?_bytes_eq_map, hentry, Option.map_map, Option.map_eq_some_iff, HasKey]
  constructor
  · rintro ⟨_, ⟨key', hkey, rfl⟩, -, rfl, rfl⟩
    exact ⟨hkey, rfl⟩
  · rintro ⟨hkey, rfl⟩
    exact ⟨_, ⟨key, hkey, rfl⟩, rfl, rfl, rfl⟩

end AnyEntry

namespace CacheOp

/-- The result of an operation on a storage, and the storage afterwards. -/
def step : CacheOp → MemoryStorage → Except CacheError CacheReply × MemoryStorage
  | store e, s => (exec (storage.store e.entry) s).map (·.map fun _ => .done) id
  | clear key, s => (exec (storage.clearKey key) s).map (·.map .removed) id
  | clearAll, s => (exec storage.clearAll s).map (·.map fun _ => .done) id
  | lookup key, s => (.ok (.found (storage.lookup key s)), s)
  | failReads fail, s => (.ok .done, { s with failsReads := fail })
  | failWrites fail, s => (.ok .done, { s with failsWrites := fail })

/-- The event of an operation on a storage. -/
def event (op : CacheOp) (s : MemoryStorage) : CacheEvent := ⟨op, (op.step s).1⟩

/-- The storage after operations. -/
def after (ops : List CacheOp) (s : MemoryStorage) : MemoryStorage :=
  ops.foldl (fun s op => (op.step s).2) s

/-- The history of operations, in their order. -/
def history : List CacheOp → MemoryStorage → List CacheEvent
  | [], _ => []
  | op :: ops, s => op.event s :: history ops (op.step s).2

end CacheOp

/-! ## What a history tells -/

/-- The operation is to remove what is stored at a path. -/
def CacheOp.IsRemoval : CacheOp → RecordPath → Prop
  | clear key, path => key.recordPath = path
  | clearAll, _ => True
  | _, _ => False

namespace CacheEvent

/-- The event has stored an entry. -/
def Stores (event : CacheEvent) (e : AnyEntry) : Prop :=
  event.op = .store e ∧ event.result.isOk

/-- The event has removed what was stored at a path. -/
def Removes (event : CacheEvent) (path : RecordPath) : Prop :=
  event.op.IsRemoval path ∧ event.result.isOk

/-- The event leaves what was stored at a path alone. -/
def Keeps (event : CacheEvent) (path : RecordPath) : Prop :=
  ¬ event.Removes path ∧ ∀ e, event.Stores e → e.recordPath ≠ path

end CacheEvent

/-- The entry was stored at the path, and nothing was stored or removed there since. -/
def LastStored (history : List CacheEvent) (path : RecordPath) (e : AnyEntry) : Prop :=
  ∃ before event after, history = before ++ event :: after ∧ event.Stores e ∧
    e.recordPath = path ∧ ∀ later ∈ after, later.Keeps path

/-- Reads have not been made to fail, or they work again. -/
def ReadsWork (history : List CacheEvent) : Prop :=
  ∀ before event after, history = before ++ event :: after → event.op = .failReads true →
    ∃ later ∈ after, later.op = .failReads false

section

variable {history : List CacheEvent} {event : CacheEvent}

/-- An event of a longer history is the new one, or it lies before the new one. -/
theorem concat_eq_append_cons {before after : List CacheEvent} {old : CacheEvent} :
    history ++ [event] = before ++ old :: after ↔
      history = before ∧ event = old ∧ after = [] ∨
      ∃ after', after = after' ++ [event] ∧ history = before ++ old :: after' := by
  constructor
  · intro h
    rcases List.eq_nil_or_concat after with rfl | ⟨after', last, rfl⟩
    · obtain ⟨hbefore, hevent⟩ := List.append_inj' h rfl
      exact .inl ⟨hbefore, List.singleton_inj.1 hevent, rfl⟩
    · rw [List.concat_eq_append, ← List.cons_append, ← List.append_assoc] at h
      obtain ⟨hhistory, hevent⟩ := List.append_inj' h rfl
      obtain rfl := List.singleton_inj.1 hevent
      exact .inr ⟨after', List.concat_eq_append, hhistory⟩
  · rintro (⟨rfl, rfl, rfl⟩ | ⟨after', rfl, rfl⟩)
    · rfl
    · simp

theorem lastStored_concat {path : RecordPath} {e : AnyEntry} :
    LastStored (history ++ [event]) path e ↔
      event.Stores e ∧ e.recordPath = path ∨ event.Keeps path ∧ LastStored history path e := by
  constructor
  · rintro ⟨before, old, after, hsplit, hstores, hpath, hafter⟩
    rcases concat_eq_append_cons.1 hsplit with ⟨-, rfl, -⟩ | ⟨after', rfl, rfl⟩
    · exact .inl ⟨hstores, hpath⟩
    · exact .inr ⟨hafter event (by simp), before, old, after', rfl, hstores, hpath,
        fun later hlater => hafter later (by simp [hlater])⟩
  · rintro (⟨hstores, hpath⟩ | ⟨hkeeps, before, old, after, rfl, hstores, hpath, hafter⟩)
    · exact ⟨history, event, [], rfl, hstores, hpath, by simp⟩
    · refine ⟨before, old, after ++ [event], by simp, hstores, hpath, fun later hlater => ?_⟩
      rcases List.mem_append.1 hlater with hlater | hlater
      · exact hafter later hlater
      · exact List.mem_singleton.1 hlater ▸ hkeeps

theorem lastStored_concat_of_stores {e₀ e : AnyEntry} (h : event.Stores e₀) :
    LastStored (history ++ [event]) e₀.recordPath e ↔ e = e₀ := by
  rw [lastStored_concat]
  constructor
  · rintro (⟨he, -⟩ | ⟨hkeeps, -⟩)
    · exact CacheOp.store.inj (he.1.symm.trans h.1)
    · exact absurd rfl (hkeeps.2 e₀ h)
  · rintro rfl
    exact .inl ⟨h, rfl⟩

theorem not_lastStored_concat_of_removes {path : RecordPath} {e : AnyEntry}
    (h : event.Removes path) : ¬ LastStored (history ++ [event]) path e := by
  rw [lastStored_concat]
  rintro (⟨he, -⟩ | ⟨hkeeps, -⟩)
  · have hremoval := h.1
    rw [he.1] at hremoval
    cases hremoval
  · exact hkeeps.1 h

theorem lastStored_concat_of_keeps {path : RecordPath} {e : AnyEntry} (h : event.Keeps path) :
    LastStored (history ++ [event]) path e ↔ LastStored history path e := by
  rw [lastStored_concat]
  constructor
  · rintro (⟨he, hpath⟩ | ⟨-, hlast⟩)
    · exact absurd hpath (h.2 e he)
    · exact hlast
  · intro hlast
    exact .inr ⟨h, hlast⟩

theorem readsWork_concat :
    ReadsWork (history ++ [event]) ↔
      event.op = .failReads false ∨ event.op ≠ .failReads true ∧ ReadsWork history := by
  constructor
  · intro h
    by_cases hon : event.op = .failReads false
    · exact .inl hon
    · refine .inr ⟨fun hoff => ?_, fun before off after hsplit hoff => ?_⟩
      · obtain ⟨later, hlater, -⟩ := h history event [] rfl hoff
        cases hlater
      · obtain ⟨later, hlater, hop⟩ := h before off (after ++ [event]) (by simp [hsplit]) hoff
        rcases List.mem_append.1 hlater with hlater | hlater
        · exact ⟨later, hlater, hop⟩
        · exact absurd (List.mem_singleton.1 hlater ▸ hop) hon
  · rintro h before off after hsplit hoff
    rcases concat_eq_append_cons.1 hsplit with ⟨-, rfl, -⟩ | ⟨after', rfl, rfl⟩
    · rcases h with hon | ⟨hne, -⟩
      · cases hoff.symm.trans hon
      · exact absurd hoff hne
    · rcases h with hon | ⟨-, hworks⟩
      · exact ⟨event, by simp, hon⟩
      · obtain ⟨later, hlater, hop⟩ := hworks before off after' rfl hoff
        exact ⟨later, by simp [hlater], hop⟩

end

/-! ## One operation -/

namespace MemoryStorage

theorem lookup_of_reads {P : Type} [Problem P] {key : TuningKey P} {s : MemoryStorage}
    (h : s.failsReads = false) :
    storage.lookup key s =
      (s.records.get? key.recordPath).bind (CacheRecord.entryFor? key) := by
  have hread : storage.read key.recordPath s = .ok (s.records.get? key.recordPath) :=
    if_neg (Bool.eq_false_iff.1 h)
  unfold RecordStorage.lookup
  rw [hread]
  rcases s.records.get? key.recordPath with _ | content <;> rfl

theorem lookup_of_failsReads {P : Type} [Problem P] {key : TuningKey P} {s : MemoryStorage}
    (h : s.failsReads = true) : storage.lookup key s = none := by
  have hread : storage.read key.recordPath s = .error unreadable := if_pos h
  unfold RecordStorage.lookup
  rw [hread]

/-- An operation of the cache that changes the records, unless writes fail. -/
theorem exec_reporting_change {α : Type}
    (f : SortedMap RecordPath ByteArray → α × SortedMap RecordPath ByteArray)
    (cause : String → CacheError) (s : MemoryStorage) :
    exec (RecordStorage.reporting (change f) cause) s =
      if s.failsWrites then (.error (cause readOnly.message), s)
      else (.ok (f s.records).1, { s with records := (f s.records).2 }) := by
  unfold RecordStorage.reporting
  rw [exec_mapError]
  unfold change
  rw [exec_mk]
  split <;> rfl

theorem exec_clearKey {P : Type} [Problem P] (key : TuningKey P) (s : MemoryStorage) :
    exec (storage.clearKey key) s =
      if s.failsWrites then (.error (.remove key.recordPath.toText readOnly.message), s)
      else (.ok (s.records.get? key.recordPath).isSome,
        { s with records := s.records.erase key.recordPath }) :=
  exec_reporting_change (fun records => ((records.get? _).isSome, records.erase _)) _ s

end MemoryStorage

namespace CacheOp

variable {op : CacheOp} {s : MemoryStorage} {path : RecordPath}

/-- The storage after an operation that succeeds. -/
def applied : CacheOp → MemoryStorage → MemoryStorage
  | store e, s => { s with records := s.records.insert e.recordPath (CacheRecord.bytes e.entry) }
  | clear key, s => { s with records := s.records.erase key.recordPath }
  | clearAll, s => { s with records := ∅ }
  | lookup _, s => s
  | failReads fail, s => { s with failsReads := fail }
  | failWrites fail, s => { s with failsWrites := fail }

/-- An operation that fails changes nothing. -/
theorem step_cases (op : CacheOp) (s : MemoryStorage) :
    (∃ error, op.step s = (.error error, s)) ∨ ∃ reply, op.step s = (.ok reply, op.applied s) := by
  have changes {α : Type} (f : SortedMap RecordPath ByteArray → α × SortedMap RecordPath ByteArray)
      (cause : String → CacheError) (reply : α → CacheReply) :
      (∃ error, (exec (RecordStorage.reporting (MemoryStorage.change f) cause) s).map
        (·.map reply) id = (.error error, s)) ∨
      ∃ answer, (exec (RecordStorage.reporting (MemoryStorage.change f) cause) s).map
        (·.map reply) id = (.ok answer, { s with records := (f s.records).2 }) := by
    rw [MemoryStorage.exec_reporting_change]
    split_ifs
    · exact .inl ⟨_, rfl⟩
    · exact .inr ⟨_, rfl⟩
  cases op with
  | store e => exact changes (fun records => ((), records.insert _ _)) _ _
  | clear key => exact changes (fun records => ((records.get? _).isSome, records.erase _)) _ _
  | clearAll => exact changes (fun _ => ((), ∅)) _ _
  | lookup | failReads | failWrites => exact .inr ⟨_, rfl⟩

theorem step_of_error {error : CacheError} (h : (op.step s).1 = .error error) :
    (op.step s).2 = s := by
  rcases op.step_cases s with ⟨_, hstep⟩ | ⟨_, hstep⟩ <;> rw [hstep] at h ⊢
  cases h

theorem step_of_isOk (h : (op.event s).result.isOk) : (op.step s).2 = op.applied s := by
  unfold event at h
  rcases op.step_cases s with ⟨error, hstep⟩ | ⟨reply, hstep⟩ <;> rw [hstep] at h ⊢
  cases h

/-- A stored entry has its record. -/
theorem get?_step_of_stores {e : AnyEntry} (h : (op.event s).Stores e) :
    (op.step s).2.records.get? e.recordPath = some (CacheRecord.bytes e.entry) := by
  obtain ⟨hop, hok⟩ := h
  rw [step_of_isOk hok]
  obtain rfl : op = store e := hop
  exact SortedMap.get?_insert_self ..

theorem get?_step_of_removes (h : (op.event s).Removes path) :
    (op.step s).2.records.get? path = none := by
  obtain ⟨hop, hok⟩ := h
  rw [step_of_isOk hok]
  change op.IsRemoval path at hop
  cases op with
  | clear key =>
    obtain rfl : key.recordPath = path := hop
    exact (SortedMap.get?_erase ..).trans (if_pos rfl)
  | clearAll => exact SortedMap.get?_empty path
  | store | lookup | failReads | failWrites => cases hop

/-- All other records are left alone. -/
theorem get?_step_of_keeps (h : (op.event s).Keeps path) :
    (op.step s).2.records.get? path = s.records.get? path := by
  obtain ⟨hremoves, hstores⟩ := h
  unfold event at hremoves hstores
  rcases op.step_cases s with ⟨error, hstep⟩ | ⟨reply, hstep⟩ <;>
    rw [hstep] at hremoves hstores ⊢
  cases op with
  | store e => exact SortedMap.get?_insert_of_ne _ _ (hstores e ⟨rfl, rfl⟩).symm
  | clear key =>
    exact (SortedMap.get?_erase ..).trans (if_neg fun heq => hremoves ⟨heq.symm, rfl⟩)
  | clearAll => exact absurd ⟨trivial, rfl⟩ hremoves
  | lookup | failReads | failWrites => rfl

/-- Reads fail as they were last switched. -/
theorem failsReads_step (op : CacheOp) (s : MemoryStorage) :
    (op.step s).2.failsReads = false ↔
      op = failReads false ∨ op ≠ failReads true ∧ s.failsReads = false := by
  rcases op.step_cases s with ⟨error, hstep⟩ | ⟨reply, hstep⟩
  · have hop : ∀ fail, op ≠ failReads fail := by
      rintro fail rfl
      cases hstep
    simp [hstep, hop]
  · rw [hstep]
    cases op with
    | failReads fail => cases fail <;> simp [applied]
    | store | clear | clearAll | lookup | failWrites => simp [applied]

end CacheOp

/-! ## Runs -/

/-- The storage is as its history tells. -/
structure Agrees (history : List CacheEvent) (s : MemoryStorage) : Prop where
  failsReads : s.failsReads = false ↔ ReadsWork history
  records : ∀ path content, s.records.get? path = some content ↔
    ∃ e, LastStored history path e ∧ CacheRecord.bytes e.entry = content

theorem agrees_empty : Agrees [] .empty where
  failsReads := by
    refine ⟨fun _ before event after h => ?_, fun _ => rfl⟩
    simp at h
  records path content := by
    refine ⟨fun h => ?_, fun ⟨e, ⟨before, event, after, h, _⟩, _⟩ => ?_⟩
    · cases h
    · simp at h

/-- An operation keeps the storage as its history tells. -/
theorem agrees_step {history : List CacheEvent} {s : MemoryStorage} (h : Agrees history s)
    (op : CacheOp) : Agrees (history ++ [op.event s]) (op.step s).2 where
  failsReads := by
    rw [op.failsReads_step, readsWork_concat, h.failsReads]
    rfl
  records path content := by
    by_cases hremoves : (op.event s).Removes path
    · rw [op.get?_step_of_removes hremoves]
      simp [not_lastStored_concat_of_removes hremoves]
    · by_cases hstores : ∃ e, (op.event s).Stores e ∧ e.recordPath = path
      · obtain ⟨e, he, rfl⟩ := hstores
        rw [op.get?_step_of_stores he]
        simp [lastStored_concat_of_stores he]
      · have hkeeps : (op.event s).Keeps path :=
          ⟨hremoves, fun e he hpath => hstores ⟨e, he, hpath⟩⟩
        rw [op.get?_step_of_keeps hkeeps, h.records]
        simp only [lastStored_concat_of_keeps hkeeps]

/-- A run keeps the storage as its history tells. -/
theorem agrees_run {history : List CacheEvent} {s : MemoryStorage} (h : Agrees history s)
    (ops : List CacheOp) : Agrees (history ++ CacheOp.history ops s) (CacheOp.after ops s) := by
  induction ops generalizing history s with
  | nil => simpa [CacheOp.history, CacheOp.after] using h
  | cons op ops ih =>
    have hrest := ih (agrees_step h op)
    rw [List.append_assoc] at hrest
    exact hrest

/-! ## Answers -/

/-- The cache answers as a map from record paths to entries, as the history tells them. -/
structure RefinesMap (history : List CacheEvent) (s : MemoryStorage) : Prop where
  /-- An entry is found if reads work and the entry last stored at the path of the key has this
  key. -/
  isSome_lookup : ∀ {P : Type} [Problem P] (key : TuningKey P),
    (storage.lookup key s).isSome ↔
      ReadsWork history ∧ ∃ e, LastStored history key.recordPath e ∧ e.HasKey key
  /-- What is found is that entry, but for its score. -/
  lookup_eq_some : ∀ {P : Type} [Problem P] (key : TuningKey P) (found : CacheEntry P),
    storage.lookup key s = some found →
      ∃ e, LastStored history key.recordPath e ∧ e.HasKey key ∧ found.key = key ∧
        found.parameters = e.entry.parameters ∧ found.timestamp = e.entry.timestamp ∧
        found.checksum = e.entry.checksum
  /-- Among keys of one kind of problem, the entry is found by its own key. -/
  lookup_self : ∀ {P : Type} [Problem P] [Json.LawfulCodec P] (e : CacheEntry P) (finite),
    ReadsWork history → LastStored history e.key.recordPath ⟨e, finite⟩ →
      ∃ score, storage.lookup e.key s = some { e with score }
  /-- A different key finds nothing, even if it has the same path. -/
  lookup_of_ne : ∀ {P : Type} [Problem P] [Json.LawfulCodec P] (e : CacheEntry P) (finite)
    (key : TuningKey P), LastStored history key.recordPath ⟨e, finite⟩ → e.key ≠ key →
      storage.lookup key s = none
  /-- A removal tells whether there was a record. -/
  clearKey : ∀ {P : Type} [Problem P] (key : TuningKey P) (existed : Bool),
    (exec (storage.clearKey key) s).1 = .ok existed →
      (existed ↔ ∃ e, LastStored history key.recordPath e)

namespace Agrees

variable {history : List CacheEvent} {s : MemoryStorage} {P : Type} [Problem P]

/-- What is found for a key is what the record of the entry last stored at its path says. -/
theorem lookup_eq_some_iff (h : Agrees history s) {key : TuningKey P} {found : CacheEntry P} :
    storage.lookup key s = some found ↔ ReadsWork history ∧
      ∃ e, LastStored history key.recordPath e ∧
        CacheRecord.entryFor? key (CacheRecord.bytes e.entry) = some found := by
  rw [← h.failsReads]
  by_cases hreads : s.failsReads = true
  · simp [MemoryStorage.lookup_of_failsReads hreads, hreads]
  · have hreads : s.failsReads = false := Bool.eq_false_iff.2 hreads
    rw [MemoryStorage.lookup_of_reads hreads, Option.bind_eq_some_iff]
    simp only [h.records, hreads, true_and]
    constructor
    · rintro ⟨_, ⟨e, hlast, rfl⟩, hfound⟩
      exact ⟨e, hlast, hfound⟩
    · rintro ⟨e, hlast, hfound⟩
      exact ⟨_, ⟨e, hlast, rfl⟩, hfound⟩

theorem refinesMap (h : Agrees history s) : RefinesMap history s where
  isSome_lookup key := by
    rw [Option.isSome_iff_exists]
    simp only [h.lookup_eq_some_iff, exists_and_left]
    refine and_congr_right fun _ => ⟨?_, ?_⟩
    · rintro ⟨found, e, hlast, hfound⟩
      obtain ⟨score, hentry⟩ := e.entryFor?_bytes
      exact ⟨e, hlast, ((hentry key found).1 hfound).1⟩
    · rintro ⟨e, hlast, hkey⟩
      obtain ⟨score, hentry⟩ := e.entryFor?_bytes
      exact ⟨_, e, hlast, (hentry key _).2 ⟨hkey, rfl⟩⟩
  lookup_eq_some key found hfound := by
    obtain ⟨-, e, hlast, hfound⟩ := h.lookup_eq_some_iff.1 hfound
    obtain ⟨score, hentry⟩ := e.entryFor?_bytes
    obtain ⟨hkey, rfl⟩ := (hentry key found).1 hfound
    exact ⟨e, hlast, hkey, rfl, rfl, rfl, rfl⟩
  lookup_self e finite hreads hlast := by
    obtain ⟨score, hentry⟩ := AnyEntry.entryFor?_bytes ⟨e, finite⟩
    have hfound := (hentry e.key _).2 ⟨AnyEntry.hasKey_iff.2 rfl, rfl⟩
    exact ⟨score, h.lookup_eq_some_iff.2 ⟨hreads, _, hlast, hfound⟩⟩
  lookup_of_ne e finite key hlast hne := by
    rw [Option.eq_none_iff_forall_ne_some]
    intro found hfound
    obtain ⟨-, e', hlast', hfound⟩ := h.lookup_eq_some_iff.1 hfound
    have hrecord := (h.records key.recordPath _).2 ⟨_, hlast, rfl⟩
    have hrecord' := (h.records key.recordPath _).2 ⟨_, hlast', rfl⟩
    -- Both keys have one record, so what is found under the one was stored for the other.
    rw [← Option.some.inj (hrecord.symm.trans hrecord')] at hfound
    obtain ⟨score, hentry⟩ := AnyEntry.entryFor?_bytes ⟨e, finite⟩
    exact hne (AnyEntry.hasKey_iff.1 ((hentry key found).1 hfound).1)
  clearKey key existed hclear := by
    rw [MemoryStorage.exec_clearKey] at hclear
    split at hclear
    · cases hclear
    · obtain rfl := Except.ok.inj hclear
      rw [Option.isSome_iff_exists]
      simp only [h.records]
      exact ⟨fun ⟨_, e, hlast, _⟩ => ⟨e, hlast⟩, fun ⟨e, hlast⟩ => ⟨_, e, hlast, rfl⟩⟩

end Agrees

theorem CacheOp.after_append (ops later : List CacheOp) (s : MemoryStorage) :
    after (ops ++ later) s = after later (after ops s) := List.foldl_append ..

/-- **The cache is a map.** After every run on an empty storage, the cache answers as the map from
record paths to the entries last stored there, and an operation that fails changes nothing that
comes after. -/
theorem refinesMap_run (ops : List CacheOp) :
    RefinesMap (CacheOp.history ops .empty) (CacheOp.after ops .empty) ∧
    ∀ (op : CacheOp) (error : CacheError) (later : List CacheOp),
      (op.step (CacheOp.after ops .empty)).1 = .error error →
        CacheOp.after (ops ++ op :: later) .empty = CacheOp.after (ops ++ later) .empty ∧
        CacheOp.history later (op.step (CacheOp.after ops .empty)).2 =
          CacheOp.history later (CacheOp.after ops .empty) := by
  refine ⟨(agrees_run agrees_empty ops).refinesMap, fun op error later hfails => ?_⟩
  have hsame := op.step_of_error hfails
  have hafter : CacheOp.after (op :: later) (CacheOp.after ops .empty) =
      CacheOp.after later (CacheOp.after ops .empty) :=
    congrArg (CacheOp.after later) hsame
  rw [CacheOp.after_append, CacheOp.after_append, hafter, hsame]
  exact ⟨rfl, rfl⟩

end KernelTuning
