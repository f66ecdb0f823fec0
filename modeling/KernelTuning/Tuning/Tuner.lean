import KernelTuning.Tuning.Cache
import KernelTuning.Tuning.Search

/-!
# The tuner

A tuner finds parameters for keys: it looks them up in its cache, searches candidate spaces as
its policy allows, and offers results to the cache. A result that cannot be stored is still a
result; the failure is part of the outcome.

The tuner acts on a state `σ` that holds its cache and its output, and measures on a device with
a state `δ` of its own.
-/

namespace KernelTuning

/-- Whether tuning may run, and what it writes where. -/
structure TunePolicy where
  enabled : Bool
  verbosity : Verbosity
  output : OutputSink
deriving DecidableEq

namespace TunePolicy

/-- Tuning that writes its progress to standard output. -/
def standard : TunePolicy := ⟨true, .normal, .stdout⟩

/-- Tuning that writes nothing. -/
def silent : TunePolicy := { standard with verbosity := .silent }

end TunePolicy

/-- The result of a search. -/
structure TuneOutcome where
  parameters : TuningParameters
  score : Binary64
  /-- The number of candidates measured. -/
  evaluated : Nat
  /-- Why the result could not be stored, if so. -/
  persistError : Option CacheError
deriving DecidableEq

/-- A cache and a policy. -/
structure Tuner (σ : Type) where
  storage : RecordStorage σ
  policy : TunePolicy
  /-- Writes a line to a sink. -/
  emit : OutputSink → String → σ → σ

namespace Tuner

variable {σ δ P : Type} [Problem P]

/-- The entry of a key, if it comes from the same candidate space. -/
def lookup (t : Tuner σ) (key : TuningKey P) (space : CandidateSpace) (state : σ) :
    Option (CacheEntry P) :=
  (t.storage.lookup key state).filter fun entry => entry.checksum = space.checksum

/-- Writes the report of a run. -/
def report (t : Tuner σ) (events : List TuningEvent) (state : σ) : σ :=
  ((Reporter.start t.policy.verbosity).lines events).foldl
    (fun state line => t.emit t.policy.output line state) state

/-- The outcome of a trace: the selection, or that every candidate failed. -/
def outcome (algorithm : String) (trace : Search.Trace) : Except TuneError TuneOutcome :=
  match Search.selected? trace with
  | some (parameters, score) => .ok ⟨parameters, score, Search.evaluated trace, none⟩
  | none =>
    .error (.allCandidatesFailed algorithm (Search.evaluated trace) (Search.lastFailure trace))

/-- Searches a candidate space without touching the cache. -/
def search (t : Tuner σ) (algorithm device : String) (space : CandidateSpace)
    (measure : Measure δ) : ExceptT TuneError (StateM (σ × δ)) TuneOutcome :=
  ExceptT.mk fun (state, deviceState) =>
    if !t.policy.enabled then (.error (.disabled algorithm device), state, deviceState)
    else if space.isEmpty then (.error (.emptySpace algorithm), state, deviceState)
    else
      let (trace, deviceState) := (Search.run measure space).run deviceState
      (outcome algorithm trace, t.report (Search.events algorithm device trace) state, deviceState)

/-- Stores the outcome of a search. -/
def persist (t : Tuner σ) (key : TuningKey P) (space : CandidateSpace) (now : UInt64)
    (outcome : TuneOutcome) : StateM σ TuneOutcome := do
  let entry : CacheEntry P :=
    ⟨key, outcome.parameters, outcome.score, now, space.checksum⟩
  match ← (t.storage.store entry).run with
  | .ok () => return outcome
  | .error e => return { outcome with persistError := some e }

/-- Searches a candidate space for a key and stores the outcome. -/
def tune (t : Tuner σ) (key : TuningKey P) (space : CandidateSpace) (now : UInt64)
    (measure : Measure δ) : ExceptT TuneError (StateM (σ × δ)) TuneOutcome := do
  let outcome ← t.search key.algorithm key.device.name space measure
  ExceptT.mk fun (state, deviceState) =>
    let (outcome, state) := (t.persist key space now outcome).run state
    (.ok outcome, state, deviceState)

end Tuner

end KernelTuning
