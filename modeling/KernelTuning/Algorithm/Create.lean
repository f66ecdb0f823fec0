import KernelTuning.Algorithm.Basic

/-!
# Creating algorithms

A new algorithm takes its parameters from the cache or, failing that, from a search.

**Order.** An invalid problem or an empty candidate space is refused before anything else happens.
Cached parameters are used if a plan can be built from them. Otherwise the space is searched, the
plan of the selected parameters is built, and only then is the outcome stored; so a failure
leaves the cache as it was.
-/

namespace KernelTuning.Algorithm

variable {σ δ Q L A O β : Type} [Problem Q]

/-- An action on the device alone. -/
def onDevice {α : Type} (action : Action δ α) : Action (σ × δ) α :=
  ExceptT.mk fun (state, device) =>
    let (result, device) := action.run device
    (result, state, device)

/-- A change of the state beside the device. -/
def onState {α : Type} (change : StateM σ α) : Action (σ × δ) α :=
  ExceptT.mk fun (state, device) =>
    let (result, state) := change.run state
    (.ok result, state, device)

/-- An action whose errors are answered by `none`, while crashes pass. -/
def orNone {α : Type} (action : Action δ α) : Action δ (Option α) :=
  ExceptT.mk do
    match ← action.run with
    | .ok a => return .ok (some a)
    | .error (.error _) => return .ok none
    | .error (.crash message) => return .error (.crash message)

/-- The key under which a problem is tuned. -/
def keyOf (p : Primitive δ Q L A O) (problem : Q) : TuningKey Q :=
  ⟨p.name, p.device.fingerprint, p.canonical problem, p.formatVersion⟩

/-- The candidates of a problem. -/
def spaceOf (p : Primitive δ Q L A O) (problem : Q) : CandidateSpace :=
  p.candidates (p.canonical problem)

/-- The score of candidate parameters for a problem. -/
def score (p : Primitive δ Q L A O) (problem : Q) : Measure δ := fun parameters =>
  ExceptT.mk do
    let result ← (do p.measure (← p.build problem parameters) : Action δ Binary64).run
    return result.mapError (·.map Error.message)

/-- The algorithm of a plan. -/
def ofPlan (p : Primitive δ Q L A O) (problem : Q) (parameters : TuningParameters) (plan : L)
    (resolution : Resolution) (persistError : Option CacheError) : Algorithm Q L β :=
  .ready {
    problem, parameters, plan, resolution, persistError
    details := SortedMap.ofList (p.details plan)
    callback := none }

/-- The algorithm with the cached parameters of a problem, if there are any that can be used. -/
def fromCache (p : Primitive δ Q L A O) (tuner : Tuner σ) (problem : Q) :
    Action (σ × δ) (Option (Algorithm Q L β)) := do
  let entry ← onState fun state => (tuner.lookup (keyOf p problem) (spaceOf p problem) state, state)
  match entry with
  | none => return none
  | some entry =>
    let plan ← onDevice (orNone (p.build problem entry.parameters))
    return plan.map fun plan => ofPlan p problem entry.parameters plan (.cached entry.score) none

/-- The algorithm with the parameters that a search finds. -/
def fromSearch (p : Primitive δ Q L A O) (tuner : Tuner σ) (now : UInt64) (problem : Q) :
    Action (σ × δ) (Algorithm Q L β) := do
  let key := keyOf p problem
  let space := spaceOf p problem
  let outcome ← ExceptT.mk do
    let result ← (tuner.search p.name key.device.name space (score p problem)).run
    return result.mapError fun e => .error (.tune e)
  let plan ← onDevice (p.build problem outcome.parameters)
  -- Stored only now that the plan is built.
  let outcome ← onState (tuner.persist key space now outcome)
  return ofPlan p problem outcome.parameters plan (.tuned outcome.evaluated outcome.score)
    outcome.persistError

/-- Finds the parameters of a problem and builds its plan. -/
def create (p : Primitive δ Q L A O) (tuner : Tuner σ) (now : UInt64) (problem : Q) :
    Action (σ × δ) (Algorithm Q L β) := do
  ExceptT.mk (pure (p.validate problem))
  if (spaceOf p problem).isEmpty then throw (.error (.tune (.emptySpace p.name)))
  match ← fromCache p tuner problem with
  | some algorithm => return algorithm
  | none => fromSearch p tuner now problem

end KernelTuning.Algorithm
