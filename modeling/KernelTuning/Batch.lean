import KernelTuning.Radixsort.Plan
import KernelTuning.Reduce
import KernelTuning.Scan.Plan

/-!
# Tuning in batches

A target is a problem of one of the primitives. `Target.all` lists the problems that a device
supports, one for every canonical form; `tuneTargets` resolves a list of targets in turn, where a
failure is recorded and does not stop the others.
-/

namespace KernelTuning

/-- A problem to tune. -/
inductive Target where
  | scan (problem : ScanProblem)
  | reduce (problem : ReduceProblem)
  | radixsort (problem : RadixsortProblem)
deriving DecidableEq

namespace Target

def algorithm : Target → String
  | scan _ => Scan.name
  | reduce _ => Reduce.name
  | radixsort _ => Radixsort.name

def toText (t : Target) : String :=
  t.algorithm ++ " " ++
    match t with
    | scan problem => Problem.toText problem
    | reduce problem => Problem.toText problem
    | radixsort problem => Problem.toText problem

/-- The target that stands for all targets that are tuned alike. -/
def canonical : Target → Target
  | scan problem => scan (Scan.canonical problem)
  | reduce problem => reduce (Reduce.canonical problem)
  | radixsort problem => radixsort (Radixsort.canonical problem)

/-- The check of the primitive of a target. -/
def validate (d : DeviceProperties) : Target → Attempt Unit
  | scan problem => Scan.validate d problem
  | reduce problem => Reduce.validate d problem
  | radixsort problem => Radixsort.validate d problem

/-- The candidates of a target, as its primitive lists them for the canonical problem. -/
def space (d : DeviceProperties) : Target → Attempt CandidateSpace
  | scan problem => .ofArithmetic (Scan.candidates? d (Scan.canonical problem))
  | reduce problem => .ok (Reduce.candidates d (Reduce.canonical problem))
  | radixsort problem => .ok (Radixsort.candidates d (Radixsort.canonical problem))

/-- Whether a device supports a target, unless the check crashes. -/
def isSupported (d : DeviceProperties) (t : Target) : Attempt Bool :=
  match t.validate d with
  | .ok () => .ok true
  | .error (.error _) => .ok false
  | .error (.crash message) => .error (.crash message)

/-- The types of radix sort keys. -/
def keyTypes : List ElemType :=
  [BaseType.uchar, .ushort, .uint, .ulong].filterMap fun base => (ElemType.scalar base).toOption

/-- All targets, whether a device supports them or not. -/
def everything : List Target :=
  ElemType.all.map (fun elem => scan ⟨elem⟩)
    ++ ElemType.all.map (fun elem => reduce ⟨elem⟩)
    ++ (ElemType.void :: ElemType.all).flatMap fun value =>
      keyTypes.map fun key => radixsort ⟨key, value⟩

/-- Leaves out targets that an earlier one stands for. -/
def distinct (targets : List Target) : List Target :=
  (targets.foldl
    (fun (kept, seen) target =>
      if target.canonical ∈ seen then (kept, seen)
      else (target :: kept, target.canonical :: seen))
    (([] : List Target), ([] : List Target))).1.reverse

/-- The targets that a device supports, one for every canonical form. -/
def all (d : DeviceProperties) : Attempt (List Target) := do
  return distinct (← everything.filterM (isSupported d))

end Target

/-! ## Running -/

/-- What became of a target. -/
structure TuneRecord where
  target : Target
  result : Except Error Resolution

/-- What became of a list of targets, in their order. -/
abbrev TuneReport := List TuneRecord

namespace TuneReport

def isTuned : TuneRecord → Bool
  | ⟨_, .ok (.tuned _ _)⟩ => true
  | _ => false

def isCached : TuneRecord → Bool
  | ⟨_, .ok (.cached _)⟩ => true
  | _ => false

def isFailed : TuneRecord → Bool
  | ⟨_, .error _⟩ => true
  | _ => false

/-- The line of a record. -/
def line (r : TuneRecord) : String :=
  r.target.toText ++ ": " ++
    match r.result with
    | .ok (.cached _) => "cached"
    | .ok (.tuned evaluated _) => "tuned over " ++ toString evaluated ++ " candidates"
    | .error e => "failed (" ++ e.message ++ ")"

/-- A line for every record, and one with their counts. -/
def toText (report : TuneReport) : String :=
  let count (p : TuneRecord → Bool) := toString (report.countP p)
  String.join (report.map fun r => line r ++ "\n")
    ++ count isTuned ++ " tuned, " ++ count isCached ++ " cached, " ++ count isFailed ++ " failed"

end TuneReport

namespace Batch

variable {σ : Type}

/-- How the parameters of a new algorithm were found. -/
def resolve {Q L A O : Type} [Problem Q] (p : Primitive Recorder Q L A O) (tuner : Tuner σ)
    (now : UInt64) (problem : Q) : Action (σ × Recorder) Resolution := do
  match ← (Algorithm.create p tuner now problem :
      Action (σ × Recorder) (Algorithm Q L Empty)) with
  | .ready state => return state.resolution
  | .disposed => throw (.error (Algorithm.disposedError p.name))

/-- Finds the parameters of a target. -/
def tune (b : Backend) (tuner : Tuner σ) (now : UInt64) :
    Target → Action (σ × Recorder) Resolution
  | .scan problem => resolve (Scan.primitive b) tuner now problem
  | .reduce problem => resolve (Reduce.primitive b) tuner now problem
  | .radixsort problem => resolve (Radixsort.primitive b) tuner now problem

/-- An action whose errors become its result, while crashes pass. -/
def orError {τ α : Type} (action : Action τ α) : Action τ (Except Error α) :=
  ExceptT.mk do
    match ← action.run with
    | .ok a => return .ok (.ok a)
    | .error (.error e) => return .ok (.error e)
    | .error (.crash message) => return .error (.crash message)

/-- Finds the parameters of targets in turn. -/
def tuneTargets (b : Backend) (tuner : Tuner σ) (now : UInt64) (targets : List Target) :
    Action (σ × Recorder) TuneReport :=
  targets.mapM fun target => do return ⟨target, ← orError (tune b tuner now target)⟩

/-- Finds the parameters of everything that the device supports. -/
def tuneDevice (b : Backend) (tuner : Tuner σ) (now : UInt64) :
    Action (σ × Recorder) TuneReport := do
  let targets ← ExceptT.mk (pure (Target.all b.properties))
  tuneTargets b tuner now targets

end Batch

end KernelTuning
