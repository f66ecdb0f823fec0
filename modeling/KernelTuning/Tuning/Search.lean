import KernelTuning.Tuning.CandidateSpace
import KernelTuning.Tuning.Report

/-!
# Searching a candidate space

A search measures every candidate of every stage, one after the other, and keeps a trace: per
stage, the trials with their scores or the reasons of their failure. All else is a function of
the trace: the parameters that a stage starts from, the selection, and the report.

**Selection.** The best trial of a stage is the first one with the lowest score. A stage without
a valid score changes nothing; the selection of the search is the best trial of its last stage
that has one.

**Validity.** A score counts if it is finite and not below zero. A measurement that fails, crashes
or gives another score is a failed trial.
-/

namespace KernelTuning

/-- What a measurement came to. -/
inductive Verdict where
  | score (score : Binary64)
  | failed (reason : String)
deriving DecidableEq

/-- A candidate and what its measurement came to. -/
structure Trial where
  candidate : TuningParameters
  verdict : Verdict
deriving DecidableEq

/-- A way to score candidates that acts on a state. -/
abbrev Measure (σ : Type) := TuningParameters → ExceptT (Failure String) (StateM σ) Binary64

namespace Search

/-- The trials of a search, stage by stage. -/
abbrev Trace := List (List Trial)

/-! ## Trials -/

def isValidScore (score : Binary64) : Bool := score.isFinite && Binary64.le .zero score

/-- The score of a measurement, or the reason why the trial failed. -/
def verdict : Except (Failure String) Binary64 → Verdict
  | .ok score =>
    if isValidScore score then .score score else .failed ("invalid score " ++ score.toPositional)
  | .error (.error reason) => .failed reason
  | .error (.crash (some message)) => .failed ("panicked: " ++ message)
  | .error (.crash none) => .failed "panicked"

/-- The better of the best trial so far and a new trial, which has to have a lower score. -/
def better (best : Option (TuningParameters × Binary64)) (trial : Trial) :
    Option (TuningParameters × Binary64) :=
  match trial.verdict, best with
  | .failed _, _ => best
  | .score score, none => some (trial.candidate, score)
  | .score score, some (_, lowest) =>
    if Binary64.lt score lowest then some (trial.candidate, score) else best

/-- The first trial with the lowest score. -/
def best? (trials : List Trial) : Option (TuningParameters × Binary64) := trials.foldl better none

/-! ## Running -/

variable {σ : Type}

def runTrial (measure : Measure σ) (candidate : TuningParameters) : StateM σ Trial := do
  return ⟨candidate, verdict (← (measure candidate).run)⟩

/-- Measures the stages from the given parameters on. -/
def runStages (measure : Measure σ) (current : TuningParameters) :
    List (List TuningParameters) → StateM σ Trace
  | [] => return []
  | stage :: rest => do
    let trials ← stage.mapM fun overrides => runTrial measure (current.merged overrides)
    let next := (best? trials).elim current (·.1)
    return trials :: (← runStages measure next rest)

def run (measure : Measure σ) (space : CandidateSpace) : StateM σ Trace :=
  runStages measure space.base space.stages

/-! ## What a trace says -/

def trials (trace : Trace) : List Trial := trace.flatten

/-- The number of candidates measured. -/
def evaluated (trace : Trace) : Nat := (trials trace).length

/-- The best trial of the last stage that has one. -/
def selected? (trace : Trace) : Option (TuningParameters × Binary64) :=
  trace.foldl (fun selected stage => (best? stage).or selected) none

/-- The reason of the last failed trial, empty if none failed. -/
def lastFailure (trace : Trace) : String :=
  (trials trace).foldl
    (fun last trial => match trial.verdict with | .failed reason => reason | .score _ => last) ""

/-- A trial as an event of the run. -/
def eventOf (trial : Trial) : TuningEvent :=
  match trial.verdict with
  | .score score => .candidate trial.candidate score
  | .failed reason => .failed trial.candidate reason

/-- The events of a search. -/
def events (algorithm device : String) (trace : Trace) : List TuningEvent :=
  .start algorithm device :: (trials trace).map eventOf ++ [.finish ((selected? trace).map (·.1))]

end Search

end KernelTuning
