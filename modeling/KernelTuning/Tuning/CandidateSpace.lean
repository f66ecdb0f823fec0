import KernelTuning.Digest.Md5
import KernelTuning.Tuning.Parameters

/-!
# Candidate spaces

The candidates that an algorithm is tuned over, in stages. Each entry of a stage is a set of
overrides on the best parameters of the stages before, at first on the base parameters, so that
one parameter can be tuned at a time.

The checksum of a space tells whether a cached result comes from the same candidates.
-/

namespace KernelTuning

/-- Base parameters and stages of overrides, in the order of their evaluation. -/
structure CandidateSpace where
  base : TuningParameters
  stages : List (List TuningParameters)
deriving DecidableEq

namespace CandidateSpace

/-- The space without stages, which offers nothing. -/
def empty : CandidateSpace := ⟨.empty, []⟩

/-- A single stage of whole candidates. -/
def flat (candidates : List TuningParameters) : CandidateSpace := ⟨.empty, [candidates]⟩

/-- A stage that tries the values of one parameter. -/
def stage (name : String) (values : List Word) : List TuningParameters :=
  values.map (TuningParameters.single name)

/-- The number of candidates of all stages. -/
def size (s : CandidateSpace) : Nat := s.stages.flatten.length

/-- Whether there is no stage, or a stage without candidates. -/
def isEmpty (s : CandidateSpace) : Bool := s.stages.isEmpty || s.stages.any List.isEmpty

/-- The text of a space: its base, then for each stage a mark and its candidates, all on lines of
their own. -/
def content (s : CandidateSpace) : String :=
  s.base.toText ++ String.join (s.stages.map fun stage =>
    "\n#" ++ String.join (stage.map fun candidate => "\n" ++ candidate.toText))

/-- The digest of the text of a space. -/
def checksum (s : CandidateSpace) : String := Digest.Md5.ofText s.content

end CandidateSpace

end KernelTuning
