import KernelTuning.Tuning.Search

/-!
# Scripted measurements

A script stands in for a device: measurement number `n` is answered by entry `n`, modulo the
length of the script. The state of the measurement is the list of the candidates asked for, the
latest first, so that a run can be checked afterwards.
-/

namespace KernelTuning

/-- The answer to a measurement. -/
inductive ScriptEntry where
  | score (score : Binary64)
  | fails (reason : String)
  | crashes (message : Option String)
  /-- The score is one more than the distance of a parameter from a target. -/
  | distance (parameter : String) (target : Word)
deriving DecidableEq

namespace ScriptEntry

/-- The distance of two words, each rounded to a double before. -/
def wordDistance (a b : Word) : Binary64 :=
  let x := (Binary64.ofNat a.toNat).scaled
  let y := (Binary64.ofNat b.toNat).scaled
  .ofRatio (max x y - min x y) Binary64.unitScale

/-- The result of measuring a candidate. -/
def answer (candidate : TuningParameters) : ScriptEntry → Except (Failure String) Binary64
  | .score x => .ok x
  | fails reason => .error (.error reason)
  | crashes message => .error (.crash message)
  | distance parameter target => do
    let value ← (candidate.word parameter).mapError (·.map Error.message)
    return (wordDistance value target).add (.ofNat 1)

end ScriptEntry

/-- Measures by a script. An empty script crashes. -/
def Measure.scripted (script : List ScriptEntry) : Measure (List TuningParameters) :=
  fun candidate => ExceptT.mk fun asked =>
    match script[asked.length % script.length]? with
    | some entry => (entry.answer candidate, candidate :: asked)
    | none => (.error (.crash none), candidate :: asked)

end KernelTuning
