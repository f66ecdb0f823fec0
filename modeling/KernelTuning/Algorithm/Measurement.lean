import KernelTuning.Backend.Recorder

/-!
# Measuring plans

A plan is scored by the nanoseconds per element of two problem sizes together. Each size runs
once to warm up, and the second run is timed.
-/

namespace KernelTuning.Measurement

/-- The number of elements of the small problem. -/
def smallElements : Word := 65536

/-- The number of bytes of the large problem. -/
def largeBytes : Word := 32 * 1024 * 1024

/-- The numbers of elements to measure, for elements of a size in bytes. -/
def problemSizes (elemSize : Word) : List Word :=
  [smallElements, max (largeBytes / max elemSize 1) 1]

/-- The nanoseconds of the second of two runs. -/
def warmThenTime (b : Backend) (run : Device (List Event)) : Device Nat := do
  let _ ← b.totalElapsed (← run)
  b.totalElapsed (← run)

def perElement (nanoseconds : Nat) (elements : Word) : Binary64 :=
  (Binary64.ofNat nanoseconds).div (Binary64.ofNat (max elements 1).toNat)

/-- The score of a plan: the times per element of its runs on problems of the measured sizes. -/
def score (b : Backend) (elemSize : Word) (prepare : Word → Device (Device (List Event))) :
    Device Binary64 := do
  let times ← (problemSizes elemSize).mapM fun elements => do
    let run ← prepare elements
    return perElement (← warmThenTime b run) elements
  return times.foldl Binary64.add .zero

end KernelTuning.Measurement
