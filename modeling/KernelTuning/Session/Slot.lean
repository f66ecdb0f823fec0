import KernelTuning.Batch
import KernelTuning.Probe

/-!
# Slots

A slot is a place for an algorithm of one of the primitives, with the number of the device that it
was made for. Callbacks are held by their numbers.
-/

namespace KernelTuning

inductive Slot where
  | scan (device : Nat) (a : Algorithm ScanProblem ScanPlan Nat)
  | reduce (device : Nat) (a : Algorithm ReduceProblem ReducePlan Nat)
  | radixsort (device : Nat) (a : Algorithm RadixsortProblem RadixsortPlan Nat)
  | probe (device : Nat) (a : Algorithm String ProbePlan Nat)

namespace Slot

/-- The name of the primitive. -/
def name : Slot → String
  | scan _ _ => Scan.name
  | reduce _ _ => Reduce.name
  | radixsort _ _ => Radixsort.name
  | probe _ _ => Probe.name

def device : Slot → Nat
  | scan d _ => d
  | reduce d _ => d
  | radixsort d _ => d
  | probe d _ => d

/-- The empty slot of the primitive with a name. -/
def ofName? (name : String) : Option Slot :=
  if name = Scan.name then some (scan 0 .disposed)
  else if name = Reduce.name then some (reduce 0 .disposed)
  else if name = Radixsort.name then some (radixsort 0 .disposed)
  else if name = Probe.name then some (probe 0 .disposed)
  else none

/-- What a function makes of the algorithm. -/
def elim {α : Type} (s : Slot) (f : {Q L : Type} → [Problem Q] → Algorithm Q L Nat → α) : α :=
  match s with
  | scan _ a => f a
  | reduce _ a => f a
  | radixsort _ a => f a
  | probe _ a => f a

/-- Changes the algorithm, with a result. -/
def update {α : Type} (s : Slot) (f : {Q L : Type} → Algorithm Q L Nat → α × Algorithm Q L Nat) :
    α × Slot :=
  match s with
  | scan d a => ((f a).1, scan d (f a).2)
  | reduce d a => ((f a).1, reduce d (f a).2)
  | radixsort d a => ((f a).1, radixsort d (f a).2)
  | probe d a => ((f a).1, probe d (f a).2)

/-- The notices of giving up the callback of the algorithm. -/
def release (s : Slot) : List (Notice Nat) := s.elim fun a => a.release

/-- Moves the algorithm out: the slot with the algorithm, and the one left behind. -/
def take : Slot → Slot × Slot
  | scan d a => (scan d a.take.1, scan d a.take.2)
  | reduce d a => (reduce d a.take.1, reduce d a.take.2)
  | radixsort d a => (radixsort d a.take.1, radixsort d a.take.2)
  | probe d a => (probe d a.take.1, probe d a.take.2)

/-- Exchanges the algorithms of two slots of one primitive. -/
def swap? : Slot → Slot → Option (Slot × Slot)
  | scan d a, scan e b => some (scan e (a.swap b).1, scan d (a.swap b).2)
  | reduce d a, reduce e b => some (reduce e (a.swap b).1, reduce d (a.swap b).2)
  | radixsort d a, radixsort e b => some (radixsort e (a.swap b).1, radixsort d (a.swap b).2)
  | probe d a, probe e b => some (probe e (a.swap b).1, probe d (a.swap b).2)
  | _, _ => none

end Slot

end KernelTuning
