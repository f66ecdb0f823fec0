import KernelTuning.Backend.Command
import KernelTuning.Tuning.Tuner

/-!
# Algorithms

A primitive is what an algorithm needs to be tuned and run: how problems are checked, which
candidates there are, how a plan is built and measured, and what an execution enqueues. An
algorithm is a plan with the parameters it was built from, or an empty place that a plan was
moved out of.

**Callbacks.** A ready algorithm holds at most one completion callback. The library knows a
callback only by a token of type `β`; the operations tell by `Notice`s when a callback is called
and when it is given up.
-/

namespace KernelTuning

/-- The capabilities of an algorithm on a device with state `δ`, for problems `Q`, plans `L`,
arguments `A` and results on the host `O`. -/
structure Primitive (δ Q L A O : Type) where
  name : String
  /-- The version of the parameter layout. -/
  formatVersion : UInt32
  device : DeviceProperties
  /-- Refuses problems that the device cannot run. -/
  validate : Q → Attempt Unit
  /-- The problem that stands for all problems that are tuned alike. -/
  canonical : Q → Q
  /-- The candidates for a canonical problem. -/
  candidates : Q → CandidateSpace
  build : Q → TuningParameters → Action δ L
  /-- The score of a plan on representative inputs. -/
  measure : L → Action δ Binary64
  /-- Enqueues an execution after some events, and gives the events of its commands. -/
  enqueue : L → A → List Event → Action δ (List Event × O)
  /-- What is to be told about a plan. -/
  details : L → List (String × String)

/-- How the parameters of an algorithm were found. -/
inductive Resolution where
  | cached (score : Binary64)
  | tuned (evaluated : Nat) (score : Binary64)
deriving DecidableEq

namespace Resolution

/-- The number of candidates measured. -/
def evaluated : Resolution → Nat
  | cached _ => 0
  | tuned evaluated _ => evaluated

def score : Resolution → Binary64
  | cached score => score
  | tuned _ score => score

end Resolution

/-- A plan that is ready to run. -/
structure ReadyAlgorithm (Q L β : Type) where
  problem : Q
  parameters : TuningParameters
  plan : L
  resolution : Resolution
  details : NameMap String
  /-- Why the parameters could not be stored, if so. -/
  persistError : Option CacheError
  callback : Option β

/-- An algorithm: ready, or disposed of. -/
inductive Algorithm (Q L β : Type) where
  | ready (state : ReadyAlgorithm Q L β)
  | disposed

/-- What happens to a callback. -/
inductive Notice (β : Type) where
  | called (callback : β) (event : Event)
  | released (callback : β)
deriving DecidableEq

namespace Algorithm

variable {δ Q L A O β : Type}

/-- The failure of every operation on an algorithm that was disposed of. -/
def disposedError (name : String) : Error :=
  .internal ("The " ++ name ++ " algorithm was moved from or disposed")

/-- The state of an algorithm with a given name, if it is ready. -/
def get (name : String) : Algorithm Q L β → Except Error (ReadyAlgorithm Q L β)
  | ready state => .ok state
  | disposed => .error (disposedError name)

def isReady : Algorithm Q L β → Bool
  | ready _ => true
  | disposed => false

/-- The failure to store the parameters, if there was one. -/
def persistError? : Algorithm Q L β → Option CacheError
  | ready state => state.persistError
  | disposed => none

/-- The callback that the algorithm holds. -/
def callback? : Algorithm Q L β → Option β
  | ready state => state.callback
  | disposed => none

/-- The notices of giving up the callback of an algorithm. -/
def release (a : Algorithm Q L β) : List (Notice β) := a.callback?.toList.map .released

/-! ## Ownership -/

/-- Moves the state out: the algorithm with the state, and the empty one left behind. -/
def take (a : Algorithm Q L β) : Algorithm Q L β × Algorithm Q L β := (a, disposed)

/-- Exchanges the states of two algorithms. -/
def swap (a b : Algorithm Q L β) : Algorithm Q L β × Algorithm Q L β := (b, a)

/-- Gives up the plan and the callback. -/
def dispose (a : Algorithm Q L β) : Algorithm Q L β × List (Notice β) := (disposed, a.release)

/-! ## Details and callbacks -/

/-- Changes the plan of a ready algorithm. -/
def modifyPlan (name : String) (f : L → L) (a : Algorithm Q L β) :
    Except Error (Algorithm Q L β) := do
  let state ← a.get name
  return ready { state with plan := f state.plan }

def setDetail (name detail value : String) (a : Algorithm Q L β) :
    Except Error (Algorithm Q L β) := do
  let state ← a.get name
  return ready { state with details := state.details.insert detail value }

/-- Installs a callback after giving up the former one. A disposed algorithm gives up the new
callback itself. -/
def setCallback (name : String) (callback : β) (a : Algorithm Q L β) :
    Except Error Unit × Algorithm Q L β × List (Notice β) :=
  match a with
  | ready state => (.ok (), ready { state with callback := some callback }, a.release)
  | disposed => (.error (disposedError name), disposed, [.released callback])

/-- Gives up the callback. -/
def clearCallback (name : String) (a : Algorithm Q L β) :
    Except Error Unit × Algorithm Q L β × List (Notice β) :=
  match a with
  | ready state => (.ok (), ready { state with callback := none }, a.release)
  | disposed => (.error (disposedError name), disposed, [])

/-! ## Execution -/

/-- Executes a ready algorithm after some events. The result is the event of its last command,
for which the callback is called. -/
def execute (p : Primitive δ Q L A O) (args : A) (waitFor : List Event) (a : Algorithm Q L β) :
    Action δ (Event × O × List (Notice β)) := do
  let state ← ExceptT.mk (pure ((a.get p.name).mapError .error))
  let (events, output) ← p.enqueue state.plan args waitFor
  match events.getLast? with
  | some event => return (event, output, state.callback.toList.map (.called · event))
  | none => throw (.error (.internal (p.name ++ " enqueued no command")))

end Algorithm

end KernelTuning
