import KernelTuning.Word

/-!
# Errors

The failures that callers see, as causes with a text each.

**Crashes.** `Failure ε` adds to the errors of an operation the crash, an abrupt end with an
optional text. A crash passes through every operation; only the measurement of a candidate
turns it into a failed candidate.
-/

namespace KernelTuning

/-- A failure of the tuning cache. Reading never fails: what cannot be read is missing. -/
inductive CacheError where
  | write (path reason : String)
  | serialize (path reason : String)
  | remove (path reason : String)
deriving DecidableEq

def CacheError.message : CacheError → String
  | write path reason => "Can't write the tuning record " ++ path ++ ": " ++ reason
  | serialize path reason => "Can't serialize the tuning record " ++ path ++ ": " ++ reason
  | remove path reason => "Can't remove tuning records under " ++ path ++ ": " ++ reason

/-- Why tuning gave no parameters. -/
inductive TuneError where
  /-- Tuning is switched off, and the cache has nothing. -/
  | disabled (algorithm device : String)
  | allCandidatesFailed (algorithm : String) (attempts : Nat) (last : String)
  /-- There is no candidate to try. -/
  | emptySpace (algorithm : String)
deriving DecidableEq

def TuneError.message : TuneError → String
  | disabled algorithm device =>
    "Autotuning is disabled and no cached parameters exist for " ++ algorithm ++ " on " ++ device
  | allCandidatesFailed algorithm attempts last =>
    "All " ++ toString attempts ++ " candidates failed while tuning " ++ algorithm
      ++ ", last failure: " ++ last
  | emptySpace algorithm => "No tuning candidate exists for " ++ algorithm ++ " on this device"

/-- A failure that a backend reports. -/
inductive LaunchError where
  | outOfResources (reason : String)
  | invalidConfiguration (reason : String)
  | compilation (program log : String)
  | unknown (reason : String)
deriving DecidableEq

def LaunchError.message : LaunchError → String
  | outOfResources reason => "Out of device resources: " ++ reason
  | invalidConfiguration reason => "Invalid launch configuration: " ++ reason
  | compilation program log => "Program " ++ program ++ " failed to compile: " ++ log
  | unknown reason => "Unknown backend error: " ++ reason

/-- The error of an operation. -/
inductive Error where
  /-- Invalid types or arguments, a disposed algorithm, or a failure of the device. -/
  | internal (reason : String)
  | cache (cause : CacheError)
  | tune (cause : TuneError)
deriving DecidableEq

namespace Error

def message : Error → String
  | internal reason => "Internal error\nCaused by:\n  " ++ reason
  | cache cause => "Tuning cache error\nCaused by:\n  " ++ cause.message
  | tune cause => "Tuning error\nCaused by:\n  " ++ cause.message

def ofLaunch (e : LaunchError) : Error := .internal e.message

end Error

/-- An error, or an abrupt end. -/
inductive Failure (ε : Type) where
  | error (e : ε)
  | crash (message : Option String)
deriving DecidableEq

namespace Failure

variable {ε δ : Type}

def map (f : ε → δ) : Failure ε → Failure δ
  | error e => .error (f e)
  | crash message => .crash message

/-- The end of arithmetic without a result. -/
def ofFault (fault : Word.Fault) : Failure ε := .crash (some fault.message)

end Failure

/-- An operation that may fail and may crash. -/
abbrev Attempt (α : Type) := Except (Failure Error) α

/-- An operation on a state that may fail and may crash. The state keeps what was done to it. -/
abbrev Action (σ α : Type) := ExceptT (Failure Error) (StateM σ) α

namespace Attempt

/-- Fails with an internal error. -/
def fail {α : Type} (reason : String) : Attempt α := .error (.error (.internal reason))

/-- Fails with an internal error unless a condition holds. -/
def ensure (condition : Bool) (reason : String) : Attempt Unit :=
  if condition then .ok () else fail reason

/-- Crashes where arithmetic has no result. -/
def ofArithmetic {α : Type} (result : Except Word.Fault α) : Attempt α :=
  result.mapError .ofFault

end Attempt

end KernelTuning
