import KernelTuning.Binary64.Decimal
import KernelTuning.Tuning.Parameters

/-!
# Reports of tuning runs

What a tuning run writes about itself: nothing, a first line, the first line with a line of
marks, or a line for every candidate. `Reporter.step` says which lines an event adds; the marks
of a run are kept until it ends.
-/

namespace KernelTuning

/-! ## Verbosities -/

/-- How much is written, in increasing order. -/
inductive Verbosity where
  | silent
  /-- One line per run. -/
  | terse
  /-- One line per run, and one with a mark per candidate. -/
  | normal
  /-- One line per candidate, and one for the selected parameters. -/
  | debug
deriving DecidableEq

namespace Verbosity

def name : Verbosity → String
  | silent => "silent"
  | terse => "terse"
  | normal => "normal"
  | debug => "debug"

def all : List Verbosity := [silent, terse, normal, debug]

/-- The place of a verbosity in the order. -/
def rank (v : Verbosity) : Nat := all.idxOf v

def ofName? (name : String) : Option Verbosity := all.find? (·.name = name)

/-- The verbosity of a name or of its rank. -/
def parse? (text : String) : Option Verbosity :=
  all.find? fun v => text = v.name || text = toString v.rank

instance : Json.Codec Verbosity where
  encode v := .str v.name
  decode? n := n.name?.bind ofName?

end Verbosity

/-- Where the lines of a report go. -/
inductive OutputSink where
  | stdout
  | stderr
  /-- The log of the program. -/
  | log
  /-- A file, to whose end lines are added. -/
  | file (path : String)
  /-- A text buffer in memory. -/
  | buffer
deriving DecidableEq

/-! ## Lines -/

/-- What happens in a tuning run. -/
inductive TuningEvent where
  | start (algorithm device : String)
  | candidate (parameters : TuningParameters) (score : Binary64)
  | failed (parameters : TuningParameters) (reason : String)
  | finish (selected : Option TuningParameters)
deriving DecidableEq

/-- A report in progress. -/
structure Reporter where
  verbosity : Verbosity
  /-- The marks of the candidates since the last line of marks. -/
  marks : String
deriving DecidableEq

namespace Reporter

def start (verbosity : Verbosity) : Reporter := ⟨verbosity, ""⟩

/-- The report after an event, and the lines that the event adds. -/
def step (r : Reporter) : TuningEvent → Reporter × List String
  | .start algorithm device =>
    (r, if r.verbosity = .silent then [] else ["Tuning " ++ algorithm ++ " on " ++ device])
  | .candidate parameters score =>
    match r.verbosity with
    | .normal => ({ r with marks := r.marks ++ "." }, [])
    | .debug => (r, ["  " ++ parameters.toText ++ ": " ++ score.fixed 3])
    | _ => (r, [])
  | .failed parameters reason =>
    match r.verbosity with
    | .normal => ({ r with marks := r.marks ++ "!" }, [])
    | .debug => (r, ["  " ++ parameters.toText ++ ": failed (" ++ reason ++ ")"])
    | _ => (r, [])
  | .finish selected =>
    match r.verbosity, selected with
    | .normal, _ => ({ r with marks := "" }, [r.marks])
    | .debug, some parameters => (r, ["Selected " ++ parameters.toText])
    | _, _ => (r, [])

/-- The lines of the events of a run. -/
def lines (r : Reporter) : List TuningEvent → List String
  | [] => []
  | event :: rest =>
    let (r', added) := r.step event
    added ++ r'.lines rest

end Reporter

end KernelTuning
