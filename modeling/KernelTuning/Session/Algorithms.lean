import KernelTuning.Session.Basic

/-!
# Algorithms of a session

The life of the algorithms in the slots of a session: they are made, moved, told callbacks,
executed and disposed of. What becomes of a callback is written into the log of the session, in
the order in which it happens.
-/

namespace KernelTuning

/-- A plan of one of the primitives. -/
inductive SlotPlan where
  | scan (plan : ScanPlan)
  | reduce (plan : ReducePlan)
  | radixsort (plan : RadixsortPlan)
  | probe (plan : ProbePlan)

namespace SlotPlan

/-- The block size for a number of elements, where the elements alone decide it. -/
def blockSize (p : SlotPlan) (elements : Word) : Attempt (Option Word) :=
  match p with
  | scan plan => (Attempt.ofArithmetic (plan.geometry.blockSize? elements)).map some
  | reduce plan => (Attempt.ofArithmetic (Reduce.blockSize? plan elements)).map some
  | radixsort _ => .ok none
  | probe _ => .ok none

end SlotPlan

/-- The plan of a ready algorithm in a slot. -/
def Slot.plan : Slot → Except Error SlotPlan
  | scan _ a => (a.get Scan.name).map fun s => .scan s.plan
  | reduce _ a => (a.get Reduce.name).map fun s => .reduce s.plan
  | radixsort _ a => (a.get Radixsort.name).map fun s => .radixsort s.plan
  | probe _ a => (a.get Probe.name).map fun s => .probe s.plan

/-- What an execution is about. Every primitive takes what concerns it. -/
structure ExecutionRequest where
  elements : Word
  buffer : Buffer
  waitFor : List Event
  /-- The offset of a scan. -/
  offset : ScanOffset := .zero
  /-- The first element of a reduction. -/
  first : Word := 0
  /-- The output of a reduction. -/
  output : ReduceOutput := .host 0
  /-- The values of a sort. -/
  values : Option Buffer := none
  /-- The number of bits to sort by. -/
  maxBits : UInt32 := 0

/-- What a plan that was built on its own is like. -/
structure BuildReport where
  plan : SlotPlan
  details : NameMap String
  /-- The score of the plan, if it was measured. -/
  score : Option (Attempt Binary64)

namespace SessionM

/-! ## Callbacks -/

/-- What a callback tells of a call, and the callback after it. -/
def called (c : Callback) (e : Event) : String × Callback :=
  let c := { c with calls := c.calls + 1 }
  let what := toString e.id ++ ":" ++ e.command
  (match c.kind with
    | .plain => c.name ++ " " ++ what
    | _ => c.name ++ " call " ++ toString c.calls ++ " " ++ what, c)

/-- What a callback tells when it is given up. -/
def released (c : Callback) : String :=
  match c.kind with
  | .summing => "free " ++ c.name ++ " after " ++ toString c.calls ++ " calls"
  | _ => "drop " ++ c.name

/-- Writes into the log what happens to a callback. -/
def log (notice : Notice Nat) : SessionM Unit :=
  modify fun s =>
    match notice with
    | .called i e =>
      match s.callbacks[i]? with
      | some c =>
        let (line, c) := called c e
        { s with callbacks := s.callbacks.set i c, callbackLog := line :: s.callbackLog }
      | none => s
    | .released i =>
      match s.callbacks[i]? with
      | some c => { s with callbackLog := released c :: s.callbackLog }
      | none => s

def notify (notices : List (Notice Nat)) : SessionM Unit := notices.forM log

def addCallback (c : Callback) : SessionM Nat :=
  modifyGet fun s => (s.callbacks.length, { s with callbacks := s.callbacks ++ [c] })

/-! ## Slots -/

/-- The slot with a name, which is a part of the request. -/
def slot (part name : String) : SessionM Slot := do require part ((← get).slots.get? name)

def setSlot (name : String) (slot : Slot) : SessionM Unit :=
  modify fun s => { s with slots := s.slots.insert name slot }

/-- Puts a slot in the place of another one, whose callback is given up. -/
def replaceSlot (name : String) (slot : Slot) : SessionM Unit := do
  let former := (← get).slots.get? name
  setSlot name slot
  match former with
  | some former => notify former.release
  | none => return

/-- An operation on the algorithm of a slot that tells what happens to callbacks. -/
def onSlot (name : String)
    (f : {Q L : Type} → String → Algorithm Q L Nat →
      Except Error Unit × Algorithm Q L Nat × List (Notice Nat)) : SessionM Unit := do
  let slot ← slot "slot" name
  let ((result, notices), slot) := slot.update fun a =>
    let (result, a, notices) := f slot.name a
    ((result, notices), a)
  setSlot name slot
  notify notices
  ofExcept .error result

/-! ## Making and moving algorithms -/

/-- Makes an algorithm for a target. -/
def create (name : String) (i : Nat) (target : Target) : SessionM Slot := do
  let tuner := (← get).tuner
  let now := (← get).clock
  let slot ← match target with
    | .scan q =>
      pure (.scan i (← onBoth i fun b => Algorithm.create (Scan.primitive b) tuner now q))
    | .reduce q =>
      pure (.reduce i (← onBoth i fun b => Algorithm.create (Reduce.primitive b) tuner now q))
    | .radixsort q =>
      pure (.radixsort i
        (← onBoth i fun b => Algorithm.create (Radixsort.primitive b) tuner now q))
  replaceSlot name slot
  return slot

/-- Makes a probe. -/
def createProbe (name : String) (i : Nat) (problem : String) : SessionM Slot := do
  let tuner := (← get).tuner
  let now := (← get).clock
  let slot := .probe i
    (← onBoth i fun b => Algorithm.create (Probe.primitive b) tuner now problem)
  replaceSlot name slot
  return slot

/-- Moves the algorithm of a slot to another one. -/
def takeSlot (name target : String) : SessionM Slot := do
  let (taken, left) := (← slot "slot" name).take
  setSlot name left
  replaceSlot target taken
  return taken

/-- Exchanges the algorithms of two slots. The second one is lost if there is no first one. -/
def swapSlots (name target : String) : SessionM Unit := do
  let other ← slot "to" target
  modify fun s => { s with slots := s.slots.erase target }
  match (← get).slots.get? name with
  | none =>
    notify other.release
    throw (.request "slot")
  | some slot =>
    match slot.swap? other with
    | some (slot, other) =>
      setSlot name slot
      setSlot target other
    | none =>
      setSlot target other
      throw (.request "swap")

def disposeSlot (name : String) : SessionM Unit :=
  onSlot name fun _ a => (.ok (), a.dispose)

/-! ## Details, callbacks and temporaries -/

def setDetail (name detail value : String) : SessionM Unit :=
  onSlot name fun algorithm a =>
    match a.setDetail algorithm detail value with
    | .ok a => (.ok (), a, [])
    | .error e => (.error e, a, [])

def setCallback (name : String) (c : Callback) : SessionM Unit := do
  let _ ← slot "slot" name
  let i ← addCallback c
  onSlot name fun algorithm a => a.setCallback algorithm i

def clearCallback (name : String) : SessionM Unit :=
  onSlot name fun algorithm a => a.clearCallback algorithm

/-- Provides the temporary buffers of a radix sort. -/
def setTemporaries (name : String) (keys values : Option Buffer) : SessionM Unit := do
  match ← slot "slot" name with
  | .radixsort i a =>
    let a ← ofExcept .error (a.modifyPlan Radixsort.name (Radixsort.setTemporaries keys values))
    setSlot name (.radixsort i a)
  | _ => throw (.request "slot")

/-! ## Execution -/

/-- Ends an execution: its callbacks are told, and its event is kept. -/
def finish {O : Type} (result : Attempt (Event × O × List (Notice Nat))) :
    SessionM (Except Fault Event × Option O) := do
  match result with
  | .error e => return (.error (.ofFailure .error e), none)
  | .ok (e, output, notices) =>
    notify notices
    return (.ok (← addEvent e), some output)

/-- What the host finds in the memory that a reduction was to fill, which holds bytes of ones
before. It is as before after an error, and gone with a crash. -/
def hostMemory (output : ReduceOutput) (bytes : Option (List UInt8)) :
    Except Fault Event → Option (List UInt8)
  | .error .crash => none
  | _ =>
    match output with
    | .host size => some (bytes.getD (List.replicate size 0xff))
    | .buffer _ _ => none

/-- Executes the algorithm of a slot. The second result is the memory of the host after a
reduction to the host. -/
def execute (name : String) (r : ExecutionRequest) :
    SessionM (Except Fault Event × Option (List UInt8)) := do
  match ← slot "slot" name with
  | .scan i a =>
    let (result, _) ← finish (← tryDevice i fun b =>
      a.execute (Scan.primitive b) ⟨r.buffer, r.elements, r.offset⟩ r.waitFor)
    return (result, none)
  | .reduce i a =>
    let (result, bytes) ← finish (← tryDevice i fun b =>
      a.execute (Reduce.primitive b) ⟨r.buffer, r.first, r.elements, r.output⟩ r.waitFor)
    return (result, hostMemory r.output bytes.join result)
  | .radixsort i a =>
    let (result, _) ← finish (← tryDevice i fun b =>
      a.execute (Radixsort.primitive b) ⟨⟨r.buffer, r.values⟩, r.elements, r.maxBits⟩ r.waitFor)
    return (result, none)
  | .probe i a =>
    let (result, _) ← finish (← tryDevice i fun b =>
      a.execute (Probe.primitive b) ⟨r.buffer, r.elements⟩ r.waitFor)
    return (result, none)

/-! ## Building without tuning -/

/-- Builds a plan from parameters, and measures it. -/
def buildWith {Q L A O : Type} (i : Nat) (p : Primitive Recorder Q L A O) (wrap : L → SlotPlan)
    (q : Q) (parameters : TuningParameters) (measured : Bool) : SessionM BuildReport := do
  let plan ← onDevice i fun _ => p.build q parameters
  let details := SortedMap.ofList (p.details plan)
  if measured then
    return ⟨wrap plan, details, some (← tryDevice i fun _ => p.measure plan)⟩
  else return ⟨wrap plan, details, none⟩

/-- Builds a plan from parameters that may be chosen by the candidates. -/
def build (i : Nat) (target : Target)
    (choose : Attempt CandidateSpace → Attempt TuningParameters) (measured : Bool) :
    SessionM BuildReport := do
  let b := (← device i).backend
  let parameters ← onDevice i fun _ => Device.attempt (choose (target.space b.properties))
  match target with
  | .scan q => buildWith i (Scan.primitive b) .scan q parameters measured
  | .reduce q => buildWith i (Reduce.primitive b) .reduce q parameters measured
  | .radixsort q => buildWith i (Radixsort.primitive b) .radixsort q parameters measured

/-! ## Batches -/

/-- Finds the parameters of targets in turn. -/
def tuneTargets (i : Nat) (targets : List Target) : SessionM TuneReport := do
  let s ← get
  onBoth i fun b => Batch.tuneTargets b s.tuner s.clock targets

/-- Finds the parameters of everything that a device supports. -/
def tuneDevice (i : Nat) : SessionM TuneReport := do
  let s ← get
  onBoth i fun b => Batch.tuneDevice b s.tuner s.clock

end SessionM

end KernelTuning
