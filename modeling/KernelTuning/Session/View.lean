import KernelTuning.Session.Algorithms
import KernelTuning.View

/-!
# Views of a session

The algorithms of a session, their plans, batch reports and faults, as JSON.
-/

namespace KernelTuning.View

def fault : Fault → Json
  | .request part => failure "bad_input" part
  | .form language => kind language
  | .error e => error e
  | .cache e => cacheError e
  | .launch e => launchError e
  | .io e => ioError e
  | .crash => crash

def resolution (r : Resolution) : Json :=
  let how := match r with
    | .cached _ => "cached"
    | .tuned _ _ => "tuned"
  .obj [("how", text how), ("score", score r.score), ("evaluated", .nat r.evaluated)]

/-! ## Times and records -/

/-- Whether a time is within a day of another one. -/
def isNear (now : Word) (t : Nat) : Bool := now.toNat - 86400 ≤ t && t ≤ now.toNat + 86400

/-- A time, by name if it is the current one. -/
def time (now t : Word) : Json := if isNear now t.toNat then text "now" else word t

/-- A text with zero for the current time after the first mark of a timestamp. -/
def withoutTime (now : Word) : List Char → List Char
  | [] => []
  | c :: rest =>
    let mark := "\"timestamp\": ".toList
    if mark.isPrefixOf (c :: rest) then
      let after := (c :: rest).drop mark.length
      let digits := (after.takeWhile (·.isDigit)).map fun d => d.toNat - 48
      if isNear now (Json.NumberLiteral.value digits) then
        mark ++ '0' :: after.dropWhile (·.isDigit)
      else c :: rest
    else c :: withoutTime now rest

/-- The content of a record: a text without the current time, or bytes. -/
def record (now : Word) (content : ByteArray) : Json :=
  match String.fromUTF8? content with
  | some s => text (String.ofList (withoutTime now s.toList))
  | none => .obj [("hex", bytes content.toList)]

/-! ## Algorithms -/

def details (d : NameMap String) : Json := types d

/-- The algorithm of a slot. -/
def slot (s : Slot) : Json :=
  s.elim fun {Q L} _ (a : Algorithm Q L Nat) =>
    match a with
    | .ready r => .obj [
        ("state", text "Ready"), ("problem", text (Problem.toText r.problem)),
        ("parameters", params r.parameters), ("resolution", resolution r.resolution),
        ("details", details r.details), ("persist_error", optional cacheError r.persistError)]
    | .disposed => .obj [
        ("state", text "Disposed"), ("debug", text (s.name ++ " \x7b state: \"disposed\" \x7d")),
        ("problem", error (Algorithm.disposedError s.name)), ("parameters_missing", .bool true),
        ("resolution_missing", .bool true), ("details_missing", .bool true),
        ("device_missing", .bool true), ("persist_error", .null)]

/-- A geometry on a device, with its block sizes for numbers of elements. -/
def scanGeometry (d : DeviceProperties) (elem : ElemType) (g : ScanGeometry)
    (elements : List Word) : Json :=
  withCheck (g.validate d elem) fun valid =>
    .obj [
      ("parameters", params g.toParameters), ("valid", valid),
      ("block_sizes", .arr (elements.map fun n => quotient word (g.blockSize? n)))]

def radixsortGeometry (g : RadixsortGeometry) : List (String × Json) :=
  [
    ("parameters", params g.toParameters), ("scatter_slice", word g.scatterSlice),
    ("radix", word g.radix), ("histogram_size", word g.histogramSize)]

/-- The sizes and numbers of blocks for numbers of elements. -/
def radixsortBlocks (g : RadixsortGeometry) (elements : List Word) : Json :=
  .arr (elements.map fun n =>
    match g.blockSize? n with
    | .error _ => crash
    | .ok size => quotient (fun blocks => .arr [word size, word blocks]) (g.blocks? n size))

/-- The fields of a plan, with the size of its blocks. -/
def planFields (blockSize : Option Word) : SlotPlan → List (String × Json)
  | .scan p => [
      ("parameters", params p.geometry.toParameters), ("block_size", optional word blockSize)]
  | .reduce p => [
      ("work_group_size", word p.workGroupSize), ("blocks", word p.blocks),
      ("block_size", optional word blockSize)]
  | .radixsort p => radixsortGeometry p.geometry
  | .probe p => [("work_group_size", word p.workGroupSize)]

/-- A plan on a device. -/
def plan (blockSize : Option Word) (d : DeviceProperties) : SlotPlan → Json
  | .probe p => word p.workGroupSize
  | p => .obj (planFields blockSize p ++ [("device", text d.fingerprint.digest)])

def build (r : BuildReport) : Json :=
  let measured : List (String × Json) := match r.score with
    | some result => [("score", attempt score result)]
    | none => []
  .obj ([("plan", .obj (planFields none r.plan)), ("details", details r.details)] ++ measured)

def tuneRecord (r : TuneRecord) : Json :=
  .arr [
    text r.target.algorithm, text r.target.toText,
    match r.result with
    | .ok found => resolution found
    | .error e => error e]

/-- A batch report, with or without its records. -/
def report (r : TuneReport) (withRecords : Bool) : Json :=
  .obj [
    ("tuned", .nat (r.countP TuneReport.isTuned)), ("cached", .nat (r.countP TuneReport.isCached)),
    ("failed", .nat (r.countP TuneReport.isFailed)), ("display", text r.toText),
    ("records", if withRecords then .arr (r.map tuneRecord) else .null)]

/-- A primitive, and what it makes of a problem with some candidates. -/
def primitive {δ Q L A O : Type} [Problem Q] (p : Primitive δ Q L A O) (problem : Q)
    (candidates : CandidateSpace) : Json :=
  withCheck (p.validate problem) fun valid =>
    .obj [
      ("algorithm", text p.name), ("version", .nat p.formatVersion.toNat),
      ("display", text (Problem.toText problem)), ("json", text (Json.compactText problem)),
      ("canonical", text (Problem.toText (p.canonical problem))), ("valid", valid),
      ("space", space candidates)]

/-- A target, and what its primitive makes of it. -/
def target (b : Backend) (t : Target) : Json :=
  (t.space b.properties) |> attempt fun candidates =>
    match t with
    | .scan problem => primitive (Scan.primitive b) problem candidates
    | .reduce problem => primitive (Reduce.primitive b) problem candidates
    | .radixsort problem => primitive (Radixsort.primitive b) problem candidates

/-- The targets of a device. -/
def targets (d : DeviceProperties) : Json :=
  attempt (fun l => texts (l.map Target.toText)) (Target.all d)

end KernelTuning.View
