import KernelTuning.Host
import KernelTuning.Proofs.StagedSearch

/-!
# Reports of searches

A search tells what it does, as much as its policy asks for, and the telling changes nothing.

* `reportLines`: what is written about some calls at each verbosity, said by the calls alone and
  without a report in progress.
* `Tuner.liveSearch` writes every line as soon as it is due, between the calls. The search itself
  writes them all in the end; the two are the same program (`Tuner.search_eq_liveSearch`), since
  calls and lines act on different parts of the state.

**Theorem (`reportsPassively`).** Searches that differ in verbosity or sink make the same calls in
the same order and come to the same. A search writes exactly the lines of its calls into a buffer,
also if all of them fail, and nothing at all if it may not tune or has no candidates.
-/

namespace KernelTuning

open Search

/-! ## Live reports -/

namespace Tuner

variable {σ δ : Type}

/-- Writes lines one after the other. -/
def write (t : Tuner σ) (lines : List String) (s : σ) : σ :=
  lines.foldl (fun s line => t.emit t.policy.output line s) s

theorem write_append (t : Tuner σ) (first second : List String) (s : σ) :
    t.write (first ++ second) s = t.write second (t.write first s) := List.foldl_append

/-- Writes the lines that an event adds to a report. -/
def tell (t : Tuner σ) (told : Reporter × σ) (event : TuningEvent) : Reporter × σ :=
  ((told.1.step event).1, t.write (told.1.step event).2 told.2)

/-- Events that are told one after the other leave all lines of the report. -/
theorem foldl_tell (t : Tuner σ) (events : List TuningEvent) (r : Reporter) (s : σ) :
    (events.foldl t.tell (r, s)).2 = t.write (r.lines events) s := by
  induction events generalizing r s with
  | nil => rfl
  | cons event events ih =>
    rw [List.foldl_cons, tell, ih, ← write_append]
    rfl

/-- Tells a call as soon as it is over. -/
def watch (t : Tuner σ) (told : Reporter × σ) (call : Call) : Reporter × σ :=
  t.tell told (eventOf call.trial)

/-- A search that writes every line as soon as it is due. -/
def liveSearch (t : Tuner σ) (algorithm device : String) (space : CandidateSpace)
    (measure : Measure δ) : ExceptT TuneError (StateM (σ × δ)) TuneOutcome :=
  ExceptT.mk fun (s, d) =>
    if !t.policy.enabled then (.error (.disabled algorithm device), s, d)
    else if space.isEmpty then (.error (.emptySpace algorithm), s, d)
    else
      let told := t.tell (Reporter.start t.policy.verbosity, s) (.start algorithm device)
      let (trace, d, told) := (run (watched measure t.watch) space).run (d, told)
      (outcome algorithm trace, (t.tell told (.finish ((selected? trace).map (·.1)))).2, d)

/-- The report of a trace, event by event. -/
theorem report_traceOf (t : Tuner σ) (algorithm device : String) (calls : List (List Call))
    (s : σ) :
    t.report (events algorithm device (traceOf calls)) s =
      (t.tell (calls.flatten.foldl t.watch
        (t.tell (Reporter.start t.policy.verbosity, s) (.start algorithm device)))
        (.finish ((selected? (traceOf calls)).map (·.1)))).2 := by
  show t.write _ s = _
  rw [← foldl_tell, events, trials_traceOf, List.cons_append, List.foldl_cons, List.foldl_append,
    List.map_map, List.foldl_map]
  rfl

/-- **Lines may as well be written between the calls.** -/
theorem search_eq_liveSearch (t : Tuner σ) (algorithm device : String) (space : CandidateSpace)
    (measure : Measure δ) :
    t.search algorithm device space measure = t.liveSearch algorithm device space measure := by
  apply ext_exec
  rintro ⟨s, d⟩
  obtain ⟨calls, d', made, -⟩ := exists_makes_runStages measure space.base space.stages d
  have hrun : (run measure space).run d = (traceOf calls, d') := made.run
  have hlive (told : Reporter × σ) : (run (watched measure t.watch) space).run (d, told) =
      (traceOf calls, d', calls.flatten.foldl t.watch told) := made.seen _ _ told
  unfold search liveSearch
  rw [exec_mk, exec_mk]
  dsimp only
  rw [hrun, hlive]
  dsimp only
  rw [report_traceOf]

end Tuner

/-! ## The lines of some calls -/

namespace Search

/-- The mark of a call in a line of marks. -/
def Call.mark (c : Call) : String := if c.score?.isSome then "." else "!"

/-- The line of a call. -/
def Call.line (c : Call) : String :=
  match verdict c.answer with
  | .score x => "  " ++ c.candidate.toText ++ ": " ++ x.fixed 3
  | .failed reason => "  " ++ c.candidate.toText ++ ": failed (" ++ reason ++ ")"

/-- What a search writes that makes some calls and comes to a result. -/
def reportLines (algorithm device : String) (calls : List Call)
    (result : Except TuneError TuneOutcome) : Verbosity → List String
  | .silent => []
  | .terse => ["Tuning " ++ algorithm ++ " on " ++ device]
  | .normal => ["Tuning " ++ algorithm ++ " on " ++ device, String.join (calls.map Call.mark)]
  | .debug => ["Tuning " ++ algorithm ++ " on " ++ device] ++ calls.map Call.line ++
    (result.toOption.map fun outcome => "Selected " ++ outcome.parameters.toText).toList

/-- What a call does to a report. -/
theorem step_eventOf (verbosity : Verbosity) (marks : String) (c : Call) :
    (Reporter.mk verbosity marks).step (eventOf c.trial) =
      match verbosity with
      | .normal => (⟨.normal, marks ++ c.mark⟩, [])
      | .debug => (⟨.debug, marks⟩, [c.line])
      | v => (⟨v, marks⟩, []) := by
  rcases hverdict : verdict c.answer with x | reason
  · have hmark : c.mark = "." := by rw [Call.mark, Call.verdict_eq_score_iff.1 hverdict]; rfl
    cases verbosity <;> simp [eventOf, Call.trial, Call.line, Reporter.step, hverdict, hmark]
  · -- A failed trial has no score, also where the measurement gave an invalid one.
    have hmark : c.mark = "!" := by
      rcases hscore : c.score? with _ | x
      · rw [Call.mark, hscore]
        rfl
      · rw [Call.verdict_eq_score_iff.2 hscore] at hverdict
        cases hverdict
    cases verbosity <;> simp [eventOf, Call.trial, Call.line, Reporter.step, hverdict, hmark]

/-- The lines from the first call on. Only a line of marks depends on what was told before. -/
theorem lines_calls (verbosity : Verbosity) (marks : String) (calls : List Call)
    (selected : Option TuningParameters) :
    (Reporter.mk verbosity marks).lines (calls.map (eventOf ∘ Call.trial) ++ [.finish selected]) =
      match verbosity with
      | .normal => [marks ++ String.join (calls.map Call.mark)]
      | .debug => calls.map Call.line ++ (selected.map ("Selected " ++ ·.toText)).toList
      | _ => [] := by
  induction calls generalizing marks with
  | nil =>
    cases verbosity <;> rcases selected with _ | parameters <;>
      simp [Reporter.lines, Reporter.step]
  | cons c calls ih =>
    rw [List.map_cons, List.cons_append, Reporter.lines, Function.comp_apply, step_eventOf]
    cases verbosity <;> simp [ih, String.append_assoc]

/-- The report of a search, by its calls. -/
theorem lines_events (algorithm device : String) (calls : List (List Call))
    (verbosity : Verbosity) :
    (Reporter.start verbosity).lines (events algorithm device (traceOf calls)) =
      reportLines algorithm device calls.flatten (Tuner.outcome algorithm (traceOf calls))
        verbosity := by
  have hselected : (Tuner.outcome algorithm (traceOf calls)).toOption.map TuneOutcome.parameters =
      (selected? (traceOf calls)).map (·.1) := by
    rw [Tuner.outcome]
    rcases selected? (traceOf calls) with _ | ⟨parameters, score⟩ <;> rfl
  rw [events, trials_traceOf, List.map_map, List.cons_append, ← hselected, Reporter.lines]
  show _ ++ (Reporter.mk verbosity "").lines _ = _
  rw [lines_calls]
  cases verbosity <;> simp [reportLines, Reporter.start, Option.map_map, Function.comp_def]

example : reportLines "scan" "gpu" [⟨.single "a" 1, .error (.crash none)⟩,
    ⟨.single "a" 2, .error (.error "no room")⟩]
    (.error (.allCandidatesFailed "scan" 2 "no room")) .normal = ["Tuning scan on gpu", "!!"] := by
  decide

end Search

/-! ## Passive reports -/

/-- Lines in a buffer, one after the other. -/
def Host.appendLines (lines : List String) (h : Host) : Host :=
  { h with buffer := h.buffer ++ String.join (lines.map (· ++ "\n")) }

theorem Host.foldl_emit_buffer (lines : List String) (h : Host) :
    lines.foldl (fun h line => Host.emit .buffer line h) h = h.appendLines lines := by
  induction lines generalizing h with
  | nil => simp [appendLines]
  | cons line lines ih =>
    rw [List.foldl_cons, ih]
    simp [appendLines, emit, String.append_assoc]

namespace Search

variable {δ : Type}

/-- The calls and the result of a search are the same however it is reported, and the report is
made of nothing but them. -/
structure ReportsPassively (algorithm device : String) (space : CandidateSpace)
    (measure : Measure δ) (d : δ) (calls : List Call) (result : Except TuneError TuneOutcome)
    (d' : δ) : Prop where
  /-- Writing all lines in the end is the same as writing each one as soon as it is due. -/
  live : ∀ {τ : Type} (t : Tuner τ), t.search algorithm device space measure =
    t.liveSearch algorithm device space measure
  /-- Every search that may tune makes these calls and comes to this result. -/
  same : ∀ {τ : Type} (t : Tuner τ) (s : τ), t.policy.enabled = true →
    ∃ s', SearchMakes t algorithm device space measure s d calls result s' d'
  /-- The lines are appended to a buffer, and nothing else of the host changes. -/
  written : space.isEmpty = false →
    ∀ (storage : RecordStorage Host) (verbosity : Verbosity) (h : Host),
    SearchMakes (Host.tuner storage ⟨true, verbosity, .buffer⟩) algorithm device space measure h d
      calls result (h.appendLines (reportLines algorithm device calls result verbosity)) d'
  /-- Searches that may not tune or have no candidates leave everything as it is. -/
  unwritten : ∀ {τ : Type} (t : Tuner τ) (s : τ), t.policy.enabled = false ∨ space.isEmpty = true →
    ∃ e, exec (t.search algorithm device space measure) (s, d) = (.error e, s, d)

theorem exec_search_of_isEmpty {τ : Type} (t : Tuner τ) (s : τ) (d : δ) (measure : Measure δ)
    (algorithm device : String) {space : CandidateSpace} (on : t.policy.enabled = true)
    (empty : space.isEmpty = true) :
    exec (t.search algorithm device space measure) (s, d) =
      (.error (.emptySpace algorithm), s, d) := by
  unfold Tuner.search
  simp [on, empty]

theorem unwritten_search {τ : Type} (t : Tuner τ) (s : τ) (d : δ) (measure : Measure δ)
    (algorithm device : String) {space : CandidateSpace}
    (h : t.policy.enabled = false ∨ space.isEmpty = true) :
    ∃ e, exec (t.search algorithm device space measure) (s, d) = (.error e, s, d) := by
  rcases hon : t.policy.enabled with _ | _
  · exact ⟨_, Algorithm.exec_search_of_disabled t s d measure algorithm device space hon⟩
  · have hempty : space.isEmpty = true := h.resolve_left (by simp [hon])
    exact ⟨_, exec_search_of_isEmpty t s d measure algorithm device hon hempty⟩

/-- **Reports are passive and exact.** -/
theorem reportsPassively (algorithm device : String) (space : CandidateSpace) (measure : Measure δ)
    (d : δ) : ∃ calls result d',
      ReportsPassively algorithm device space measure d calls result d' := by
  -- A space without candidates is refused before any call, so nothing is reported.
  rcases hempty : space.isEmpty with _ | _
  · obtain ⟨calls, d', -, makes⟩ := exists_makes_search measure hempty algorithm device d
    exact ⟨calls.flatten, Tuner.outcome algorithm (traceOf calls), d', {
      live := fun t => t.search_eq_liveSearch algorithm device space measure
      same := fun t s on => ⟨_, makes s on⟩
      written := fun _ storage verbosity h => by
        rw [← lines_events, ← Host.foldl_emit_buffer]
        exact makes h rfl
      unwritten := fun t s => unwritten_search t s d measure algorithm device }⟩
  · exact ⟨[], .error (.emptySpace algorithm), d, {
      live := fun t => t.search_eq_liveSearch algorithm device space measure
      same := fun t s on => ⟨s, exec_search_of_isEmpty t s d measure algorithm device on hempty,
        fun notes => by rw [exec_search_of_isEmpty t s (d, notes) _ _ _ on hempty, List.append_nil],
        .nil d⟩
      written := fun nonempty => by rw [hempty] at nonempty; cases nonempty
      unwritten := fun t s => unwritten_search t s d measure algorithm device }⟩

end Search

end KernelTuning
