import KernelTuning.Proofs.LowestScores
import KernelTuning.Tuning.Script

/-!
# The calls of a search

What a search asks of a device, and how its outcome follows from the answers. The trace of a search
keeps what a trial came to; the calls keep the answers themselves, in the order of the calls and
stage by stage. Nothing is assumed of the device: its answers may depend on all earlier calls, fail,
crash, or be numbers that are no scores.

* `Answered`: calls one after the other, each in the state that the call before it has left.
* `Staged`: every stage measures its candidates in order, each on the current parameters, and the
  first call with the lowest valid score (`FirstLowest`) gives the current parameters of the next
  stage. A stage without a valid score changes nothing (`Continues`).
* `watched` lets a watcher see the calls of a measurement; `recorded` notes them. A search with it
  comes to the same (`SearchMakes`), so the calls are those that a search makes, and not only some
  that fit.

**Theorem (`searchesInStages_search`).** A search makes exactly such calls, one for each candidate
of the space. It fails if and only if none of them has a valid score, with the reason of the last
call; otherwise it selects the first call with the lowest score of the last stage that has a valid
one.
-/

namespace KernelTuning

namespace Search

/-! ## Calls -/

/-- A measurement of a candidate, with the answer of the device. -/
structure Call where
  candidate : TuningParameters
  answer : Except (Failure String) Binary64

namespace Call

/-- The score of a call, if the answer is a valid one. -/
def score? (c : Call) : Option Binary64 := c.answer.toOption.filter isValidScore

/-- What a search keeps of a call. -/
def trial (c : Call) : Trial := ⟨c.candidate, verdict c.answer⟩

theorem verdict_eq_score_iff {c : Call} {x : Binary64} :
    verdict c.answer = .score x ↔ c.score? = some x := by
  obtain ⟨candidate, (reason | _ | message) | y⟩ := c
  · simp [verdict, score?, Except.toOption]
  · simp [verdict, score?, Except.toOption]
  · simp [verdict, score?, Except.toOption]
  · show (if isValidScore y then Verdict.score y else .failed _) = .score x ↔
      Option.filter isValidScore (some y) = some x
    by_cases h : isValidScore y = true
    · rw [if_pos h, Option.filter_some_pos h, Verdict.score.injEq, Option.some.injEq]
    · rw [if_neg h, Option.filter_some_neg (by simpa using h)]
      simp

theorem verdict_eq_failed {c : Call} (h : c.score? = none) :
    ∃ reason, verdict c.answer = .failed reason := by
  rcases hverdict : verdict c.answer with x | reason
  · rw [verdict_eq_score_iff.1 hverdict] at h
    cases h
  · exact ⟨reason, rfl⟩

theorem isFinite_of_score? {c : Call} {x : Binary64} (h : c.score? = some x) :
    x.isFinite = true :=
  isFinite_of_isValidScore (isValidScore_of_verdict (verdict_eq_score_iff.2 h))

end Call

variable {σ : Type} {measure : Measure σ}

/-- Calls made one after the other, between two states of the device. -/
inductive Answered (measure : Measure σ) : σ → List Call → σ → Prop
  | nil (s : σ) : Answered measure s [] s
  | cons {s s₁ s' : σ} {call : Call} {calls : List Call} :
      exec (measure call.candidate) s = (call.answer, s₁) → Answered measure s₁ calls s' →
      Answered measure s (call :: calls) s'

theorem Answered.append {s s₁ s' : σ} {first second : List Call} (h₁ : Answered measure s first s₁)
    (h₂ : Answered measure s₁ second s') : Answered measure s (first ++ second) s' := by
  induction h₁ with
  | nil => exact h₂
  | cons answer _ ih => exact .cons answer (ih h₂)

/-- A measurement with a watcher, whose state is changed by every call. -/
def watched (measure : Measure σ) {τ : Type} (watch : τ → Call → τ) : Measure (σ × τ) :=
  fun candidate => ExceptT.mk fun (s, x) =>
    ((exec (measure candidate) s).1, (exec (measure candidate) s).2,
      watch x ⟨candidate, (exec (measure candidate) s).1⟩)

/-- The measurement with a note of every call, the latest last. -/
def recorded (measure : Measure σ) : Measure (σ × List Call) :=
  watched measure fun notes call => notes ++ [call]

theorem foldl_notes (calls notes : List Call) :
    calls.foldl (fun notes call => notes ++ [call]) notes = notes ++ calls := by
  rw [List.foldl_append_eq_append, ← List.flatMap_def, List.flatMap_singleton']

/-- A program makes some calls of a measurement, and comes to `a`. The same program with a watcher
comes to the same, and the watcher sees exactly these calls. -/
structure Makes {α : Type} (measure : Measure σ) (program : StateM σ α)
    (watching : (τ : Type) → (τ → Call → τ) → StateM (σ × τ) α) (s : σ) (calls : List Call) (a : α)
    (s' : σ) : Prop where
  run : program.run s = (a, s')
  seen : ∀ (τ : Type) (watch : τ → Call → τ) (x : τ),
    (watching τ watch).run (s, x) = (a, s', calls.foldl watch x)
  answered : Answered measure s calls s'

namespace Makes

variable {α β : Type} {program : StateM σ α}
  {watching : (τ : Type) → (τ → Call → τ) → StateM (σ × τ) α} {s s₁ s' : σ}
  {first second : List Call} {a : α} {b : β}

theorem pure (a : α) (s : σ) :
    Makes measure (Pure.pure a) (fun _ _ => Pure.pure a) s [] a s where
  run := rfl
  seen _ _ _ := rfl
  answered := .nil s

theorem bind {next : α → StateM σ β}
    {watching' : (τ : Type) → (τ → Call → τ) → α → StateM (σ × τ) β}
    (h₁ : Makes measure program watching s first a s₁)
    (h₂ : Makes measure (next a) (fun τ watch => watching' τ watch a) s₁ second b s') :
    Makes measure (program >>= next) (fun τ watch => watching τ watch >>= watching' τ watch) s
      (first ++ second) b s' where
  run := by
    show ((next (program.run s).1).run (program.run s).2) = _
    rw [h₁.run]
    exact h₂.run
  seen τ watch x := by
    show ((watching' τ watch ((watching τ watch).run (s, x)).1).run
      ((watching τ watch).run (s, x)).2) = _
    rw [h₁.seen, List.foldl_append]
    exact h₂.seen τ watch _
  answered := h₁.answered.append h₂.answered

theorem map (f : α → β) (h : Makes measure program watching s first a s') :
    Makes measure (do return f (← program)) (fun τ watch => do return f (← watching τ watch)) s
      first (f a) s' :=
  List.append_nil first ▸ h.bind (.pure (f a) s')

theorem trial (measure : Measure σ) (candidate : TuningParameters) (s : σ) :
    let call : Call := ⟨candidate, (exec (measure candidate) s).1⟩
    Makes measure (runTrial measure candidate)
      (fun _ watch => runTrial (watched measure watch) candidate) s [call] call.trial
      (exec (measure candidate) s).2 where
  run := rfl
  seen _ _ _ := rfl
  answered := .cons rfl (.nil _)

end Makes

/-! ## The first lowest score -/

/-- The call has a valid score, no call has a lower one, and none before it has an equal one. -/
def FirstLowest (calls : List Call) (best : Call) (score : Binary64) : Prop :=
  best.score? = some score ∧ ∃ earlier later, calls = earlier ++ best :: later ∧
    (∀ c ∈ earlier, ∀ x ∈ c.score?, Binary64.lt score x = true) ∧
    ∀ c ∈ later, ∀ x ∈ c.score?, Binary64.le score x = true

theorem FirstLowest.mem {calls : List Call} {best : Call} {score : Binary64}
    (h : FirstLowest calls best score) : best ∈ calls := by
  obtain ⟨-, earlier, later, rfl, -⟩ := h
  simp

theorem FirstLowest.le {calls : List Call} {best : Call} {score : Binary64}
    (h : FirstLowest calls best score) {c : Call} (hc : c ∈ calls) {x : Binary64}
    (hx : c.score? = some x) : Binary64.le score x = true := by
  obtain ⟨hscore, earlier, later, rfl, hearlier, hlater⟩ := h
  have hfinite := Call.isFinite_of_score? hscore
  rcases List.mem_append.1 hc with hc | hc
  · exact (Binary64.le_iff hfinite (Call.isFinite_of_score? hx)).2
      (Int.le_of_lt ((Binary64.lt_iff hfinite (Call.isFinite_of_score? hx)).1 (hearlier c hc x hx)))
  · rcases List.mem_cons.1 hc with rfl | hc
    · obtain rfl := Option.some.inj (hscore.symm.trans hx)
      exact (Binary64.le_iff hfinite hfinite).2 (Int.le_refl _)
    · exact hlater c hc x hx

/-- What a search holds after some calls of a stage: nothing if none of them has a valid score, else
the first one with the lowest score. -/
def IsBest (calls : List Call) : Option (TuningParameters × Binary64) → Prop
  | none => ∀ c ∈ calls, c.score? = none
  | some found => ∃ best, best.candidate = found.1 ∧ FirstLowest calls best found.2

/-- One more call keeps what a search holds. -/
theorem IsBest.concat {calls : List Call} {held : Option (TuningParameters × Binary64)}
    (h : IsBest calls held) (c : Call) : IsBest (calls ++ [c]) (better held c.trial) := by
  rcases hscore : c.score? with _ | x
  · -- A call without a valid score is passed over.
    obtain ⟨reason, hverdict⟩ := Call.verdict_eq_failed hscore
    rw [show better held c.trial = held by simp [better, Call.trial, hverdict]]
    rcases held with _ | ⟨parameters, lowest⟩
    · intro c' hc'
      rcases List.mem_append.1 hc' with hc' | hc'
      · exact h c' hc'
      · exact List.mem_singleton.1 hc' ▸ hscore
    · obtain ⟨best, hcandidate, hbest, earlier, later, rfl, hearlier, hlater⟩ := h
      refine ⟨best, hcandidate, hbest, earlier, later ++ [c], by simp, hearlier, ?_⟩
      intro c' hc' x hx
      rcases List.mem_append.1 hc' with hc' | hc'
      · exact hlater c' hc' x hx
      · rw [List.mem_singleton.1 hc', hscore] at hx
        cases hx
  · have hverdict := Call.verdict_eq_score_iff.2 hscore
    have hx := Call.isFinite_of_score? hscore
    rcases held with _ | ⟨parameters, lowest⟩
    · rw [show better none c.trial = some (c.candidate, x) by simp [better, Call.trial, hverdict]]
      refine ⟨c, rfl, hscore, calls, [], rfl, fun c' hc' y hy => ?_, by simp⟩
      rw [h c' hc'] at hy
      cases hy
    · obtain ⟨best, hcandidate, hfirst⟩ := h
      have hlowest := Call.isFinite_of_score? hfirst.1
      rw [show better (some (parameters, lowest)) c.trial =
        if Binary64.lt x lowest then some (c.candidate, x) else some (parameters, lowest) by
          simp [better, Call.trial, hverdict]]
      split <;> rename_i hlt
      · -- A lower score is below all scores so far.
        refine ⟨c, rfl, hscore, calls, [], rfl, fun c' hc' y hy => ?_, by simp⟩
        have hy' := Call.isFinite_of_score? hy
        rw [Binary64.lt_iff hx hy']
        exact Int.lt_of_lt_of_le ((Binary64.lt_iff hx hlowest).1 hlt)
          ((Binary64.le_iff hlowest hy').1 (hfirst.le hc' hy))
      · -- A score that is not lower, equal ones included, comes after the one that is held.
        obtain ⟨hbest, earlier, later, rfl, hearlier, hlater⟩ := hfirst
        refine ⟨best, hcandidate, hbest, earlier, later ++ [c], by simp, hearlier, ?_⟩
        intro c' hc' y hy
        rcases List.mem_append.1 hc' with hc' | hc'
        · exact hlater c' hc' y hy
        · obtain rfl := List.mem_singleton.1 hc'
          obtain rfl := Option.some.inj (hscore.symm.trans hy)
          rw [Binary64.le_iff hlowest hx, ← Int.not_lt, ← Binary64.lt_iff hx hlowest]
          exact hlt

/-- A search holds the best of all calls at the end of a stage. -/
theorem isBest_best? (calls : List Call) : IsBest calls (best? (calls.map Call.trial)) := by
  induction calls using List.reverseRecOn with
  | nil => exact fun _ h => by cases h
  | append_singleton calls c ih =>
    rw [best?, List.map_append, List.foldl_append]
    exact ih.concat c

/-! ## Stages -/

/-- The current parameters after a stage, by its calls. -/
inductive Continues (current : TuningParameters) (calls : List Call) : TuningParameters → Prop
  | best {best : Call} {score : Binary64} :
      FirstLowest calls best score → Continues current calls best.candidate
  | kept : (∀ c ∈ calls, c.score? = none) → Continues current calls current

/-- The calls of stages from the current parameters on. -/
inductive Staged : TuningParameters → List (List TuningParameters) → List (List Call) → Prop
  | nil (current : TuningParameters) : Staged current [] []
  | cons {current next : TuningParameters} {stage : List TuningParameters} {calls : List Call}
      {stages : List (List TuningParameters)} {rest : List (List Call)} :
      calls.map Call.candidate = stage.map current.merged → Continues current calls next →
      Staged next stages rest → Staged current (stage :: stages) (calls :: rest)

/-- There is one call for each candidate. -/
theorem Staged.length_flatten {current : TuningParameters} {stages : List (List TuningParameters)}
    {calls : List (List Call)} (h : Staged current stages calls) :
    calls.flatten.length = stages.flatten.length := by
  induction h with
  | nil => rfl
  | cons hcandidates _ _ ih =>
    have hlength := congrArg List.length hcandidates
    rw [List.length_map, List.length_map] at hlength
    rw [List.flatten_cons, List.flatten_cons, List.length_append, List.length_append, hlength, ih]

theorem continues_best? (current : TuningParameters) (calls : List Call) :
    Continues current calls ((best? (calls.map Call.trial)).elim current (·.1)) := by
  have h := isBest_best? calls
  generalize best? (calls.map Call.trial) = held at h
  rcases held with _ | found
  · exact .kept h
  · obtain ⟨best, hcandidate, hfirst⟩ := h
    show Continues current calls found.1
    exact hcandidate ▸ .best hfirst

/-- The calls of one stage. -/
theorem exists_makes_mapM (measure : Measure σ) (current : TuningParameters)
    (stage : List TuningParameters) (s : σ) :
    ∃ calls s', Makes measure (stage.mapM fun o => runTrial measure (current.merged o))
        (fun _ watch => stage.mapM fun o => runTrial (watched measure watch) (current.merged o)) s
        calls (calls.map Call.trial) s' ∧
      calls.map Call.candidate = stage.map current.merged := by
  induction stage generalizing s with
  | nil => exact ⟨[], s, .pure [] s, rfl⟩
  | cons overrides stage ih =>
    have first := Makes.trial measure (current.merged overrides) s
    obtain ⟨calls, s', rest, hcandidates⟩ := ih (exec (measure (current.merged overrides)) s).2
    refine ⟨⟨current.merged overrides, (exec (measure (current.merged overrides)) s).1⟩ :: calls,
      s', ?_, by rw [List.map_cons, List.map_cons, hcandidates]⟩
    simp only [List.mapM_cons]
    refine first.bind ?_
    exact rest.map _

/-- The calls of all stages. -/
theorem exists_makes_runStages (measure : Measure σ) (current : TuningParameters)
    (stages : List (List TuningParameters)) (s : σ) :
    ∃ calls s', Makes measure (runStages measure current stages)
        (fun _ watch => runStages (watched measure watch) current stages) s calls.flatten
        (calls.map fun stage => stage.map Call.trial) s' ∧
      Staged current stages calls := by
  induction stages generalizing current s with
  | nil => exact ⟨[], s, .pure [] s, .nil current⟩
  | cons stage stages ih =>
    obtain ⟨calls, s₁, first, hcandidates⟩ := exists_makes_mapM measure current stage s
    obtain ⟨later, s', rest, hstaged⟩ := ih ((best? (calls.map Call.trial)).elim current (·.1)) s₁
    refine ⟨calls :: later, s', ?_, .cons hcandidates (continues_best? current calls) hstaged⟩
    refine first.bind ?_
    exact rest.map _

/-! ## Outcomes -/

/-- The trace of some calls. -/
def traceOf (calls : List (List Call)) : Trace := calls.map fun stage => stage.map Call.trial

theorem trials_traceOf (calls : List (List Call)) :
    trials (traceOf calls) = calls.flatten.map Call.trial := List.map_flatten.symm

/-- What a search has selected after some stages: nothing without a valid score, else the best call
of the last stage that has one. -/
def IsSelected (calls : List (List Call)) : Option (TuningParameters × Binary64) → Prop
  | none => ∀ c ∈ calls.flatten, c.score? = none
  | some found => ∃ earlier stage later best, calls = earlier ++ stage :: later ∧
      (∀ c ∈ later.flatten, c.score? = none) ∧ FirstLowest stage best found.2 ∧
      best.candidate = found.1

/-- One more stage keeps what a search has selected. -/
theorem IsSelected.concat {calls : List (List Call)}
    {selected held : Option (TuningParameters × Binary64)} (h : IsSelected calls selected)
    {stage : List Call} (best : IsBest stage held) :
    IsSelected (calls ++ [stage]) (held.or selected) := by
  rcases held with _ | found
  · rcases selected with _ | found
    · intro c hc
      rw [List.flatten_append, List.mem_append, List.flatten_singleton] at hc
      exact hc.elim (h c) (best c)
    · obtain ⟨earlier, last, later, call, rfl, hlater, hfirst, hcandidate⟩ := h
      refine ⟨earlier, last, later ++ [stage], call, by simp, fun c hc => ?_, hfirst, hcandidate⟩
      rw [List.flatten_append, List.mem_append, List.flatten_singleton] at hc
      exact hc.elim (hlater c) (best c)
  · obtain ⟨call, hcandidate, hfirst⟩ := best
    exact ⟨calls, stage, [], call, rfl, by simp, hfirst, hcandidate⟩

theorem isSelected_selected? (calls : List (List Call)) :
    IsSelected calls (selected? (traceOf calls)) := by
  induction calls using List.reverseRecOn with
  | nil => exact fun _ h => by cases h
  | append_singleton calls stage ih =>
    rw [traceOf, List.map_append, List.map_singleton, selected?_concat]
    exact ih.concat (isBest_best? stage)

/-- The reason of the last call, if it failed. -/
theorem lastFailure_traceOf {calls : List (List Call)} {last : Call}
    (h : calls.flatten.getLast? = some last) {reason : String}
    (failed : verdict last.answer = .failed reason) : lastFailure (traceOf calls) = reason := by
  obtain ⟨earlier, hsplit⟩ := List.getLast?_eq_some_iff.1 h
  rw [lastFailure, trials_traceOf, hsplit, List.map_append, List.foldl_append]
  simp only [List.map_cons, List.map_nil, List.foldl_cons, List.foldl_nil, Call.trial, failed]

/-- What a search of a space comes to, by the calls that it makes. -/
structure SearchesInStages (algorithm : String) (space : CandidateSpace) (calls : List (List Call))
    (result : Except TuneError TuneOutcome) : Prop where
  /-- The calls are those of the stages in their order. -/
  staged : Staged space.base space.stages calls
  /-- There is one call for each candidate of the space. -/
  size : calls.flatten.length = space.size
  /-- Searches fail exactly if no call has a valid score. -/
  fails_iff : (∃ e, result = .error e) ↔ ∀ c ∈ calls.flatten, c.score? = none
  /-- The error counts all calls and has the reason of the last one. -/
  failure : ∀ e, result = .error e → ∃ last reason, calls.flatten.getLast? = some last ∧
    verdict last.answer = .failed reason ∧ e = .allCandidatesFailed algorithm space.size reason
  /-- The outcome is the best call of the last stage that has a valid score. -/
  selection : ∀ outcome, result = .ok outcome →
    outcome.evaluated = space.size ∧ outcome.persistError = none ∧
    ∃ earlier stage later best, calls = earlier ++ stage :: later ∧
      (∀ c ∈ later.flatten, c.score? = none) ∧ FirstLowest stage best outcome.score ∧
      best.candidate = outcome.parameters

theorem size_pos_of_isEmpty {space : CandidateSpace} (nonempty : space.isEmpty = false) :
    0 < space.size := by
  obtain ⟨hstages, hstage⟩ := Algorithm.stages_of_isEmpty nonempty
  obtain ⟨stage, rest, hsplit⟩ := List.exists_cons_of_ne_nil hstages
  have hlength := List.length_pos_iff.2 (hstage stage (hsplit ▸ List.mem_cons_self))
  rw [CandidateSpace.size, hsplit, List.flatten_cons, List.length_append]
  omega

/-- The outcome of a trace, by the calls of the trace. -/
theorem searchesInStages_outcome (algorithm : String) {space : CandidateSpace}
    (nonempty : space.isEmpty = false) {calls : List (List Call)}
    (staged : Staged space.base space.stages calls) :
    SearchesInStages algorithm space calls (Tuner.outcome algorithm (traceOf calls)) := by
  have hsize : calls.flatten.length = space.size := staged.length_flatten
  have hevaluated : evaluated (traceOf calls) = space.size := by
    rw [evaluated, trials_traceOf, List.length_map, hsize]
  have hselected := isSelected_selected? calls
  unfold Tuner.outcome
  rw [hevaluated]
  generalize selected? (traceOf calls) = selected at hselected
  rcases selected with _ | ⟨parameters, score⟩
  · -- The space is not empty, so there is a last call, and it failed.
    have hne : calls.flatten ≠ [] :=
      List.length_pos_iff.1 (hsize ▸ size_pos_of_isEmpty nonempty)
    obtain ⟨last, hlast⟩ : ∃ last, calls.flatten.getLast? = some last :=
      ⟨_, List.getLast?_eq_some_getLast hne⟩
    obtain ⟨reason, hreason⟩ :=
      Call.verdict_eq_failed (hselected last (List.mem_of_getLast? hlast))
    rw [lastFailure_traceOf hlast hreason]
    exact {
      staged
      size := hsize
      fails_iff := iff_of_true ⟨_, rfl⟩ hselected
      failure := fun e h => ⟨last, reason, hlast, hreason, (Except.error.inj h).symm⟩
      selection := fun outcome h => nomatch h }
  · obtain ⟨earlier, stage, later, best, hsplit, hlater, hfirst, hcandidate⟩ := hselected
    have hmem : best ∈ calls.flatten := by
      rw [hsplit]
      exact List.mem_flatten_of_mem (by simp) hfirst.mem
    have hnot : ¬ ∀ c ∈ calls.flatten, c.score? = none := fun hnone => by
      have hbest := hnone best hmem
      rw [hfirst.1] at hbest
      cases hbest
    exact {
      staged
      size := hsize
      fails_iff := iff_of_false (fun ⟨_, h⟩ => nomatch h) hnot
      failure := fun e h => nomatch h
      selection := fun outcome h => by
        obtain rfl := Except.ok.inj h
        exact ⟨rfl, rfl, earlier, stage, later, best, hsplit, hlater, hfirst, hcandidate⟩ }

/-- A search makes some calls and comes to a result. Recording the calls changes nothing else. -/
structure SearchMakes {τ : Type} (t : Tuner τ) (algorithm device : String) (space : CandidateSpace)
    (measure : Measure σ) (s : τ) (d : σ) (calls : List Call)
    (result : Except TuneError TuneOutcome) (s' : τ) (d' : σ) : Prop where
  run : exec (t.search algorithm device space measure) (s, d) = (result, s', d')
  noted : ∀ notes, exec (t.search algorithm device space (recorded measure)) (s, d, notes) =
    (result, s', d', notes ++ calls)
  answered : Answered measure d calls d'

/-- The calls of a search of a space are those of its stages, whatever the tuner writes. -/
theorem exists_makes_search (measure : Measure σ) {space : CandidateSpace}
    (nonempty : space.isEmpty = false) (algorithm device : String) (d : σ) :
    ∃ calls d', Staged space.base space.stages calls ∧
      ∀ {τ : Type} {t : Tuner τ} (s : τ), t.policy.enabled = true →
        SearchMakes t algorithm device space measure s d calls.flatten
          (Tuner.outcome algorithm (traceOf calls))
          (t.report (events algorithm device (traceOf calls)) s) d' := by
  obtain ⟨calls, d', made, staged⟩ := exists_makes_runStages measure space.base space.stages d
  have hrun : (run measure space).run d = (traceOf calls, d') := made.run
  have hnoted (notes : List Call) : (run (recorded measure) space).run (d, notes) =
      (traceOf calls, d', notes ++ calls.flatten) := by
    rw [← foldl_notes]
    exact made.seen _ _ notes
  refine ⟨calls, d', staged, fun {τ t} s on => ⟨?_, fun notes => ?_, made.answered⟩⟩
  · rw [Algorithm.exec_search t s d measure algorithm device on nonempty, hrun]
  · rw [Algorithm.exec_search t s (d, notes) (recorded measure) algorithm device on nonempty,
      hnoted]

/-- **Searches go by stages**, whatever the device answers. -/
theorem searchesInStages_search {τ : Type} {t : Tuner τ} (on : t.policy.enabled = true)
    {space : CandidateSpace} (nonempty : space.isEmpty = false) (measure : Measure σ)
    (algorithm device : String) (s : τ) (d : σ) :
    ∃ calls result s' d',
      SearchMakes t algorithm device space measure s d calls.flatten result s' d' ∧
      SearchesInStages algorithm space calls result := by
  obtain ⟨calls, d', staged, makes⟩ := exists_makes_search measure nonempty algorithm device d
  exact ⟨calls, _, _, d', makes s on, searchesInStages_outcome algorithm nonempty staged⟩

/-- Two equal scores between answers that are no scores, and two stages that fail throughout. -/
theorem searchesInStages_ties :
    let t : Tuner MemoryStorage := ⟨MemoryStorage.storage, .silent, fun _ _ m => m⟩
    let space : CandidateSpace := ⟨.single "b" 16, [CandidateSpace.stage "a" [1, 2, 3, 4],
      CandidateSpace.stage "b" [16, 32], CandidateSpace.stage "c" [1]]⟩
    let script : List ScriptEntry := [.score ⟨0x7ff8000000000000⟩, .score (.ofNat 3),
      .fails "no room", .score (.ofNat 3), .crashes (some "lost"),
      .score (Binary64.ofNat 1).negate, .score .infinity]
    t.policy.enabled = true ∧ space.isEmpty = false ∧
    ∃ calls result s' d',
      SearchMakes t "scan" "gpu" space (.scripted script) .empty [] calls.flatten result s' d' ∧
      SearchesInStages "scan" space calls result ∧
      result = .ok ⟨.ofWords [("a", 2), ("b", 16)], .ofNat 3, 7, none⟩ := by
  intro t space script
  have nonempty : space.isEmpty = false := by decide
  obtain ⟨calls, result, s', d', makes, staged⟩ :=
    searchesInStages_search (t := t) rfl nonempty (.scripted script) "scan" "gpu" .empty []
  refine ⟨rfl, nonempty, calls, result, s', d', makes, staged, ?_⟩
  rw [← show _ = result from congrArg Prod.fst makes.run]
  decide +kernel

end Search

end KernelTuning
