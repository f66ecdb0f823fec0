import KernelTuning.Proofs.Running
import KernelTuning.Tuning.Search

/-!
# What a search selects

A search acts on the device only through its trials, one after the other, so what holds of every
trial in every state of the device holds of all trials of the trace (`forall_mem_run`, by
induction on the stages). The selection is one of these trials.

**Theorem (`isValidScore_of_selected?`).** The score that a search selects is finite and not below
zero, whatever the measurements give.

**Theorem (`exists_selected?`).** A search selects something if one candidate of its first stage has
a valid score in every state of the device.
-/

namespace KernelTuning.Search

variable {σ : Type} {measure : Measure σ}

/-! ## Trials -/

/-- The trial has a valid score, or none. -/
def ValidTrial (trial : Trial) : Prop := ∀ x, trial.verdict = .score x → isValidScore x = true

theorem isValidScore_of_verdict {result : Except (Failure String) Binary64} {x : Binary64}
    (h : verdict result = .score x) : isValidScore x = true := by
  rcases result with (reason | _ | message) | y
  · cases h
  · cases h
  · cases h
  · change (if isValidScore y then Verdict.score y else .failed _) = _ at h
    split at h
    · rename_i hvalid
      cases h
      exact hvalid
    · cases h

theorem validTrial_runTrial (candidate : TuningParameters) (s : σ) :
    ValidTrial ((runTrial measure candidate).run s).1 :=
  fun _ h => isValidScore_of_verdict h

/-- The score of the trial comes from a measurement in some state. -/
def MeasuredTrial (measure : Measure σ) (trial : Trial) : Prop :=
  ∀ x, trial.verdict = .score x → ∃ s y s', exec (measure trial.candidate) s = (.ok y, s')

theorem measuredTrial_runTrial (candidate : TuningParameters) (s : σ) :
    MeasuredTrial measure ((runTrial measure candidate).run s).1 := by
  intro x h
  change verdict (exec (measure candidate) s).1 = .score x at h
  rcases hrun : exec (measure candidate) s with ⟨e | y, s'⟩
  · rw [hrun] at h
    rcases e with reason | _ | message <;> cases h
  · exact ⟨s, y, s', hrun⟩

/-! ## Traces -/

theorem forall_mem_mapM {α β : Type} {P : β → Prop} {f : α → StateM σ β}
    (h : ∀ a s, P ((f a).run s).1) (l : List α) (s : σ) : ∀ b ∈ ((l.mapM f).run s).1, P b := by
  induction l generalizing s with
  | nil => rintro b ⟨⟩
  | cons a l ih =>
    rw [List.mapM_cons]
    intro b hb
    rcases List.mem_cons.1 hb with rfl | hb
    · exact h a s
    · exact ih _ b hb

/-- What holds of every trial in every state holds of all trials of a search. -/
theorem forall_mem_runStages {P : Trial → Prop}
    (h : ∀ candidate s, P ((runTrial measure candidate).run s).1)
    (stages : List (List TuningParameters)) (current : TuningParameters) (s : σ) :
    ∀ stage ∈ ((runStages measure current stages).run s).1, ∀ trial ∈ stage, P trial := by
  induction stages generalizing current s with
  | nil => rintro stage ⟨⟩
  | cons overrides stages ih =>
    intro stage hstage
    rcases List.mem_cons.1 hstage with rfl | hstage
    · exact forall_mem_mapM (fun _ s => h _ s) overrides s
    · exact ih _ _ stage hstage

/-! ## Selections -/

/-- A trial that came to these parameters with this score. -/
def IsTrial (trial : Trial) (found : TuningParameters × Binary64) : Prop :=
  trial.candidate = found.1 ∧ trial.verdict = .score found.2

theorem better_eq_or {best : Option (TuningParameters × Binary64)} {trial : Trial}
    {found : TuningParameters × Binary64} (h : better best trial = some found) :
    best = some found ∨ IsTrial trial found := by
  obtain ⟨candidate, x | reason⟩ := trial
  · rcases best with _ | ⟨parameters, lowest⟩
    · cases h
      exact .inr ⟨rfl, rfl⟩
    · change (if Binary64.lt x lowest then some (candidate, x) else _) = _ at h
      split at h
      · cases h
        exact .inr ⟨rfl, rfl⟩
      · exact .inl h
  · exact .inl h

theorem mem_of_foldl_better {trials : List Trial} {best : Option (TuningParameters × Binary64)}
    {found : TuningParameters × Binary64} (h : trials.foldl better best = some found) :
    best = some found ∨ ∃ trial ∈ trials, IsTrial trial found := by
  induction trials generalizing best with
  | nil => exact .inl h
  | cons trial trials ih =>
    rcases ih h with hbest | ⟨other, hmem, hother⟩
    · rcases better_eq_or hbest with hbest | htrial
      · exact .inl hbest
      · exact .inr ⟨trial, List.mem_cons_self, htrial⟩
    · exact .inr ⟨other, List.mem_cons_of_mem _ hmem, hother⟩

/-- The best trial of a stage is one of its trials. -/
theorem mem_of_best? {trials : List Trial} {found : TuningParameters × Binary64}
    (h : best? trials = some found) : ∃ trial ∈ trials, IsTrial trial found := by
  rcases mem_of_foldl_better h with h | h
  · cases h
  · exact h

/-- The selection is the best trial of some stage. -/
theorem mem_of_selected? {trace : Trace} {found : TuningParameters × Binary64}
    (h : selected? trace = some found) : ∃ stage ∈ trace, best? stage = some found := by
  -- The fold starts from any selection, so that the induction can go on from that of a stage.
  suffices ∀ selected, trace.foldl (fun selected stage => (best? stage).or selected) selected =
      some found → selected = some found ∨ ∃ stage ∈ trace, best? stage = some found by
    rcases this none h with h | h
    · cases h
    · exact h
  clear h
  induction trace with
  | nil => exact fun _ h => .inl h
  | cons stage trace ih =>
    intro selected h
    rcases ih _ h with hselected | ⟨other, hmem, hother⟩
    · rcases Option.or_eq_some_iff.1 hselected with hbest | ⟨-, hselected⟩
      · exact .inr ⟨stage, List.mem_cons_self, hbest⟩
      · exact .inl hselected
    · exact .inr ⟨other, List.mem_cons_of_mem _ hmem, hother⟩

/-- What holds of every trial in every state holds of the trial that is selected. -/
theorem exists_trial_of_selected? {P : Trial → Prop}
    (h : ∀ candidate s, P ((runTrial measure candidate).run s).1) {space : CandidateSpace}
    {s s' : σ} {trace : Trace} {found : TuningParameters × Binary64}
    (searched : (run measure space).run s = (trace, s')) (selected : selected? trace = some found) :
    ∃ trial, IsTrial trial found ∧ P trial := by
  obtain ⟨stage, hstage, hbest⟩ := mem_of_selected? selected
  obtain ⟨trial, htrial, isTrial⟩ := mem_of_best? hbest
  have hall := forall_mem_runStages h space.stages space.base s
  rw [show (runStages measure space.base space.stages).run s = (trace, s') from searched] at hall
  exact ⟨trial, isTrial, hall stage hstage trial htrial⟩

/-- **Only valid scores are selected.** -/
theorem isValidScore_of_selected? {space : CandidateSpace} {s s' : σ} {trace : Trace}
    {found : TuningParameters × Binary64} (searched : (run measure space).run s = (trace, s'))
    (selected : selected? trace = some found) : isValidScore found.2 = true := by
  obtain ⟨trial, ⟨-, hverdict⟩, valid⟩ :=
    exists_trial_of_selected? validTrial_runTrial searched selected
  exact valid found.2 hverdict

/-- Only candidates are selected whose measurement has succeeded in some state. -/
theorem exists_measured_of_selected? {space : CandidateSpace} {s s' : σ} {trace : Trace}
    {found : TuningParameters × Binary64} (searched : (run measure space).run s = (trace, s'))
    (selected : selected? trace = some found) :
    ∃ s₁ x s₂, exec (measure found.1) s₁ = (.ok x, s₂) := by
  obtain ⟨trial, ⟨hcandidate, hverdict⟩, h⟩ :=
    exists_trial_of_selected? measuredTrial_runTrial searched selected
  exact hcandidate ▸ h found.2 hverdict

theorem isFinite_of_isValidScore {x : Binary64} (h : isValidScore x = true) :
    x.isFinite = true := (Bool.and_eq_true_iff.1 h).1

/-! ## Searches that select something -/

theorem isSome_better {best : Option (TuningParameters × Binary64)} {trial : Trial}
    (h : best.isSome = true ∨ ∃ x, trial.verdict = .score x) :
    (better best trial).isSome = true := by
  obtain ⟨candidate, x | reason⟩ := trial
  · rcases best with _ | ⟨parameters, lowest⟩
    · rfl
    · show (if Binary64.lt x lowest then some (candidate, x) else _).isSome = true
      split <;> rfl
  · rcases h with h | ⟨x, h⟩
    · exact h
    · cases h

/-- A stage with a score has a best trial. -/
theorem isSome_foldl_better {trials : List Trial} {best : Option (TuningParameters × Binary64)}
    (h : best.isSome = true ∨ ∃ trial ∈ trials, ∃ x, trial.verdict = .score x) :
    (trials.foldl better best).isSome = true := by
  induction trials generalizing best with
  | nil =>
    rcases h with h | ⟨trial, ⟨⟩, -⟩
    exact h
  | cons trial trials ih =>
    apply ih
    rcases h with h | ⟨other, hmem, hscore⟩
    · exact .inl (isSome_better (.inl h))
    · rcases List.mem_cons.1 hmem with rfl | hmem
      · exact .inl (isSome_better (.inr hscore))
      · exact .inr ⟨other, hmem, hscore⟩

/-- A search with a stage that has a best trial selects something. -/
theorem isSome_foldl_best? {trace : Trace} {selected : Option (TuningParameters × Binary64)}
    (h : selected.isSome = true ∨ ∃ stage ∈ trace, (best? stage).isSome = true) :
    (trace.foldl (fun selected stage => (best? stage).or selected) selected).isSome = true := by
  induction trace generalizing selected with
  | nil =>
    rcases h with h | ⟨stage, ⟨⟩, -⟩
    exact h
  | cons stage trace ih =>
    apply ih
    rw [Option.isSome_or, Bool.or_eq_true]
    rcases h with h | ⟨other, hmem, hbest⟩
    · exact .inl (.inr h)
    · rcases List.mem_cons.1 hmem with rfl | hmem
      · exact .inl (.inl hbest)
      · exact .inr ⟨other, hmem, hbest⟩

theorem exists_mem_mapM {α β : Type} {f : α → StateM σ β} {l : List α} {a : α} (h : a ∈ l)
    (s : σ) : ∃ s', ((f a).run s').1 ∈ ((l.mapM f).run s).1 := by
  induction l generalizing s with
  | nil => cases h
  | cons b l ih =>
    rw [List.mapM_cons]
    rcases List.mem_cons.1 h with rfl | h
    · exact ⟨s, List.mem_cons_self⟩
    · obtain ⟨s', hmem⟩ := ih h ((f b).run s).2
      exact ⟨s', List.mem_cons_of_mem _ hmem⟩

/-- **A candidate of the first stage that always has a valid score is enough** for a selection. -/
theorem exists_selected? {space : CandidateSpace} {stage : List TuningParameters}
    {rest : List (List TuningParameters)} (stages : space.stages = stage :: rest)
    {overrides : TuningParameters} (h : overrides ∈ stage)
    (scores : ∀ s, ∃ x s', exec (measure (space.base.merged overrides)) s = (.ok x, s') ∧
      isValidScore x = true) {s s' : σ} {trace : Trace}
    (searched : (run measure space).run s = (trace, s')) :
    ∃ found, selected? trace = some found := by
  obtain ⟨s₁, hmem⟩ := @exists_mem_mapM σ _ _
    (fun overrides => runTrial measure (space.base.merged overrides)) stage overrides h s
  obtain ⟨x, s₂, hrun, valid⟩ := scores s₁
  have hverdict : ((runTrial measure (space.base.merged overrides)).run s₁).1.verdict =
      .score x := by
    show verdict (exec (measure (space.base.merged overrides)) s₁).1 = _
    rw [hrun]
    exact if_pos valid
  -- The stages after the first one can only replace the selection, never lose it.
  have hbest : ∃ trials ∈ trace, (best? trials).isSome = true := by
    have hrun : (runStages measure space.base (stage :: rest)).run s = (trace, s') :=
      stages ▸ searched
    rw [runStages] at hrun
    obtain rfl := congrArg Prod.fst hrun
    exact ⟨_, List.mem_cons_self, isSome_foldl_better (.inr ⟨_, hmem, x, hverdict⟩)⟩
  exact Option.isSome_iff_exists.1 (isSome_foldl_best? (.inr hbest))

end KernelTuning.Search
