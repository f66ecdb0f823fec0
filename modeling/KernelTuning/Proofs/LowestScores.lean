import KernelTuning.Proofs.Constructing

/-!
# The lowest score

A search takes the best trial of every stage, without a look at the stages before. So the selection
has the lowest of all scores only if each stage measures again what was selected before it
(`Remeasures`), and for this the candidates of the stage must offer the parameters found so far
(`Reoffers`). The scores are assumed to depend on the parameters alone (`Reproducible`).

* **Scans and reductions** always end with the lowest score (`selectsLowest_scan_reduce`): the bounds
  of every stage enclose the value that the parameters have before any tuning.
* **Radix sorts** lower the number of blocks before any tuning to what local memory has room for,
  while the last stage lists numbers that are not lowered. The lowest score is sure to win exactly
  if the lowered number is on the list (`selectsLowest_iff`), and it always does up to the stage
  before the last one.
-/

namespace KernelTuning

/-! ## Comparing scores -/

namespace Binary64

variable {x y z : Binary64}

theorem isNaN_eq_false (h : x.isFinite = true) : x.isNaN = false := by
  unfold isFinite at h
  unfold isNaN
  rw [Bool.and_eq_false_iff]
  exact .inl (by simpa using h)

theorem le_iff (hx : x.isFinite = true) (hy : y.isFinite = true) :
    le x y = true ↔ x.orderKey ≤ y.orderKey := by
  simp [le, isNaN_eq_false hx, isNaN_eq_false hy]

theorem lt_iff (hx : x.isFinite = true) (hy : y.isFinite = true) :
    lt x y = true ↔ x.orderKey < y.orderKey := by
  simp [lt, isNaN_eq_false hx, isNaN_eq_false hy]

theorem le_trans (hxy : le x y = true) (hyz : le y z = true) : le x z = true := by
  simp only [le, Bool.and_eq_true, decide_eq_true_eq] at hxy hyz ⊢
  exact ⟨⟨hxy.1.1, hyz.1.2⟩, Int.le_trans hxy.2 hyz.2⟩

end Binary64

namespace Search

/-! ## The best trial of a stage -/

/-- Something was found, and its score is at most `x`. -/
def Attains (best : Option (TuningParameters × Binary64)) (x : Binary64) : Prop :=
  ∃ found ∈ best, Binary64.le found.2 x = true

section

variable {best : Option (TuningParameters × Binary64)} {trial : Trial} {trials : List Trial}
  {x : Binary64}

theorem isValidScore_better (hbest : ∀ found ∈ best, isValidScore found.2 = true)
    (htrial : ValidTrial trial) : ∀ found ∈ better best trial, isValidScore found.2 = true := by
  intro found hfound
  rcases better_eq_or hfound with hfound | ⟨-, hverdict⟩
  · exact hbest found hfound
  · exact htrial found.2 hverdict

/-- A new trial only ever lowers the score. -/
theorem attains_better (hbest : ∀ found ∈ best, isValidScore found.2 = true)
    (htrial : ValidTrial trial) (h : Attains best x ∨ trial.verdict = .score x) :
    Attains (better best trial) x := by
  obtain ⟨candidate, y | reason⟩ := trial
  · have hy := isFinite_of_isValidScore (htrial y rfl)
    have hself : Binary64.le y y = true := (Binary64.le_iff hy hy).2 (Int.le_refl _)
    rcases best with _ | ⟨parameters, lowest⟩
    · rcases h with ⟨_, ⟨⟩, _⟩ | h
      cases h
      exact ⟨_, rfl, hself⟩
    · have hlowest := isFinite_of_isValidScore (hbest _ rfl)
      change Attains (if Binary64.lt y lowest then some (candidate, y) else some (parameters, lowest)) x
      -- Whichever of the two is held afterwards, its score is at most that of the other.
      split
      · rename_i hlt
        refine ⟨_, rfl, ?_⟩
        rcases h with ⟨_, ⟨⟩, hle⟩ | h
        · exact Binary64.le_trans ((Binary64.le_iff hy hlowest).2
            (Int.le_of_lt ((Binary64.lt_iff hy hlowest).1 hlt))) hle
        · cases h
          exact hself
      · rename_i hnot
        refine ⟨_, rfl, ?_⟩
        rcases h with ⟨_, ⟨⟩, hle⟩ | h
        · exact hle
        · cases h
          rw [Binary64.lt_iff hy hlowest, Int.not_lt] at hnot
          exact (Binary64.le_iff hlowest hy).2 hnot
  · rcases h with h | h
    · exact h
    · cases h

theorem attains_foldl_better (hbest : ∀ found ∈ best, isValidScore found.2 = true)
    (htrials : ∀ trial ∈ trials, ValidTrial trial)
    (h : Attains best x ∨ ∃ trial ∈ trials, trial.verdict = .score x) :
    Attains (trials.foldl better best) x := by
  induction trials generalizing best with
  | nil =>
    rcases h with h | ⟨_, ⟨⟩, _⟩
    exact h
  | cons trial trials ih =>
    have htrial := htrials trial List.mem_cons_self
    refine ih (isValidScore_better hbest htrial)
      (fun other hmem => htrials other (List.mem_cons_of_mem _ hmem)) ?_
    rcases h with h | ⟨other, hmem, hother⟩
    · exact .inl (attains_better hbest htrial (.inl h))
    · rcases List.mem_cons.1 hmem with rfl | hmem
      · exact .inl (attains_better hbest htrial (.inr hother))
      · exact .inr ⟨other, hmem, hother⟩

/-- The best trial of a stage has its lowest score. -/
theorem attains_best? (htrials : ∀ trial ∈ trials, ValidTrial trial) (hmem : trial ∈ trials)
    (hx : trial.verdict = .score x) : Attains (best? trials) x :=
  attains_foldl_better (fun _ h => by cases h) htrials (.inr ⟨trial, hmem, hx⟩)

end

/-! ## Stages that measure the selection again -/

/-- Every stage measures again what was selected before it, with the same score. -/
def Remeasures (trace : Trace) : Prop :=
  ∀ earlier stage later, trace = earlier ++ stage :: later → ∀ found ∈ selected? earlier,
    ∃ trial ∈ stage, IsTrial trial found

theorem selected?_concat (trace : Trace) (stage : List Trial) :
    selected? (trace ++ [stage]) = (best? stage).or (selected? trace) := by
  unfold selected?
  rw [List.foldl_append]
  rfl

/-- What a trial of the last stage attains, the selection attains. -/
theorem attains_selected?_concat {trace : Trace} {stage : List Trial}
    (valid : ∀ trial ∈ stage, ValidTrial trial) {trial : Trial} (hmem : trial ∈ stage) {x : Binary64}
    (hx : trial.verdict = .score x) : Attains (selected? (trace ++ [stage])) x := by
  obtain ⟨found, hfound, hle⟩ := attains_best? valid hmem hx
  refine ⟨found, ?_, hle⟩
  rw [selected?_concat, show best? stage = some found from hfound]
  rfl

/-- If every stage measures the selection again, it ends with the lowest of all scores. -/
theorem attains_selected? {trace : Trace}
    (valid : ∀ stage ∈ trace, ∀ trial ∈ stage, ValidTrial trial) (remeasures : Remeasures trace)
    {trial : Trial} (hmem : trial ∈ trials trace) {x : Binary64} (hx : trial.verdict = .score x) :
    Attains (selected? trace) x := by
  induction trace using List.reverseRecOn with
  | nil => cases hmem
  | append_singleton trace stage ih =>
    have hstage := valid stage (by simp)
    rw [trials, List.flatten_append, List.mem_append] at hmem
    rcases hmem with hmem | hmem
    · have remeasures' : Remeasures trace := fun earlier s later hsplit =>
        remeasures earlier s (later ++ [stage]) (by rw [hsplit]; simp)
      obtain ⟨found, hfound, hle⟩ :=
        ih (fun s hs => valid s (List.mem_append_left _ hs)) remeasures' hmem
      obtain ⟨again, hagain, -, hverdict⟩ := remeasures trace stage [] rfl found hfound
      obtain ⟨found', hfound', hle'⟩ := attains_selected?_concat hstage hagain hverdict
      exact ⟨found', hfound', Binary64.le_trans hle' hle⟩
    · exact attains_selected?_concat hstage (by simpa using hmem) hx

variable {σ : Type} {measure : Measure σ}

/-- The score of a candidate in some state of the device, if it has a valid one there. -/
def scoreIn (measure : Measure σ) (candidate : TuningParameters) (s : σ) : Option Binary64 :=
  match verdict (exec (measure candidate) s).1 with
  | .score x => some x
  | .failed _ => none

/-- A candidate always fails or always has the same score, whatever was measured before. -/
def Reproducible (measure : Measure σ) : Prop :=
  ∀ candidate s s', scoreIn measure candidate s = scoreIn measure candidate s'

theorem verdict_runTrial_eq_score {candidate : TuningParameters} {s : σ} {x : Binary64} :
    ((runTrial measure candidate).run s).1.verdict = .score x ↔
      scoreIn measure candidate s = some x := by
  change verdict (exec (measure candidate) s).1 = _ ↔ _
  unfold scoreIn
  split <;> simp_all

theorem exists_of_mem_mapM {α β : Type} {f : α → StateM σ β} {l : List α} {s : σ} {b : β}
    (h : b ∈ ((l.mapM f).run s).1) : ∃ a ∈ l, ∃ s', b = ((f a).run s').1 := by
  induction l generalizing s with
  | nil => cases h
  | cons a l ih =>
    rw [List.mapM_cons] at h
    rcases List.mem_cons.1 h with rfl | h
    · exact ⟨a, List.mem_cons_self, s, rfl⟩
    · obtain ⟨a', hmem, s', rfl⟩ := ih h
      exact ⟨a', List.mem_cons_of_mem _ hmem, s', rfl⟩

/-- The first stage is measured from the current parameters, the others from its best trial. -/
theorem runStages_cons (current : TuningParameters) (overrides : List TuningParameters)
    (stages : List (List TuningParameters)) (s : σ) :
    ∃ trials s', (overrides.mapM fun o => runTrial measure (current.merged o)).run s = (trials, s') ∧
      ((runStages measure current (overrides :: stages)).run s).1 =
        trials :: ((runStages measure ((best? trials).elim current (·.1)) stages).run s').1 :=
  ⟨_, _, rfl, rfl⟩

/-- Every stage offers the current parameters again, whatever was chosen before. -/
def Reoffers : TuningParameters → List (List TuningParameters) → Prop
  | _, [] => True
  | current, stage :: rest =>
    (∃ overrides ∈ stage, current.merged overrides = current) ∧
      ∀ overrides ∈ stage, Reoffers (current.merged overrides) rest

/-- The best trial of a stage is one of its candidates, which has this score in every state. -/
theorem exists_chosen (reproducible : Reproducible measure) {current : TuningParameters}
    {overrides : List TuningParameters} {s s' : σ} {trials : List Trial}
    (hrun : (overrides.mapM fun o => runTrial measure (current.merged o)).run s = (trials, s'))
    {best : TuningParameters × Binary64} (hbest : best? trials = some best) :
    ∃ chosen ∈ overrides, best.1 = current.merged chosen ∧
      ∀ s, scoreIn measure best.1 s = some best.2 := by
  obtain ⟨trial, hmem, hcandidate, hverdict⟩ := mem_of_best? hbest
  rw [← show _ = trials from congrArg Prod.fst hrun] at hmem
  obtain ⟨chosen, hchosen, s₁, rfl⟩ := exists_of_mem_mapM hmem
  rw [verdict_runTrial_eq_score] at hverdict
  refine ⟨chosen, hchosen, hcandidate.symm, fun s => ?_⟩
  exact (reproducible _ s s₁).trans (hcandidate ▸ hverdict)

/-- The induction for `remeasures_run`: `selected` is what the stages before have selected, and it
has the current parameters. -/
theorem remeasures_runStages (reproducible : Reproducible measure)
    {stages : List (List TuningParameters)} {current : TuningParameters}
    (reoffers : Reoffers current stages) {selected : Option (TuningParameters × Binary64)}
    (hselected : ∀ found ∈ selected, found.1 = current ∧
      ∀ s, scoreIn measure current s = some found.2) {s : σ} {earlier later : Trace}
    {stage : List Trial}
    (split : ((runStages measure current stages).run s).1 = earlier ++ stage :: later) :
    ∀ found ∈ earlier.foldl (fun selected stage => (best? stage).or selected) selected,
      ∃ trial ∈ stage, IsTrial trial found := by
  -- The stage in question is the first one, or it lies in the rest with another selection.
  induction stages generalizing current selected s earlier with
  | nil =>
    change ([] : Trace) = _ at split
    simp at split
  | cons overrides stages ih =>
    obtain ⟨⟨kept, hkept, hsame⟩, hrest⟩ := reoffers
    have hsame' : Reoffers current stages := hsame ▸ hrest kept hkept
    obtain ⟨trials, s', hrun, htrace⟩ := @runStages_cons σ measure current overrides stages s
    rw [htrace] at split
    cases earlier with
    | nil =>
      intro found hfound
      obtain ⟨hcurrent, hscore⟩ := hselected found hfound
      obtain ⟨s₁, hmem⟩ := exists_mem_mapM (f := fun o => runTrial measure (current.merged o)) hkept s
      rw [hrun] at hmem
      obtain rfl := (List.cons.inj split).1
      refine ⟨_, hmem, hsame.trans hcurrent.symm, verdict_runTrial_eq_score.2 ?_⟩
      rw [hsame]
      exact hscore s₁
    | cons first earlier =>
      obtain ⟨rfl, htail⟩ := List.cons.inj split
      rw [List.foldl_cons]
      -- The best trial of this stage has become the selection.
      refine ih ?_ ?_ htail
      · rcases hbest : best? trials with _ | best
        · exact hsame'
        · obtain ⟨chosen, hmem, hcandidate, -⟩ := exists_chosen reproducible hrun hbest
          show Reoffers best.1 stages
          exact hcandidate ▸ hrest chosen hmem
      · rcases hbest : best? trials with _ | best
        · exact hselected
        · rintro found ⟨⟩
          obtain ⟨-, -, -, hscore⟩ := exists_chosen reproducible hrun hbest
          exact ⟨rfl, hscore⟩

theorem remeasures_run (reproducible : Reproducible measure) {space : CandidateSpace}
    (reoffers : Reoffers space.base space.stages) (s : σ) :
    Remeasures ((run measure space).run s).1 :=
  fun _ _ _ split => remeasures_runStages reproducible reoffers (fun _ h => by cases h) split

theorem forall_mem_run_validTrial (measure : Measure σ) (space : CandidateSpace) (s : σ) :
    ∀ stage ∈ ((run measure space).run s).1, ∀ trial ∈ stage, ValidTrial trial :=
  forall_mem_runStages validTrial_runTrial space.stages space.base s

end Search

/-! ## Stages of single parameters -/

theorem TuningParameters.get?_merged_single (p : TuningParameters) (name other : String) (w : Word) :
    (p.merged (single name w)).get? other = if other = name then some (.int w) else p.get? other :=
  get?_set p name other (.int w)

/-- A stage that tries values of one parameter offers its own value again, and stages of other
parameters do not change it. -/
theorem Search.reoffers_of_own {current : TuningParameters} {tuned : List (String × List Word)}
    (distinct : (tuned.map (·.1)).Nodup)
    (own : ∀ t ∈ tuned, ∃ w ∈ t.2, current.get? t.1 = some (.int w)) :
    Reoffers current (tuned.map fun t => CandidateSpace.stage t.1 t.2) := by
  induction tuned generalizing current with
  | nil => trivial
  | cons t tuned ih =>
    rw [List.map_cons, List.nodup_cons] at distinct
    refine ⟨?_, fun overrides hoverrides => ih distinct.2 fun other hother => ?_⟩
    · obtain ⟨w, hw, hget⟩ := own t List.mem_cons_self
      exact ⟨_, List.mem_map_of_mem hw, TuningParameters.merged_single hget⟩
    · obtain ⟨w, -, rfl⟩ := List.mem_map.1 hoverrides
      obtain ⟨v, hv, hget⟩ := own other (List.mem_cons_of_mem _ hother)
      have hne : other.1 ≠ t.1 := fun h => distinct.1 (h ▸ List.mem_map_of_mem hother)
      exact ⟨v, hv, by rw [TuningParameters.get?_merged_single, if_neg hne, hget]⟩

/-! ## Searches -/

/-- A search of the space ends with the lowest of all scores that it has measured, provided that
scores depend on the parameters alone. -/
structure CandidateSpace.SelectsLowest (space : CandidateSpace) : Prop where
  /-- Every valid score leads to an outcome that is not slower. -/
  outcome : ∀ {σ δ : Type} (t : Tuner σ) (algorithm device : String) (measure : Measure δ) (s : σ)
    (d : δ), Search.Reproducible measure → t.policy.enabled = true → ∀ trial ∈
      Search.trials ((Search.run measure space).run d).1, ∀ x, trial.verdict = .score x →
        ∃ outcome, (exec (t.search algorithm device space measure) (s, d)).1 = .ok outcome ∧
          Binary64.le outcome.score x = true
  /-- No stage makes the selection slower. -/
  improves : ∀ {δ : Type} (measure : Measure δ) (d : δ), Search.Reproducible measure →
    ∀ earlier stage later, ((Search.run measure space).run d).1 = earlier ++ stage :: later →
      ∀ found ∈ Search.selected? earlier,
        Search.Attains (Search.selected? (earlier ++ [stage])) found.2

theorem Search.any_isEmpty_of_reoffers {stages : List (List TuningParameters)}
    {current : TuningParameters} (h : Reoffers current stages) :
    stages.any List.isEmpty = false := by
  induction stages with
  | nil => rfl
  | cons stage stages ih =>
    obtain ⟨⟨kept, hkept, hsame⟩, hrest⟩ := h
    rw [List.any_cons, ih (hsame ▸ hrest kept hkept), Bool.or_false, List.isEmpty_eq_false_iff]
    exact List.ne_nil_of_mem hkept

theorem CandidateSpace.selectsLowest_of_reoffers {space : CandidateSpace} (stages : space.stages ≠ [])
    (reoffers : Search.Reoffers space.base space.stages) : space.SelectsLowest where
  outcome {σ δ} t algorithm device measure s d reproducible on trial hmem x hx := by
    have nonempty : space.isEmpty = false := by
      rw [isEmpty, Search.any_isEmpty_of_reoffers reoffers, Bool.or_false, List.isEmpty_eq_false_iff]
      exact stages
    have valid := Search.forall_mem_run_validTrial measure space d
    obtain ⟨found, hfound, hle⟩ := Search.attains_selected? valid
      (Search.remeasures_run reproducible reoffers d) hmem hx
    have hselected : Search.selected? ((Search.run measure space).run d).1 = some found := hfound
    refine ⟨⟨found.1, found.2, Search.evaluated ((Search.run measure space).run d).1, none⟩, ?_, hle⟩
    rw [Algorithm.exec_search t s d measure algorithm device on nonempty, Tuner.outcome, hselected]
  improves measure d reproducible earlier stage later split found hfound := by
    obtain ⟨again, hagain, -, hverdict⟩ :=
      Search.remeasures_run reproducible reoffers d earlier stage later split found hfound
    refine Search.attains_selected?_concat (Search.forall_mem_run_validTrial measure space d stage ?_)
      hagain hverdict
    rw [split]
    simp

/-! ## Scans and reductions -/

theorem Scan.candidates_canonical (d : DeviceProperties) (problem : ScanProblem) :
    candidates d (canonical problem) = candidates d problem := by
  have hlimits : ScanGeometry.limits? d (canonical problem).elem =
      ScanGeometry.limits? d problem.elem := by
    simp only [ScanGeometry.limits?, ScanGeometry.localMemElements, ScanGeometry.workGroupLimit,
      canonical, ElemType.storageSize_toSigned]
  unfold candidates candidates?
  rw [hlimits]

theorem Word.one_le_of_isPowerOfTwo {x : Word} (h : x.isPowerOfTwo = true) : 1 ≤ x :=
  UInt64.le_iff_toNat_le.2 (isPowerOfTwo_pos h)

/-- The elements of a work item before any tuning are among those that are tried. -/
theorem ScanGeometry.scanWorkScale_default_le (l : Limits) (d : DeviceProperties) :
    (l.default d).scanWorkScale ≤ min Scan.maxWorkScale l.localMemElements := by
  have hscale : ∃ scale limit : Word, scale ≤ 8 ∧ limit ≤ l.localMemElements ∧
      (l.default d).scanWorkScale = Word.floorPowerOfTwo (min scale limit) := by
    have hdiv (w : Word) : l.localMemElements / max w 1 ≤ l.localMemElements := by
      rw [UInt64.le_iff_toNat_le, UInt64.toNat_div]
      exact Nat.div_le_self ..
    unfold Limits.default
    cases d.kind <;> exact ⟨_, _, by decide, hdiv _, rfl⟩
  obtain ⟨scale, limit, hscale, hlimit, heq⟩ := hscale
  have hle := UInt64.le_iff_toNat_le.1 (Word.floorPowerOfTwo_le (min scale limit))
  rw [UInt64.le_iff_toNat_le] at hscale hlimit
  rw [Word.toNat_min] at hle
  rw [heq, UInt64.le_iff_toNat_le, Word.toNat_min]
  have : UInt64.toNat Scan.maxWorkScale = 16 := rfl
  have : UInt64.toNat 8 = 8 := rfl
  omega

theorem Scan.reoffers_candidates {d : DeviceProperties} {problem : ScanProblem}
    (valid : validate d problem = .ok ()) :
    Search.Reoffers (candidates d problem).base (candidates d problem).stages := by
  have fits := fits_default valid
  have holds := (holds_base fits.hasLimits problem).2
  rw [candidates_canonical, candidates_eq fits.hasLimits] at holds
  rw [candidates_eq fits.hasLimits]
  let l := ScanGeometry.limits d problem.elem
  let tuned := [(Parameter.reduceWorkGroupSize, Word.powersOfTwo 1 l.workGroupSize),
    (Parameter.scanWorkGroupSize, Word.powersOfTwo 1 l.workGroupSize),
    (Parameter.scanWorkScale, Word.powersOfTwo 1 (min maxWorkScale l.localMemElements)),
    (Parameter.scanBlocks, Word.powersOfTwo 2 l.blocks)]
  refine @Search.reoffers_of_own _ tuned
    (show [Parameter.reduceWorkGroupSize, Parameter.scanWorkGroupSize, Parameter.scanWorkScale,
      Parameter.scanBlocks].Nodup by decide) ?_
  have hpow {x : Word} (h : x.isPowerOfTwo = true) := Word.one_le_of_isPowerOfTwo h
  intro t ht
  simp only [tuned, List.mem_cons, List.not_mem_nil, or_false] at ht
  -- Every tuned value of the default is a power of two within the range that its stage lists.
  rcases ht with rfl | rfl | rfl | rfl
  · exact ⟨_, Word.mem_powersOfTwo fits.reduce_pow (hpow fits.reduce_pow) fits.reduce_le,
      holds (Parameter.reduceWorkGroupSize, _) (by simp [ScanGeometry.fields])⟩
  · exact ⟨_, Word.mem_powersOfTwo fits.scan_pow (hpow fits.scan_pow) fits.scan_le,
      holds (Parameter.scanWorkGroupSize, _) (by simp [ScanGeometry.fields])⟩
  · exact ⟨_, Word.mem_powersOfTwo fits.scale_pow (hpow fits.scale_pow)
      (ScanGeometry.scanWorkScale_default_le l d),
      holds (Parameter.scanWorkScale, _) (by simp [ScanGeometry.fields])⟩
  · exact ⟨_, Word.mem_powersOfTwo fits.blocks_pow fits.two_le_blocks fits.blocks_le,
      holds (Parameter.scanBlocks, _) (by simp [ScanGeometry.fields])⟩

theorem Reduce.candidates_canonical (d : DeviceProperties) (problem : ReduceProblem) :
    candidates d (canonical problem) = candidates d problem := by
  unfold candidates
  rw [workGroupLimit_canonical]

/-- The number of blocks before any tuning is one of those that are tried. -/
theorem Reduce.mem_blockCounts (d : DeviceProperties) : 16 * d.units ∈ blockCounts d := by
  refine List.mem_map.2 ⟨3, by decide, ?_⟩
  rw [UInt64.mul_comm 4, UInt64.mul_assoc, UInt64.mul_comm]
  rfl

theorem Reduce.reoffers_candidates {d : DeviceProperties} {problem : ReduceProblem}
    (valid : validate d problem = .ok ()) :
    Search.Reoffers (candidates d problem).base (candidates d problem).stages := by
  have hpos := workGroupLimit_pos valid
  have hpow := Word.isPowerOfTwo_floorPowerOfTwo hpos
  have holds := holds_base d problem
  rw [candidates_canonical] at holds
  let tuned := [
    (Parameter.reduceWorkGroupSize, Word.powersOfTwo 1 (workGroupLimit d problem.elem)),
    (Parameter.reduceBlocks, blockCounts d)]
  refine @Search.reoffers_of_own _ tuned
    (show [Parameter.reduceWorkGroupSize, Parameter.reduceBlocks].Nodup by decide) ?_
  intro t ht
  simp only [tuned, List.mem_cons, List.not_mem_nil, or_false] at ht
  rcases ht with rfl | rfl
  · exact ⟨_, Word.mem_powersOfTwo hpow (Word.one_le_of_isPowerOfTwo hpow)
      (Word.floorPowerOfTwo_le _), holds _ List.mem_cons_self⟩
  · exact ⟨_, mem_blockCounts d, holds _ (List.mem_cons_of_mem _ List.mem_cons_self)⟩

/-- **Scans and reductions end with the lowest score**, on every device that they are valid on. The
problem that stands for a class has the candidates of every member. -/
theorem selectsLowest_scan_reduce (d : DeviceProperties) :
    (∀ problem, Scan.validate d problem = .ok () → (Scan.candidates d problem).SelectsLowest ∧
      (Scan.candidates d (Scan.canonical problem)).SelectsLowest) ∧
    (∀ problem, Reduce.validate d problem = .ok () → (Reduce.candidates d problem).SelectsLowest ∧
      (Reduce.candidates d (Reduce.canonical problem)).SelectsLowest) := by
  constructor
  · intro problem valid
    have stages : (Scan.candidates d problem).stages ≠ [] := by
      rw [Scan.candidates_eq (Scan.fits_default valid).hasLimits]
      exact List.cons_ne_nil _ _
    have h := CandidateSpace.selectsLowest_of_reoffers stages (Scan.reoffers_candidates valid)
    exact ⟨h, (Scan.candidates_canonical d problem).symm ▸ h⟩
  · intro problem valid
    have h := CandidateSpace.selectsLowest_of_reoffers (by simp [Reduce.candidates])
      (Reduce.reoffers_candidates valid)
    exact ⟨h, (Reduce.candidates_canonical d problem).symm ▸ h⟩

/-- The scans and the reductions of words on a graphics device. -/
theorem selectsLowest_gpu :
    let uint : ElemType := ⟨.uint, 1, by decide⟩
    (Scan.candidates Backend.gpuProperties ⟨uint⟩).SelectsLowest ∧
      (Reduce.candidates Backend.gpuProperties ⟨uint⟩).SelectsLowest := by
  intro uint
  have vscan : Scan.validate Backend.gpuProperties ⟨⟨.uint, 1, by decide⟩⟩ = .ok () := by rfl
  have vreduce : Reduce.validate Backend.gpuProperties ⟨⟨.uint, 1, by decide⟩⟩ = .ok () := by rfl
  obtain ⟨scans, reduces⟩ := selectsLowest_scan_reduce Backend.gpuProperties
  exact ⟨(scans _ vscan).1, (reduces _ vreduce).1⟩

/-! ## Radix sorts -/

namespace Search

variable {σ : Type} {measure : Measure σ}

/-- The last stage is measured from what the stages before have found. -/
theorem runStages_concat (current : TuningParameters) (stages : List (List TuningParameters))
    (overrides : List TuningParameters) (s : σ) :
    ∃ (found : TuningParameters) (earlier : Trace) (s' : σ),
      ((runStages measure current (stages ++ [overrides])).run s).1 =
        earlier ++ [((overrides.mapM fun o => runTrial measure (found.merged o)).run s').1] := by
  induction stages generalizing current s with
  | nil => exact ⟨current, [], s, rfl⟩
  | cons first stages ih =>
    obtain ⟨trials, s', -, htrace⟩ := @runStages_cons σ measure current first
      (stages ++ [overrides]) s
    obtain ⟨found, earlier, s'', hlast⟩ := ih ((best? trials).elim current (·.1)) s'
    exact ⟨found, trials :: earlier, s'', by rw [List.cons_append, htrace, hlast]; rfl⟩

def one : Binary64 := ⟨0x3FF0000000000000⟩

def two : Binary64 := ⟨0x4000000000000000⟩

/-- A value of one parameter scores one, every other value two. -/
def prefer (name : String) (w : Word) : Measure Unit :=
  fun p => pure (if p.get? name = some (.int w) then one else two)

theorem runTrial_prefer (name : String) (w : Word) (p : TuningParameters) (s : Unit) :
    ((runTrial (prefer name w) p).run s).1 =
      ⟨p, .score (if p.get? name = some (.int w) then one else two)⟩ := by
  change Trial.mk p (verdict (.ok _)) = _
  split <;> rfl

/-- A stage of other values has the score two. -/
theorem best?_prefer {name : String} {w : Word} {values : List Word} (missing : w ∉ values)
    (nonempty : values ≠ []) (current : TuningParameters) (s : Unit) :
    ∃ found, best? (((CandidateSpace.stage name values).mapM fun o =>
      runTrial (prefer name w) (current.merged o)).run s).1 = some found ∧ found.2 = two := by
  have hscore {o : TuningParameters} (ho : o ∈ CandidateSpace.stage name values) (s : Unit) :
      ((runTrial (prefer name w) (current.merged o)).run s).1.verdict = .score two := by
    obtain ⟨v, hv, rfl⟩ := List.mem_map.1 ho
    have hne : v ≠ w := fun h => missing (h ▸ hv)
    rw [runTrial_prefer, TuningParameters.get?_merged_single, if_pos rfl,
      if_neg fun h => hne (ParamValue.int.inj (Option.some.inj h))]
  obtain ⟨o, ho⟩ := List.exists_mem_of_ne_nil (CandidateSpace.stage name values)
    (by simpa [CandidateSpace.stage] using nonempty)
  obtain ⟨s', hmem⟩ := exists_mem_mapM (f := fun o => runTrial (prefer name w) (current.merged o)) ho s
  obtain ⟨found, hfound⟩ := Option.isSome_iff_exists.1
    (isSome_foldl_better (.inr ⟨_, hmem, two, hscore ho s'⟩))
  refine ⟨found, hfound, ?_⟩
  obtain ⟨trial, htrial, -, hverdict⟩ := mem_of_best? hfound
  obtain ⟨o', ho', s'', rfl⟩ := exists_of_mem_mapM htrial
  exact Verdict.score.inj (hverdict.symm.trans (hscore ho' s''))

end Search

/-- A space can lose the lowest score if its first stage can keep a value that its last stage does
not try. -/
theorem CandidateSpace.not_selectsLowest {base : TuningParameters}
    {first : List TuningParameters} {stages : List (List TuningParameters)} {name : String}
    {w : Word} {values : List Word}
    (nonempty : (mk base (first :: stages ++ [stage name values])).isEmpty = false)
    (kept : ∃ overrides ∈ first, (base.merged overrides).get? name = some (.int w))
    (missing : w ∉ values) :
    ¬ (mk base (first :: stages ++ [stage name values])).SelectsLowest := by
  intro lowest
  obtain ⟨o, ho, hkept⟩ := kept
  have hvalues : values ≠ [] := by
    rintro rfl
    simp [isEmpty, stage] at nonempty
  -- The score prefers the kept value, which is measured in the first stage and lost in the last.
  let tuner : Tuner MemoryStorage := ⟨MemoryStorage.storage, .standard, fun _ _ s => s⟩
  obtain ⟨trials, s', hrun, htrace⟩ := @Search.runStages_cons Unit (Search.prefer name w) base first
    (stages ++ [stage name values]) ()
  obtain ⟨current, earlier, s'', hlast⟩ := @Search.runStages_concat Unit (Search.prefer name w) base
    (first :: stages) (stage name values) ()
  have hfirst : ⟨base.merged o, .score Search.one⟩ ∈ trials := by
    obtain ⟨s₁, hmem⟩ := Search.exists_mem_mapM
      (f := fun o => Search.runTrial (Search.prefer name w) (base.merged o)) ho ()
    rwa [hrun, Search.runTrial_prefer, if_pos hkept] at hmem
  have hmeasured : ⟨base.merged o, .score Search.one⟩ ∈ Search.trials
      ((Search.runStages (Search.prefer name w) base (first :: (stages ++ [stage name values]))).run
        ()).1 := by
    rw [htrace]
    exact List.mem_append_left _ hfirst
  obtain ⟨outcome, houtcome, hle⟩ := lowest.outcome tuner "" "" (Search.prefer name w) .empty ()
    (fun _ _ _ => rfl) rfl _ hmeasured Search.one rfl
  obtain ⟨found, hfound, htwo⟩ := Search.best?_prefer missing hvalues current s''
  have hselected : Search.selected? ((Search.run (Search.prefer name w)
      (mk base (first :: stages ++ [stage name values]))).run ()).1 = some found := by
    rw [Search.run, hlast, Search.selected?_concat, hfound]
    rfl
  rw [Algorithm.exec_search tuner _ _ _ "" "" rfl nonempty, Tuner.outcome, hselected] at houtcome
  cases houtcome
  rw [htwo] at hle
  exact absurd hle (show ¬ Binary64.le Search.two Search.one = true by decide)

namespace Radixsort

/-- The numbers of blocks that are tried. -/
def blockCounts (d : DeviceProperties) : List Word :=
  ([2, 3, 4, 5, 6, 7] : List Word).map fun shift => d.units <<< shift

/-- The parameters that are tuned before the number of blocks, with the values tried. -/
def tunedBeforeBlocks (d : DeviceProperties) (g : RadixsortGeometry) : List (String × List Word) := [
  (Parameter.reduceWorkGroupSize, Word.powersOfTwo g.radix d.maxWorkGroupSize),
  (Parameter.scanWorkGroupSize, Word.powersOfTwo g.radix d.maxWorkGroupSize),
  (Parameter.scatterWorkGroupSize,
    (Word.powersOfTwo 1 (d.maxWorkGroupSize / g.scatterSlice)).map (· * g.scatterSlice)),
  (Parameter.scatterWorkScale, [1, 2, 3, 4, 5, 6, 7, 8])]

theorem stages_candidates {d : DeviceProperties} {g : RadixsortGeometry}
    (h : RadixsortGeometry.default d = .ok g) (problem : RadixsortProblem) :
    candidates d problem = ⟨Parameter.withWarpSizes g.toParameters d,
      (tunedBeforeBlocks d g).map (fun t => CandidateSpace.stage t.1 t.2) ++
        [CandidateSpace.stage Parameter.scanBlocks (blockCounts d)]⟩ := by
  unfold candidates
  rw [h]
  rfl

/-- A scatter group before any tuning is among those that are tried. -/
theorem mem_scatterSizes {d : DeviceProperties} {g : RadixsortGeometry} (fits : g.Fits d) :
    g.scatterWorkGroupSize ∈
      (Word.powersOfTwo 1 (d.maxWorkGroupSize / g.scatterSlice)).map (· * g.scatterSlice) := by
  refine List.mem_map.2 ⟨g.slices, Word.mem_powersOfTwo fits.slices_pow
    (Word.one_le_of_isPowerOfTwo fits.slices_pow) ?_, ?_⟩
  · rw [UInt64.le_iff_toNat_le, RadixsortGeometry.slices, UInt64.toNat_div, UInt64.toNat_div]
    exact Nat.div_le_div_right (UInt64.le_iff_toNat_le.1 fits.scatter_le)
  · have hdvd := Nat.dvd_of_mod_eq_zero (by simpa using congrArg UInt64.toNat fits.slice_dvd)
    rw [← UInt64.toNat_inj, RadixsortGeometry.slices, UInt64.toNat_mul, UInt64.toNat_div,
      Nat.div_mul_cancel hdvd, Nat.mod_eq_of_lt (UInt64.toNat_lt _)]

/-- The geometry before any tuning is tried again in every stage before the last one. -/
theorem own_of_fits {d : DeviceProperties} {problem : RadixsortProblem} {g : RadixsortGeometry}
    (h : RadixsortGeometry.default d = .ok g) (fits : g.Fits d) (hscale : g.scatterWorkScale = 7) :
    ∀ t ∈ tunedBeforeBlocks d g,
      ∃ w ∈ t.2, (candidates d problem).base.get? t.1 = some (.int w) := by
  obtain ⟨-, holds⟩ := @holds_base d problem g h
  intro t ht
  simp only [tunedBeforeBlocks, List.mem_cons, List.not_mem_nil, or_false] at ht
  rcases ht with rfl | rfl | rfl | rfl
  · exact ⟨_, Word.mem_powersOfTwo fits.reduce_pow fits.le_reduce fits.reduce_le,
      holds (Parameter.reduceWorkGroupSize, _) (by simp [RadixsortGeometry.fields])⟩
  · exact ⟨_, Word.mem_powersOfTwo fits.scan_pow fits.le_scan fits.scan_le,
      holds (Parameter.scanWorkGroupSize, _) (by simp [RadixsortGeometry.fields])⟩
  · exact ⟨_, mem_scatterSizes fits,
      holds (Parameter.scatterWorkGroupSize, _) (by simp [RadixsortGeometry.fields])⟩
  · exact ⟨g.scatterWorkScale, by rw [hscale]; decide,
      holds (Parameter.scatterWorkScale, _) (by simp [RadixsortGeometry.fields])⟩

theorem holds_scanBlocks {d : DeviceProperties} {g : RadixsortGeometry}
    (h : RadixsortGeometry.default d = .ok g) (problem : RadixsortProblem) :
    (candidates d problem).base.get? Parameter.scanBlocks = some (.int g.scanBlocks) :=
  (holds_base h).2 (Parameter.scanBlocks, g.scanBlocks) (by simp [RadixsortGeometry.fields])

/-- If the last stage does not try the number of blocks that all stages before have measured with,
slower parameters can be selected. -/
theorem not_selectsLowest_of_missing {d : DeviceProperties} {problem : RadixsortProblem}
    {g : RadixsortGeometry} (valid : validate d problem = .ok ())
    (h : RadixsortGeometry.default d = .ok g) (missing : g.scanBlocks ∉ blockCounts d) :
    ¬ (candidates d (canonical problem)).SelectsLowest := by
  obtain ⟨g', p, hdefault, fits, -, hscale⟩ := exists_default valid
  obtain rfl := Except.ok.inj (hdefault.symm.trans h)
  obtain ⟨w, hw, -⟩ := @own_of_fits d (canonical problem) g' h fits hscale _ List.mem_cons_self
  have nonempty := isEmpty_candidates valid
  have hblocks := holds_scanBlocks h (canonical problem)
  rw [candidates_eq h] at hblocks
  rw [stages_candidates h] at nonempty ⊢
  refine CandidateSpace.not_selectsLowest nonempty ⟨_, List.mem_map_of_mem hw, ?_⟩ missing
  rw [TuningParameters.get?_merged_single,
    if_neg (show Parameter.scanBlocks ≠ Parameter.reduceWorkGroupSize by decide), hblocks]

/-- Local memory lowers the 512 blocks of a graphics device with four units to 504, which are not
tried again. -/
theorem not_selectsLowest_gpu :
    let problem : RadixsortProblem := ⟨⟨.uint, 1, by decide⟩, .void⟩
    validate Backend.gpuProperties problem = .ok () ∧
      ¬ (candidates Backend.gpuProperties (canonical problem)).SelectsLowest := by
  intro problem
  obtain ⟨g, hdefault, hblocks⟩ :
      ∃ g, RadixsortGeometry.default Backend.gpuProperties = .ok g ∧ g.scanBlocks = 504 :=
    ⟨_, rfl, rfl⟩
  have valid : validate Backend.gpuProperties ⟨⟨.uint, 1, by decide⟩, .void⟩ = .ok () := by rfl
  refine ⟨valid, not_selectsLowest_of_missing valid hdefault ?_⟩
  rw [hblocks]
  decide

/-- **Radix sorts end with the lowest score exactly if** the last stage tries the number of blocks
that they have before any tuning, which is lowered to what local memory has room for. The stages
before the last one always end with the lowest of their scores. -/
theorem selectsLowest_iff {d : DeviceProperties} {problem : RadixsortProblem}
    (valid : validate d problem = .ok ()) :
    ∃ g, RadixsortGeometry.default d = .ok g ∧
      ((candidates d (canonical problem)).SelectsLowest ↔ g.scanBlocks ∈ blockCounts d) ∧
      (CandidateSpace.mk (candidates d (canonical problem)).base
        (candidates d (canonical problem)).stages.dropLast).SelectsLowest := by
  obtain ⟨g, p, hdefault, fits, -, hscale⟩ := exists_default valid
  refine ⟨g, hdefault, ⟨fun lowest => ?_, fun hmem => ?_⟩, ?_⟩
  · by_contra missing
    exact not_selectsLowest_of_missing valid hdefault missing lowest
  all_goals
    have own := @own_of_fits d (canonical problem) g hdefault fits hscale
    have hblocks := holds_scanBlocks hdefault (canonical problem)
    rw [candidates_eq hdefault] at own hblocks
    rw [stages_candidates hdefault]
  · refine CandidateSpace.selectsLowest_of_reoffers (by simp) ?_
    exact @Search.reoffers_of_own _ (tunedBeforeBlocks d g ++ [(Parameter.scanBlocks, blockCounts d)])
      (show [Parameter.reduceWorkGroupSize, Parameter.scanWorkGroupSize,
        Parameter.scatterWorkGroupSize, Parameter.scatterWorkScale, Parameter.scanBlocks].Nodup by
        decide)
      (List.forall_mem_append.2 ⟨own, by simpa using ⟨_, hmem, hblocks⟩⟩)
  · rw [List.dropLast_concat]
    exact CandidateSpace.selectsLowest_of_reoffers (by simp [tunedBeforeBlocks])
      (Search.reoffers_of_own (show [Parameter.reduceWorkGroupSize, Parameter.scanWorkGroupSize,
        Parameter.scatterWorkGroupSize, Parameter.scatterWorkScale].Nodup by decide) own)

/-- On a processor with four units the 16 blocks fit and are tried again. -/
theorem selectsLowest_cpu :
    (candidates Backend.cpuProperties
      (canonical ⟨⟨.uint, 1, by decide⟩, .void⟩)).SelectsLowest := by
  have valid : validate Backend.cpuProperties ⟨⟨.uint, 1, by decide⟩, .void⟩ = .ok () := by rfl
  obtain ⟨g, hdefault, hiff, -⟩ := selectsLowest_iff valid
  obtain ⟨g', hdefault', hblocks⟩ :
      ∃ g, RadixsortGeometry.default Backend.cpuProperties = .ok g ∧ g.scanBlocks = 16 :=
    ⟨_, rfl, rfl⟩
  obtain rfl := Except.ok.inj (hdefault.symm.trans hdefault')
  rw [hiff, hblocks]
  decide

end Radixsort

end KernelTuning
