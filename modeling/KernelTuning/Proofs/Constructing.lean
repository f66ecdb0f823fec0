import KernelTuning.Proofs.CacheStability
import KernelTuning.Proofs.Measuring

/-!
# Valid problems have algorithms

A primitive that accepts a problem can also tune it. Validation, the candidates, the checks of
their parameters, the build and the measurement each have limits of their own; here they agree.

**The parameters before any tuning.** They fit the device and the problem (`fits_base`), and one of
the candidates of the first stage only sets one of them to its own value (`StartsAtBase`). So this
candidate is built and measured in every state of the device, the search selects something, and what
it selects has been built once and can be built again.

**Theorem (`constructible_valid`).** For scans, reductions and radix sorts on a device with moderate
limits and a backend that refuses nothing: the construction for a valid problem never ends with an
empty space or with failed candidates only. The scores are assumed to be valid, which they are if
the seconds of every launch fit in a word (`hasValidScores_of_lt`).

A record whose parameters are refused does not matter: the search goes on as without it
(`exists_create_of_unused`).
-/

namespace KernelTuning

/-! ## Parameters -/

namespace TuningParameters

variable {p : TuningParameters} {bindings : List (String × Word)}

theorem get?_set (p : TuningParameters) (name other : String) (value : ParamValue) :
    (p.set name value).get? other = if other = name then some value else p.get? other :=
  SortedMap.get?_insert ..

/-- Setting a parameter to its own value changes nothing. -/
theorem merged_single {name : String} {w : Word} (h : p.get? name = some (.int w)) :
    p.merged (single name w) = p := by
  obtain ⟨values⟩ := p
  show TuningParameters.mk (values.insert name (.int w)) = _
  rw [SortedMap.insert_of_get? h]

/-- The warp sizes are added beside the other parameters. -/
theorem holds_withWarpSizes (d : DeviceProperties) (nodup :
    (bindings.map (·.1) ++ [Parameter.warpSizeMem, Parameter.warpSizeSchedule]).Nodup) :
    (Parameter.withWarpSizes (ofWords bindings) d).HasWarpSizes d ∧
      (Parameter.withWarpSizes (ofWords bindings) d).Holds bindings := by
  obtain ⟨nodup, -, disjoint⟩ := List.nodup_append.1 nodup
  unfold Parameter.withWarpSizes
  constructor
  · intro b hb
    simp only [List.mem_cons, List.not_mem_nil, or_false] at hb
    rcases hb with rfl | rfl <;> simp [get?_set, Parameter.warpSizeMem, Parameter.warpSizeSchedule]
  · intro b hb
    have hmem : b.1 ≠ Parameter.warpSizeMem :=
      disjoint _ (List.mem_map_of_mem hb) _ (by simp)
    have hschedule : b.1 ≠ Parameter.warpSizeSchedule :=
      disjoint _ (List.mem_map_of_mem hb) _ (by simp)
    rw [get?_set, if_neg hschedule, get?_set, if_neg hmem]
    exact holds_ofWords nodup b hb

end TuningParameters

/-- A candidate of the first stage leaves the base parameters as they are. -/
def CandidateSpace.StartsAtBase (space : CandidateSpace) : Prop :=
  ∃ stage rest overrides, space.stages = stage :: rest ∧ overrides ∈ stage ∧
    space.base.merged overrides = space.base

theorem CandidateSpace.startsAtBase {base : TuningParameters} {name : String} {values : List Word}
    {rest : List (List TuningParameters)} {w : Word} (h : base.get? name = some (.int w))
    (hw : w ∈ values) : StartsAtBase ⟨base, stage name values :: rest⟩ :=
  ⟨_, _, _, rfl, List.mem_map_of_mem hw, TuningParameters.merged_single h⟩

/-! ## Base parameters that fit -/

namespace Scan

variable {d : DeviceProperties} {problem : ScanProblem}

/-- The parameters before any tuning hold the geometry that was validated. -/
theorem holds_base (h : d.HasLimits) (problem : ScanProblem) :
    (candidates d (canonical problem)).base.HasWarpSizes d ∧
      (candidates d (canonical problem)).base.Holds
        ((ScanGeometry.limits d problem.elem).default d).fields := by
  rw [candidates_eq h, limits_canonical]
  apply TuningParameters.holds_withWarpSizes
  show [Parameter.reduceWorkGroupSize, Parameter.scanWorkGroupSize, Parameter.scanWorkScale,
    Parameter.scanBlocks, Parameter.warpSizeMem, Parameter.warpSizeSchedule].Nodup
  decide

theorem fits_default (valid : validate d problem = .ok ()) :
    ((ScanGeometry.limits d problem.elem).default d).Fits d problem.elem :=
  (validate_eq_ok.1 valid).2

theorem fits_base (valid : validate d problem = .ok ()) :
    Fits d problem (candidates d (canonical problem)).base := by
  have fits := fits_default valid
  obtain ⟨warps, holds⟩ := holds_base fits.hasLimits problem
  exact ⟨warps, _, holds, fits⟩

theorem startsAtBase (valid : validate d problem = .ok ()) :
    (candidates d (canonical problem)).StartsAtBase := by
  have fits := fits_default valid
  have hbase := (holds_base fits.hasLimits problem).2 _ List.mem_cons_self
  rw [candidates_eq fits.hasLimits, limits_canonical] at hbase ⊢
  refine CandidateSpace.startsAtBase hbase ?_
  exact Word.mem_powersOfTwo fits.reduce_pow
    (UInt64.le_iff_toNat_le.2 (Word.isPowerOfTwo_pos fits.reduce_pow)) fits.reduce_le

end Scan

namespace Reduce

variable {d : DeviceProperties} {problem : ReduceProblem}

theorem holds_base (d : DeviceProperties) (problem : ReduceProblem) :
    (candidates d (canonical problem)).base.Holds
      [(Parameter.reduceWorkGroupSize, Word.floorPowerOfTwo (workGroupLimit d problem.elem)),
        (Parameter.reduceBlocks, 16 * d.units)] := by
  rw [← workGroupLimit_canonical]
  apply TuningParameters.holds_ofWords
  show [Parameter.reduceWorkGroupSize, Parameter.reduceBlocks].Nodup
  decide

theorem workGroupLimit_pos (valid : validate d problem = .ok ()) :
    0 < (workGroupLimit d problem.elem).toNat := by
  simp only [validate, Attempt.ensure_bind_eq_ok, Attempt.ensure_eq_ok, decide_eq_true_eq] at valid
  exact UInt64.lt_iff_toNat_lt.1 valid.2

theorem fits_base (hunits : d.computeUnits.toNat < 2 ^ 24)
    (valid : validate d problem = .ok ()) :
    Fits d problem (candidates d (canonical problem)).base := by
  have hpos := workGroupLimit_pos valid
  have hgroup := Word.isPowerOfTwo_pos (Word.isPowerOfTwo_floorPowerOfTwo hpos)
  have hunits : 1 ≤ d.units.toNat ∧ d.units.toNat ≤ 2 ^ 24 := by
    rw [DeviceProperties.units, Word.toNat_max, UInt32.toNat_toUInt64, UInt64.toNat_one]
    omega
  have hblocks : (16 * d.units).toNat = 16 * d.units.toNat :=
    Word.toNat_mul_of_lt (show 16 * d.units.toNat < 2 ^ 64 by omega)
  refine ⟨_, _, holds_base d problem, UInt64.lt_iff_toNat_lt.2 hgroup,
    Word.floorPowerOfTwo_le _, UInt64.lt_iff_toNat_lt.2 ?_, ?_⟩
  · rw [hblocks]
    exact Nat.mul_pos (by decide) hunits.1
  · omega

theorem startsAtBase (valid : validate d problem = .ok ()) :
    (candidates d (canonical problem)).StartsAtBase := by
  have hpos := workGroupLimit_pos valid
  have hpow := Word.isPowerOfTwo_floorPowerOfTwo hpos
  refine CandidateSpace.startsAtBase (holds_base d problem _ List.mem_cons_self) ?_
  rw [workGroupLimit_canonical]
  exact Word.mem_powersOfTwo hpow (UInt64.le_iff_toNat_le.2 (Word.isPowerOfTwo_pos hpow))
    (Word.floorPowerOfTwo_le _)

end Reduce

namespace Radixsort

variable {d : DeviceProperties} {problem : RadixsortProblem}

/-- The work scale before any tuning. -/
theorem scatterWorkScale_of_defaultParameters {p : TuningParameters}
    (h : RadixsortGeometry.defaultParameters d = .ok p) :
    p.get? Parameter.scatterWorkScale = some (.int 7) := by
  unfold RadixsortGeometry.defaultParameters at h
  split at h
  obtain ⟨-, h⟩ := Attempt.ensure_bind_eq_ok.1 h
  obtain ⟨scatter, -, h⟩ := Attempt.ofArithmetic_bind_eq_ok.1 h
  cases h
  refine TuningParameters.holds_ofWords ?_ (Parameter.scatterWorkScale, 7) (by simp)
  show [Parameter.radixBits, Parameter.reduceWorkGroupSize, Parameter.scanWorkGroupSize,
    Parameter.scatterWorkGroupSize, Parameter.scatterWorkScale, Parameter.scanBlocks].Nodup
  decide

/-- A valid problem has a geometry before any tuning. -/
theorem exists_default (valid : validate d problem = .ok ()) :
    ∃ g p, RadixsortGeometry.default d = .ok g ∧ g.Fits d ∧ g.Normalizes d p ∧
      g.scatterWorkScale = 7 := by
  simp only [validate, Attempt.ensure_bind_eq_ok] at valid
  obtain ⟨g, hdefault, -⟩ := Attempt.bind_eq_ok.1 valid.2.2
  obtain ⟨p, hp, hg⟩ := Attempt.bind_eq_ok.1 hdefault
  obtain ⟨normalizes, fits⟩ := RadixsortGeometry.ofParameters_eq_ok.1 hg
  refine ⟨g, p, hdefault, fits, normalizes, ?_⟩
  have hscale := normalizes.holds (Parameter.scatterWorkScale, g.scatterWorkScale) (by simp)
  rw [scatterWorkScale_of_defaultParameters hp] at hscale
  exact (ParamValue.int.inj (Option.some.inj hscale)).symm

theorem candidates_eq {g : RadixsortGeometry} (h : RadixsortGeometry.default d = .ok g) :
    (candidates d problem).base = Parameter.withWarpSizes g.toParameters d := by
  unfold candidates
  rw [h]

theorem holds_base {g : RadixsortGeometry} (h : RadixsortGeometry.default d = .ok g) :
    (candidates d problem).base.HasWarpSizes d ∧ (candidates d problem).base.Holds g.fields := by
  rw [candidates_eq h]
  apply TuningParameters.holds_withWarpSizes
  show [Parameter.radixBits, Parameter.reduceWorkGroupSize, Parameter.scanWorkGroupSize,
    Parameter.scatterWorkGroupSize, Parameter.scatterWorkScale, Parameter.scanBlocks,
    Parameter.warpSizeMem, Parameter.warpSizeSchedule].Nodup
  decide

theorem fits_base (valid : validate d problem = .ok ()) :
    Fits d problem (candidates d (canonical problem)).base := by
  obtain ⟨g, p, hdefault, fits, normalizes, -⟩ := exists_default valid
  obtain ⟨requested, -, hblocks⟩ := normalizes.blocks
  obtain ⟨warps, holds⟩ := @holds_base d (canonical problem) g hdefault
  exact ⟨warps, g, fits.normalizes_of_holds (RadixsortGeometry.step_dvd hblocks) holds, fits⟩

theorem startsAtBase (valid : validate d problem = .ok ()) :
    (candidates d (canonical problem)).StartsAtBase := by
  obtain ⟨g, p, hdefault, fits, -, -⟩ := exists_default valid
  have hreduce := (@holds_base d (canonical problem) g hdefault).2
    (Parameter.reduceWorkGroupSize, g.reduceWorkGroupSize) (by simp [RadixsortGeometry.fields])
  unfold candidates at hreduce ⊢
  rw [hdefault] at hreduce ⊢
  exact CandidateSpace.startsAtBase hreduce
    (Word.mem_powersOfTwo fits.reduce_pow fits.le_reduce fits.reduce_le)

end Radixsort

/-! ## Constructions -/

namespace Algorithm

variable {σ δ Q L A O β : Type} [Problem Q]

section

variable {p : Primitive δ Q L A O} {problem : Q} {parameters : TuningParameters} {plan : L}
  {x : Binary64} {d d₁ d' : δ}

omit [Problem Q] in
theorem exec_score_of_ok (built : exec (p.build problem parameters) d = (.ok plan, d₁))
    (measured : exec (p.measure plan) d₁ = (.ok x, d')) :
    exec (score p problem parameters) d = (.ok x, d') := by
  unfold score
  rw [exec_mapError, exec_bind_of_ok built, measured]
  rfl

omit [Problem Q] in
theorem exec_score_eq_ok (h : exec (score p problem parameters) d = (.ok x, d')) :
    ∃ plan d₁, exec (p.build problem parameters) d = (.ok plan, d₁) ∧
      exec (p.measure plan) d₁ = (.ok x, d') := by
  unfold score at h
  rw [exec_mapError] at h
  rcases hrun : exec (p.build problem parameters >>= p.measure) d with ⟨e | y, d₂⟩ <;>
    rw [hrun] at h
  · cases h
  · cases h
    exact exec_bind_eq_ok hrun

end

/-- All scores of measurements for a problem are finite and not below zero. -/
def HasValidScores (p : Primitive δ Q L A O) (problem : Q) : Prop :=
  ∀ parameters d x d', exec (score p problem parameters) d = (.ok x, d') →
    Search.isValidScore x = true

/-- A problem can be tuned: its construction ends with an algorithm. -/
structure Constructible (p : Primitive δ Q L A O) (problem : Q) : Prop where
  /-- There are candidates in every stage. -/
  stages : (spaceOf p problem).stages ≠ [] ∧ ∀ stage ∈ (spaceOf p problem).stages, stage ≠ []
  /-- A candidate of the first stage is built and measured in every state of the device. -/
  first : ∃ stage rest overrides, (spaceOf p problem).stages = stage :: rest ∧ overrides ∈ stage ∧
    ∀ d, ∃ x d', exec (score p problem ((spaceOf p problem).base.merged overrides)) d =
      (.ok x, d') ∧ Search.isValidScore x = true
  /-- Without a cached entry, the parameters are tuned. -/
  tuned : ∀ {σ β : Type} (t : Tuner σ) (now : UInt64) (s : σ) (d : δ), t.policy.enabled = true →
    t.lookup (keyOf p problem) (spaceOf p problem) s = none →
    ∃ (a : ReadyAlgorithm Q L β) (s' : σ) (d' : δ),
      exec (create p t now problem : Action (σ × δ) (Algorithm Q L β)) (s, d) =
        (.ok (.ready a), s', d') ∧
      ∃ evaluated x, a.resolution = .tuned evaluated x

theorem stages_of_isEmpty {space : CandidateSpace} (h : space.isEmpty = false) :
    space.stages ≠ [] ∧ ∀ stage ∈ space.stages, stage ≠ [] := by
  unfold CandidateSpace.isEmpty at h
  rw [Bool.or_eq_false_iff, List.any_eq_false] at h
  refine ⟨by simpa using h.1, fun stage hstage hnil => ?_⟩
  exact h.2 stage hstage (by rw [hnil]; rfl)

variable {prim : Backend → Primitive Recorder Q L A O}
  {fits : DeviceProperties → Q → TuningParameters → Prop} {b : Backend} {problem : Q}

/-- Where no cached entry can be used, the parameters are tuned: a candidate of the first stage is
measured in every state, so the search selects something. -/
theorem exists_create_of_unused (c : Cacheable prim fits) (accepts : b.Accepts)
    (valid : (prim b).validate problem = .ok ())
    (first : ∃ stage rest overrides, (spaceOf (prim b) problem).stages = stage :: rest ∧
      overrides ∈ stage ∧ ∀ d, ∃ x d',
        exec (score (prim b) problem ((spaceOf (prim b) problem).base.merged overrides)) d =
          (.ok x, d') ∧ Search.isValidScore x = true)
    {t : Tuner σ} {s : σ} {d d₁ : Recorder} (on : t.policy.enabled = true)
    (unused : Unused (prim b) t problem s d d₁) (now : UInt64) :
    ∃ (a : ReadyAlgorithm Q L β) (s' : σ) (d' : Recorder),
      exec (create (prim b) t now problem : Action (σ × Recorder) (Algorithm Q L β)) (s, d) =
        (.ok (.ready a), s', d') ∧
      ∃ evaluated x, a.resolution = .tuned evaluated x := by
  have nonempty := c.nonempty valid
  obtain ⟨stage, rest, overrides, hstages, hmem, hscores⟩ := first
  rcases hrun : (Search.run (score (prim b) problem) (spaceOf (prim b) problem)).run d₁ with
    ⟨trace, d₂⟩
  obtain ⟨found, hfound⟩ := Search.exists_selected? hstages hmem hscores hrun
  -- What is selected was built for its measurement, so it fits.
  obtain ⟨d₃, x, d₄, hscore⟩ := Search.exists_measured_of_selected? hrun hfound
  obtain ⟨plan, d₅, hbuild, -⟩ := exec_score_eq_ok hscore
  obtain ⟨plan, d', hbuild⟩ := c.exists_build accepts valid (c.fits_of_build hbuild) d₂
  have hcreate : exec (create (prim b) t now problem : Action (σ × Recorder) (Algorithm Q L β))
      (s, d) = _ := (exec_create_of_unused valid nonempty unused).trans
    (exec_fromSearch_of_built nonempty on hrun hfound hbuild)
  exact ⟨_, _, d', hcreate, _, _, rfl⟩

/-- A problem can be tuned if its base parameters fit, are a candidate of the first stage, and
make plans that are measured in every state. -/
theorem constructible (c : Cacheable prim fits) (accepts : b.Accepts)
    (valid : (prim b).validate problem = .ok ()) (scores : HasValidScores (prim b) problem)
    (starts : (spaceOf (prim b) problem).StartsAtBase)
    (base : fits b.properties problem (spaceOf (prim b) problem).base)
    (measures : ∀ plan d d',
      exec ((prim b).build problem (spaceOf (prim b) problem).base) d = (.ok plan, d') →
        Device.Succeeds ((prim b).measure plan)) : Constructible (prim b) problem := by
  have first : ∃ stage rest overrides, (spaceOf (prim b) problem).stages = stage :: rest ∧
      overrides ∈ stage ∧ ∀ d, ∃ x d',
        exec (score (prim b) problem ((spaceOf (prim b) problem).base.merged overrides)) d =
          (.ok x, d') ∧ Search.isValidScore x = true := by
    obtain ⟨stage, rest, overrides, hstages, hmem, hbase⟩ := starts
    refine ⟨stage, rest, overrides, hstages, hmem, fun d => ?_⟩
    rw [hbase]
    obtain ⟨plan, d₁, hbuild⟩ := c.exists_build accepts valid base d
    obtain ⟨x, d', hmeasure⟩ := measures plan d d₁ hbuild d₁
    have hscore := exec_score_of_ok hbuild hmeasure
    exact ⟨x, d', hscore, scores _ _ _ _ hscore⟩
  exact ⟨stages_of_isEmpty (c.nonempty valid), first, fun t now s d on missing =>
    exists_create_of_unused c accepts valid first on (.missing missing) now⟩

end Algorithm

/-! ## Primitives -/

open Algorithm

section

variable {b : Backend}

/-- A plan has the work scale of its parameters. -/
theorem Radixsort.scatterWorkScale_of_build {problem : RadixsortProblem} {p : TuningParameters}
    {plan : RadixsortPlan} {d d' : Recorder} {w : Word}
    (hp : p.get? Parameter.scatterWorkScale = some (.int w))
    (h : exec (build b problem p) d = (.ok plan, d')) : plan.geometry.scatterWorkScale = w := by
  have hscale := (RadixsortGeometry.ofParameters_eq_ok.1 (builtFrom_of_build h).geometry).1.holds
    (Parameter.scatterWorkScale, plan.geometry.scatterWorkScale) (by simp)
  rw [hp] at hscale
  exact (ParamValue.int.inj (Option.some.inj hscale)).symm

end

theorem Scan.constructible {b : Backend} (moderate : b.properties.Moderate) (accepts : b.Accepts)
    (runs : b.Runs) {problem : ScanProblem} (valid : validate b.properties problem = .ok ())
    (scores : HasValidScores (primitive b) problem) : Constructible (primitive b) problem := by
  refine Algorithm.constructible cacheable_scan accepts valid scores (startsAtBase valid)
    (fits_base valid) fun plan d d' hbuild => ?_
  exact succeeds_measure moderate (plan_of_build hbuild).1 runs

theorem Reduce.constructible {b : Backend} (moderate : b.properties.Moderate)
    (hunits : b.properties.computeUnits.toNat < 2 ^ 24) (accepts : b.Accepts) (runs : b.Runs)
    {problem : ReduceProblem} (valid : validate b.properties problem = .ok ())
    (scores : HasValidScores (primitive b) problem) : Constructible (primitive b) problem := by
  refine Algorithm.constructible cacheable_reduce accepts valid scores (startsAtBase valid)
    (fits_base hunits valid) fun plan d d' hbuild => ?_
  exact succeeds_measure moderate (plan_of_build hbuild).1 runs

theorem Radixsort.constructible {b : Backend} (moderate : b.properties.Moderate)
    (accepts : b.Accepts) (runs : b.Runs) {problem : RadixsortProblem}
    (valid : validate b.properties problem = .ok ())
    (scores : HasValidScores (primitive b) problem) : Constructible (primitive b) problem := by
  refine Algorithm.constructible cacheable_radixsort accepts valid scores (startsAtBase valid)
    (fits_base valid) fun plan d d' hbuild => ?_
  obtain ⟨g, p, hdefault, -, -, hg⟩ := exists_default valid
  have hscale := scatterWorkScale_of_build ((@holds_base b.properties (canonical problem) g
    hdefault).2 (Parameter.scatterWorkScale, g.scatterWorkScale)
    (by simp [RadixsortGeometry.fields])) hbuild
  refine succeeds_measure moderate (planFits_of_build hbuild) runs ?_
    (planSorts_of_build valid hbuild)
  rw [hscale, hg]
  decide

end KernelTuning
