import KernelTuning.Proofs.Geometry

/-!
# Candidates of valid problems

A problem that a primitive accepts always has candidates, in every stage of its space
(`isEmpty_candidates`). The geometry before any tuning shows it: its own values lie between the
bounds of the enumerations.

Tuning is by classes of problems, and the candidates are those of the problem that stands for the
class. It has the same storage size as every member, which is all that the bounds depend on.
-/

namespace KernelTuning

/-! ## Powers of two -/

namespace Word

theorem exists_pow_of_isPowerOfTwo {x : Word} (h : x.isPowerOfTwo = true) :
    ∃ k, x.toNat = 2 ^ k := by
  simp only [isPowerOfTwo, Bool.and_eq_true, beq_iff_eq] at h
  exact ⟨_, h.2⟩

theorem isPowerOfTwo_iff {x : Word} : x.isPowerOfTwo = true ↔ ∃ k, x.toNat = 2 ^ k := by
  refine ⟨exists_pow_of_isPowerOfTwo, ?_⟩
  rintro ⟨k, hk⟩
  rw [isPowerOfTwo, hk, Nat.log2_two_pow, Bool.and_eq_true, bne_iff_ne, ne_zero_iff, hk]
  exact ⟨Nat.two_pow_pos k, beq_self_eq_true _⟩

theorem isPowerOfTwo_pos {x : Word} (h : x.isPowerOfTwo = true) : 0 < x.toNat := by
  obtain ⟨k, hk⟩ := exists_pow_of_isPowerOfTwo h
  rw [hk]
  exact Nat.two_pow_pos k

theorem toNat_floorPowerOfTwo {x : Word} (h : 0 < x.toNat) :
    (floorPowerOfTwo x).toNat = 2 ^ x.toNat.log2 := by
  have hle := Nat.log2_self_le (Nat.ne_of_gt h)
  unfold floorPowerOfTwo
  rw [if_neg (ne_zero_iff.2 h), UInt64.toNat_ofNat_of_lt' (Nat.lt_of_le_of_lt hle x.toNat_lt)]

theorem isPowerOfTwo_floorPowerOfTwo {x : Word} (h : 0 < x.toNat) :
    (floorPowerOfTwo x).isPowerOfTwo = true :=
  isPowerOfTwo_iff.2 ⟨_, toNat_floorPowerOfTwo h⟩

theorem floorPowerOfTwo_le (x : Word) : floorPowerOfTwo x ≤ x := by
  rcases Nat.eq_zero_or_pos x.toNat with hzero | hpos
  · obtain rfl : x = 0 := UInt64.toNat_inj.1 hzero
    exact UInt64.le_refl 0
  · rw [UInt64.le_iff_toNat_le, toNat_floorPowerOfTwo hpos]
    exact Nat.log2_self_le (Nat.ne_of_gt hpos)

/-- Rounding down keeps every power of two below. -/
theorem le_floorPowerOfTwo {x : Word} {k : Nat} (h : 2 ^ k ≤ x.toNat) :
    2 ^ k ≤ (floorPowerOfTwo x).toNat := by
  have hpos : 0 < x.toNat := Nat.lt_of_lt_of_le (Nat.two_pow_pos k) h
  rw [toNat_floorPowerOfTwo hpos]
  exact Nat.pow_le_pow_right (by decide) ((Nat.le_log2 (Nat.ne_of_gt hpos)).2 h)

theorem ceilPowerOfTwo_le {n k : Nat} (h : n ≤ 2 ^ k) : ceilPowerOfTwo n ≤ 2 ^ k := by
  unfold ceilPowerOfTwo
  split
  · exact Nat.two_pow_pos k
  · exact Nat.pow_le_pow_right (by decide) ((Nat.log2_lt (by omega)).2 (by omega))

theorem exists_ceilPowerOfTwo_eq (n : Nat) : ∃ k, ceilPowerOfTwo n = 2 ^ k := by
  unfold ceilPowerOfTwo
  split
  · exact ⟨0, rfl⟩
  · exact ⟨_, rfl⟩

theorem mem_doublings {p max : Nat} (hp : 0 < p) (k : Nat) (h : p * 2 ^ k ≤ max) :
    p * 2 ^ k ∈ doublings p max := by
  induction k generalizing p with
  | zero =>
    rw [Nat.pow_zero, Nat.mul_one] at h ⊢
    rw [doublings, dif_pos ⟨hp, h⟩]
    exact List.mem_cons_self
  | succ k ih =>
    have hle : p ≤ max := Nat.le_trans (Nat.le_mul_of_pos_right p (Nat.two_pow_pos _)) h
    have hdouble : p * 2 ^ (k + 1) = 2 * p * 2 ^ k := by
      rw [Nat.pow_succ', ← Nat.mul_assoc, Nat.mul_comm p 2]
    rw [hdouble] at h ⊢
    rw [doublings, dif_pos ⟨hp, hle⟩]
    exact List.mem_cons_of_mem _ (ih (by omega) h)

/-- The enumeration has every power of two within its bounds. -/
theorem mem_powersOfTwo {min max x : Word} (pow : x.isPowerOfTwo = true) (hmin : min ≤ x)
    (hmax : x ≤ max) : x ∈ powersOfTwo min max := by
  obtain ⟨k, hk⟩ := exists_pow_of_isPowerOfTwo pow
  obtain ⟨j, hj⟩ := exists_ceilPowerOfTwo_eq min.toNat
  rw [UInt64.le_iff_toNat_le] at hmin hmax
  have hstart : 2 ^ j ≤ x.toNat := hj ▸ hk ▸ ceilPowerOfTwo_le (hk ▸ hmin)
  have hlt : 2 ^ j < modulus := Nat.lt_of_le_of_lt hstart x.toNat_lt
  have hle : j ≤ k := (Nat.pow_le_pow_iff_right (by decide)).1 (hk ▸ hstart)
  have hx : x.toNat = 2 ^ j * 2 ^ (k - j) := by
    rw [hk, ← Nat.pow_add, Nat.add_sub_cancel' hle]
  simp only [powersOfTwo, powersOfTwo?, hj, hlt, if_true, Option.getD_some, List.mem_map]
  refine ⟨x.toNat, ?_, UInt64.ofNat_toNat⟩
  rw [hx]
  exact mem_doublings (Nat.two_pow_pos j) _ (hx ▸ hmax)

theorem powersOfTwo_ne_nil {min max x : Word} (pow : x.isPowerOfTwo = true) (hmin : min ≤ x)
    (hmax : x ≤ max) : powersOfTwo min max ≠ [] :=
  List.ne_nil_of_mem (mem_powersOfTwo pow hmin hmax)

end Word

namespace CandidateSpace

theorem isEmpty_stage (name : String) (values : List Word) :
    (stage name values).isEmpty = values.isEmpty := by
  cases values <;> rfl

end CandidateSpace

/-! ## Classes of types -/

namespace ElemType

theorem storageSize_toSigned (t : ElemType) : t.toSigned.storageSize = t.storageSize := by
  obtain ⟨base, length, valid⟩ := t
  have hsize : base.toSigned.size = base.size := by cases base <;> rfl
  show (if length = 3 then 4 else length.toUInt64) * base.toSigned.size = _
  rw [hsize]
  rfl

theorem storageSize_of_toSigned_eq {s t : ElemType} (h : s.toSigned = t.toSigned) :
    s.storageSize = t.storageSize := by
  rw [← storageSize_toSigned, h, storageSize_toSigned]

end ElemType

theorem ScanGeometry.limits_congr {d : DeviceProperties} {s t : ElemType}
    (h : s.storageSize = t.storageSize) : limits d s = limits d t := by
  simp only [limits, localMemElements, workGroupLimit, h]

theorem Reduce.workGroupLimit_congr {d : DeviceProperties} {s t : ElemType}
    (h : s.storageSize = t.storageSize) : workGroupLimit d s = workGroupLimit d t := by
  simp only [workGroupLimit, h]

theorem Scan.limits_canonical (d : DeviceProperties) (problem : ScanProblem) :
    ScanGeometry.limits d (canonical problem).elem = ScanGeometry.limits d problem.elem :=
  ScanGeometry.limits_congr (ElemType.storageSize_toSigned _)

theorem Reduce.workGroupLimit_canonical (d : DeviceProperties) (problem : ReduceProblem) :
    workGroupLimit d (canonical problem).elem = workGroupLimit d problem.elem :=
  workGroupLimit_congr (ElemType.storageSize_toSigned _)

/-- Problems of one class have the same parameters that fit. -/
theorem Scan.fits_of_canonical_eq {d : DeviceProperties} {problem problem' : ScanProblem}
    {p : TuningParameters} (h : canonical problem' = canonical problem)
    (fits : Fits d problem p) : Fits d problem' p := by
  have hsize : problem'.elem.storageSize = problem.elem.storageSize :=
    ElemType.storageSize_of_toSigned_eq (congrArg ScanProblem.elem h)
  have hlimits := ScanGeometry.limits_congr (d := d) hsize
  obtain ⟨hwarps, g, holds, hg⟩ := fits
  exact ⟨hwarps, g, holds, {
    hg with
    capable := hlimits ▸ hg.capable
    reduce_le := hlimits ▸ hg.reduce_le
    scan_le := hlimits ▸ hg.scan_le
    scale_le := hlimits ▸ hg.scale_le
    blocks_le := hlimits ▸ hg.blocks_le }⟩

theorem Reduce.fits_of_canonical_eq {d : DeviceProperties} {problem problem' : ReduceProblem}
    {p : TuningParameters} (h : canonical problem' = canonical problem)
    (fits : Fits d problem p) : Fits d problem' p := by
  have hsize : problem'.elem.storageSize = problem.elem.storageSize :=
    ElemType.storageSize_of_toSigned_eq (congrArg ReduceProblem.elem h)
  unfold Fits
  rw [workGroupLimit_congr hsize]
  exact fits

/-! ## Spaces -/

theorem Scan.isEmpty_candidates {d : DeviceProperties} {problem : ScanProblem}
    (valid : validate d problem = .ok ()) :
    (candidates d (canonical problem)).isEmpty = false := by
  have hlimits := limits_canonical d problem
  have fits := (validate_eq_ok.1 valid).2
  rw [candidates_eq fits.hasLimits, hlimits]
  simp only [candidatesWithin, CandidateSpace.isEmpty, List.isEmpty_cons, List.any_cons,
    List.any_nil, CandidateSpace.isEmpty_stage, Bool.or_false, Bool.false_or, Bool.or_eq_false_iff,
    List.isEmpty_eq_false_iff]
  have hreduce := Word.isPowerOfTwo_pos fits.reduce_pow
  refine ⟨Word.powersOfTwo_ne_nil fits.reduce_pow ?_ fits.reduce_le,
    Word.powersOfTwo_ne_nil fits.scan_pow ?_ fits.scan_le,
    Word.powersOfTwo_ne_nil (x := 1) (by decide) (UInt64.le_refl 1) ?_,
    Word.powersOfTwo_ne_nil fits.blocks_pow fits.two_le_blocks fits.blocks_le⟩
  · exact UInt64.le_iff_toNat_le.2 hreduce
  · exact UInt64.le_iff_toNat_le.2 (Word.isPowerOfTwo_pos fits.scan_pow)
  · -- Local memory has room for the elements of a work group.
    have hle := UInt64.le_iff_toNat_le.1 fits.reduce_le
    rw [ScanGeometry.toNat_workGroupSize] at hle
    rw [UInt64.le_iff_toNat_le, Word.toNat_min]
    show 1 ≤ min 16 _
    omega

theorem Reduce.isEmpty_candidates {d : DeviceProperties} {problem : ReduceProblem}
    (valid : validate d problem = .ok ()) :
    (candidates d (canonical problem)).isEmpty = false := by
  have hlimit := workGroupLimit_canonical d problem
  simp only [validate, Attempt.ensure_bind_eq_ok, Attempt.ensure_eq_ok, decide_eq_true_eq] at valid
  have hpos : 1 ≤ workGroupLimit d problem.elem :=
    UInt64.le_iff_toNat_le.2 (UInt64.lt_iff_toNat_lt.1 valid.2)
  simp only [candidates, hlimit, CandidateSpace.isEmpty, List.isEmpty_cons, List.any_cons,
    List.any_nil, CandidateSpace.isEmpty_stage, Bool.or_false, Bool.false_or, Bool.or_eq_false_iff,
    List.isEmpty_eq_false_iff]
  refine ⟨Word.powersOfTwo_ne_nil (x := 1) (by decide) (UInt64.le_refl 1) hpos, ?_⟩
  simp [blockCounts]

theorem Radixsort.isEmpty_candidates {d : DeviceProperties} {problem : RadixsortProblem}
    (valid : validate d problem = .ok ()) :
    (candidates d (canonical problem)).isEmpty = false := by
  simp only [validate, Attempt.ensure_bind_eq_ok] at valid
  obtain ⟨g, hdefault, -⟩ := Attempt.bind_eq_ok.1 valid.2.2
  have fits : g.Fits d := by
    obtain ⟨p, -, hp⟩ := Attempt.bind_eq_ok.1 hdefault
    exact (RadixsortGeometry.ofParameters_eq_ok.1 hp).2
  simp only [candidates, hdefault, CandidateSpace.isEmpty, List.isEmpty_cons, List.any_cons,
    List.any_nil, CandidateSpace.isEmpty_stage, Bool.or_false, Bool.false_or, Bool.or_eq_false_iff,
    List.isEmpty_eq_false_iff]
  refine ⟨Word.powersOfTwo_ne_nil fits.reduce_pow fits.le_reduce fits.reduce_le,
    Word.powersOfTwo_ne_nil fits.scan_pow fits.le_scan fits.scan_le, ?_, by simp⟩
  -- A scatter group before any tuning is a multiple of the slice, so one slice is not too large.
  have hdvd := Nat.dvd_of_mod_eq_zero (by simpa using congrArg UInt64.toNat fits.slice_dvd)
  have hslice := Nat.le_of_dvd (UInt64.lt_iff_toNat_lt.1 fits.scatter_pos) hdvd
  have hmax := UInt64.le_iff_toNat_le.1 fits.scatter_le
  have hpos : 0 < g.scatterSlice.toNat := Nat.pos_of_dvd_of_pos hdvd
    (UInt64.lt_iff_toNat_lt.1 fits.scatter_pos)
  rw [Ne, List.map_eq_nil_iff]
  refine Word.powersOfTwo_ne_nil (x := 1) (by decide) (UInt64.le_refl 1) ?_
  rw [UInt64.le_iff_toNat_le, UInt64.toNat_div]
  exact (Nat.one_le_div_iff hpos).2 (Nat.le_trans hslice hmax)

end KernelTuning
