import KernelTuning.Proofs.Running
import KernelTuning.Radixsort.Plan
import KernelTuning.Reduce
import KernelTuning.Scan.Plan
import KernelTuning.SortedMap.Lemmas

/-!
# Geometries that fit a device

What it means for the parameters of a primitive to fit a device, said by inequalities on the
sizes instead of by the checks in their order.

* `ScanGeometry.Fits`, `RadixsortGeometry.Fits`: the limits of work groups and local memory.
* `Scan.Fits`, `Reduce.Fits`, `Radixsort.Fits`: parameters that hold such a geometry for a
  problem, and the warp sizes of the device where the kernels depend on them.

A geometry passes its checks exactly if it fits (`validate_eq_ok`, `shapeOf_eq_ok`,
`ofParameters_eq_ok`). A radix sort takes fewer blocks than the parameters ask for where local
memory has no room for them (`RadixsortGeometry.Normalizes`).
-/

namespace KernelTuning

/-! ## Words as numbers -/

namespace Word

theorem toNat_min (a b : Word) : (min a b).toNat = min a.toNat b.toNat := by
  show (if a ≤ b then a else b).toNat = _
  split <;> rename_i h <;> rw [UInt64.le_iff_toNat_le] at h <;> omega

theorem toNat_max (a b : Word) : (max a b).toNat = max a.toNat b.toNat := by
  show (if a ≤ b then b else a).toNat = _
  split <;> rename_i h <;> rw [UInt64.le_iff_toNat_le] at h <;> omega

theorem toNat_saturatingSub (a b : Word) : (saturatingSub a b).toNat = a.toNat - b.toNat := by
  unfold saturatingSub
  split
  · rename_i h
    exact UInt64.toNat_sub_of_le _ _ h
  · rename_i h
    rw [UInt64.le_iff_toNat_le] at h
    show 0 = _
    omega

theorem toNat_mul_of_lt {a b : Word} (h : a.toNat * b.toNat < 2 ^ 64) :
    (a * b).toNat = a.toNat * b.toNat := by
  rw [UInt64.toNat_mul, Nat.mod_eq_of_lt h]

theorem ne_zero_iff {a : Word} : a ≠ 0 ↔ 0 < a.toNat := by
  rw [Ne, ← UInt64.toNat_inj]
  show ¬ a.toNat = 0 ↔ _
  omega

theorem exists_toNat_eq {n : Nat} (h : n < 2 ^ 64) : ∃ w : Word, w.toNat = n :=
  ⟨.ofNat n, UInt64.toNat_ofNat_of_lt' h⟩

/-- A sum is computed exactly if it fits in a word, and then it is that of the numbers. -/
theorem add?_eq_ok {a b c : Word} : add? a b = .ok c ↔ c.toNat = a.toNat + b.toNat := by
  unfold add?
  split <;> rename_i h
  · have hsum : (a + b).toNat = a.toNat + b.toNat :=
      (UInt64.toNat_add a b).trans (Nat.mod_eq_of_lt h)
    rw [← hsum, UInt64.toNat_inj]
    exact ⟨fun h => (Except.ok.inj h).symm, fun h => h ▸ rfl⟩
  · refine iff_of_false nofun fun hc => h ?_
    rw [← hc]
    exact c.toNat_lt

theorem exists_add?_eq {a b : Word} (h : a.toNat + b.toNat < 2 ^ 64) :
    ∃ c, add? a b = .ok c ∧ c.toNat = a.toNat + b.toNat := by
  obtain ⟨c, hc⟩ := exists_toNat_eq h
  exact ⟨c, add?_eq_ok.2 hc, hc⟩

/-- A product is computed exactly if it fits in a word, and then it is that of the numbers. -/
theorem mul?_eq_ok {a b c : Word} : mul? a b = .ok c ↔ c.toNat = a.toNat * b.toNat := by
  unfold mul?
  split <;> rename_i h
  · rw [← toNat_mul_of_lt h, UInt64.toNat_inj]
    exact ⟨fun h => (Except.ok.inj h).symm, fun h => h ▸ rfl⟩
  · refine iff_of_false nofun fun hc => h ?_
    rw [← hc]
    exact c.toNat_lt

theorem mul?_of_lt {a b : Word} (h : a.toNat * b.toNat < 2 ^ 64) : mul? a b = .ok (a * b) :=
  mul?_eq_ok.2 (toNat_mul_of_lt h)

theorem div?_eq_ok {a b c : Word} : div? a b = .ok c ↔ b ≠ 0 ∧ a / b = c := by
  unfold div?
  split <;> rename_i h
  · exact iff_of_false nofun fun hb => hb.1 h
  · rw [Except.ok.injEq]
    exact (and_iff_right h).symm

theorem roundDown?_le {a m w : Word} (h : roundDown? a m = .ok w) : w ≤ a := by
  obtain ⟨q, hq, hw⟩ := except_bind_eq_ok.1 h
  obtain ⟨-, rfl⟩ := div?_eq_ok.1 hq
  obtain rfl : a / m * m = w := Except.ok.inj hw
  have hle := Nat.div_mul_le_self a.toNat m.toNat
  rw [UInt64.le_iff_toNat_le, toNat_mul_of_lt, UInt64.toNat_div]
  · exact hle
  · rw [UInt64.toNat_div]
    exact Nat.lt_of_le_of_lt hle a.toNat_lt

theorem mul?_of_ge {a b : Word} (h : 2 ^ 64 ≤ a.toNat * b.toNat) :
    mul? a b = .error .multiplicationOverflow :=
  if_neg (Nat.not_lt.2 h)

end Word

/-! ## Parameters -/

namespace TuningParameters

/-- The parameters hold some integers. -/
def Holds (p : TuningParameters) (bindings : List (String × Word)) : Prop :=
  ∀ b ∈ bindings, p.get? b.1 = some (.int b.2)

theorem holds_ofWords {bindings : List (String × Word)}
    (nodup : (bindings.map (·.1)).Nodup) : (ofWords bindings).Holds bindings := by
  intro b hb
  have nodup' : ((bindings.map fun b => (b.1, ParamValue.int b.2)).map (·.1)).Nodup := by
    rw [List.map_map]
    exact nodup
  exact SortedMap.get?_insertMany_of_mem nodup' (List.mem_map_of_mem hb) _

theorem word_eq_ok {p : TuningParameters} {name : String} {w : Word} :
    p.word name = .ok w ↔ p.get? name = some (.int w) := by
  unfold word getWord
  rcases p.get? name with _ | _ | _ <;> simp

theorem word_bind_eq_ok {β : Type} {p : TuningParameters} {name : String} {f : Word → Attempt β}
    {b : β} : (p.word name >>= f) = .ok b ↔ ∃ w, p.get? name = some (.int w) ∧ f w = .ok b := by
  simp only [Attempt.bind_eq_ok, word_eq_ok]

/-- The parameters were tuned for the warp sizes of a device. -/
def HasWarpSizes (p : TuningParameters) (d : DeviceProperties) : Prop :=
  p.Holds [(Parameter.warpSizeMem, d.warpSizeMem),
    (Parameter.warpSizeSchedule, d.warpSizeSchedule)]

end TuningParameters

theorem Parameter.checkWarpSizes_eq_ok {p : TuningParameters} {d : DeviceProperties} :
    checkWarpSizes p d = .ok () ↔ p.HasWarpSizes d := by
  simp only [checkWarpSizes, TuningParameters.word_bind_eq_ok, Attempt.ensure_eq_ok,
    Bool.and_eq_true, decide_eq_true_eq, TuningParameters.HasWarpSizes, TuningParameters.Holds,
    List.mem_cons, List.not_mem_nil, or_false, forall_eq_or_imp, forall_eq]
  constructor
  · rintro ⟨mem, hmem, schedule, hschedule, rfl, rfl⟩
    exact ⟨hmem, hschedule⟩
  · rintro ⟨hmem, hschedule⟩
    exact ⟨_, hmem, _, hschedule, rfl, rfl⟩

/-! ## Scans -/

/-- Twice the work group of the device is a word, as the limits of scans require. -/
def DeviceProperties.HasLimits (d : DeviceProperties) : Prop :=
  2 * d.maxWorkGroupSize.toNat < 2 ^ 64

instance (d : DeviceProperties) : Decidable d.HasLimits := inferInstanceAs (Decidable (_ < _))

namespace ScanGeometry

variable {g : ScanGeometry} {d : DeviceProperties} {elem : ElemType}

/-- The limits of a device that has some. -/
def limits (d : DeviceProperties) (elem : ElemType) : Limits where
  localMemElements := localMemElements d elem
  workGroupSize := workGroupLimit d elem
  blocks := .ofNat (min (2 * d.maxWorkGroupSize.toNat) (localMemElements d elem).toNat)

theorem toNat_localMemElements (d : DeviceProperties) (elem : ElemType) :
    (limits d elem).localMemElements.toNat =
      d.localMemSize.toNat / max elem.storageSize.toNat 1 := by
  show (d.localMemSize / max elem.storageSize 1).toNat = _
  rw [UInt64.toNat_div, Word.toNat_max]
  rfl

theorem toNat_workGroupSize (d : DeviceProperties) (elem : ElemType) :
    (limits d elem).workGroupSize.toNat =
      min d.maxWorkGroupSize.toNat ((limits d elem).localMemElements.toNat / 2 - 1) := by
  show (workGroupLimit d elem).toNat = _
  rw [workGroupLimit, Word.toNat_min, Word.toNat_saturatingSub, UInt64.toNat_div]
  rfl

theorem toNat_blocks (d : DeviceProperties) (elem : ElemType) :
    (limits d elem).blocks.toNat =
      min (2 * d.maxWorkGroupSize.toNat) (limits d elem).localMemElements.toNat :=
  UInt64.toNat_ofNat_of_lt' (Nat.lt_of_le_of_lt (Nat.min_le_right _ _) (UInt64.toNat_lt _))

theorem limits?_of_hasLimits (h : d.HasLimits) (elem : ElemType) :
    limits? d elem = .ok (limits d elem) := by
  have hlt : (2 : Word).toNat * d.maxWorkGroupSize.toNat < 2 ^ 64 := h
  have hblocks : min (2 * d.maxWorkGroupSize) (localMemElements d elem) =
      (limits d elem).blocks := by
    rw [← UInt64.toNat_inj, toNat_blocks, Word.toNat_min, Word.toNat_mul_of_lt hlt]
    rfl
  rw [limits?, Word.mul?_of_lt hlt]
  show Except.ok (Limits.mk _ _ _) = _
  rw [hblocks]
  rfl

theorem limits?_of_not_hasLimits (h : ¬ d.HasLimits) (elem : ElemType) :
    limits? d elem = .error .multiplicationOverflow := by
  have hge : 2 ^ 64 ≤ (2 : Word).toNat * d.maxWorkGroupSize.toNat := Nat.not_lt.1 h
  rw [limits?, Word.mul?_of_ge hge]
  rfl

theorem limits?_eq_ok {l : Limits} :
    limits? d elem = .ok l ↔ d.HasLimits ∧ limits d elem = l := by
  by_cases h : d.HasLimits
  · rw [limits?_of_hasLimits h, Except.ok.injEq]
    exact (and_iff_right h).symm
  · rw [limits?_of_not_hasLimits h]
    exact iff_of_false nofun fun hl => h hl.1

/-- The tile fits if it does so as a number. -/
theorem fitsLocalMem?_eq_ok_true {l : Limits} :
    g.fitsLocalMem? l = .ok true ↔ g.scanWorkScale.isPowerOfTwo = true ∧
      g.scanWorkScale.toNat * g.scanWorkGroupSize.toNat ≤ l.localMemElements.toNat := by
  unfold fitsLocalMem?
  split <;> rename_i hpow
  · rw [except_bind_eq_ok]
    constructor
    · rintro ⟨tile, htile, h⟩
      rw [← Word.mul?_eq_ok.1 htile]
      exact ⟨hpow, UInt64.le_iff_toNat_le.1 (of_decide_eq_true (Except.ok.inj h))⟩
    · rintro ⟨-, h⟩
      have hlt := Nat.lt_of_le_of_lt h l.localMemElements.toNat_lt
      refine ⟨_, Word.mul?_of_lt hlt, congrArg Except.ok (decide_eq_true ?_)⟩
      rw [UInt64.le_iff_toNat_le, Word.toNat_mul_of_lt hlt]
      exact h
  · exact iff_of_false nofun fun h => hpow h.1

/-- The device has room for the geometry. -/
structure Fits (g : ScanGeometry) (d : DeviceProperties) (elem : ElemType) : Prop where
  hasLimits : d.HasLimits
  capable : 0 < (limits d elem).workGroupSize
  reduce_pow : g.reduceWorkGroupSize.isPowerOfTwo = true
  reduce_le : g.reduceWorkGroupSize ≤ (limits d elem).workGroupSize
  scan_pow : g.scanWorkGroupSize.isPowerOfTwo = true
  scan_le : g.scanWorkGroupSize ≤ (limits d elem).workGroupSize
  scale_pow : g.scanWorkScale.isPowerOfTwo = true
  scale_le : g.scanWorkScale.toNat * g.scanWorkGroupSize.toNat ≤
    (limits d elem).localMemElements.toNat
  blocks_pow : g.scanBlocks.isPowerOfTwo = true
  two_le_blocks : 2 ≤ g.scanBlocks
  blocks_le : g.scanBlocks ≤ (limits d elem).blocks

theorem validate_eq_ok : g.validate d elem = .ok () ↔ g.Fits d elem := by
  simp only [validate, checkWorkGroup, Attempt.ofArithmetic_bind_eq_ok, Attempt.ensure_bind_eq_ok,
    Attempt.ensure_eq_ok, Bool.and_eq_true, decide_eq_true_eq, limits?_eq_ok]
  constructor
  · rintro ⟨_, ⟨hlimits, rfl⟩, h, ⟨h₁, h₂⟩, ⟨h₃, h₄⟩, _, hfits, rfl, ⟨h₇, h₈⟩, h₉⟩
    obtain ⟨h₅, h₆⟩ := fitsLocalMem?_eq_ok_true.1 hfits
    exact ⟨hlimits, h, h₁, h₂, h₃, h₄, h₅, h₆, h₇, h₈, h₉⟩
  · rintro ⟨hlimits, h, h₁, h₂, h₃, h₄, h₅, h₆, h₇, h₈, h₉⟩
    exact ⟨_, ⟨hlimits, rfl⟩, h, ⟨h₁, h₂⟩, ⟨h₃, h₄⟩, true, fitsLocalMem?_eq_ok_true.2 ⟨h₅, h₆⟩, rfl,
      ⟨h₇, h₈⟩, h₉⟩

/-- The geometry before any tuning is that of the limits. -/
theorem default_eq_ok : default d elem = .ok g ↔ d.HasLimits ∧ (limits d elem).default d = g := by
  simp only [default, Attempt.ofArithmetic_bind_eq_ok, limits?_eq_ok]
  constructor
  · rintro ⟨_, ⟨hlimits, rfl⟩, h⟩
    exact ⟨hlimits, Except.ok.inj h⟩
  · rintro ⟨hlimits, rfl⟩
    exact ⟨_, ⟨hlimits, rfl⟩, rfl⟩

theorem ofParameters_eq_ok {p : TuningParameters} :
    ofParameters p = .ok g ↔ p.Holds g.fields := by
  simp only [ofParameters, TuningParameters.word_bind_eq_ok, TuningParameters.Holds, fields,
    List.mem_cons, List.not_mem_nil, or_false, forall_eq_or_imp, forall_eq]
  constructor
  · rintro ⟨_, h₁, _, h₂, _, h₃, _, h₄, h⟩
    cases h
    exact ⟨h₁, h₂, h₃, h₄⟩
  · rintro ⟨h₁, h₂, h₃, h₄⟩
    exact ⟨_, h₁, _, h₂, _, h₃, _, h₄, rfl⟩

end ScanGeometry

namespace Scan

/-- The parameters hold a geometry that the device has room for, and its warp sizes. -/
def Fits (d : DeviceProperties) (problem : ScanProblem) (p : TuningParameters) : Prop :=
  p.HasWarpSizes d ∧ ∃ g : ScanGeometry, p.Holds g.fields ∧ g.Fits d problem.elem

/-- A problem is valid if its type is supported and the geometry before any tuning fits. -/
theorem validate_eq_ok {d : DeviceProperties} {problem : ScanProblem} :
    validate d problem = .ok () ↔
      (problem.elem.isIntegral && problem.elem.isComputable d && problem.elem.isStorable d) = true ∧
      ((ScanGeometry.limits d problem.elem).default d).Fits d problem.elem := by
  simp only [validate, Attempt.ensure_bind_eq_ok]
  simp only [Attempt.bind_eq_ok, ScanGeometry.default_eq_ok, ScanGeometry.validate_eq_ok]
  constructor
  · rintro ⟨supported, _, ⟨-, rfl⟩, fits⟩
    exact ⟨supported, fits⟩
  · rintro ⟨supported, fits⟩
    exact ⟨supported, _, ⟨fits.hasLimits, rfl⟩, fits⟩

theorem candidates_eq {d : DeviceProperties} (h : d.HasLimits) (problem : ScanProblem) :
    candidates d problem = candidatesWithin d (ScanGeometry.limits d problem.elem) := by
  rw [candidates, candidates?, ScanGeometry.limits?_of_hasLimits h]
  rfl

end Scan

/-! ## Reductions -/

namespace Reduce

/-- The parameters hold a work group that the device has room for, and a number of blocks. -/
def Fits (d : DeviceProperties) (problem : ReduceProblem) (p : TuningParameters) : Prop :=
  ∃ workGroupSize blocks : Word,
    p.Holds [(Parameter.reduceWorkGroupSize, workGroupSize), (Parameter.reduceBlocks, blocks)] ∧
    0 < workGroupSize ∧ workGroupSize ≤ workGroupLimit d problem.elem ∧
    0 < blocks ∧ blocks.toNat < 2 ^ 32

theorem shapeOf_eq_ok {d : DeviceProperties} {elem : ElemType} {p : TuningParameters}
    {workGroupSize blocks : Word} :
    shapeOf d elem p = .ok (workGroupSize, blocks) ↔
      p.Holds [(Parameter.reduceWorkGroupSize, workGroupSize), (Parameter.reduceBlocks, blocks)] ∧
      0 < workGroupSize ∧ workGroupSize ≤ workGroupLimit d elem ∧
      0 < blocks ∧ blocks.toNat < 2 ^ 32 := by
  have hblocks (w : Word) : w ≤ 0xFFFFFFFF ↔ w.toNat < 2 ^ 32 := by
    rw [UInt64.le_iff_toNat_le]
    show w.toNat ≤ 4294967295 ↔ _
    omega
  simp only [shapeOf, TuningParameters.word_bind_eq_ok, Attempt.ensure_bind_eq_ok,
    Bool.and_eq_true, decide_eq_true_eq, TuningParameters.Holds, List.mem_cons, List.not_mem_nil,
    or_false, forall_eq_or_imp, forall_eq, hblocks]
  constructor
  · rintro ⟨_, h₁, _, h₂, ⟨h₃, h₄⟩, ⟨h₅, h₆⟩, h⟩
    cases h
    exact ⟨⟨h₁, h₂⟩, h₃, h₄, h₅, h₆⟩
  · rintro ⟨⟨h₁, h₂⟩, h₃, h₄, h₅, h₆⟩
    exact ⟨_, h₁, _, h₂, ⟨h₃, h₄⟩, ⟨h₅, h₆⟩, rfl⟩

end Reduce

/-! ## Radix sorts -/

namespace RadixsortGeometry

/-- The device has room for the work groups of the geometry, whatever its number of blocks. -/
structure GroupsFit (g : RadixsortGeometry) (d : DeviceProperties) : Prop where
  one_le_bits : 1 ≤ g.radixBits
  bits_le : g.radixBits ≤ 8
  capable : g.radix ≤ d.maxWorkGroupSize
  reduce_pow : g.reduceWorkGroupSize.isPowerOfTwo = true
  le_reduce : g.radix ≤ g.reduceWorkGroupSize
  reduce_le : g.reduceWorkGroupSize ≤ d.maxWorkGroupSize
  scan_pow : g.scanWorkGroupSize.isPowerOfTwo = true
  le_scan : g.radix ≤ g.scanWorkGroupSize
  scan_le : g.scanWorkGroupSize ≤ d.maxWorkGroupSize
  slice : g.scatterSlice = max d.warpSizeMem g.radix
  scatter_pos : 0 < g.scatterWorkGroupSize
  slice_dvd : g.scatterWorkGroupSize % g.scatterSlice = 0
  slices_pow : g.slices.isPowerOfTwo = true
  scatter_le : g.scatterWorkGroupSize ≤ d.maxWorkGroupSize
  scale_pos : 0 < g.scatterWorkScale

/-- The device has room for the geometry. -/
structure Fits (g : RadixsortGeometry) (d : DeviceProperties) : Prop extends GroupsFit g d where
  blocks_pos : 0 < g.scanBlocks
  blocks_le : g.scanBlocks ≤ Word.saturatingSub (d.localMemSize / g.radix) 1 / 4

/-- The blocks of a scan group that one work item handles, at least one. -/
def granularity (g : RadixsortGeometry) : Word := max (g.scanWorkGroupSize / g.radix) 1

/-- The parameters ask for the geometry, with a number of blocks that is lowered to its own. -/
structure Normalizes (g : RadixsortGeometry) (d : DeviceProperties) (p : TuningParameters) :
    Prop where
  holds : p.Holds [(Parameter.radixBits, g.radixBits),
    (Parameter.reduceWorkGroupSize, g.reduceWorkGroupSize),
    (Parameter.scanWorkGroupSize, g.scanWorkGroupSize),
    (Parameter.scatterWorkGroupSize, g.scatterWorkGroupSize),
    (Parameter.scatterWorkScale, g.scatterWorkScale)]
  blocks : ∃ requested, p.get? Parameter.scanBlocks = some (.int requested) ∧
    fitBlocks? d g.radix g.granularity g.slices requested = .ok g.scanBlocks

/-- The number of blocks never exceeds what local memory has room for. -/
theorem fitBlocks?_le {d : DeviceProperties} {radix scanGranularity slices requested blocks : Word}
    (h : fitBlocks? d radix scanGranularity slices requested = .ok blocks) :
    blocks ≤ Word.saturatingSub (d.localMemSize / radix) 1 / 4 := by
  obtain ⟨rounded, -, hdown⟩ := except_bind_eq_ok.1 h
  have hle := Word.roundDown?_le hdown
  rw [UInt64.le_iff_toNat_le, Word.toNat_min] at hle
  exact UInt64.le_iff_toNat_le.2 (Nat.le_trans hle (Nat.min_le_right _ _))

theorem ofParameters_eq_ok {d : DeviceProperties} {p : TuningParameters} {g : RadixsortGeometry} :
    ofParameters d p = .ok g ↔ g.Normalizes d p ∧ g.Fits d := by
  simp only [ofParameters, checkWorkGroup, requireCapable, TuningParameters.word_bind_eq_ok,
    Attempt.ensure_bind_eq_ok, Attempt.ofArithmetic_bind_eq_ok, Bool.and_eq_true, decide_eq_true_eq,
    beq_iff_eq]
  -- The checks of the program are the fields of `Fits`, in the order of the program.
  constructor
  · rintro ⟨bits, hbits, ⟨h₁, h₂⟩, h₃, reduce, hreduce, scan, hscan, ⟨⟨h₄, h₅⟩, h₆⟩,
      ⟨⟨h₇, h₈⟩, h₉⟩, scatter, hscatter, ⟨⟨⟨h₁₀, h₁₁⟩, h₁₂⟩, h₁₃⟩, scale, hscale, h₁₄,
      requested, hrequested, blocks, hblocks, h₁₅, h⟩
    cases h
    refine ⟨⟨?_, requested, hrequested, hblocks⟩, ?_⟩
    · simp only [TuningParameters.Holds, List.mem_cons, List.not_mem_nil, or_false,
        forall_eq_or_imp, forall_eq]
      exact ⟨hbits, hreduce, hscan, hscatter, hscale⟩
    · exact ⟨⟨h₁, h₂, h₃, h₄, h₅, h₆, h₇, h₈, h₉, rfl, h₁₀, h₁₁, h₁₂, h₁₃, h₁₄⟩, h₁₅,
        fitBlocks?_le hblocks⟩
  · rintro ⟨⟨holds, requested, hrequested, hblocks⟩, fits⟩
    simp only [TuningParameters.Holds, List.mem_cons, List.not_mem_nil, or_false,
      forall_eq_or_imp, forall_eq] at holds
    obtain ⟨hbits, hreduce, hscan, hscatter, hscale⟩ := holds
    obtain ⟨⟨h₁, h₂, h₃, h₄, h₅, h₆, h₇, h₈, h₉, hslice, h₁₀, h₁₁, h₁₂, h₁₃, h₁₄⟩, h₁₅, -⟩ := fits
    obtain ⟨bits, reduce, scan, scatter, scale, slice, blocks⟩ := g
    simp only [radix] at hslice
    subst hslice
    exact ⟨bits, hbits, ⟨h₁, h₂⟩, h₃, reduce, hreduce, scan, hscan, ⟨⟨h₄, h₅⟩, h₆⟩,
      ⟨⟨h₇, h₈⟩, h₉⟩, scatter, hscatter, ⟨⟨⟨h₁₀, h₁₁⟩, h₁₂⟩, h₁₃⟩, scale, hscale, h₁₄,
      requested, hrequested, blocks, hblocks, h₁₅, rfl⟩

end RadixsortGeometry

/-- The parameters hold the warp sizes of the device and a geometry that it has room for. The
geometry of a radix sort does not depend on the types. -/
def Radixsort.Fits (d : DeviceProperties) (_problem : RadixsortProblem) (p : TuningParameters) :
    Prop :=
  p.HasWarpSizes d ∧ ∃ g : RadixsortGeometry, g.Normalizes d p ∧ g.Fits d

end KernelTuning
