import Mathlib.Algebra.Order.Floor.Div
import KernelTuning.Proofs.Builds
import KernelTuning.Proofs.Candidates

/-!
# Blocks of an execution

A primitive splits its elements into blocks of one size, a multiple of the tile that a work group
handles at a time. There are at most as many blocks as the plan has room for. The sizes are words,
computed from parameters and counts of any size.

* `tileLength`, `blockLength`: the sizes of a tile and of a block as numbers.
* `blockSize?_eq`, one for each primitive: on a device with moderate limits
  (`DeviceProperties.Moderate`) no product on the way to the block size exceeds a word.
* `blocksOf_eq_ok`, `blocks?_eq`: the blocks cover the elements, and the plan has room for them.
-/

namespace KernelTuning

/-- Work groups and local memory of less than `2^24`, far above those of any device. -/
structure DeviceProperties.Moderate (d : DeviceProperties) : Prop where
  workGroup : d.maxWorkGroupSize.toNat < 2 ^ 24
  localMem : d.localMemSize.toNat < 2 ^ 24

theorem DeviceProperties.Moderate.hasLimits {d : DeviceProperties} (h : d.Moderate) :
    d.HasLimits := by
  have hgroup := h.workGroup
  show 2 * d.maxWorkGroupSize.toNat < 2 ^ 64
  omega

/-! ## Rounding to multiples -/

theorem le_ceilDiv_mul (a : Nat) {b : Nat} (hb : 0 < b) : a ≤ (a ⌈/⌉ b) * b := by
  rw [Nat.mul_comm]
  exact le_smul_ceilDiv hb

theorem ceilDiv_mul_lt (a : Nat) {b : Nat} (hb : 0 < b) : (a ⌈/⌉ b) * b < a + b := by
  rw [Nat.ceilDiv_eq_add_pred_div]
  have hle := Nat.div_mul_le_self (a + b - 1) b
  omega

theorem ceilDiv_eq {a b q : Nat} (hle : a ≤ q * b) (hlt : q * b < a + b) : a ⌈/⌉ b = q := by
  rw [Nat.ceilDiv_eq_add_pred_div]
  apply Nat.div_eq_of_lt_le
  · omega
  · rw [Nat.add_mul, Nat.one_mul]
    omega

theorem pred_ceilDiv_mul_lt {a b : Nat} (ha : 0 < a) (hb : 0 < b) : (a ⌈/⌉ b - 1) * b < a := by
  have hlt := ceilDiv_mul_lt a hb
  rw [Nat.sub_mul]
  omega

theorem ceilDiv_pos {a b : Nat} (ha : 0 < a) (hb : 0 < b) : 0 < a ⌈/⌉ b := by
  rw [Nat.ceilDiv_eq_add_pred_div]
  exact Nat.div_pos (by omega) hb

namespace Word

/-- A quotient that is rounded up is a word: only division by one can give the largest word, and it
has no remainder. -/
theorem ceilDiv?_eq (a : Word) {b : Word} (hb : 0 < b.toNat) :
    ∃ q, ceilDiv? a b = .ok q ∧ q.toNat = a.toNat ⌈/⌉ b.toNat := by
  have hdvd : a % b = 0 ↔ a.toNat % b.toNat = 0 := by
    rw [← UInt64.toNat_inj, UInt64.toNat_mod]
    rfl
  have hsplit := Nat.div_add_mod' a.toNat b.toNat
  have hmod := Nat.mod_lt a.toNat hb
  unfold ceilDiv?
  rw [if_neg (ne_zero_iff.2 hb)]
  split <;> rename_i h <;> rw [hdvd] at h
  · refine ⟨_, rfl, ?_⟩
    rw [UInt64.toNat_div]
    exact (ceilDiv_eq (by omega) (by omega)).symm
  · refine ⟨_, rfl, ?_⟩
    -- A remainder means that the divisor is more than one, so adding one stays within a word.
    have hlt : a.toNat / b.toNat < a.toNat := by
      apply Nat.div_lt_self
      · rcases Nat.eq_zero_or_pos a.toNat with ha | ha
        · rw [ha, Nat.zero_mod] at h
          exact absurd rfl h
        · exact ha
      · rcases Nat.eq_or_lt_of_le hb with hone | hone
        · rw [← hone, Nat.mod_one] at h
          exact absurd rfl h
        · exact hone
    have hword := a.toNat_lt
    rw [UInt64.toNat_add, UInt64.toNat_div, Nat.mod_eq_of_lt (by simp; omega)]
    refine (ceilDiv_eq ?_ ?_).symm <;> simp only [UInt64.toNat_one, Nat.add_mul] <;> omega

theorem ceilDiv?_eq_ok {a b q : Word} :
    ceilDiv? a b = .ok q ↔ 0 < b.toNat ∧ q.toNat = a.toNat ⌈/⌉ b.toNat := by
  by_cases hb : b = 0
  · rw [ceilDiv?, if_pos hb]
    exact iff_of_false nofun fun h => ne_zero_iff.2 h.1 hb
  · obtain ⟨q', hq', hvalue⟩ := ceilDiv?_eq a (ne_zero_iff.1 hb)
    rw [hq', Except.ok.injEq, ← hvalue, UInt64.toNat_inj]
    exact ⟨fun h => ⟨ne_zero_iff.1 hb, h.symm⟩, fun h => h.2.symm⟩

/-- What rounding up gives is the multiple of the numbers, if that fits in a word. -/
theorem roundUp?_eq_ok {a m w : Word} :
    roundUp? a m = .ok w ↔ 0 < m.toNat ∧ w.toNat = (a.toNat ⌈/⌉ m.toNat) * m.toNat := by
  simp only [roundUp?, except_bind_eq_ok, ceilDiv?_eq_ok, mul?_eq_ok]
  constructor
  · rintro ⟨q, ⟨hm, hq⟩, hw⟩
    exact ⟨hm, hq ▸ hw⟩
  · rintro ⟨hm, hw⟩
    obtain ⟨q, -, hq⟩ := ceilDiv?_eq a hm
    exact ⟨q, ⟨hm, hq⟩, hq ▸ hw⟩

theorem roundUp?_eq (a : Word) {m : Word} (hm : 0 < m.toNat) (h : a.toNat + m.toNat ≤ 2 ^ 64) :
    ∃ w, roundUp? a m = .ok w ∧ w.toNat = (a.toNat ⌈/⌉ m.toNat) * m.toNat := by
  have hlt := ceilDiv_mul_lt a.toNat hm
  obtain ⟨w, hw⟩ :=
    exists_toNat_eq (show (a.toNat ⌈/⌉ m.toNat) * m.toNat < 2 ^ 64 by omega)
  exact ⟨w, roundUp?_eq_ok.2 ⟨hm, hw⟩, hw⟩

/-- The larger one of a word and a product is computed exactly if it fits in a word. -/
theorem max_mul?_eq_ok {a b c w : Word} :
    (do return max a (← mul? b c)) = .ok w ↔ w.toNat = max a.toNat (b.toNat * c.toNat) := by
  rw [except_bind_eq_ok]
  constructor
  · rintro ⟨product, hproduct, hmax⟩
    rw [← Except.ok.inj hmax, toNat_max, mul?_eq_ok.1 hproduct]
  · intro h
    have hlt : b.toNat * c.toNat < 2 ^ 64 := by
      have hword := w.toNat_lt
      omega
    refine ⟨b * c, mul?_of_lt hlt, congrArg Except.ok ?_⟩
    rw [← UInt64.toNat_inj, toNat_max, toNat_mul_of_lt hlt, h]

/-- Two powers of two divide the larger one. -/
theorem dvd_max {a b : Word} (ha : ∃ i, a.toNat = 2 ^ i) (hb : ∃ k, b.toNat = 2 ^ k) :
    a.toNat ∣ (max a b).toNat ∧ b.toNat ∣ (max a b).toNat := by
  obtain ⟨i, hi⟩ := ha
  obtain ⟨k, hk⟩ := hb
  rw [toNat_max, hi, hk]
  rcases Nat.le_total i k with hle | hle
  · rw [Nat.max_eq_right (Nat.pow_le_pow_right (by decide) hle)]
    exact ⟨Nat.pow_dvd_pow 2 hle, Nat.dvd_refl _⟩
  · rw [Nat.max_eq_left (Nat.pow_le_pow_right (by decide) hle)]
    exact ⟨Nat.dvd_refl _, Nat.pow_dvd_pow 2 hle⟩

theorem div?_eq (a : Word) {b : Word} (hb : 0 < b.toNat) : div? a b = .ok (a / b) :=
  if_neg (ne_zero_iff.2 hb)

theorem roundDown?_eq (a : Word) {m : Word} (hm : 0 < m.toNat) :
    ∃ w, roundDown? a m = .ok w ∧ w.toNat = a.toNat / m.toNat * m.toNat := by
  refine ⟨a / m * m, by rw [roundDown?, div?_eq a hm]; rfl, ?_⟩
  have hle := Nat.div_mul_le_self a.toNat m.toNat
  have hlt := a.toNat_lt
  rw [toNat_mul_of_lt (by rw [UInt64.toNat_div]; omega), UInt64.toNat_div]

end Word

/-! ## The size of a block -/

/-- The size of the blocks when some elements are split into at most `blocks` blocks, a multiple
of the tile. -/
def blockLength (tile blocks elements : Nat) : Nat := (elements ⌈/⌉ (tile * blocks)) * tile

section

variable {tile blocks elements : Nat}

theorem dvd_blockLength : tile ∣ blockLength tile blocks elements := Nat.dvd_mul_left ..

theorem le_mul_blockLength (htile : 0 < tile) (hblocks : 0 < blocks) :
    elements ≤ blocks * blockLength tile blocks elements := by
  unfold blockLength
  rw [Nat.mul_comm, Nat.mul_assoc]
  exact le_ceilDiv_mul _ (Nat.mul_pos htile hblocks)

theorem blockLength_mul_lt (htile : 0 < tile) (hblocks : 0 < blocks) :
    blockLength tile blocks elements * blocks < elements + tile * blocks := by
  unfold blockLength
  rw [Nat.mul_assoc]
  exact ceilDiv_mul_lt _ (Nat.mul_pos htile hblocks)

theorem blockLength_pos (htile : 0 < tile) (hblocks : 0 < blocks) (h : 0 < elements) :
    0 < blockLength tile blocks elements :=
  Nat.mul_pos (ceilDiv_pos h (Nat.mul_pos htile hblocks)) htile

/-- A block is at most one tile longer than its share of the elements. -/
theorem blockLength_le (htile : 0 < tile) (hblocks : 0 < blocks) :
    blockLength tile blocks elements ≤ elements / blocks + tile := by
  have hlt := @blockLength_mul_lt tile blocks elements htile hblocks
  rw [← Nat.sub_le_iff_le_add, Nat.le_div_iff_mul_le hblocks, Nat.sub_mul]
  omega

/-- There are no more blocks than wanted. -/
theorem ceilDiv_blockLength_le (htile : 0 < tile) (hblocks : 0 < blocks) (h : 0 < elements) :
    elements ⌈/⌉ blockLength tile blocks elements ≤ blocks := by
  rw [ceilDiv_le_iff_le_mul (blockLength_pos htile hblocks h), Nat.mul_comm]
  exact le_mul_blockLength htile hblocks

end

/-- The size of a block as a word: the elements rounded up for all blocks, divided by the number
of blocks. -/
theorem exists_blockLength {tile blocks elements : Word} (htile : 0 < tile.toNat)
    (hblocks : 0 < blocks.toNat) (h : elements.toNat + tile.toNat * blocks.toNat < 2 ^ 64) :
    ∃ size, (do
        let covered ← Word.roundUp? elements (← Word.mul? tile blocks)
        Word.div? covered blocks) = .ok size ∧
      size.toNat = blockLength tile.toNat blocks.toNat elements.toNat := by
  have hlt : tile.toNat * blocks.toNat < 2 ^ 64 := by omega
  have hproduct := Word.toNat_mul_of_lt hlt
  obtain ⟨covered, hcovered, hvalue⟩ := Word.roundUp?_eq elements (m := tile * blocks)
    (by rw [hproduct]; exact Nat.mul_pos htile hblocks) (by omega)
  refine ⟨covered / blocks, ?_, ?_⟩
  · rw [Word.mul?_of_lt hlt, except_ok_bind, hcovered, except_ok_bind, Word.div?_eq _ hblocks]
  · rw [UInt64.toNat_div, hvalue, hproduct, ← Nat.mul_assoc, Nat.mul_div_cancel _ hblocks]
    rfl

/-! ## Scans -/

namespace ScanGeometry

variable {g : ScanGeometry} {d : DeviceProperties} {elem : ElemType}

/-- The elements that the work groups handle at a time, as a number of any size. -/
def tileLength (g : ScanGeometry) : Nat :=
  max g.reduceWorkGroupSize.toNat (g.scanWorkScale.toNat * g.scanWorkGroupSize.toNat)

theorem tile?_eq_ok {w : Word} : g.tile? = .ok w ↔ w.toNat = g.tileLength := Word.max_mul?_eq_ok

/-- The tile is not larger than local memory. -/
theorem Fits.tile_bounds (fits : g.Fits d elem) (moderate : d.Moderate) :
    0 < g.tileLength ∧ g.tileLength < 2 ^ 24 := by
  have hreduce := Word.isPowerOfTwo_pos fits.reduce_pow
  have hle := UInt64.le_iff_toNat_le.1 fits.reduce_le
  have hscale := fits.scale_le
  have hlocal := Nat.div_le_self d.localMemSize.toNat (max elem.storageSize.toNat 1)
  have hmem := moderate.localMem
  have hgroup := moderate.workGroup
  rw [toNat_workGroupSize, toNat_localMemElements] at hle
  rw [toNat_localMemElements] at hscale
  rw [tileLength]
  omega

theorem Fits.scanBlocks_bounds (fits : g.Fits d elem) (moderate : d.Moderate) :
    2 ≤ g.scanBlocks.toNat ∧ g.scanBlocks.toNat < 2 ^ 24 ∧
      g.scanBlocks.toNat ≤ 2 * d.maxWorkGroupSize.toNat := by
  have htwo := UInt64.le_iff_toNat_le.1 fits.two_le_blocks
  have hle := UInt64.le_iff_toNat_le.1 fits.blocks_le
  have hlocal := Nat.div_le_self d.localMemSize.toNat (max elem.storageSize.toNat 1)
  have hmem := moderate.localMem
  have hgroup := moderate.workGroup
  rw [toNat_blocks, toNat_localMemElements] at hle
  exact ⟨htwo, by omega, by omega⟩

/-- The blocks of a scan are always short enough for a kernel argument. -/
theorem blockSize?_eq (fits : g.Fits d elem) (moderate : d.Moderate) {elements : Word}
    (h : elements.toNat < 2 ^ 32) :
    ∃ size, g.blockSize? elements = .ok size ∧
      size.toNat = blockLength g.tileLength g.scanBlocks.toNat elements.toNat ∧
      size.toNat < 2 ^ 32 := by
  obtain ⟨htile, htile_lt⟩ := fits.tile_bounds moderate
  obtain ⟨htwo, hblocks_lt, -⟩ := fits.scanBlocks_bounds moderate
  have hblocks : 0 < g.scanBlocks.toNat := by omega
  have hproduct : g.tileLength * g.scanBlocks.toNat < 2 ^ 24 * 2 ^ 24 :=
    Nat.mul_lt_mul'' htile_lt hblocks_lt
  obtain ⟨tile, htoNat⟩ := Word.exists_toNat_eq (show g.tileLength < 2 ^ 64 by omega)
  rw [← htoNat] at htile hproduct
  obtain ⟨size, hsize, hvalue⟩ := @exists_blockLength _ _ elements htile hblocks (by omega)
  rw [htoNat] at htile hvalue
  refine ⟨size, ?_, hvalue, ?_⟩
  · rw [blockSize?, tile?_eq_ok.2 htoNat, except_ok_bind]
    exact hsize
  have hle := @blockLength_le g.tileLength g.scanBlocks.toNat elements.toNat htile hblocks
  have hshare : elements.toNat / g.scanBlocks.toNat ≤ elements.toNat / 2 :=
    Nat.div_le_div_left htwo (by decide)
  omega

end ScanGeometry

namespace Scan

/-- The blocks of an execution, for which there are sums. -/
theorem blocksOf_eq_ok {plan : ScanPlan} {d : DeviceProperties} {elem : ElemType}
    (fits : plan.geometry.Fits d elem) (moderate : d.Moderate) {elements : Word}
    (hpos : 0 < elements.toNat) (hlt : elements.toNat < 2 ^ 32) :
    ∃ size blocks, blocksOf plan elements = .ok (size, blocks) ∧ size.toNat < 2 ^ 32 ∧
      0 < blocks.toNat ∧ blocks.toNat ≤ plan.geometry.scanBlocks.toNat := by
  obtain ⟨htile, -⟩ := fits.tile_bounds moderate
  obtain ⟨htwo, -, -⟩ := fits.scanBlocks_bounds moderate
  have hblocks : 0 < plan.geometry.scanBlocks.toNat := by omega
  obtain ⟨size, hsize, hvalue, hsize_lt⟩ := ScanGeometry.blockSize?_eq fits moderate hlt
  have hsize_pos : 0 < size.toNat := hvalue ▸ blockLength_pos htile hblocks hpos
  obtain ⟨blocks, hceil, hcount⟩ := Word.ceilDiv?_eq elements hsize_pos
  have hcount_pos : 0 < blocks.toNat := hcount ▸ ceilDiv_pos hpos hsize_pos
  have hcount_le : blocks.toNat ≤ plan.geometry.scanBlocks.toNat := by
    rw [hcount, hvalue]
    exact ceilDiv_blockLength_le htile hblocks hpos
  refine ⟨size, blocks, ?_, hsize_lt, hcount_pos, hcount_le⟩
  unfold blocksOf
  simp only [Attempt.ofArithmetic_bind_eq_ok, Attempt.ensure_bind_eq_ok, Bool.and_eq_true,
    decide_eq_true_eq]
  exact ⟨size, hsize, blocks, hceil,
    ⟨UInt64.lt_iff_toNat_lt.2 hcount_pos, UInt64.le_iff_toNat_le.2 hcount_le⟩, rfl⟩

end Scan

/-! ## Reductions -/

namespace Reduce

/-- The work group and the blocks of a plan fit a device. -/
structure ShapeFits (plan : ReducePlan) (d : DeviceProperties) : Prop where
  workGroup_pos : 0 < plan.workGroupSize.toNat
  workGroup_le : plan.workGroupSize.toNat ≤ d.maxWorkGroupSize.toNat
  blocks_pos : 0 < plan.blocks.toNat
  blocks_lt : plan.blocks.toNat < 2 ^ 32

theorem ShapeFits.product_lt {plan : ReducePlan} {d : DeviceProperties} (fits : ShapeFits plan d)
    (moderate : d.Moderate) : plan.workGroupSize.toNat * plan.blocks.toNat < 2 ^ 24 * 2 ^ 32 :=
  Nat.mul_lt_mul'' (Nat.lt_of_le_of_lt fits.workGroup_le moderate.workGroup) fits.blocks_lt

/-- The size of a block, which may still be too long for a kernel argument. -/
theorem blockSize?_eq {plan : ReducePlan} {d : DeviceProperties} (fits : ShapeFits plan d)
    (moderate : d.Moderate) {elements : Word} (h : elements.toNat < 2 ^ 32) :
    ∃ size, blockSize? plan elements = .ok size ∧
      size.toNat = blockLength plan.workGroupSize.toNat plan.blocks.toNat elements.toNat := by
  have hproduct := fits.product_lt moderate
  exact exists_blockLength fits.workGroup_pos fits.blocks_pos (by omega)

end Reduce

/-! ## Radix sorts -/

namespace RadixsortGeometry

variable {g : RadixsortGeometry} {d : DeviceProperties}

theorem toNat_radix (h : g.radixBits.toNat ≤ 8) : g.radix.toNat = 2 ^ g.radixBits.toNat := by
  have hlt : 2 ^ g.radixBits.toNat < 2 ^ 64 := Nat.pow_lt_pow_right (by decide) (by omega)
  rw [radix, UInt64.toNat_shiftLeft, Nat.mod_eq_of_lt (show g.radixBits.toNat < 64 by omega),
    UInt64.toNat_one, Nat.shiftLeft_eq, Nat.one_mul, Nat.mod_eq_of_lt hlt]

theorem Fits.toNat_radix (fits : g.Fits d) : g.radix.toNat = 2 ^ g.radixBits.toNat :=
  RadixsortGeometry.toNat_radix (UInt64.le_iff_toNat_le.1 fits.bits_le)

theorem Fits.granularity_pow (fits : g.Fits d) : ∃ i, g.granularity.toNat = 2 ^ i := by
  obtain ⟨j, hj⟩ := Word.exists_pow_of_isPowerOfTwo fits.scan_pow
  have hle := UInt64.le_iff_toNat_le.1 fits.le_scan
  rw [hj, fits.toNat_radix, Nat.pow_le_pow_iff_right (by decide)] at hle
  refine ⟨j - g.radixBits.toNat, ?_⟩
  rw [granularity, Word.toNat_max, UInt64.toNat_div, hj, fits.toNat_radix,
    Nat.pow_div hle (by decide)]
  exact Nat.max_eq_left Nat.one_le_two_pow

/-- A scatter group consists of whole slices. -/
theorem Fits.slices_mul_slice (fits : g.Fits d) :
    0 < g.scatterSlice.toNat ∧
      g.slices.toNat * g.scatterSlice.toNat = g.scatterWorkGroupSize.toNat := by
  have hslices : 0 < g.scatterWorkGroupSize.toNat / g.scatterSlice.toNat := by
    rw [← UInt64.toNat_div]
    exact Word.isPowerOfTwo_pos fits.slices_pow
  have hmod : g.scatterWorkGroupSize.toNat % g.scatterSlice.toNat = 0 := by
    rw [← UInt64.toNat_mod, fits.slice_dvd]
    rfl
  refine ⟨Nat.pos_of_ne_zero fun h => ?_, ?_⟩
  · rw [h, Nat.div_zero] at hslices
    exact absurd hslices (Nat.lt_irrefl 0)
  · rw [slices, UInt64.toNat_div]
    exact Nat.div_mul_cancel (Nat.dvd_of_mod_eq_zero hmod)

/-- Blocks are handled in steps of the granularity or of the slices, whichever is larger. Both are
powers of two, so they divide the step. -/
theorem Fits.dvd_step (fits : g.Fits d) :
    0 < (max g.granularity g.slices).toNat ∧
      g.granularity.toNat ∣ (max g.granularity g.slices).toNat ∧
      g.slices.toNat ∣ (max g.granularity g.slices).toNat := by
  have hslices := Word.isPowerOfTwo_pos fits.slices_pow
  refine ⟨?_, Word.dvd_max fits.granularity_pow (Word.exists_pow_of_isPowerOfTwo fits.slices_pow)⟩
  rw [Word.toNat_max]
  exact Nat.lt_of_lt_of_le hslices (Nat.le_max_right _ _)

theorem granularity_pos (g : RadixsortGeometry) : 0 < g.granularity.toNat := by
  rw [granularity, Word.toNat_max]
  exact Nat.lt_of_lt_of_le Nat.one_pos (Nat.le_max_right _ _)

/-- Unless too many blocks are asked for to round them up, there are as many as the largest multiple
of the step that is neither more than that nor more than there is room for. -/
theorem fitBlocks?_eq_ok {radix granularity slices requested blocks : Word}
    (h : 0 < granularity.toNat) :
    fitBlocks? d radix granularity slices requested = .ok blocks ↔
      (requested.toNat ⌈/⌉ granularity.toNat) * granularity.toNat < 2 ^ 64 ∧
      blocks.toNat = min ((requested.toNat ⌈/⌉ granularity.toNat) * granularity.toNat)
          (Word.saturatingSub (d.localMemSize / radix) 1 / 4).toNat /
        (max granularity slices).toNat * (max granularity slices).toNat := by
  have hstep : 0 < (max granularity slices).toNat := by
    rw [Word.toNat_max]
    exact Nat.lt_of_lt_of_le h (Nat.le_max_left _ _)
  rw [fitBlocks?, except_bind_eq_ok]
  constructor
  · rintro ⟨rounded, hrounded, hdown⟩
    obtain ⟨-, hup⟩ := Word.roundUp?_eq_ok.1 hrounded
    obtain ⟨w, hw, hvalue⟩ := Word.roundDown?_eq
      (min rounded (Word.saturatingSub (d.localMemSize / radix) 1 / 4)) hstep
    obtain rfl : w = blocks := Except.ok.inj (hw.symm.trans hdown)
    rw [Word.toNat_min, hup] at hvalue
    exact ⟨hup ▸ rounded.toNat_lt, hvalue⟩
  · rintro ⟨hlt, hblocks⟩
    obtain ⟨rounded, hup⟩ := Word.exists_toNat_eq hlt
    obtain ⟨w, hw, hvalue⟩ := Word.roundDown?_eq
      (min rounded (Word.saturatingSub (d.localMemSize / radix) 1 / 4)) hstep
    rw [Word.toNat_min, hup, ← hblocks, UInt64.toNat_inj] at hvalue
    exact ⟨rounded, Word.roundUp?_eq_ok.2 ⟨h, hup⟩, hvalue ▸ hw⟩

theorem exists_fitBlocks? (radix slices : Word) {granularity requested : Word}
    (h : 0 < granularity.toNat)
    (hlt : (requested.toNat ⌈/⌉ granularity.toNat) * granularity.toNat < 2 ^ 64) :
    ∃ blocks, fitBlocks? d radix granularity slices requested = .ok blocks := by
  have hle := Nat.le_trans
    (Nat.div_mul_le_self (min ((requested.toNat ⌈/⌉ granularity.toNat) * granularity.toNat)
      (Word.saturatingSub (d.localMemSize / radix) 1 / 4).toNat) (max granularity slices).toNat)
    (Nat.min_le_left _ _)
  obtain ⟨blocks, hblocks⟩ := Word.exists_toNat_eq (Nat.lt_of_le_of_lt hle hlt)
  exact ⟨blocks, (fitBlocks?_eq_ok h).2 ⟨hlt, hblocks⟩⟩

/-- Blocks are handled a step at a time. -/
theorem toNat_scanBlocks {requested : Word}
    (h : fitBlocks? d g.radix g.granularity g.slices requested = .ok g.scanBlocks) :
    g.scanBlocks.toNat =
      min ((requested.toNat ⌈/⌉ g.granularity.toNat) * g.granularity.toNat)
          (Word.saturatingSub (d.localMemSize / g.radix) 1 / 4).toNat /
        (max g.granularity g.slices).toNat * (max g.granularity g.slices).toNat :=
  ((fitBlocks?_eq_ok g.granularity_pos).1 h).2

theorem step_dvd {requested : Word}
    (h : fitBlocks? d g.radix g.granularity g.slices requested = .ok g.scanBlocks) :
    (max g.granularity g.slices).toNat ∣ g.scanBlocks.toNat := by
  rw [toNat_scanBlocks h]
  exact Nat.dvd_mul_left _ _

/-- Blocks come in whole scatter groups. -/
theorem Fits.slices_dvd (fits : g.Fits d) {requested : Word}
    (h : fitBlocks? d g.radix g.granularity g.slices requested = .ok g.scanBlocks) :
    g.slices.toNat ∣ g.scanBlocks.toNat :=
  Nat.dvd_trans fits.dvd_step.2.2 (step_dvd h)

/-- The elements that the work groups handle at a time, as a number of any size. -/
def tileLength (g : RadixsortGeometry) : Nat :=
  max g.reduceWorkGroupSize.toNat (g.scatterWorkScale.toNat * g.scatterWorkGroupSize.toNat)

theorem tile?_eq_ok {w : Word} : g.tile? = .ok w ↔ w.toNat = g.tileLength := Word.max_mul?_eq_ok

theorem Fits.tile_pos (fits : g.Fits d) : 0 < g.tileLength :=
  Nat.lt_of_lt_of_le (Word.isPowerOfTwo_pos fits.reduce_pow) (Nat.le_max_left _ _)

/-- A number of elements of a work item in the scatter up to which no product of sizes exceeds a
word. -/
def maxWorkScale : Nat := 65536

theorem Fits.tile_bounds (fits : g.Fits d) (moderate : d.Moderate)
    (hscale : g.scatterWorkScale.toNat ≤ maxWorkScale) :
    0 < g.tileLength ∧ g.tileLength < 2 ^ 40 := by
  have hreduce_le := UInt64.le_iff_toNat_le.1 fits.reduce_le
  have hscatter_le := UInt64.le_iff_toNat_le.1 fits.scatter_le
  have hgroup := moderate.workGroup
  have hproduct : g.scatterWorkScale.toNat * g.scatterWorkGroupSize.toNat ≤ 65536 * (2 ^ 24 - 1) :=
    Nat.mul_le_mul hscale (by omega)
  refine ⟨fits.tile_pos, ?_⟩
  rw [tileLength]
  omega

theorem Fits.scanBlocks_lt (fits : g.Fits d) :
    0 < g.scanBlocks.toNat ∧ g.scanBlocks.toNat < 2 ^ 62 := by
  obtain ⟨hradix, hle⟩ := Radixsort.histogram_le fits
  have hmem := d.localMemSize.toNat_lt
  have hmul := Nat.le_mul_of_pos_right g.scanBlocks.toNat hradix
  exact ⟨UInt64.lt_iff_toNat_lt.1 fits.blocks_pos, by omega⟩

theorem Fits.scanBlocks_bounds (fits : g.Fits d) (moderate : d.Moderate) :
    0 < g.scanBlocks.toNat ∧ g.scanBlocks.toNat < 2 ^ 22 := by
  obtain ⟨hradix, hle⟩ := Radixsort.histogram_le fits
  have hmem := moderate.localMem
  have hmul := Nat.le_mul_of_pos_right g.scanBlocks.toNat hradix
  exact ⟨UInt64.lt_iff_toNat_lt.1 fits.blocks_pos, by omega⟩

/-- A number of blocks that fits is kept. -/
theorem Fits.fitBlocks?_self (fits : g.Fits d)
    (hdvd : (max g.granularity g.slices).toNat ∣ g.scanBlocks.toNat) :
    fitBlocks? d g.radix g.granularity g.slices g.scanBlocks = .ok g.scanBlocks := by
  have hpos := g.granularity_pos
  obtain ⟨k, hk⟩ := Nat.dvd_trans fits.dvd_step.2.1 hdvd
  have hrounded : (g.scanBlocks.toNat ⌈/⌉ g.granularity.toNat) * g.granularity.toNat =
      g.scanBlocks.toNat := by
    rw [ceilDiv_eq (q := k)] <;> rw [hk, Nat.mul_comm]
    omega
  refine (fitBlocks?_eq_ok hpos).2 ⟨hrounded.symm ▸ g.scanBlocks.toNat_lt, ?_⟩
  rw [hrounded, Nat.min_eq_left (UInt64.le_iff_toNat_le.1 fits.blocks_le),
    Nat.div_mul_cancel hdvd]

/-- Parameters that hold the sizes of a geometry ask for just that geometry. -/
theorem Fits.normalizes_of_holds (fits : g.Fits d)
    (hdvd : (max g.granularity g.slices).toNat ∣ g.scanBlocks.toNat) {p : TuningParameters}
    (holds : p.Holds g.fields) : g.Normalizes d p := by
  refine ⟨fun b hb => holds b ?_, g.scanBlocks, ?_, fits.fitBlocks?_self hdvd⟩
  · simp only [fields, List.mem_cons, List.not_mem_nil, or_false] at hb ⊢
    tauto
  · exact holds (Parameter.scanBlocks, g.scanBlocks) (by simp [fields])

/-- The size of a block is that of the numbers. It is computed if the tiles of all blocks together
do not exceed a word, nor does the size itself. -/
theorem blockSize?_eq_ok {elements size : Word} :
    g.blockSize? elements = .ok size ↔ 0 < g.tileLength * g.scanBlocks.toNat ∧
      g.tileLength * g.scanBlocks.toNat < 2 ^ 64 ∧
        size.toNat = blockLength g.tileLength g.scanBlocks.toNat elements.toNat := by
  simp only [blockSize?, except_bind_eq_ok, tile?_eq_ok, Word.mul?_eq_ok, Word.ceilDiv?_eq_ok]
  constructor
  · rintro ⟨tile, htile, product, hproduct, tiles, ⟨hpos, htiles⟩, hsize⟩
    have hlt := product.toNat_lt
    rw [hproduct, htile] at hpos hlt htiles
    exact ⟨hpos, hlt, by rw [hsize, htiles, htile]; rfl⟩
  · rintro ⟨hpos, hlt, hsize⟩
    have hblocks : 0 < g.scanBlocks.toNat := Nat.pos_of_mul_pos_left hpos
    have htile_le := Nat.le_mul_of_pos_right g.tileLength hblocks
    obtain ⟨tile, htile⟩ := Word.exists_toNat_eq (show g.tileLength < 2 ^ 64 by omega)
    obtain ⟨product, hproduct⟩ := Word.exists_toNat_eq hlt
    obtain ⟨tiles, -, htiles⟩ := Word.ceilDiv?_eq elements (hproduct ▸ hpos)
    refine ⟨tile, htile, product, htile ▸ hproduct, tiles, ⟨hproduct ▸ hpos, htiles⟩, ?_⟩
    rw [hsize, htiles, hproduct, htile]
    rfl

/-- The size of a block, if neither the tiles of all blocks nor the elements with them exceed a
word. -/
theorem exists_blockSize? (htile : 0 < g.tileLength) (hblocks : 0 < g.scanBlocks.toNat)
    {elements : Word} (h : elements.toNat + g.tileLength * g.scanBlocks.toNat < 2 ^ 64) :
    ∃ size, g.blockSize? elements = .ok size ∧
      size.toNat = blockLength g.tileLength g.scanBlocks.toNat elements.toNat := by
  have hlt := @blockLength_mul_lt g.tileLength g.scanBlocks.toNat elements.toNat htile hblocks
  have hle := Nat.le_mul_of_pos_right
    (blockLength g.tileLength g.scanBlocks.toNat elements.toNat) hblocks
  obtain ⟨size, hsize⟩ := Word.exists_toNat_eq
    (show blockLength g.tileLength g.scanBlocks.toNat elements.toNat < 2 ^ 64 by omega)
  exact ⟨size, blockSize?_eq_ok.2 ⟨Nat.mul_pos htile hblocks, by omega, hsize⟩, hsize⟩

/-- The size of a block, which may still be too long for a kernel argument. -/
theorem blockSize?_eq (fits : g.Fits d) (moderate : d.Moderate)
    (hscale : g.scatterWorkScale.toNat ≤ maxWorkScale) {elements : Word}
    (h : elements.toNat < 2 ^ 32) :
    ∃ size, g.blockSize? elements = .ok size ∧
      size.toNat = blockLength g.tileLength g.scanBlocks.toNat elements.toNat := by
  obtain ⟨htile, htile_lt⟩ := fits.tile_bounds moderate hscale
  obtain ⟨hblocks, hblocks_lt⟩ := fits.scanBlocks_bounds moderate
  have hproduct_lt : g.tileLength * g.scanBlocks.toNat < 2 ^ 40 * 2 ^ 22 :=
    Nat.mul_lt_mul'' htile_lt hblocks_lt
  exact exists_blockSize? htile hblocks (by omega)

/-- The blocks of an execution, in whole scatter groups, for which there is room in the
histogram. -/
theorem blocks?_eq (fits : g.Fits d) (slices_dvd : g.slices.toNat ∣ g.scanBlocks.toNat)
    {elements size : Word} (hpos : 0 < elements.toNat)
    (hsize : size.toNat = blockLength g.tileLength g.scanBlocks.toNat elements.toNat) :
    ∃ blocks, g.blocks? elements size = .ok blocks ∧ g.slices.toNat ∣ blocks.toNat ∧
      0 < blocks.toNat ∧ blocks.toNat ≤ g.scanBlocks.toNat ∧
      elements.toNat ≤ blocks.toNat * size.toNat := by
  have htile := fits.tile_pos
  obtain ⟨hblocks, hblocks_lt⟩ := fits.scanBlocks_lt
  have hslices := Word.isPowerOfTwo_pos fits.slices_pow
  have hslices_le := Nat.le_of_dvd hblocks slices_dvd
  have hsize_pos : 0 < size.toNat := hsize ▸ blockLength_pos htile hblocks hpos
  obtain ⟨covering, hcovering, hcount⟩ := Word.ceilDiv?_eq elements hsize_pos
  have hcount_pos : 0 < covering.toNat := hcount ▸ ceilDiv_pos hpos hsize_pos
  have hcount_le : covering.toNat ≤ g.scanBlocks.toNat := by
    rw [hcount, hsize]
    exact ceilDiv_blockLength_le htile hblocks hpos
  obtain ⟨blocks, hround, hvalue⟩ := Word.roundUp?_eq covering hslices (by omega)
  refine ⟨blocks, ?_, ?_, ?_, ?_, ?_⟩
  · rw [blocks?, hcovering]
    exact hround
  · rw [hvalue]
    exact Nat.dvd_mul_left _ _
  · rw [hvalue]
    exact Nat.mul_pos (ceilDiv_pos hcount_pos hslices) hslices
  · -- Rounding up stays below the multiple that the plan has room for.
    obtain ⟨groups, hgroups⟩ := slices_dvd
    rw [hvalue, hgroups, Nat.mul_comm]
    apply Nat.mul_le_mul_left
    rw [ceilDiv_le_iff_le_mul hslices, ← hgroups]
    exact hcount_le
  · calc elements.toNat ≤ covering.toNat * size.toNat := hcount ▸ le_ceilDiv_mul _ hsize_pos
      _ ≤ blocks.toNat * size.toNat :=
        Nat.mul_le_mul_right _ (hvalue ▸ le_ceilDiv_mul covering.toNat hslices)

end RadixsortGeometry

end KernelTuning
