import KernelTuning.Proofs.Executions

/-!
# Blocks that cover a range

The elements of an execution are split into blocks, and three things must not happen: some elements
in no block, more blocks than a plan has room for, and a block that reaches past the elements
although its kernel is not told where they end.

* `ScanGeometry.Splits`, `RadixsortGeometry.Splits`: blocks of one size that cover some elements,
  and how the kernels are launched on them.
* `Scan.enqueueUnguarded`, `Radixsort.enqueueUnguarded`: executions that count their blocks and do
  not look at the number. Where these do the same as the executions with their checks, the checks
  never refuse anything.

**Theorem (`ScanGeometry.coversRanges_of_validate`).** A geometry that a device with moderate limits
has room for splits every range that a kernel can be told of. Only the last block may reach past the
elements, and it is not among those that are reduced.

**Theorem (`RadixsortGeometry.exists_coversBlocks`).** Blocks of a radix sort come in whole scatter
groups, and still there are never more of them than digit counts: rounding up the number of blocks
stays below the bound because that was rounded down to the same multiple. Nothing is assumed of the
limits of the device; the sizes must not exceed a word.
-/

namespace KernelTuning

/-! ## Scans -/

/-- A scan without the checks of its blocks. -/
def Scan.enqueueUnguarded (b : Backend) (plan : ScanPlan) (args : ScanArgs) (waitFor : List Event) :
    Device (List Event) := do
  Device.attempt (checkArgs plan args)
  let size ← Device.attempt (Attempt.ofArithmetic (plan.geometry.blockSize? args.elements))
  let blocks ← Device.attempt (Attempt.ofArithmetic (Word.ceilDiv? args.elements size))
  let sizeArg := UInt32.ofNat size.toNat
  let reduced ←
    if blocks > 1 then do
      let event ← Device.ofQueue
        (b.dispatch (reduceLaunch plan args.buffer blocks sizeArg) waitFor)
      pure [event]
    else pure []
  let sums ← Device.attempt (sumsLaunch plan args.offset)
  let summed ← Device.ofQueue (b.dispatch sums (eventsAfter reduced waitFor))
  let elements ← Device.attempt (KernelArg.fit "Scan element count" args.elements)
  let scanned ← Device.ofQueue
    (b.dispatch (scanLaunch plan args.buffer blocks sizeArg elements) [summed])
  return reduced ++ [summed, scanned]

namespace ScanGeometry

variable {g : ScanGeometry} {d : DeviceProperties} {elem : ElemType}

/-- Blocks of one size that cover some elements. -/
structure Splits (g : ScanGeometry) (elements size blocks : Word) : Prop where
  size_eq : g.blockSize? elements = .ok size
  reduce_dvd : g.reduceWorkGroupSize.toNat ∣ size.toNat
  scan_dvd : g.scanWorkScale.toNat * g.scanWorkGroupSize.toNat ∣ size.toNat
  size_pos : 0 < size.toNat
  size_lt : size.toNat < 2 ^ 32
  blocks_eq : Word.ceilDiv? elements size = .ok blocks
  toNat_blocks : blocks.toNat = elements.toNat ⌈/⌉ size.toNat
  blocks_pos : 1 ≤ blocks.toNat
  blocks_le : blocks.toNat ≤ g.scanBlocks.toNat
  covered : elements.toNat ≤ blocks.toNat * size.toNat
  last : (blocks.toNat - 1) * size.toNat < elements.toNat

/-- A block before the last one lies inside the range. -/
theorem Splits.inside {elements size blocks : Word} (h : g.Splits elements size blocks)
    {block i : Nat} (hblock : block < blocks.toNat - 1) (hi : i < size.toNat) :
    block * size.toNat + i < elements.toNat :=
  calc block * size.toNat + i < block * size.toNat + size.toNat := Nat.add_lt_add_left hi _
    _ = (block + 1) * size.toNat := (Nat.succ_mul block size.toNat).symm
    _ ≤ (blocks.toNat - 1) * size.toNat := Nat.mul_le_mul_right _ hblock
    _ ≤ elements.toNat := Nat.le_of_lt h.last

theorem Splits.blocksOf_eq {plan : ScanPlan} {elements size blocks : Word}
    (h : plan.geometry.Splits elements size blocks) :
    Scan.blocksOf plan elements = .ok (size, blocks) := by
  unfold Scan.blocksOf
  simp only [Attempt.ofArithmetic_bind_eq_ok, Attempt.ensure_bind_eq_ok, Bool.and_eq_true,
    decide_eq_true_eq]
  exact ⟨size, h.size_eq, blocks, h.blocks_eq,
    ⟨UInt64.lt_iff_toNat_lt.2 h.blocks_pos, UInt64.le_iff_toNat_le.2 h.blocks_le⟩, rfl⟩

/-- The tile is the larger one of two powers of two. -/
theorem Fits.dvd_tile (fits : g.Fits d elem) :
    g.reduceWorkGroupSize.toNat ∣ g.tileLength ∧
      g.scanWorkScale.toNat * g.scanWorkGroupSize.toNat ∣ g.tileLength := by
  have hproduct : (g.scanWorkScale * g.scanWorkGroupSize).toNat =
      g.scanWorkScale.toNat * g.scanWorkGroupSize.toNat :=
    Word.toNat_mul_of_lt
      (Nat.lt_of_le_of_lt fits.scale_le (limits d elem).localMemElements.toNat_lt)
  obtain ⟨i, hi⟩ := Word.exists_pow_of_isPowerOfTwo fits.scale_pow
  obtain ⟨k, hk⟩ := Word.exists_pow_of_isPowerOfTwo fits.scan_pow
  have hpow : ∃ j, (g.scanWorkScale * g.scanWorkGroupSize).toNat = 2 ^ j :=
    ⟨i + k, by rw [hproduct, hi, hk, Nat.pow_add]⟩
  rw [tileLength, ← hproduct, ← Word.toNat_max]
  exact Word.dvd_max (Word.exists_pow_of_isPowerOfTwo fits.reduce_pow) hpow

theorem exists_splits (fits : g.Fits d elem) (moderate : d.Moderate) {elements : Word}
    (hpos : 1 ≤ elements.toNat) (hlt : elements.toNat < 2 ^ 32) :
    ∃ size blocks, g.Splits elements size blocks := by
  obtain ⟨htile, -⟩ := fits.tile_bounds moderate
  obtain ⟨htwo, -, -⟩ := fits.scanBlocks_bounds moderate
  obtain ⟨hreduce, hscan⟩ := fits.dvd_tile
  have hblocks : 0 < g.scanBlocks.toNat := by omega
  obtain ⟨size, hsize, hvalue, hsize_lt⟩ := blockSize?_eq fits moderate hlt
  have hsize_pos : 0 < size.toNat := hvalue ▸ blockLength_pos htile hblocks hpos
  have htile_dvd : g.tileLength ∣ size.toNat := hvalue ▸ dvd_blockLength
  obtain ⟨blocks, hceil, hcount⟩ := Word.ceilDiv?_eq elements hsize_pos
  exact ⟨size, blocks, {
    size_eq := hsize
    reduce_dvd := Nat.dvd_trans hreduce htile_dvd
    scan_dvd := Nat.dvd_trans hscan htile_dvd
    size_pos := hsize_pos
    size_lt := hsize_lt
    blocks_eq := hceil
    toNat_blocks := hcount
    blocks_pos := hcount ▸ ceilDiv_pos hpos hsize_pos
    blocks_le := by
      rw [hcount, hvalue]
      exact ceilDiv_blockLength_le htile hblocks hpos
    covered := hcount ▸ le_ceilDiv_mul _ hsize_pos
    last := hcount ▸ pred_ceilDiv_mul_lt hpos hsize_pos }⟩

/-- The executions with a geometry split their elements, and need no check for it. -/
structure CoversRanges (g : ScanGeometry) : Prop where
  splits : ∀ elements : Word, 1 ≤ elements.toNat → elements.toNat < 2 ^ 32 →
    ∃ size blocks, g.Splits elements size blocks
  /-- The reduction has a work group for every block but the last, all of them in the range. -/
  reduced : ∀ elements size blocks, g.Splits elements size blocks →
    (∀ (plan : ScanPlan) (buffer : Buffer) (sizeArg : UInt32), plan.geometry = g →
      (Scan.reduceLaunch plan buffer blocks sizeArg).globalSize.toNat =
        (blocks.toNat - 1) * (Scan.reduceLaunch plan buffer blocks sizeArg).localSize.toNat) ∧
    ∀ block < blocks.toNat - 1, ∀ i < size.toNat, block * size.toNat + i < elements.toNat
  /-- No execution is refused for its blocks or their size. -/
  unguarded : ∀ (b : Backend) (plan : ScanPlan), plan.geometry = g → ∀ args waitFor,
    Scan.enqueue b plan args waitFor = Scan.enqueueUnguarded b plan args waitFor

theorem Fits.toNat_reduceSize (fits : g.Fits d elem) (moderate : d.Moderate) {blocks : Word}
    (hpos : 1 ≤ blocks.toNat) (hle : blocks.toNat ≤ g.scanBlocks.toNat) :
    (g.reduceWorkGroupSize * (blocks - 1)).toNat =
      (blocks.toNat - 1) * g.reduceWorkGroupSize.toNat := by
  obtain ⟨-, hblocks_lt, -⟩ := fits.scanBlocks_bounds moderate
  have hreduce := UInt64.le_iff_toNat_le.1 fits.reduce_le
  rw [toNat_workGroupSize] at hreduce
  have hgroup := moderate.workGroup
  have hpred : (blocks - 1).toNat = blocks.toNat - 1 :=
    UInt64.toNat_sub_of_le _ _ (UInt64.le_iff_toNat_le.2 hpos)
  have hproduct : g.reduceWorkGroupSize.toNat * (blocks - 1).toNat < 2 ^ 24 * 2 ^ 24 :=
    Nat.mul_lt_mul'' (by omega) (by omega)
  rw [Word.toNat_mul_of_lt (by omega), hpred, Nat.mul_comm]

/-- **Scans cover every range.** -/
theorem coversRanges_of_validate (valid : g.validate d elem = .ok ())
    (moderate : d.Moderate) : g.CoversRanges where
  splits elements hpos hlt := exists_splits (validate_eq_ok.1 valid) moderate hpos hlt
  reduced elements size blocks split := by
    refine ⟨fun plan buffer sizeArg hg => ?_, fun block hblock i hi => split.inside hblock hi⟩
    subst hg
    exact (validate_eq_ok.1 valid).toNat_reduceSize moderate split.blocks_pos split.blocks_le
  unguarded b plan hg args waitFor := by
    subst hg
    rcases hargs : Scan.checkArgs plan args with e | ⟨⟩
    · -- Refused arguments never come to the blocks.
      unfold Scan.enqueue Scan.enqueueUnguarded
      rw [hargs]
      rfl
    · have accepted := Scan.checkArgs_eq_ok.1 hargs
      obtain ⟨size, blocks, split⟩ :=
        exists_splits (validate_eq_ok.1 valid) moderate accepted.pos accepted.fits
      unfold Scan.enqueue Scan.enqueueUnguarded
      simp only [hargs, split.blocksOf_eq, split.size_eq, split.blocks_eq, Attempt.ofArithmetic_ok,
        KernelArg.fit_of_lt split.size_lt, Device.attempt_ok_bind]

/-- A range that ends just behind a tile. -/
theorem coversRanges_gpu :
    let d := Backend.gpuProperties
    let uint : ElemType := ⟨.uint, 1, by decide⟩
    let g := (limits d uint).default d
    g.validate d uint = .ok () ∧ d.Moderate ∧ g.CoversRanges ∧
    ∃ size blocks, g.Splits 2049 size blocks ∧ size = 2048 ∧ blocks = 2 := by
  intro d uint g
  have valid : g.validate d uint = .ok () := by decide +kernel
  have moderate : d.Moderate := ⟨by decide, by decide⟩
  have covers := coversRanges_of_validate valid moderate
  obtain ⟨size, blocks, split⟩ := covers.splits 2049 (by decide) (by decide)
  have hsize : size = 2048 := Except.ok.inj (split.size_eq.symm.trans (by decide +kernel))
  subst hsize
  have hblocks : blocks = 2 := Except.ok.inj (split.blocks_eq.symm.trans (by decide +kernel))
  exact ⟨valid, moderate, covers, 2048, blocks, split, rfl, hblocks⟩

end ScanGeometry

/-! ## Radix sorts -/

/-- The number and the size of the blocks of a sort, without a check of the number. -/
def Radixsort.shapeUnguarded (plan : RadixsortPlan) (elements : Word) : Attempt Shape := do
  let size ← Attempt.ofArithmetic (plan.geometry.blockSize? elements)
  let blocks ← Attempt.ofArithmetic (plan.geometry.blocks? elements size)
  let elementsArg ← KernelArg.fit "Radixsort element count" elements
  let blockSizeArg ← KernelArg.fit "Radixsort block size" size
  let blocksArg ← KernelArg.fit "Radixsort block count" blocks
  return { blocks, blocksArg, blockSizeArg, elementsArg }

/-- A sort without a check of the number of its blocks. -/
def Radixsort.enqueueUnguarded (b : Backend) (plan : RadixsortPlan) (args : RadixsortArgs)
    (waitFor : List Event) : Device (List Event) := do
  let bits ← Device.attempt (checkArgs plan args)
  let temporary ← temporaries b plan args
  let shape ← Device.attempt (shapeUnguarded plan args.elements)
  let passes := firstBits plan bits
  let sorted ← enqueuePasses b plan shape args.buffers temporary waitFor passes
  if passes.length % 2 = 0 then return sorted
  else return sorted ++ (← enqueueCopies b plan temporary args.buffers args.elements)

namespace RadixsortGeometry

variable {g : RadixsortGeometry} {d : DeviceProperties} {p : TuningParameters}

/-- The blocks that the slices of a scatter handle, one work group after the other. -/
def scatteredBlocks (g : RadixsortGeometry) (launch : KernelLaunch) : List Nat :=
  let slices := launch.localSize.toNat / g.scatterSlice.toNat
  (List.range (launch.globalSize.toNat / launch.localSize.toNat)).flatMap fun group =>
    (List.range slices).map fun slice => group * slices + slice

theorem flatMap_range_mul (groups slices : Nat) :
    ((List.range groups).flatMap fun group =>
      (List.range slices).map fun slice => group * slices + slice) =
        List.range (groups * slices) := by
  induction groups with
  | zero => rw [Nat.zero_mul]; rfl
  | succ groups ih =>
    rw [List.range_succ, List.flatMap_append, ih, Nat.succ_mul, List.range_add]
    simp

/-- Blocks of one size, in whole scatter groups, that cover some elements. -/
structure Splits (g : RadixsortGeometry) (elements size blocks : Word) : Prop where
  size_eq : g.blockSize? elements = .ok size
  tile_dvd : g.tileLength ∣ size.toNat
  size_pos : 0 < size.toNat
  blocks_eq : g.blocks? elements size = .ok blocks
  slices_dvd : g.slices.toNat ∣ blocks.toNat
  blocks_pos : 0 < blocks.toNat
  blocks_le : blocks.toNat ≤ g.scanBlocks.toNat
  covered : elements.toNat ≤ blocks.toNat * size.toNat

theorem exists_splits (fits : g.Fits d) (slices_dvd : g.slices.toNat ∣ g.scanBlocks.toNat)
    {elements : Word} (hpos : 1 ≤ elements.toNat)
    (room : elements.toNat + g.tileLength * g.scanBlocks.toNat < 2 ^ 64) :
    ∃ size blocks, g.Splits elements size blocks := by
  obtain ⟨hblocks, -⟩ := fits.scanBlocks_lt
  obtain ⟨size, hsize, hvalue⟩ := exists_blockSize? fits.tile_pos hblocks room
  obtain ⟨blocks, hcount, hdvd, hcount_pos, hcount_le, hcovered⟩ :=
    blocks?_eq fits slices_dvd hpos hvalue
  exact ⟨size, blocks, {
    size_eq := hsize
    tile_dvd := hvalue ▸ dvd_blockLength
    size_pos := hvalue ▸ blockLength_pos fits.tile_pos hblocks hpos
    blocks_eq := hcount
    slices_dvd := hdvd
    blocks_pos := hcount_pos
    blocks_le := hcount_le
    covered := hcovered }⟩

section

variable {elements size blocks : Word}

/-- The work items of a scatter are not more than the elements of all tiles. -/
theorem Splits.toNat_scatterSize (h : g.Splits elements size blocks) (fits : g.Fits d)
    (room : g.tileLength * g.scanBlocks.toNat < 2 ^ 64) :
    (g.scatterWorkGroupSize * (blocks / g.slices)).toNat =
      g.scatterWorkGroupSize.toNat * (blocks.toNat / g.slices.toNat) := by
  have hscatter : g.scatterWorkGroupSize.toNat ≤ g.tileLength :=
    Nat.le_trans (Nat.le_mul_of_pos_left _ (UInt64.lt_iff_toNat_lt.1 fits.scale_pos))
      (Nat.le_max_right _ _)
  have hgroups : blocks.toNat / g.slices.toNat ≤ g.scanBlocks.toNat :=
    Nat.le_trans (Nat.div_le_self _ _) h.blocks_le
  rw [← UInt64.toNat_div] at hgroups ⊢
  exact Word.toNat_mul_of_lt (Nat.lt_of_le_of_lt (Nat.mul_le_mul hscatter hgroups) room)

/-- The work groups of a scatter, and the blocks of their slices. -/
theorem Splits.scatteredBlocks_eq {plan : RadixsortPlan} {shape : Radixsort.Shape}
    (h : plan.geometry.Splits elements size shape.blocks) (fits : plan.geometry.Fits d)
    (room : plan.geometry.tileLength * plan.geometry.scanBlocks.toNat < 2 ^ 64)
    (source target : SortBuffers) (firstBit : UInt32) :
    let launch := Radixsort.scatterLaunch plan shape source target firstBit
    launch.localSize.toNat = plan.geometry.slices.toNat * plan.geometry.scatterSlice.toNat ∧
    launch.localSize.toNat ∣ launch.globalSize.toNat ∧
    plan.geometry.scatteredBlocks launch = List.range shape.blocks.toNat := by
  intro launch
  obtain ⟨hslice, hwhole⟩ := fits.slices_mul_slice
  have hlocal : launch.localSize.toNat =
      plan.geometry.slices.toNat * plan.geometry.scatterSlice.toNat := hwhole.symm
  have hglobal : launch.globalSize.toNat = launch.localSize.toNat *
      (shape.blocks.toNat / plan.geometry.slices.toNat) := h.toNat_scatterSize fits room
  have hpos : 0 < launch.localSize.toNat :=
    hlocal ▸ Nat.mul_pos (Word.isPowerOfTwo_pos fits.slices_pow) hslice
  refine ⟨hlocal, hglobal ▸ Nat.dvd_mul_right .., ?_⟩
  unfold scatteredBlocks
  rw [hglobal, Nat.mul_div_cancel_left _ hpos, hlocal, Nat.mul_div_cancel _ hslice,
    flatMap_range_mul, Nat.div_mul_cancel h.slices_dvd]

end

/-- How an execution with a geometry covers its elements. -/
structure CoversBlocks (g : RadixsortGeometry) (d : DeviceProperties) (p : TuningParameters)
    (elements size blocks : Word) : Prop extends g.Splits elements size blocks where
  /-- The scatter has whole work groups of whole slices, one slice for each block. -/
  scattered : ∀ (plan : RadixsortPlan) (shape : Radixsort.Shape) source target firstBit,
    plan.geometry = g → shape.blocks = blocks →
    let launch := Radixsort.scatterLaunch plan shape source target firstBit
    launch.localSize.toNat = g.slices.toNat * g.scatterSlice.toNat ∧
    launch.localSize.toNat ∣ launch.globalSize.toNat ∧
    g.scatteredBlocks launch = List.range blocks.toNat
  /-- There are four bytes for every digit of every block. -/
  histogram : ∀ (b : Backend) problem plan r r', b.properties = d →
    exec (Radixsort.build b problem p) r = (.ok plan, r') → plan.geometry = g ∧
      blocks.toNat * 2 ^ g.radixBits.toNat * 4 ≤ plan.histogram.size.toNat
  /-- No execution is refused for the number of its blocks. -/
  unguarded : ∀ (b : Backend) (plan : RadixsortPlan) args waitFor, plan.geometry = g →
    args.elements = elements →
    Radixsort.enqueue b plan args waitFor = Radixsort.enqueueUnguarded b plan args waitFor

theorem Splits.shapeOf_eq {plan : RadixsortPlan} {elements size blocks : Word}
    (h : plan.geometry.Splits elements size blocks) :
    Radixsort.shapeOf plan elements = Radixsort.shapeUnguarded plan elements := by
  have hle : blocks ≤ plan.geometry.scanBlocks := UInt64.le_iff_toNat_le.2 h.blocks_le
  unfold Radixsort.shapeOf Radixsort.shapeUnguarded
  simp only [h.size_eq, h.blocks_eq, hle, Attempt.ofArithmetic_ok, Attempt.ensure, except_ok_bind,
    decide_true, if_true]

/-- **Radix sorts cover every count.** -/
theorem exists_coversBlocks (accepted : ofParameters d p = .ok g) {elements : Word}
    (hpos : 1 ≤ elements.toNat)
    (room : elements.toNat + g.tileLength * g.scanBlocks.toNat < 2 ^ 64) :
    ∃ size blocks, g.CoversBlocks d p elements size blocks := by
  obtain ⟨normalizes, fits⟩ := ofParameters_eq_ok.1 accepted
  obtain ⟨requested, -, hrequested⟩ := normalizes.blocks
  obtain ⟨size, blocks, split⟩ := exists_splits fits (fits.slices_dvd hrequested) hpos room
  refine ⟨size, blocks, {
    toSplits := split
    scattered := fun plan shape source target firstBit hplan hshape => ?_
    histogram := fun b problem plan r r' hd h => ?_
    unguarded := fun b plan args waitFor hplan helements => ?_ }⟩
  · subst hplan hshape
    exact split.scatteredBlocks_eq fits (by omega) source target firstBit
  · subst hd
    have hplan : plan.geometry = g :=
      Except.ok.inj ((Radixsort.builtFrom_of_build h).geometry.symm.trans accepted)
    refine ⟨hplan, ?_⟩
    rw [(Radixsort.planFits_of_build h).histogram, hplan, fits.toNat_radix]
    exact Nat.mul_le_mul_right _ (Nat.mul_le_mul_right _ split.blocks_le)
  · subst hplan helements
    unfold Radixsort.enqueue Radixsort.enqueueUnguarded
    rw [split.shapeOf_eq]

/-- Three blocks would do, but a scatter group handles two at a time. Of the seven blocks that were
asked for, six are left for the same reason. -/
theorem exists_coversBlocks_gpu :
    let d := Backend.gpuProperties
    let g : RadixsortGeometry := ⟨4, 16, 16, 64, 1, 32, 6⟩
    let p := Parameter.withWarpSizes { g with scanBlocks := 7 }.toParameters d
    ofParameters d p = .ok g ∧ 1 ≤ (129 : Word).toNat ∧
    (129 : Word).toNat + g.tileLength * g.scanBlocks.toNat < 2 ^ 64 ∧
    ∃ size blocks, g.CoversBlocks d p 129 size blocks ∧ size = 64 ∧ blocks = 4 := by
  intro d g p
  have accepted : ofParameters d p = .ok g := by decide +kernel
  have hpos : 1 ≤ (129 : Word).toNat := by decide
  have room : (129 : Word).toNat + g.tileLength * g.scanBlocks.toNat < 2 ^ 64 := by decide
  obtain ⟨size, blocks, covers⟩ := exists_coversBlocks accepted hpos room
  have hsize : size = 64 := Except.ok.inj (covers.size_eq.symm.trans (by decide +kernel))
  subst hsize
  have hblocks : blocks = 4 := Except.ok.inj (covers.blocks_eq.symm.trans (by decide +kernel))
  exact ⟨accepted, hpos, room, 64, blocks, covers, rfl, hblocks⟩

end RadixsortGeometry

end KernelTuning
