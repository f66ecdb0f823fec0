import KernelTuning.Proofs.Blocks

/-!
# The normal form of radix sorts

`ofParameters` keeps the work groups that it is given and lowers the number of blocks. What it gives
is *normal*: the sizes satisfy inequalities and divisibilities that do not mention the parameters
(`IsNormal`).

* `isNormal_iff`: normal geometries fit the device, with whole steps of blocks.
* `ofParameters_toParameters`: the normal geometries are just those that are read back unchanged.
* `Lowered`: the number of blocks is the largest that is allowed, for a number that was asked for.

**Theorem (`ofParameters_normalizes`).** Parameters that are accepted give a normal geometry, with
their own work groups and the largest number of blocks, and its parameters give it again. This
holds for any device: warp sizes need not be powers of two, nor local memory a multiple of
anything. Blocks are counted in multiples of what a scan work item and a scatter group handle. Both
are powers of two, so the larger one is a multiple of the other.
-/

namespace KernelTuning

namespace RadixsortGeometry

variable {g : RadixsortGeometry} {d : DeviceProperties} {p : TuningParameters}

/-! ## Sizes as numbers -/

/-- The number of digits of a pass. -/
def digits (g : RadixsortGeometry) : Nat := 2 ^ g.radixBits.toNat

/-- The blocks of a work item of the scan, at least one. -/
def itemBlocks (g : RadixsortGeometry) : Nat := max (g.scanWorkGroupSize.toNat / g.digits) 1

/-- The blocks of a scatter group, one for each slice. -/
def groupBlocks (g : RadixsortGeometry) : Nat :=
  g.scatterWorkGroupSize.toNat / g.scatterSlice.toNat

theorem digits_pos : 0 < g.digits := Nat.two_pow_pos _

theorem toNat_granularity (h : g.radixBits.toNat ≤ 8) : g.granularity.toNat = g.itemBlocks := by
  rw [granularity, Word.toNat_max, UInt64.toNat_div, toNat_radix h]
  rfl

theorem toNat_slices : g.slices.toNat = g.groupBlocks := by
  rw [slices, UInt64.toNat_div]
  rfl

/-- Local memory has room for four bytes of every digit of every block, and for one byte of every
digit besides. -/
theorem le_room_iff (h : g.radixBits.toNat ≤ 8) {blocks : Nat} (hpos : 0 < blocks) :
    blocks ≤ (Word.saturatingSub (d.localMemSize / g.radix) 1 / 4).toNat ↔
      (4 * blocks + 1) * g.digits ≤ d.localMemSize.toNat := by
  have hroom : (Word.saturatingSub (d.localMemSize / g.radix) 1 / 4).toNat =
      (d.localMemSize.toNat / g.digits - 1) / 4 := by
    rw [UInt64.toNat_div, Word.toNat_saturatingSub, UInt64.toNat_div, toNat_radix h]
    rfl
  rw [hroom, ← Nat.le_div_iff_mul_le digits_pos]
  omega

/-! ## Normal geometries -/

/-- A geometry that the device has room for, with a number of blocks that is not lowered any
more. -/
structure IsNormal (g : RadixsortGeometry) (d : DeviceProperties) : Prop where
  one_le_bits : 1 ≤ g.radixBits.toNat
  bits_le : g.radixBits.toNat ≤ 8
  reduce_pow : ∃ i, g.reduceWorkGroupSize.toNat = 2 ^ i
  le_reduce : g.digits ≤ g.reduceWorkGroupSize.toNat
  reduce_le : g.reduceWorkGroupSize.toNat ≤ d.maxWorkGroupSize.toNat
  scan_pow : ∃ i, g.scanWorkGroupSize.toNat = 2 ^ i
  le_scan : g.digits ≤ g.scanWorkGroupSize.toNat
  scan_le : g.scanWorkGroupSize.toNat ≤ d.maxWorkGroupSize.toNat
  slice : g.scatterSlice.toNat = max d.warpSizeMem.toNat g.digits
  scatter : ∃ i, g.scatterWorkGroupSize.toNat = 2 ^ i * g.scatterSlice.toNat
  scatter_le : g.scatterWorkGroupSize.toNat ≤ d.maxWorkGroupSize.toNat
  scale_pos : 0 < g.scatterWorkScale.toNat
  blocks_pos : 0 < g.scanBlocks.toNat
  itemBlocks_dvd : g.itemBlocks ∣ g.scanBlocks.toNat
  groupBlocks_dvd : g.groupBlocks ∣ g.scanBlocks.toNat
  room : (4 * g.scanBlocks.toNat + 1) * g.digits ≤ d.localMemSize.toNat

theorem Fits.isNormal (fits : g.Fits d)
    (hdvd : (max g.granularity g.slices).toNat ∣ g.scanBlocks.toNat) : g.IsNormal d := by
  have hbits : g.radixBits.toNat ≤ 8 := UInt64.le_iff_toNat_le.1 fits.bits_le
  have hradix : g.radix.toNat = g.digits := fits.toNat_radix
  have hblocks := UInt64.lt_iff_toNat_lt.1 fits.blocks_pos
  obtain ⟨-, hgranularity, hslices⟩ := fits.dvd_step
  obtain ⟨i, hi⟩ := Word.isPowerOfTwo_iff.1 fits.slices_pow
  exact {
    one_le_bits := UInt64.le_iff_toNat_le.1 fits.one_le_bits
    bits_le := hbits
    reduce_pow := Word.isPowerOfTwo_iff.1 fits.reduce_pow
    le_reduce := hradix ▸ UInt64.le_iff_toNat_le.1 fits.le_reduce
    reduce_le := UInt64.le_iff_toNat_le.1 fits.reduce_le
    scan_pow := Word.isPowerOfTwo_iff.1 fits.scan_pow
    le_scan := hradix ▸ UInt64.le_iff_toNat_le.1 fits.le_scan
    scan_le := UInt64.le_iff_toNat_le.1 fits.scan_le
    slice := by rw [fits.slice, Word.toNat_max, hradix]
    scatter := ⟨i, by rw [← hi, fits.slices_mul_slice.2]⟩
    scatter_le := UInt64.le_iff_toNat_le.1 fits.scatter_le
    scale_pos := UInt64.lt_iff_toNat_lt.1 fits.scale_pos
    blocks_pos := hblocks
    itemBlocks_dvd := toNat_granularity hbits ▸ Nat.dvd_trans hgranularity hdvd
    groupBlocks_dvd := toNat_slices ▸ Nat.dvd_trans hslices hdvd
    room := (le_room_iff hbits hblocks).1 (UInt64.le_iff_toNat_le.1 fits.blocks_le) }

theorem IsNormal.fits (h : g.IsNormal d) : g.Fits d := by
  have hradix : g.radix.toNat = g.digits := toNat_radix h.bits_le
  have hslice : 0 < g.scatterSlice.toNat := by
    rw [h.slice]
    exact Nat.lt_of_lt_of_le digits_pos (Nat.le_max_right _ _)
  obtain ⟨i, hi⟩ := h.scatter
  -- The only check on a quotient. The others carry over from the numbers to the words.
  have hslices : g.slices.toNat = 2 ^ i := by
    rw [toNat_slices, groupBlocks, hi, Nat.mul_div_cancel _ hslice]
  have hle_reduce : g.radix ≤ g.reduceWorkGroupSize :=
    UInt64.le_iff_toNat_le.2 (hradix ▸ h.le_reduce)
  have hreduce_le : g.reduceWorkGroupSize ≤ d.maxWorkGroupSize :=
    UInt64.le_iff_toNat_le.2 h.reduce_le
  exact {
    one_le_bits := UInt64.le_iff_toNat_le.2 h.one_le_bits
    bits_le := UInt64.le_iff_toNat_le.2 h.bits_le
    capable := UInt64.le_trans hle_reduce hreduce_le
    reduce_pow := Word.isPowerOfTwo_iff.2 h.reduce_pow
    le_reduce := hle_reduce
    reduce_le := hreduce_le
    scan_pow := Word.isPowerOfTwo_iff.2 h.scan_pow
    le_scan := UInt64.le_iff_toNat_le.2 (hradix ▸ h.le_scan)
    scan_le := UInt64.le_iff_toNat_le.2 h.scan_le
    slice := by rw [← UInt64.toNat_inj, Word.toNat_max, hradix, h.slice]
    scatter_pos := UInt64.lt_iff_toNat_lt.2 (hi ▸ Nat.mul_pos (Nat.two_pow_pos i) hslice)
    slice_dvd := by
      rw [← UInt64.toNat_inj, UInt64.toNat_mod, hi, Nat.mul_mod_left]
      rfl
    slices_pow := Word.isPowerOfTwo_iff.2 ⟨i, hslices⟩
    scatter_le := UInt64.le_iff_toNat_le.2 h.scatter_le
    scale_pos := UInt64.lt_iff_toNat_lt.2 h.scale_pos
    blocks_pos := UInt64.lt_iff_toNat_lt.2 h.blocks_pos
    blocks_le := UInt64.le_iff_toNat_le.2 ((le_room_iff h.bits_le h.blocks_pos).2 h.room) }

/-- The step is the larger one of two divisors. -/
theorem IsNormal.step_dvd (h : g.IsNormal d) :
    (max g.granularity g.slices).toNat ∣ g.scanBlocks.toNat := by
  rw [Word.toNat_max, toNat_granularity h.bits_le, toNat_slices]
  rcases Nat.le_total g.itemBlocks g.groupBlocks with hle | hle
  · rw [Nat.max_eq_right hle]
    exact h.groupBlocks_dvd
  · rw [Nat.max_eq_left hle]
    exact h.itemBlocks_dvd

theorem isNormal_iff :
    g.IsNormal d ↔ g.Fits d ∧ (max g.granularity g.slices).toNat ∣ g.scanBlocks.toNat :=
  ⟨fun h => ⟨h.fits, h.step_dvd⟩, fun ⟨fits, hdvd⟩ => fits.isNormal hdvd⟩

/-! ## Reading back -/

theorem holds_toParameters (g : RadixsortGeometry) : g.toParameters.Holds g.fields := by
  apply TuningParameters.holds_ofWords
  show [Parameter.radixBits, Parameter.reduceWorkGroupSize, Parameter.scanWorkGroupSize,
    Parameter.scatterWorkGroupSize, Parameter.scatterWorkScale, Parameter.scanBlocks].Nodup
  decide

theorem isNormal_of_ofParameters (accepted : ofParameters d p = .ok g) : g.IsNormal d := by
  obtain ⟨normalizes, fits⟩ := ofParameters_eq_ok.1 accepted
  obtain ⟨requested, -, hblocks⟩ := normalizes.blocks
  exact fits.isNormal (step_dvd hblocks)

/-- Normal geometries are read back unchanged, and only these. -/
theorem ofParameters_toParameters : ofParameters d g.toParameters = .ok g ↔ g.IsNormal d := by
  refine ⟨isNormal_of_ofParameters, fun h => ?_⟩
  exact ofParameters_eq_ok.2
    ⟨h.fits.normalizes_of_holds h.step_dvd (holds_toParameters g), h.fits⟩

/-- The number of blocks is the largest one, in multiples of what is handled together, that is
neither more than asked for nor more than there is room for. What is asked for is rounded up to the
blocks of a scan work item. -/
structure Lowered (g : RadixsortGeometry) (d : DeviceProperties) (requested : Nat) : Prop where
  le_requested : g.scanBlocks.toNat ≤ (requested ⌈/⌉ g.itemBlocks) * g.itemBlocks
  largest : ∀ blocks, g.itemBlocks ∣ blocks → g.groupBlocks ∣ blocks →
    blocks ≤ (requested ⌈/⌉ g.itemBlocks) * g.itemBlocks →
    (4 * blocks + 1) * g.digits ≤ d.localMemSize.toNat → blocks ≤ g.scanBlocks.toNat

theorem Fits.lowered (fits : g.Fits d) {requested : Word}
    (h : fitBlocks? d g.radix g.granularity g.slices requested = .ok g.scanBlocks) :
    g.Lowered d requested.toNat := by
  have hbits : g.radixBits.toNat ≤ 8 := UInt64.le_iff_toNat_le.1 fits.bits_le
  have hvalue := toNat_scanBlocks h
  obtain ⟨hstep, -⟩ := fits.dvd_step
  rw [Word.toNat_max, toNat_granularity hbits, toNat_slices] at hstep hvalue
  refine ⟨?_, fun blocks hitem hgroup hrequested hroom => ?_⟩
  · rw [hvalue]
    exact Nat.le_trans (Nat.div_mul_le_self _ _) (Nat.min_le_left _ _)
  · rcases Nat.eq_zero_or_pos blocks with rfl | hpos
    · exact Nat.zero_le _
    · have hdvd : max g.itemBlocks g.groupBlocks ∣ blocks := by
        rcases Nat.le_total g.itemBlocks g.groupBlocks with hle | hle
        · rwa [Nat.max_eq_right hle]
        · rwa [Nat.max_eq_left hle]
      have hle := Nat.le_min.2 ⟨hrequested, (le_room_iff hbits hpos).2 hroom⟩
      rw [hvalue, ← Nat.div_mul_cancel hdvd]
      exact Nat.mul_le_mul_right _ (Nat.div_le_div_right hle)

/-- **Parameters are brought to normal form.** -/
theorem ofParameters_normalizes (accepted : ofParameters d p = .ok g) :
    g.IsNormal d ∧
    (∃ requested : Word, p.Holds { g with scanBlocks := requested }.fields ∧
      g.Lowered d requested.toNat) ∧
    ofParameters d g.toParameters = .ok g := by
  have normal := isNormal_of_ofParameters accepted
  obtain ⟨normalizes, fits⟩ := ofParameters_eq_ok.1 accepted
  obtain ⟨requested, hrequested, hblocks⟩ := normalizes.blocks
  refine ⟨normal, ⟨requested, ?_, fits.lowered hblocks⟩, ofParameters_toParameters.2 normal⟩
  have holds := normalizes.holds
  simp only [TuningParameters.Holds, fields, List.mem_cons, List.not_mem_nil, or_false,
    forall_eq_or_imp, forall_eq] at holds ⊢
  obtain ⟨hradix, hreduce, hscan, hscatter, hscale⟩ := holds
  exact ⟨hradix, hreduce, hscan, hscatter, hscale, hrequested⟩

/-- A warp of 48 items and local memory of 5000 bytes. Of the 300 blocks that were asked for there
are 152 left: local memory has room for 156, in multiples of the eight that a scan work item
handles. -/
theorem ofParameters_normalizes_odd :
    let d := { Backend.gpuProperties with warpSizeMem := 48, localMemSize := 5000 }
    let g : RadixsortGeometry := ⟨3, 8, 64, 96, 7, 48, 152⟩
    let p := { g with scanBlocks := 300 }.toParameters
    ofParameters d p = .ok g ∧ g.IsNormal d ∧ g.itemBlocks = 8 ∧ g.groupBlocks = 2 ∧
      p.Holds { g with scanBlocks := 300 }.fields ∧ g.Lowered d 300 ∧
      ofParameters d g.toParameters = .ok g := by
  intro d g p
  have accepted : ofParameters d p = .ok g := by decide +kernel
  obtain ⟨normal, ⟨requested, holds, lowered⟩, self⟩ := ofParameters_normalizes accepted
  have hasked := holds_toParameters { g with scanBlocks := 300 }
  have hsame := (holds (Parameter.scanBlocks, requested) (by simp [fields])).symm.trans
    (hasked (Parameter.scanBlocks, 300) (by simp [fields]))
  obtain rfl : requested = 300 := ParamValue.int.inj (Option.some.inj hsame)
  exact ⟨accepted, normal, by decide, by decide, hasked, lowered, self⟩

end RadixsortGeometry

end KernelTuning
