import KernelTuning.Proofs.NormalForm

/-!
# Room for a radix sort

Which devices have a geometry before any tuning, and which have a geometry with as many digits at
all.

**Requests.** What is asked for is a geometry whose number of blocks may be lowered. It is accepted
exactly if it is normal with the fewest blocks, those of a single step
(`exists_ofParameters_iff`), provided that it asks for a step.

**Devices.** Any geometry with sixteen digits needs a slice in a work group and local memory for
one block (`IsCapable`). Before any tuning all that and more is needed, as the sizes are wanted and
not fitted (`HasDefaultRoom`): the scatter group is as large as 64 work items allow, whatever the
largest work group is; its slices may be three; and its step may have more blocks than there is
room for.

**Theorem (`default_iff`).** A device has a geometry before any tuning exactly if it has room for
it, and else every problem is refused as beyond the device. Only processors, where a single slice is
wanted, have it whenever there is any geometry.
-/

namespace KernelTuning

/-! ## Refusals -/

namespace Attempt

variable {α β : Type} {reason : String}

/-- An attempt fails in a single way. -/
def OnlyRefuses (reason : String) (x : Attempt α) : Prop :=
  ∀ e, x = .error e → e = .error (.internal reason)

theorem onlyRefuses_ok (a : α) : OnlyRefuses reason (.ok a : Attempt α) := nofun

theorem onlyRefuses_ensure (condition : Bool) : OnlyRefuses reason (ensure condition reason) := by
  intro e h
  cases condition
  · cases h
    rfl
  · cases h

theorem OnlyRefuses.bind {x : Attempt α} {f : α → Attempt β} (hx : OnlyRefuses reason x)
    (hf : ∀ a, x = .ok a → OnlyRefuses reason (f a)) : OnlyRefuses reason (x >>= f) := by
  intro e h
  rcases x with e' | a
  · cases h
    exact hx _ rfl
  · exact hf a rfl e h

theorem OnlyRefuses.bind_of_ok {x : Attempt α} {f : α → Attempt β} {a : α} (hx : x = .ok a)
    (hf : OnlyRefuses reason (f a)) : OnlyRefuses reason (x >>= f) := by
  subst hx
  exact hf

/-- Such an attempt succeeds or is that refusal. -/
theorem OnlyRefuses.eq_fail_iff {x : Attempt α} (h : OnlyRefuses reason x) :
    x = fail reason ↔ ¬ ∃ a, x = .ok a := by
  rcases x with e | a
  · obtain rfl := h e rfl
    exact iff_of_true rfl nofun
  · exact iff_of_false nofun fun hnone => hnone ⟨a, rfl⟩

end Attempt

namespace RadixsortGeometry

variable {g asked : RadixsortGeometry} {d : DeviceProperties}

/-! ## Requests -/

/-- The number of blocks that are handled together. -/
def step (g : RadixsortGeometry) : Word := max g.granularity g.slices

/-- The geometry with the blocks of a single step. -/
def oneStep (g : RadixsortGeometry) : RadixsortGeometry := { g with scanBlocks := g.step }

/-- The geometry that parameters give differs from what they ask for in its number of blocks. -/
theorem eq_of_normalizes (h : g.Normalizes d asked.toParameters)
    (hslice : g.scatterSlice = asked.scatterSlice) :
    g = { asked with scanBlocks := g.scanBlocks } := by
  have hasked := holds_toParameters asked
  have hsame {name : String} {v w : Word} (hv : asked.toParameters.get? name = some (.int v))
      (hw : asked.toParameters.get? name = some (.int w)) : v = w :=
    ParamValue.int.inj (Option.some.inj (hv.symm.trans hw))
  have holds := h.holds
  simp only [TuningParameters.Holds, fields, List.mem_cons, List.not_mem_nil, or_false,
    forall_eq_or_imp, forall_eq] at holds hasked
  obtain ⟨hbits, hreduce, hscan, hscatter, hscale⟩ := holds
  obtain ⟨hbits', hreduce', hscan', hscatter', hscale', -⟩ := hasked
  obtain ⟨bits, reduce, scan, scatter, scale, slice, blocks⟩ := g
  obtain rfl := hsame hbits hbits'
  obtain rfl := hsame hreduce hreduce'
  obtain rfl := hsame hscan hscan'
  obtain rfl := hsame hscatter hscatter'
  obtain rfl := hsame hscale hscale'
  obtain rfl : slice = asked.scatterSlice := hslice
  rfl

/-- Of a normal geometry there is room for one step, as it has whole steps. -/
theorem IsNormal.oneStep (h : g.IsNormal d) : g.oneStep.IsNormal d := by
  obtain ⟨hstep, hgranularity, hslices⟩ := h.fits.dvd_step
  have hle : g.step.toNat ≤ g.scanBlocks.toNat := Nat.le_of_dvd h.blocks_pos h.step_dvd
  exact { h with
    blocks_pos := hstep
    itemBlocks_dvd := toNat_granularity h.bits_le ▸ hgranularity
    groupBlocks_dvd := toNat_slices ▸ hslices
    room := Nat.le_trans (Nat.mul_le_mul_right _ (by
      show 4 * g.step.toNat + 1 ≤ 4 * g.scanBlocks.toNat + 1
      omega)) h.room }

/-- Where there is room for one step and at least one is asked for, some steps are given. -/
theorem IsNormal.exists_blocks (h : asked.oneStep.IsNormal d)
    (hstep : asked.step.toNat ≤ asked.scanBlocks.toNat)
    (hword : asked.scanBlocks.toNat + asked.granularity.toNat ≤ 2 ^ 64) :
    ∃ blocks, fitBlocks? d asked.radix asked.granularity asked.slices asked.scanBlocks =
      .ok blocks ∧ 0 < blocks.toNat := by
  have hpos : 0 < asked.step.toNat := h.fits.dvd_step.1
  have hitem := asked.granularity_pos
  have hrounded := ceilDiv_mul_lt asked.scanBlocks.toNat hitem
  obtain ⟨blocks, hblocks⟩ := exists_fitBlocks? (d := d) asked.radix asked.slices hitem
    (Nat.lt_of_lt_of_le hrounded hword)
  refine ⟨blocks, hblocks, ?_⟩
  rw [((fitBlocks?_eq_ok hitem).1 hblocks).2]
  have hle_rounded := Nat.le_trans hstep (le_ceilDiv_mul asked.scanBlocks.toNat hitem)
  have hle_room := (le_room_iff h.bits_le hpos).2 h.room
  exact Nat.mul_pos (Nat.div_pos (Nat.le_min.2 ⟨hle_rounded, hle_room⟩) hpos) hpos

/-- **A request is accepted exactly if there is room for one step of it.** -/
theorem exists_ofParameters_iff (hslice : asked.scatterSlice = max d.warpSizeMem asked.radix)
    (hstep : asked.step.toNat ≤ asked.scanBlocks.toNat)
    (hword : asked.scanBlocks.toNat + asked.granularity.toNat ≤ 2 ^ 64) :
    (∃ g, ofParameters d asked.toParameters = .ok g) ↔ asked.oneStep.IsNormal d := by
  constructor
  · rintro ⟨g, accepted⟩
    obtain ⟨normalizes, fits⟩ := ofParameters_eq_ok.1 accepted
    -- All of `g` but its number of blocks stands in the request, so one step of both is the same.
    have hbits : g.radixBits = asked.radixBits := by
      have hg := normalizes.holds (Parameter.radixBits, g.radixBits) (by simp)
      have ha := holds_toParameters asked (Parameter.radixBits, asked.radixBits) (by simp [fields])
      exact ParamValue.int.inj (Option.some.inj (hg.symm.trans ha))
    have heq := eq_of_normalizes normalizes (by rw [fits.slice, hslice, radix, radix, hbits])
    have normal := (isNormal_of_ofParameters accepted).oneStep
    rw [heq] at normal
    exact normal
  · intro normal
    obtain ⟨blocks, hblocks, hpos⟩ := normal.exists_blocks hstep hword
    have fits := normal.fits
    have holds := holds_toParameters asked
    refine ⟨{ asked with scanBlocks := blocks }, ofParameters_eq_ok.2 ⟨⟨fun b hb => ?_, ?_⟩, ?_⟩⟩
    · refine holds b ?_
      simp only [fields, List.mem_cons, List.not_mem_nil, or_false] at hb ⊢
      tauto
    · exact ⟨asked.scanBlocks,
        holds (Parameter.scanBlocks, asked.scanBlocks) (by simp [fields]), hblocks⟩
    · exact { fits with
        blocks_pos := UInt64.lt_iff_toNat_lt.2 hpos
        blocks_le := fitBlocks?_le hblocks }

/-! ## Any geometry with sixteen digits -/

/-- The work items of a slice, for sixteen digits. -/
def defaultSlice (d : DeviceProperties) : Nat := max d.warpSizeMem.toNat 16

/-- Work groups hold a slice, and local memory the counts of one block. -/
structure IsCapable (d : DeviceProperties) : Prop where
  slice_le : defaultSlice d ≤ d.maxWorkGroupSize.toNat
  room : 80 ≤ d.localMemSize.toNat

/-- The geometry with sixteen digits, one slice and one block. -/
def leastGeometry (d : DeviceProperties) : RadixsortGeometry :=
  let slice := max d.warpSizeMem defaultRadix
  ⟨defaultRadixBits, defaultRadix, defaultRadix, slice, 1, slice, 1⟩

theorem toNat_slice (d : DeviceProperties) :
    (max d.warpSizeMem defaultRadix).toNat = defaultSlice d := Word.toNat_max _ _

theorem defaultSlice_pos : 0 < defaultSlice d :=
  Nat.lt_of_lt_of_le (by decide) (Nat.le_max_right _ 16)

theorem IsNormal.isCapable (h : g.IsNormal d) (hbits : g.radixBits = defaultRadixBits) :
    IsCapable d := by
  have hdigits : g.digits = 16 := by rw [digits, hbits]; rfl
  have hslice : g.scatterSlice.toNat = defaultSlice d := by rw [h.slice, hdigits]; rfl
  obtain ⟨i, hi⟩ := h.scatter
  have hroom := h.room
  have hblocks := h.blocks_pos
  rw [hdigits] at hroom
  refine ⟨?_, by omega⟩
  calc defaultSlice d ≤ 2 ^ i * defaultSlice d := Nat.le_mul_of_pos_left _ (Nat.two_pow_pos i)
    _ = g.scatterWorkGroupSize.toNat := by rw [hi, hslice]
    _ ≤ d.maxWorkGroupSize.toNat := h.scatter_le

theorem IsCapable.isNormal (h : IsCapable d) : (leastGeometry d).IsNormal d := by
  have hradix : 16 ≤ d.maxWorkGroupSize.toNat := Nat.le_trans (Nat.le_max_right _ 16) h.slice_le
  have hgroup : (leastGeometry d).groupBlocks = 1 := by
    show (max d.warpSizeMem defaultRadix).toNat / (max d.warpSizeMem defaultRadix).toNat = 1
    rw [toNat_slice, Nat.div_self defaultSlice_pos]
  exact {
    one_le_bits := show 1 ≤ 4 by decide
    bits_le := show 4 ≤ 8 by decide
    reduce_pow := ⟨4, rfl⟩
    le_reduce := Nat.le_refl 16
    reduce_le := hradix
    scan_pow := ⟨4, rfl⟩
    le_scan := Nat.le_refl 16
    scan_le := hradix
    slice := toNat_slice d
    scatter := ⟨0, (Nat.one_mul _).symm⟩
    scatter_le := toNat_slice d ▸ h.slice_le
    scale_pos := Nat.one_pos
    blocks_pos := Nat.one_pos
    itemBlocks_dvd := show max (16 / 2 ^ 4) 1 ∣ 1 by decide
    groupBlocks_dvd := hgroup ▸ Nat.dvd_refl 1
    room := h.room }

/-- Some parameters with sixteen digits are accepted exactly by capable devices. -/
theorem exists_sixteen_iff :
    (∃ p g, p.get? Parameter.radixBits = some (.int defaultRadixBits) ∧
      ofParameters d p = .ok g) ↔ IsCapable d := by
  constructor
  · rintro ⟨p, g, hbits, accepted⟩
    have hholds := (ofParameters_eq_ok.1 accepted).1.holds (Parameter.radixBits, g.radixBits)
      (by simp)
    exact (isNormal_of_ofParameters accepted).isCapable
      (ParamValue.int.inj (Option.some.inj (hholds.symm.trans hbits)))
  · intro capable
    exact ⟨_, leastGeometry d, holds_toParameters (leastGeometry d)
      (Parameter.radixBits, defaultRadixBits) (by simp [fields, leastGeometry]),
      ofParameters_toParameters.2 capable.isNormal⟩

/-! ## Before any tuning -/

/-- The sizes that are wanted: of the work groups that count and scan, of the scatter group, and
the number of blocks. -/
def wantedSizes (d : DeviceProperties) : Word × Word × Word :=
  match d.kind with
  | .cpu => (1, 1, 4 * d.units)
  | _ => (128, 64, 128 * d.units)

theorem wantedSizes_of_ne_cpu (h : d.kind ≠ .cpu) : wantedSizes d = (128, 64, 128 * d.units) := by
  unfold wantedSizes
  cases hkind : d.kind with
  | cpu => exact absurd hkind h
  | gpu | accelerator => rfl

theorem wantedSizes_of_cpu (h : d.kind = .cpu) : wantedSizes d = (1, 1, 4 * d.units) := by
  rw [wantedSizes, h]

/-- The geometry that is asked for. Of its sizes only the work groups that count and scan are cut
down to the device. -/
def wanted (d : DeviceProperties) : RadixsortGeometry :=
  let slice := max d.warpSizeMem defaultRadix
  let size := Word.floorPowerOfTwo (max (min (wantedSizes d).1 d.maxWorkGroupSize) defaultRadix)
  { radixBits := defaultRadixBits
    reduceWorkGroupSize := size
    scanWorkGroupSize := size
    scatterWorkGroupSize := max (wantedSizes d).2.1 slice / slice * slice
    scatterWorkScale := 7
    scatterSlice := slice
    scanBlocks := (wantedSizes d).2.2 }

/-- The work groups that count and scan. -/
def defaultGroup (d : DeviceProperties) : Nat :=
  2 ^ (max (min (wantedSizes d).1.toNat d.maxWorkGroupSize.toNat) 16).log2

/-- The slices of the scatter group, at least one. -/
def defaultSlices (d : DeviceProperties) : Nat :=
  max (wantedSizes d).2.1.toNat (defaultSlice d) / defaultSlice d

/-- The device has room for the geometry that is asked for, with the blocks of one step. -/
structure HasDefaultRoom (d : DeviceProperties) : Prop where
  slices_pow : ∃ i, defaultSlices d = 2 ^ i
  scatter_le : defaultSlices d * defaultSlice d ≤ d.maxWorkGroupSize.toNat
  room : (4 * max (defaultGroup d / 16) (defaultSlices d) + 1) * 16 ≤ d.localMemSize.toNat

theorem defaultSlices_pos : 0 < defaultSlices d :=
  Nat.div_pos (Nat.le_max_right _ _) defaultSlice_pos

theorem HasDefaultRoom.isCapable (h : HasDefaultRoom d) : IsCapable d := by
  have hslices : 0 < defaultSlices d := defaultSlices_pos
  have hroom := h.room
  exact ⟨Nat.le_trans (Nat.le_mul_of_pos_left _ hslices) h.scatter_le, by omega⟩

/-- A processor has room for what it wants, a single slice and a block, if for anything. -/
theorem hasDefaultRoom_iff_of_cpu (h : d.kind = .cpu) : HasDefaultRoom d ↔ IsCapable d := by
  refine ⟨HasDefaultRoom.isCapable, fun capable => ?_⟩
  have hwanted := wantedSizes_of_cpu h
  have hslices : defaultSlices d = 1 := by
    have hslice : 0 < defaultSlice d := defaultSlice_pos
    rw [defaultSlices, hwanted]
    show max 1 (defaultSlice d) / _ = 1
    rw [Nat.max_eq_right hslice, Nat.div_self hslice]
  have hgroup : defaultGroup d = 16 := by
    rw [defaultGroup, hwanted]
    show 2 ^ (max (min 1 d.maxWorkGroupSize.toNat) 16).log2 = 16
    rw [Nat.max_eq_right (Nat.le_trans (Nat.min_le_left _ _) (by decide))]
    rfl
  exact ⟨⟨0, hslices⟩, by rw [hslices, Nat.one_mul]; exact capable.slice_le,
    by rw [hslices, hgroup]; exact capable.room⟩

theorem units_bounds (d : DeviceProperties) : 1 ≤ d.units.toNat ∧ d.units.toNat < 2 ^ 32 := by
  have hunits := d.computeUnits.toNat_lt
  rw [DeviceProperties.units, Word.toNat_max, UInt32.toNat_toUInt64, UInt64.toNat_one]
  omega

theorem defaultGroup_le (d : DeviceProperties) :
    defaultGroup d ≤ max (wantedSizes d).1.toNat 16 := by
  refine Nat.le_trans (Nat.log2_self_le (by omega)) ?_
  omega

/-- A single slice may be larger than what is wanted, and more of them have sixteen items each. -/
theorem defaultSlices_le (d : DeviceProperties) :
    defaultSlices d ≤ max 1 ((wantedSizes d).2.1.toNat / 16) := by
  rw [defaultSlices]
  rcases Nat.le_total (wantedSizes d).2.1.toNat (defaultSlice d) with hle | hle
  · rw [Nat.max_eq_right hle, Nat.div_self defaultSlice_pos]
    exact Nat.le_max_left _ _
  · rw [Nat.max_eq_left hle]
    exact Nat.le_trans (Nat.div_le_div_left (Nat.le_max_right _ 16) (by decide))
      (Nat.le_max_right _ _)

/-- Enough blocks are wanted for any step, and not so many that rounding them up exceeds a word. -/
theorem wantedSizes_bounds (d : DeviceProperties) :
    max (defaultGroup d / 16) (defaultSlices d) ≤ (wantedSizes d).2.2.toNat ∧
      (wantedSizes d).2.2.toNat < 2 ^ 40 := by
  have hgroup := defaultGroup_le d
  have hslices := defaultSlices_le d
  obtain ⟨hpos, hlt⟩ := units_bounds d
  have hblocks (n : Word) (h : n.toNat ≤ 128) : (n * d.units).toNat = n.toNat * d.units.toNat :=
    Word.toNat_mul_of_lt (Nat.lt_of_le_of_lt (Nat.mul_le_mul_right _ h) (by omega))
  by_cases hkind : d.kind = .cpu
  · rw [wantedSizes_of_cpu hkind] at hgroup hslices ⊢
    have hgroup : defaultGroup d ≤ 16 := hgroup
    have hslices : defaultSlices d ≤ 1 := Nat.le_trans hslices (show max 1 (1 / 16) ≤ 1 by decide)
    have hvalue : (4 * d.units).toNat = 4 * d.units.toNat := hblocks 4 (by decide)
    show max _ _ ≤ (4 * d.units).toNat ∧ (4 * d.units).toNat < _
    omega
  · rw [wantedSizes_of_ne_cpu hkind] at hgroup hslices ⊢
    have hgroup : defaultGroup d ≤ 128 := hgroup
    have hslices : defaultSlices d ≤ 4 := Nat.le_trans hslices (show max 1 (64 / 16) ≤ 4 by decide)
    have hvalue : (128 * d.units).toNat = 128 * d.units.toNat := hblocks 128 (by decide)
    show max _ _ ≤ (128 * d.units).toNat ∧ (128 * d.units).toNat < _
    omega

theorem toNat_groupSize (d : DeviceProperties) :
    (wanted d).scanWorkGroupSize.toNat = defaultGroup d := by
  have hmax : (max (min (wantedSizes d).1 d.maxWorkGroupSize) defaultRadix).toNat =
      max (min (wantedSizes d).1.toNat d.maxWorkGroupSize.toNat) 16 := by
    rw [Word.toNat_max, Word.toNat_min]
    rfl
  have hpos : 0 < max (min (wantedSizes d).1.toNat d.maxWorkGroupSize.toNat) 16 :=
    Nat.lt_of_lt_of_le (by decide) (Nat.le_max_right _ _)
  show (Word.floorPowerOfTwo (max (min _ d.maxWorkGroupSize) defaultRadix)).toNat = _
  rw [Word.toNat_floorPowerOfTwo (hmax ▸ hpos), hmax]
  rfl

theorem roundDown?_scatter (d : DeviceProperties) :
    Word.roundDown? (max (wantedSizes d).2.1 (max d.warpSizeMem defaultRadix))
        (max d.warpSizeMem defaultRadix) = .ok (wanted d).scatterWorkGroupSize ∧
      (wanted d).scatterWorkGroupSize.toNat = defaultSlices d * defaultSlice d := by
  have hslice : 0 < (max d.warpSizeMem defaultRadix).toNat := toNat_slice d ▸ defaultSlice_pos
  obtain ⟨w, hw, hvalue⟩ := Word.roundDown?_eq
    (max (wantedSizes d).2.1 (max d.warpSizeMem defaultRadix)) hslice
  rw [Word.toNat_max, toNat_slice] at hvalue
  obtain rfl : (wanted d).scatterWorkGroupSize = w := by
    rw [Word.roundDown?, Word.div?_eq _ hslice] at hw
    exact Except.ok.inj hw
  exact ⟨hw, hvalue⟩

theorem groupBlocks_wanted (d : DeviceProperties) : (wanted d).groupBlocks = defaultSlices d := by
  show (wanted d).scatterWorkGroupSize.toNat / (max d.warpSizeMem defaultRadix).toNat = _
  rw [(roundDown?_scatter d).2, toNat_slice, Nat.mul_div_cancel _ defaultSlice_pos]

theorem four_le_log2 (d : DeviceProperties) :
    4 ≤ (max (min (wantedSizes d).1.toNat d.maxWorkGroupSize.toNat) 16).log2 :=
  (Nat.le_log2 (by omega)).2 (Nat.le_max_right _ _)

theorem sixteen_le_defaultGroup (d : DeviceProperties) : 16 ≤ defaultGroup d :=
  Nat.pow_le_pow_right (show 2 > 0 by decide) (four_le_log2 d)

theorem defaultGroup_le_max (h : 16 ≤ d.maxWorkGroupSize.toNat) :
    defaultGroup d ≤ d.maxWorkGroupSize.toNat := by
  refine Nat.le_trans (Nat.log2_self_le (by omega)) ?_
  omega

theorem itemBlocks_wanted (d : DeviceProperties) :
    (wanted d).itemBlocks = defaultGroup d / 16 := by
  have hle := sixteen_le_defaultGroup d
  show max ((wanted d).scanWorkGroupSize.toNat / 2 ^ 4) 1 = _
  rw [toNat_groupSize]
  omega

theorem toNat_step_wanted (d : DeviceProperties) :
    (wanted d).step.toNat = max (defaultGroup d / 16) (defaultSlices d) := by
  have hbits : (wanted d).radixBits.toNat ≤ 8 := show 4 ≤ 8 by decide
  rw [step, Word.toNat_max, toNat_granularity hbits, toNat_slices, itemBlocks_wanted,
    groupBlocks_wanted]

/-- Both divisors of a step are powers of two. -/
theorem dvd_step_wanted (h : ∃ i, defaultSlices d = 2 ^ i) :
    (wanted d).itemBlocks ∣ (wanted d).step.toNat ∧
      (wanted d).groupBlocks ∣ (wanted d).step.toNat := by
  have hbits : (wanted d).radixBits.toNat ≤ 8 := show 4 ≤ 8 by decide
  have hitem : ∃ i, (wanted d).granularity.toNat = 2 ^ i := by
    rw [toNat_granularity hbits, itemBlocks_wanted]
    exact ⟨_, Nat.pow_div (four_le_log2 d) (by decide)⟩
  rw [← toNat_granularity hbits, ← toNat_slices]
  exact Word.dvd_max hitem (by rwa [toNat_slices, groupBlocks_wanted])

/-- The parameters before any tuning ask for the wanted sizes. -/
theorem defaultParameters_eq (h : defaultRadix ≤ d.maxWorkGroupSize) :
    defaultParameters d = .ok (wanted d).toParameters := by
  have hsteps : defaultParameters d = (do
      requireCapable (d.maxWorkGroupSize ≥ defaultRadix)
      let scatter ← Attempt.ofArithmetic (Word.roundDown?
        (max (wantedSizes d).2.1 (max d.warpSizeMem defaultRadix)) (max d.warpSizeMem defaultRadix))
      return { wanted d with scatterWorkGroupSize := scatter }.toParameters) := by
    unfold defaultParameters wanted wantedSizes
    cases d.kind <;> rfl
  rw [hsteps, (roundDown?_scatter d).1]
  exact Attempt.ensure_bind_eq_ok.2 ⟨decide_eq_true h, rfl⟩

theorem default_eq (h : defaultRadix ≤ d.maxWorkGroupSize) :
    default d = ofParameters d (wanted d).toParameters := by
  rw [default, defaultParameters_eq h]
  rfl

theorem isNormal_oneStep_wanted_iff : (wanted d).oneStep.IsNormal d ↔ HasDefaultRoom d := by
  have hstep : (wanted d).oneStep.scanBlocks.toNat =
      max (defaultGroup d / 16) (defaultSlices d) := toNat_step_wanted d
  have hscatter : (wanted d).oneStep.scatterWorkGroupSize.toNat =
      defaultSlices d * defaultSlice d := (roundDown?_scatter d).2
  have hslice : (wanted d).oneStep.scatterSlice.toNat = defaultSlice d := toNat_slice d
  have hgroup : (wanted d).oneStep.scanWorkGroupSize.toNat = defaultGroup d := toNat_groupSize d
  constructor
  · intro normal
    obtain ⟨i, hi⟩ := normal.scatter
    rw [hscatter, hslice] at hi
    exact ⟨⟨i, Nat.eq_of_mul_eq_mul_right defaultSlice_pos hi⟩, hscatter ▸ normal.scatter_le,
      hstep ▸ normal.room⟩
  · intro room
    obtain ⟨i, hi⟩ := room.slices_pow
    have hradix := Nat.le_trans (Nat.le_max_right _ 16) room.isCapable.slice_le
    have hle := hgroup ▸ sixteen_le_defaultGroup d
    have hmax := hgroup ▸ defaultGroup_le_max hradix
    obtain ⟨hitem, hslices⟩ := dvd_step_wanted room.slices_pow
    exact {
      one_le_bits := show 1 ≤ 4 by decide
      bits_le := show 4 ≤ 8 by decide
      reduce_pow := ⟨_, hgroup⟩
      le_reduce := hle
      reduce_le := hmax
      scan_pow := ⟨_, hgroup⟩
      le_scan := hle
      scan_le := hmax
      slice := hslice
      scatter := ⟨i, by rw [hscatter, hslice, hi]⟩
      scatter_le := hscatter ▸ room.scatter_le
      scale_pos := show 0 < 7 by decide
      blocks_pos := by
        rw [hstep]
        exact Nat.lt_of_lt_of_le defaultSlices_pos (Nat.le_max_right _ _)
      itemBlocks_dvd := hitem
      groupBlocks_dvd := hslices
      room := hstep ▸ room.room }

theorem scanBlocks_add_granularity_le (d : DeviceProperties) :
    (wanted d).scanBlocks.toNat + (wanted d).granularity.toNat ≤ 2 ^ 64 := by
  obtain ⟨hle, hlt⟩ := wantedSizes_bounds d
  have hbits : (wanted d).radixBits.toNat ≤ 8 := show 4 ≤ 8 by decide
  rw [toNat_granularity hbits, itemBlocks_wanted]
  show (wantedSizes d).2.2.toNat + _ ≤ _
  omega

theorem exists_default_iff : (∃ g, default d = .ok g) ↔ HasDefaultRoom d := by
  have hle := (wantedSizes_bounds d).1
  by_cases hradix : defaultRadix ≤ d.maxWorkGroupSize
  · rw [default_eq hradix, exists_ofParameters_iff rfl (toNat_step_wanted d ▸ hle)
      (scanBlocks_add_granularity_le d), isNormal_oneStep_wanted_iff]
  · refine iff_of_false (fun ⟨g, h⟩ => hradix ?_) (fun room => hradix ?_)
    · obtain ⟨p, hp, -⟩ := Attempt.bind_eq_ok.1 h
      exact of_decide_eq_true (Attempt.ensure_bind_eq_ok.1 hp).1
    · exact UInt64.le_iff_toNat_le.2
        (Nat.le_trans (Nat.le_max_right _ 16) room.isCapable.slice_le)

/-- Of the checks only those of the device can fail. -/
theorem onlyRefuses_default (d : DeviceProperties) :
    Attempt.OnlyRefuses "Device capabilities are too limited for radixsort" (default d) := by
  by_cases hradix : defaultRadix ≤ d.maxWorkGroupSize
  · rw [default_eq hradix]
    have holds := holds_toParameters (wanted d)
    have hword {name : String} {w : Word} (h : (name, w) ∈ (wanted d).fields) :
        (wanted d).toParameters.word name = .ok w :=
      TuningParameters.word_eq_ok.2 (holds (name, w) h)
    have hgroup := toNat_groupSize d
    have hcheck (name : String) : checkWorkGroup name (wanted d).scanWorkGroupSize
        defaultRadix d.maxWorkGroupSize = .ok () := by
      refine Attempt.ensure_eq_ok.2 ?_
      simp only [Bool.and_eq_true, decide_eq_true_eq, Word.isPowerOfTwo_iff,
        UInt64.le_iff_toNat_le, ge_iff_le, hgroup]
      exact ⟨⟨⟨_, rfl⟩, sixteen_le_defaultGroup d⟩,
        defaultGroup_le_max (UInt64.le_iff_toNat_le.1 hradix)⟩
    -- Each check in turn: what depends on the request alone succeeds, what depends on the device
    -- refuses at most.
    unfold ofParameters
    refine .bind_of_ok (hword (w := defaultRadixBits) (by simp [fields, wanted])) ?_
    refine .bind_of_ok rfl ?_
    refine .bind (Attempt.onlyRefuses_ensure _) fun _ _ => ?_
    refine .bind_of_ok (hword (w := (wanted d).reduceWorkGroupSize) (by simp [fields])) ?_
    refine .bind_of_ok (hword (w := (wanted d).scanWorkGroupSize) (by simp [fields])) ?_
    refine .bind_of_ok (hcheck _) ?_
    refine .bind_of_ok (hcheck _) ?_
    refine .bind_of_ok (hword (w := (wanted d).scatterWorkGroupSize) (by simp [fields])) ?_
    refine .bind (Attempt.onlyRefuses_ensure _) fun _ _ => ?_
    refine .bind_of_ok (hword (w := 7) (by simp [fields, wanted])) ?_
    refine .bind_of_ok rfl ?_
    refine .bind_of_ok (hword (w := (wanted d).scanBlocks) (by simp [fields])) ?_
    have hrounded := ceilDiv_mul_lt (wanted d).scanBlocks.toNat (wanted d).granularity_pos
    obtain ⟨blocks, hblocks⟩ := exists_fitBlocks? (d := d) defaultRadix (wanted d).slices
      (wanted d).granularity_pos (Nat.lt_of_lt_of_le hrounded (scanBlocks_add_granularity_le d))
    refine .bind_of_ok (congrArg Attempt.ofArithmetic hblocks) ?_
    refine .bind (Attempt.onlyRefuses_ensure _) fun _ _ => ?_
    exact Attempt.onlyRefuses_ok _
  · unfold default defaultParameters
    refine .bind (.bind (Attempt.onlyRefuses_ensure _) fun _ h => ?_) fun p hp => ?_
    · exact absurd (of_decide_eq_true (Attempt.ensure_eq_ok.1 h)) hradix
    · exact absurd (of_decide_eq_true (Attempt.ensure_bind_eq_ok.1 hp).1) hradix

end RadixsortGeometry

namespace Radixsort

open RadixsortGeometry (IsCapable HasDefaultRoom leastGeometry)

variable {d : DeviceProperties} {problem : RadixsortProblem}

/-- The types can be sorted on the device, whatever its sizes are. -/
def HasTypes (d : DeviceProperties) (problem : RadixsortProblem) : Prop :=
  (problem.key.isIntegral && !problem.key.isSigned && problem.key.length = 1
    && problem.key.isComputable d && problem.key.isStorable d) = true ∧
  (problem.value.isVoid || problem.value.isStorable d) = true

/-- The refusal of a device. -/
def tooLimited {α : Type} : Attempt α :=
  .fail "Device capabilities are too limited for radixsort"

theorem validate_eq_tooLimited_iff (types : HasTypes d problem) :
    validate d problem = tooLimited ↔ ¬ HasDefaultRoom d := by
  have hvalidate : validate d problem = (do let _ ← RadixsortGeometry.default d) := by
    show (Attempt.ensure _ _ >>= fun _ => Attempt.ensure _ _ >>= fun _ => _) = _
    rw [Attempt.ensure_eq_ok.2 types.1]
    show (Attempt.ensure _ _ >>= fun _ => _) = _
    rw [Attempt.ensure_eq_ok.2 types.2]
    rfl
  have refuses := (RadixsortGeometry.onlyRefuses_default d).bind
    (f := fun _ => (.ok () : Attempt Unit)) fun _ _ => Attempt.onlyRefuses_ok _
  rw [hvalidate, tooLimited, ← RadixsortGeometry.exists_default_iff]
  refine refuses.eq_fail_iff.trans (not_congr ⟨fun ⟨_, h⟩ => ?_, fun ⟨g, h⟩ => ⟨(), ?_⟩⟩)
  · obtain ⟨g, hg, -⟩ := Attempt.bind_eq_ok.1 h
    exact ⟨g, hg⟩
  · exact Attempt.bind_eq_ok.2 ⟨g, h, rfl⟩

/-- **Before any tuning a sort needs more room than some geometries do.** -/
theorem default_iff (d : DeviceProperties) :
    ((∃ p g, p.get? Parameter.radixBits = some (.int 4) ∧
      RadixsortGeometry.ofParameters d p = .ok g) ↔ IsCapable d) ∧
    ((∃ g, RadixsortGeometry.default d = .ok g) ↔ HasDefaultRoom d) ∧
    (HasDefaultRoom d → IsCapable d) ∧
    (d.kind = .cpu → IsCapable d → HasDefaultRoom d) ∧
    ∀ problem, HasTypes d problem → (validate d problem = tooLimited ↔ ¬ HasDefaultRoom d) :=
  ⟨RadixsortGeometry.exists_sixteen_iff, RadixsortGeometry.exists_default_iff,
    HasDefaultRoom.isCapable, fun h => (RadixsortGeometry.hasDefaultRoom_iff_of_cpu h).2,
    fun _ types => validate_eq_tooLimited_iff types⟩

/-- Processors with the smallest work groups that hold a digit each, and local memory for just one
block or for a byte less. -/
theorem default_iff_processor :
    let processor (bytes : Word) : DeviceProperties :=
      { Backend.cpuProperties with maxWorkGroupSize := 16, localMemSize := bytes }
    let uint : RadixsortProblem := ⟨⟨.uint, 1, by decide⟩, .void⟩
    (∃ g, RadixsortGeometry.default (processor 80) = .ok g) ∧
      HasTypes (processor 79) uint ∧ validate (processor 79) uint = tooLimited ∧
      ¬ ∃ p g, p.get? Parameter.radixBits = some (.int 4) ∧
        RadixsortGeometry.ofParameters (processor 79) p = .ok g := by
  intro processor uint
  obtain ⟨-, room, -, fits, -⟩ := default_iff (processor 80)
  obtain ⟨some, -, capable, -, refuses⟩ := default_iff (processor 79)
  have less : ¬ IsCapable (processor 79) := fun h => absurd h.room (by decide)
  have types : HasTypes (processor 79) uint := ⟨by decide, by decide⟩
  exact ⟨room.2 (fits rfl ⟨by decide, by decide⟩), types,
    (refuses uint types).2 fun h => less (capable h), fun h => less (some.1 h)⟩

/-- Graphics devices whose work groups are smaller than the scatter group that is wanted, whose
warps divide it into three slices, or whose local memory holds less than a step. They have
geometries and are refused. -/
theorem tooLimited_capable :
    let narrow := { Backend.gpuProperties with maxWorkGroupSize := 32 }
    let uneven := { Backend.gpuProperties with warpSizeMem := 20 }
    let scarce := { Backend.gpuProperties with localMemSize := 500 }
    let uint : RadixsortProblem := ⟨⟨.uint, 1, by decide⟩, .void⟩
    ∀ d ∈ [narrow, uneven, scarce],
      (leastGeometry d).toParameters.get? Parameter.radixBits = some (.int 4) ∧
      RadixsortGeometry.ofParameters d (leastGeometry d).toParameters = .ok (leastGeometry d) ∧
      RadixsortGeometry.default d = tooLimited ∧ validate d uint = tooLimited := by
  intro narrow uneven scarce uint
  simp only [List.forall_mem_cons, List.not_mem_nil, false_implies, implies_true, and_true]
  refine ⟨?narrow, ?uneven, ?scarce⟩
  case narrow => decide +kernel
  case uneven => decide +kernel
  case scarce => decide +kernel

end Radixsort

end KernelTuning
