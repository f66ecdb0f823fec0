import KernelTuning.Proofs.CrashFree

/-!
# Room for a scan

Which geometries of scans a device takes, said by inequalities on numbers of any size.

**Limits.** Work groups and blocks are powers of two up to bounds that follow from the device
(`WithinLimits`). Besides, a tile, which a work group scans at a time, has to fit in local memory
(`HasRoom`).

**Theorem (`validate_iff`).** A geometry is accepted exactly if it has room. One that is not
accepted is refused by an error, unless its work groups are allowed and its tile exceeds a word: the
check multiplies words, and crashes there. Such tiles exist exactly on the devices that have work
groups of two items.

**Theorem (`validate_default_iff`).** The geometry before any tuning is accepted on every device
that some geometry is accepted on: with work groups of one item and local memory for four elements.
It takes all its sizes from the bounds (`fitted`), and larger bounds only make it larger.
-/

namespace KernelTuning

namespace ScanGeometry

variable {g : ScanGeometry} {d : DeviceProperties} {elem : ElemType}

/-! ## Limits -/

/-- The elements that local memory holds. -/
def localElements (d : DeviceProperties) (elem : ElemType) : Nat :=
  d.localMemSize.toNat / elem.storageSize.toNat

/-- The largest work group, smaller than half of the elements of local memory. -/
def groupLimit (d : DeviceProperties) (elem : ElemType) : Nat :=
  min d.maxWorkGroupSize.toNat (localElements d elem / 2 - 1)

/-- The work groups and the work scale are powers of two, and the work groups are allowed. -/
structure GroupsWithin (g : ScanGeometry) (d : DeviceProperties) (elem : ElemType) : Prop where
  reduce_pow : ∃ i, g.reduceWorkGroupSize.toNat = 2 ^ i
  reduce_le : g.reduceWorkGroupSize.toNat ≤ groupLimit d elem
  scan_pow : ∃ i, g.scanWorkGroupSize.toNat = 2 ^ i
  scan_le : g.scanWorkGroupSize.toNat ≤ groupLimit d elem
  scale_pow : ∃ i, g.scanWorkScale.toNat = 2 ^ i

/-- The sizes of a geometry, apart from its tile, are powers of two that the device allows. -/
structure WithinLimits (g : ScanGeometry) (d : DeviceProperties) (elem : ElemType) : Prop
    extends GroupsWithin g d elem where
  blocks_pow : ∃ i, g.scanBlocks.toNat = 2 ^ i
  two_le_blocks : 2 ≤ g.scanBlocks.toNat
  blocks_le : g.scanBlocks.toNat ≤ min (2 * d.maxWorkGroupSize.toNat) (localElements d elem)

/-- The elements that a work group scans at a time, as a number of any size. -/
def scanTile (g : ScanGeometry) : Nat := g.scanWorkScale.toNat * g.scanWorkGroupSize.toNat

/-- Local memory has room for the tile. -/
def HasRoom (g : ScanGeometry) (d : DeviceProperties) (elem : ElemType) : Prop :=
  g.WithinLimits d elem ∧ g.scanTile ≤ localElements d elem

theorem localMemElements_eq (typed : elem.isVoid = false) :
    (limits d elem).localMemElements.toNat = localElements d elem := by
  rw [toNat_localMemElements, Nat.max_eq_left (elem.storageSize_bounds typed).1]
  rfl

theorem workGroupSize_eq (typed : elem.isVoid = false) :
    (limits d elem).workGroupSize.toNat = groupLimit d elem := by
  rw [toNat_workGroupSize, localMemElements_eq typed]
  rfl

theorem blocks_eq (typed : elem.isVoid = false) :
    (limits d elem).blocks.toNat = min (2 * d.maxWorkGroupSize.toNat) (localElements d elem) := by
  rw [toNat_blocks, localMemElements_eq typed]

/-! ## Accepted geometries -/

theorem groupsWithin_iff (typed : elem.isVoid = false) :
    g.GroupsWithin d elem ↔
      (g.reduceWorkGroupSize.isPowerOfTwo = true ∧
        g.reduceWorkGroupSize ≤ (limits d elem).workGroupSize) ∧
      (g.scanWorkGroupSize.isPowerOfTwo = true ∧
        g.scanWorkGroupSize ≤ (limits d elem).workGroupSize) ∧
      g.scanWorkScale.isPowerOfTwo = true := by
  simp only [Word.isPowerOfTwo_iff, UInt64.le_iff_toNat_le, workGroupSize_eq typed]
  exact ⟨fun h => ⟨⟨h.reduce_pow, h.reduce_le⟩, ⟨h.scan_pow, h.scan_le⟩, h.scale_pow⟩,
    fun ⟨⟨reduce_pow, reduce_le⟩, ⟨scan_pow, scan_le⟩, scale_pow⟩ =>
      ⟨reduce_pow, reduce_le, scan_pow, scan_le, scale_pow⟩⟩

theorem fits_iff (hlimits : d.HasLimits) (typed : elem.isVoid = false) :
    g.Fits d elem ↔ g.HasRoom d elem := by
  constructor
  · intro fits
    refine ⟨{
      toGroupsWithin := (groupsWithin_iff typed).2
        ⟨⟨fits.reduce_pow, fits.reduce_le⟩, ⟨fits.scan_pow, fits.scan_le⟩, fits.scale_pow⟩
      blocks_pow := Word.isPowerOfTwo_iff.1 fits.blocks_pow
      two_le_blocks := UInt64.le_iff_toNat_le.1 fits.two_le_blocks
      blocks_le := blocks_eq typed ▸ UInt64.le_iff_toNat_le.1 fits.blocks_le }, ?_⟩
    exact localMemElements_eq typed ▸ fits.scale_le
  · rintro ⟨within, tile⟩
    obtain ⟨⟨reduce_pow, reduce_le⟩, ⟨scan_pow, scan_le⟩, scale_pow⟩ :=
      (groupsWithin_iff typed).1 within.toGroupsWithin
    have hcapable := Nat.lt_of_lt_of_le (Word.isPowerOfTwo_pos reduce_pow)
      (UInt64.le_iff_toNat_le.1 reduce_le)
    exact {
      hasLimits := hlimits
      capable := UInt64.lt_iff_toNat_lt.2 hcapable
      reduce_pow, reduce_le, scan_pow, scan_le, scale_pow
      scale_le := localMemElements_eq typed ▸ tile
      blocks_pow := Word.isPowerOfTwo_iff.2 within.blocks_pow
      two_le_blocks := UInt64.le_iff_toNat_le.2 within.two_le_blocks
      blocks_le := UInt64.le_iff_toNat_le.2 (blocks_eq typed ▸ within.blocks_le) }

theorem overflows_iff (typed : elem.isVoid = false) :
    g.Overflows d elem ↔ g.GroupsWithin d elem ∧ 2 ^ 64 ≤ g.scanTile := by
  rw [groupsWithin_iff typed]
  exact ⟨fun h => ⟨⟨⟨h.reduce_pow, h.reduce_le⟩, ⟨h.scan_pow, h.scan_le⟩, h.scale_pow⟩, h.tile_ge⟩,
    fun ⟨⟨⟨reduce_pow, reduce_le⟩, ⟨scan_pow, scan_le⟩, scale_pow⟩, tile_ge⟩ =>
      ⟨reduce_pow, reduce_le, scan_pow, scan_le, scale_pow, tile_ge⟩⟩

/-- The smallest geometry with a tile of `2^64` elements. -/
def oversized : ScanGeometry := ⟨1, 2, 0x8000000000000000, 2⟩

/-- A work group of a single item has a tile as large as its work scale, which is a word. With two
items the largest power of two among words makes a tile that exceeds them. -/
theorem exists_overflows_iff (typed : elem.isVoid = false) :
    (∃ g : ScanGeometry, g.Overflows d elem) ↔ 2 ≤ groupLimit d elem := by
  simp only [overflows_iff typed]
  constructor
  · rintro ⟨g, groups, exceeds⟩
    refine Nat.le_of_not_lt fun hlt => ?_
    have hscan : g.scanWorkGroupSize.toNat ≤ 1 :=
      Nat.le_trans groups.scan_le (Nat.le_of_lt_succ hlt)
    have htile : g.scanTile ≤ g.scanWorkScale.toNat * 1 := Nat.mul_le_mul_left _ hscan
    have hword := g.scanWorkScale.toNat_lt
    omega
  · intro htwo
    refine ⟨oversized, ?_, by decide⟩
    exact {
      reduce_pow := ⟨0, rfl⟩
      reduce_le := Nat.le_trans (by decide) htwo
      scan_pow := ⟨1, rfl⟩
      scan_le := htwo
      scale_pow := ⟨63, rfl⟩ }

/-- **A device takes just the geometries that it has room for**, whatever the size of their fields.
The check crashes on tiles that exceed a word, if it comes to them. -/
theorem validate_iff (hmax : d.maxWorkGroupSize.toNat < 2 ^ 63) (typed : elem.isVoid = false) :
    (∀ g : ScanGeometry, g.validate d elem = .ok () ↔ g.HasRoom d elem) ∧
    (∀ g : ScanGeometry, Orderly (g.validate d elem) ↔
      ¬ (g.GroupsWithin d elem ∧ 2 ^ 64 ≤ g.scanTile)) ∧
    ((∀ g : ScanGeometry, Orderly (g.validate d elem)) ↔ groupLimit d elem ≤ 1) := by
  have hlimits : d.HasLimits := show 2 * d.maxWorkGroupSize.toNat < 2 ^ 64 by omega
  have orderly (g : ScanGeometry) : Orderly (g.validate d elem) ↔ ¬ g.Overflows d elem :=
    orderly_validate_iff.trans (and_iff_right hlimits)
  refine ⟨fun g => validate_eq_ok.trans (fits_iff hlimits typed), fun g => ?_, ?_⟩
  · rw [orderly, overflows_iff typed]
  · simp only [orderly]
    rw [← not_exists, exists_overflows_iff typed]
    exact ⟨fun h => Nat.le_of_lt_succ (Nat.not_le.1 h), fun h => Nat.not_le.2 (Nat.lt_succ_of_le h)⟩

/-- On a small graphics device the smallest geometry has room, and a tile of `2^64` elements makes
the check crash. -/
theorem validate_iff_gpu :
    let d := Backend.gpuProperties
    let uint : ElemType := ⟨.uint, 1, by decide⟩
    d.maxWorkGroupSize.toNat < 2 ^ 63 ∧ uint.isVoid = false ∧
    (∀ g : ScanGeometry, g.validate d uint = .ok () ↔ g.HasRoom d uint) ∧
    HasRoom ⟨1, 1, 1, 2⟩ d uint ∧ ¬ Orderly (oversized.validate d uint) := by
  intro d uint
  have hmax : d.maxWorkGroupSize.toNat < 2 ^ 63 := by decide
  obtain ⟨accepted, orderly, -⟩ := validate_iff hmax (show uint.isVoid = false by rfl)
  refine ⟨hmax, rfl, accepted, (accepted _).1 (by decide +kernel), fun h => (orderly _).1 h ?_⟩
  exact ⟨⟨⟨0, rfl⟩, by decide, ⟨1, rfl⟩, by decide, ⟨63, rfl⟩⟩, by decide⟩

/-! ## Before any tuning -/

/-- Where a work group of one item and two blocks are allowed, wanted sizes can be cut down to some
that fit. -/
theorem fits_fitted {size scale blocks : Word} (hlimits : d.HasLimits)
    (hgroup : 1 ≤ (limits d elem).workGroupSize.toNat)
    (hblocks : 2 ≤ (limits d elem).blocks.toNat) (hsize : 1 ≤ size.toNat)
    (hscale : 1 ≤ scale.toNat) (hwanted : 2 ≤ blocks.toNat) :
    ((limits d elem).fitted size scale blocks).Fits d elem := by
  let l := limits d elem
  let group := Word.floorPowerOfTwo (min size l.workGroupSize)
  have hmin : 0 < (min size l.workGroupSize).toNat := by
    rw [Word.toNat_min]
    exact Nat.lt_min.2 ⟨hsize, hgroup⟩
  have hpos : 1 ≤ group.toNat := Word.isPowerOfTwo_pos (Word.isPowerOfTwo_floorPowerOfTwo hmin)
  have hle : group.toNat ≤ l.workGroupSize.toNat := by
    have h := UInt64.le_iff_toNat_le.1 (Word.floorPowerOfTwo_le (min size l.workGroupSize))
    rw [Word.toNat_min] at h
    exact Nat.le_trans h (Nat.min_le_right _ _)
  -- Local memory has room for one element of every item.
  have hitems : group.toNat ≤ l.localMemElements.toNat := by
    have h : l.workGroupSize.toNat = min d.maxWorkGroupSize.toNat
        (l.localMemElements.toNat / 2 - 1) := toNat_workGroupSize d elem
    omega
  have hmax : (max group 1).toNat = group.toNat := by
    rw [Word.toNat_max]
    exact Nat.max_eq_left hpos
  -- A scale of one is left after the division, and two blocks after the cut.
  have hshare : 0 < (min scale (l.localMemElements / max group 1)).toNat := by
    rw [Word.toNat_min, UInt64.toNat_div, hmax]
    exact Nat.lt_min.2 ⟨hscale, Nat.div_pos hitems hpos⟩
  have htwo : 2 ^ 1 ≤ (min blocks l.blocks).toNat := by
    rw [Word.toNat_min]
    exact Nat.le_min.2 ⟨hwanted, hblocks⟩
  have hcut : 0 < (min blocks l.blocks).toNat := Nat.lt_of_lt_of_le (by decide) htwo
  exact {
    hasLimits := hlimits
    capable := UInt64.lt_iff_toNat_lt.2 hgroup
    reduce_pow := Word.isPowerOfTwo_floorPowerOfTwo hmin
    reduce_le := UInt64.le_iff_toNat_le.2 hle
    scan_pow := Word.isPowerOfTwo_floorPowerOfTwo hmin
    scan_le := UInt64.le_iff_toNat_le.2 hle
    scale_pow := Word.isPowerOfTwo_floorPowerOfTwo hshare
    scale_le := l.tile_fitted_le size scale blocks
    blocks_pow := Word.isPowerOfTwo_floorPowerOfTwo hcut
    two_le_blocks := UInt64.le_iff_toNat_le.2 (Word.le_floorPowerOfTwo htwo)
    blocks_le := by
      have h := UInt64.le_iff_toNat_le.1 (Word.floorPowerOfTwo_le (min blocks l.blocks))
      rw [Word.toNat_min] at h
      exact UInt64.le_iff_toNat_le.2 (Nat.le_trans h (Nat.min_le_right _ _)) }

/-- A work group of one item is allowed if local memory holds four elements, and then so are two
blocks. -/
theorem groupLimit_pos_iff (typed : elem.isVoid = false) :
    1 ≤ groupLimit d elem ↔
      1 ≤ d.maxWorkGroupSize.toNat ∧ 4 * elem.storageSize.toNat ≤ d.localMemSize.toNat := by
  have hsize := (elem.storageSize_bounds typed).1
  rw [← Nat.le_div_iff_mul_le hsize]
  unfold groupLimit localElements
  omega

theorem fits_default_of_groupLimit (hlimits : d.HasLimits) (typed : elem.isVoid = false)
    (h : 1 ≤ groupLimit d elem) : ((limits d elem).default d).Fits d elem := by
  obtain ⟨size, scale, blocks, hsize, hscale, hblocks, heq⟩ := (limits d elem).exists_default_eq d
  have hallowed : 2 ≤ (limits d elem).blocks.toNat := by
    rw [blocks_eq typed]
    unfold groupLimit at h
    omega
  rw [heq]
  exact fits_fitted hlimits (workGroupSize_eq typed ▸ h) hallowed hsize hscale hblocks

/-- **The geometry before any tuning fits wherever some geometry does**, that is with work groups of
one item and local memory for four elements. So a scan is valid for every type that it can be
computed on, if some geometry is. -/
theorem validate_default_iff (hmax : d.maxWorkGroupSize.toNat < 2 ^ 63)
    (typed : elem.isVoid = false) :
    ((default d elem >>= fun g => g.validate d elem) = .ok () ↔
      ∃ g : ScanGeometry, g.validate d elem = .ok ()) ∧
    ((∃ g : ScanGeometry, g.validate d elem = .ok ()) ↔
      1 ≤ d.maxWorkGroupSize.toNat ∧ 4 * elem.storageSize.toNat ≤ d.localMemSize.toNat) ∧
    (Scan.validate d ⟨elem⟩ = .ok () ↔
      (elem.isIntegral = true ∧ elem.isComputable d = true ∧ elem.isStorable d = true) ∧
        ∃ g : ScanGeometry, g.validate d elem = .ok ()) := by
  have hlimits : d.HasLimits := show 2 * d.maxWorkGroupSize.toNat < 2 ^ 64 by omega
  have positive (g : ScanGeometry) (h : g.validate d elem = .ok ()) : 1 ≤ groupLimit d elem :=
    workGroupSize_eq typed ▸ UInt64.lt_iff_toNat_lt.1 (validate_eq_ok.1 h).capable
  have accepted (h : 1 ≤ groupLimit d elem) :
      ((limits d elem).default d).validate d elem = .ok () :=
    validate_eq_ok.2 (fits_default_of_groupLimit hlimits typed h)
  have same : (default d elem >>= fun g => g.validate d elem) = .ok () ↔
      ∃ g : ScanGeometry, g.validate d elem = .ok () := by
    rw [default_eq_ok.2 ⟨hlimits, rfl⟩, except_ok_bind]
    exact ⟨fun h => ⟨_, h⟩, fun ⟨g, h⟩ => accepted (positive g h)⟩
  refine ⟨same, ?_, ?_⟩
  · rw [← groupLimit_pos_iff typed]
    exact ⟨fun ⟨g, h⟩ => positive g h, fun h => ⟨_, accepted h⟩⟩
  · rw [← same]
    simp only [Scan.validate, Attempt.ensure_bind_eq_ok, Bool.and_eq_true, and_assoc]

/-- A device with work groups of one item, and local memory for just four elements or for a byte
less. -/
theorem validate_default_tiny :
    let tiny (bytes : Word) : DeviceProperties :=
      { Backend.gpuProperties with maxWorkGroupSize := 1, localMemSize := bytes }
    let uint : ElemType := ⟨.uint, 1, by decide⟩
    (∀ bytes, (tiny bytes).maxWorkGroupSize.toNat < 2 ^ 63) ∧ uint.isVoid = false ∧
    default (tiny 16) uint = .ok ⟨1, 1, 4, 2⟩ ∧
    (default (tiny 16) uint >>= fun g => g.validate (tiny 16) uint) = .ok () ∧
    ¬ ∃ g : ScanGeometry, g.validate (tiny 15) uint = .ok () := by
  intro tiny uint
  have hmax (bytes : Word) : (tiny bytes).maxWorkGroupSize.toNat < 2 ^ 63 :=
    show (1 : Word).toNat < 2 ^ 63 by decide
  have typed : uint.isVoid = false := rfl
  obtain ⟨same, room, -⟩ := validate_default_iff (hmax 16) typed
  obtain ⟨-, less, -⟩ := validate_default_iff (hmax 15) typed
  refine ⟨hmax, typed, by decide +kernel, same.2 (room.2 ⟨by decide, by decide⟩), fun h => ?_⟩
  exact absurd (less.1 h).2 (by decide)

end ScanGeometry

end KernelTuning
