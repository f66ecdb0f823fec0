import KernelTuning.Proofs.Blocks

/-!
# Operations that do not crash

A result is *orderly* if it is a value or an error. An operation is *crash free* if its results
are orderly in every state.

Both are closed under sequences, so the lemmas follow the texts of the operations. What crashes is
the arithmetic: no divisor is ever zero, so it is sums and products that exceed a word.

* The checks of problems are orderly on every device whose scans have limits; those of reductions
  and radix sorts, on every device (`orderly_validate`).
* Parameters of any kind are taken or refused by an error, unless they *overflow*: the tile of a
  scan (`ScanGeometry.Overflows`), or the blocks of a radix sort when they are rounded up
  (`RadixsortGeometry.Overflows`).
* A build crashes just where the check of its parameters does (`orderly_build_iff`), if the compiler
  of the backend is orderly.
-/

namespace KernelTuning

variable {ε σ α β : Type}

/-! ## Results -/

/-- The result is a value or an error. -/
def Orderly (r : Except (Failure ε) α) : Prop := ∀ message, r ≠ .error (.crash message)

namespace Orderly

theorem ok (a : α) : Orderly (.ok a : Except (Failure ε) α) := nofun

theorem error (e : ε) : Orderly (.error (.error e) : Except (Failure ε) α) := nofun

/-- A sequence is orderly if its first part is, and its second part on the result of that. -/
theorem bind_iff {x : Except (Failure ε) α} {f : α → Except (Failure ε) β} :
    Orderly (x >>= f) ↔ Orderly x ∧ ∀ a, x = .ok a → Orderly (f a) := by
  rcases x with (e | message) | a
  · exact iff_of_true (error e) ⟨error e, nofun⟩
  · exact iff_of_false (fun h => h message rfl) fun h => h.1 message rfl
  · exact ⟨fun h => ⟨ok a, fun a' ha' => Except.ok.inj ha' ▸ h⟩, fun h => h.2 a rfl⟩

theorem bind {x : Except (Failure ε) α} {f : α → Except (Failure ε) β} (hx : Orderly x)
    (hf : ∀ a, Orderly (f a)) : Orderly (x >>= f) :=
  bind_iff.2 ⟨hx, fun a _ => hf a⟩

/-- An orderly result is a success, or an error. -/
theorem ok_or_error {r : Except (Failure ε) α} (h : Orderly r) :
    (∃ a, r = .ok a) ∨ ∃ e, r = .error (.error e) := by
  rcases r with (e | message) | a
  · exact .inr ⟨e, rfl⟩
  · exact absurd rfl (h message)
  · exact .inl ⟨a, rfl⟩

theorem ensure (condition : Bool) (reason : String) :
    Orderly (Attempt.ensure condition reason) := by
  cases condition
  · exact error _
  · exact ok _

theorem ensure_bind_iff {condition : Bool} {reason : String} {f : Unit → Attempt β} :
    Orderly (Attempt.ensure condition reason >>= f) ↔ (condition = true → Orderly (f ())) := by
  cases condition
  · exact iff_of_true (error _) nofun
  · exact ⟨fun h _ => h, fun h => h rfl⟩

/-- Arithmetic is orderly where it has a result. -/
theorem ofArithmetic_iff {x : Except Word.Fault α} :
    Orderly (Attempt.ofArithmetic x) ↔ ∃ a, x = .ok a := by
  rcases x with fault | a
  · exact iff_of_false (fun h => h _ rfl) nofun
  · exact iff_of_true (ok a) ⟨a, rfl⟩

theorem ofArithmetic {x : Except Word.Fault α} {a : α} (h : x = .ok a) :
    Orderly (Attempt.ofArithmetic x) :=
  ofArithmetic_iff.2 ⟨a, h⟩

theorem word (p : TuningParameters) (name : String) : Orderly (p.word name) := by
  unfold TuningParameters.word
  rcases p.getWord name with e | w
  · exact error _
  · exact ok _

theorem word_bind_iff {p : TuningParameters} {name : String} {f : Word → Attempt β} :
    Orderly (p.word name >>= f) ↔ ∀ w, p.get? name = some (.int w) → Orderly (f w) := by
  simp only [bind_iff, word p name, true_and, TuningParameters.word_eq_ok]

theorem fit (what : String) (w : Word) : Orderly (KernelArg.fit what w) := by
  unfold KernelArg.fit
  split
  · exact ok _
  · exact error _

end Orderly

/-! ## The checks of the primitives -/

theorem Parameter.orderly_checkWarpSizes (p : TuningParameters) (d : DeviceProperties) :
    Orderly (checkWarpSizes p d) :=
  .bind (.word _ _) fun _ => .bind (.word _ _) fun _ => .ensure _ _

theorem ScanGeometry.orderly_ofParameters (p : TuningParameters) : Orderly (ofParameters p) :=
  .bind (.word _ _) fun _ => .bind (.word _ _) fun _ => .bind (.word _ _) fun _ =>
    .bind (.word _ _) fun _ => .ok _

theorem Reduce.orderly_validate (d : DeviceProperties) (problem : ReduceProblem) :
    Orderly (validate d problem) :=
  .bind (.ensure _ _) fun _ => .ensure _ _

theorem Reduce.orderly_shapeOf (d : DeviceProperties) (elem : ElemType) (p : TuningParameters) :
    Orderly (shapeOf d elem p) :=
  .bind (.word _ _) fun _ => .bind (.word _ _) fun _ => .bind (.ensure _ _) fun _ =>
    .bind (.ensure _ _) fun _ => .ok _

namespace ScanGeometry

variable {g : ScanGeometry} {d : DeviceProperties} {elem : ElemType}

/-- The tile comes to be counted, for the work groups are allowed and the work scale is a power of
two, and it is too large for a word. -/
structure Overflows (g : ScanGeometry) (d : DeviceProperties) (elem : ElemType) : Prop where
  reduce_pow : g.reduceWorkGroupSize.isPowerOfTwo = true
  reduce_le : g.reduceWorkGroupSize ≤ (limits d elem).workGroupSize
  scan_pow : g.scanWorkGroupSize.isPowerOfTwo = true
  scan_le : g.scanWorkGroupSize ≤ (limits d elem).workGroupSize
  scale_pow : g.scanWorkScale.isPowerOfTwo = true
  tile_ge : 2 ^ 64 ≤ g.scanWorkScale.toNat * g.scanWorkGroupSize.toNat

/-- Whether the tile fits can be said unless it exceeds a word. -/
theorem exists_fitsLocalMem?_iff {l : Limits} :
    (∃ fits, g.fitsLocalMem? l = .ok fits) ↔ (g.scanWorkScale.isPowerOfTwo = true →
      g.scanWorkScale.toNat * g.scanWorkGroupSize.toNat < 2 ^ 64) := by
  unfold fitsLocalMem?
  split <;> rename_i hpow
  · rw [imp_iff_right hpow]
    constructor
    · rintro ⟨fits, h⟩
      obtain ⟨tile, htile, -⟩ := except_bind_eq_ok.1 h
      exact Word.mul?_eq_ok.1 htile ▸ tile.toNat_lt
    · intro hlt
      rw [Word.mul?_of_lt hlt]
      exact ⟨_, rfl⟩
  · exact iff_of_true ⟨false, rfl⟩ fun h => absurd h hpow

/-- **The check of a geometry crashes** on a device without limits, and on a tile that is too large
for a word. -/
theorem orderly_validate_iff :
    Orderly (g.validate d elem) ↔ d.HasLimits ∧ ¬ g.Overflows d elem := by
  by_cases hlimits : d.HasLimits
  · simp only [validate, checkWorkGroup, limits?_of_hasLimits hlimits, Attempt.ofArithmetic_ok,
      except_ok_bind, Orderly.ensure_bind_iff, Bool.and_eq_true, decide_eq_true_eq, hlimits,
      true_and]
    constructor
    · intro h tooLarge
      have hcapable : (limits d elem).workGroupSize > 0 := by
        rw [gt_iff_lt, UInt64.lt_iff_toNat_lt]
        exact Nat.lt_of_lt_of_le (Word.isPowerOfTwo_pos tooLarge.reduce_pow)
          (UInt64.le_iff_toNat_le.1 tooLarge.reduce_le)
      obtain ⟨counted, -⟩ := Orderly.bind_iff.1
        (h hcapable ⟨tooLarge.reduce_pow, tooLarge.reduce_le⟩ ⟨tooLarge.scan_pow, tooLarge.scan_le⟩)
      have hlt := exists_fitsLocalMem?_iff.1 (Orderly.ofArithmetic_iff.1 counted) tooLarge.scale_pow
      exact Nat.not_lt.2 tooLarge.tile_ge hlt
    · intro h hcapable hreduce hscan
      obtain ⟨fits, hfits⟩ : ∃ fits, g.fitsLocalMem? (limits d elem) = .ok fits := by
        refine exists_fitsLocalMem?_iff.2 fun hscale => Nat.not_le.1 fun hge => h ?_
        exact ⟨hreduce.1, hreduce.2, hscan.1, hscan.2, hscale, hge⟩
      exact .bind (.ofArithmetic hfits) fun _ => .bind (.ensure _ _) fun _ => .ensure _ _
  · rw [validate, limits?_of_not_hasLimits hlimits]
    exact iff_of_false (fun h => h _ rfl) fun h => hlimits h.1

/-- The geometry of some wanted sizes: powers of two, as large as there is room for. -/
def Limits.fitted (l : Limits) (size scale blocks : Word) : ScanGeometry :=
  let size := Word.floorPowerOfTwo (min size l.workGroupSize)
  { reduceWorkGroupSize := size
    scanWorkGroupSize := size
    scanWorkScale := Word.floorPowerOfTwo (min scale (l.localMemElements / max size 1))
    scanBlocks := Word.floorPowerOfTwo (min blocks l.blocks) }

/-- The wanted elements of a work item are cut down so that the tile fits in local memory. -/
theorem Limits.tile_fitted_le (l : Limits) (size scale blocks : Word) :
    (l.fitted size scale blocks).scanWorkScale.toNat *
      (l.fitted size scale blocks).scanWorkGroupSize.toNat ≤ l.localMemElements.toNat := by
  let group := Word.floorPowerOfTwo (min size l.workGroupSize)
  have hle := UInt64.le_iff_toNat_le.1
    (Word.floorPowerOfTwo_le (min scale (l.localMemElements / max group 1)))
  rw [Word.toNat_min, UInt64.toNat_div, Word.toNat_max] at hle
  calc _ ≤ l.localMemElements.toNat / max group.toNat 1 * max group.toNat 1 :=
        Nat.mul_le_mul (Nat.le_trans hle (Nat.min_le_right _ _)) (Nat.le_max_left _ _)
    _ ≤ l.localMemElements.toNat := Nat.div_mul_le_self _ _

/-- On every kind of device at least one item, one element and two blocks are wanted. -/
theorem Limits.exists_default_eq (l : Limits) (d : DeviceProperties) :
    ∃ size scale blocks : Word, 1 ≤ size.toNat ∧ 1 ≤ scale.toNat ∧ 2 ≤ blocks.toNat ∧
      l.default d = l.fitted size scale blocks := by
  have hunits : 2 ≤ (max d.computeUnits.toUInt64 2).toNat := by
    rw [Word.toNat_max]
    exact Nat.le_max_right _ _
  unfold Limits.default Limits.fitted
  rcases d.kind with _ | _ | _
  · exact ⟨256, 8, 1024, by decide, by decide, by decide, rfl⟩
  · exact ⟨1, 1, _, by decide, by decide, hunits, rfl⟩
  · exact ⟨256, 8, 1024, by decide, by decide, by decide, rfl⟩

end ScanGeometry

/-- The check of a problem crashes if its type is supported on a device without limits. -/
theorem Scan.orderly_validate_iff {d : DeviceProperties} {problem : ScanProblem} :
    Orderly (validate d problem) ↔
      ((problem.elem.isIntegral && problem.elem.isComputable d &&
        problem.elem.isStorable d) = true → d.HasLimits) := by
  rw [validate, Orderly.ensure_bind_iff]
  refine imp_congr_right fun _ => ?_
  by_cases hlimits : d.HasLimits
  · rw [ScanGeometry.default_eq_ok.2 ⟨hlimits, rfl⟩, except_ok_bind,
      ScanGeometry.orderly_validate_iff]
    refine and_iff_left fun tooLarge => ?_
    obtain ⟨size, scale, blocks, -, -, -, heq⟩ :=
      (ScanGeometry.limits d problem.elem).exists_default_eq d
    rw [heq] at tooLarge
    have hle := (ScanGeometry.limits d problem.elem).tile_fitted_le size scale blocks
    have hlt := (ScanGeometry.limits d problem.elem).localMemElements.toNat_lt
    have hge := tooLarge.tile_ge
    omega
  · rw [ScanGeometry.default, ScanGeometry.limits?_of_not_hasLimits hlimits]
    exact iff_of_false (fun h => h _ rfl) hlimits

namespace RadixsortGeometry

variable {g : RadixsortGeometry} {d : DeviceProperties}

/-- The blocks come to be rounded up to what a scan work item handles, for the work groups are
allowed, and they are too many for a word. -/
def Overflows (g : RadixsortGeometry) (d : DeviceProperties) : Prop :=
  g.GroupsFit d ∧
    2 ^ 64 ≤ (g.scanBlocks.toNat ⌈/⌉ g.granularity.toNat) * g.granularity.toNat

/-- **Parameters crash** if they ask for too many blocks of work groups that are allowed. -/
theorem orderly_ofParameters_iff {p : TuningParameters} :
    Orderly (ofParameters d p) ↔ ¬ ∃ g : RadixsortGeometry, p.Holds g.fields ∧ g.Overflows d := by
  simp only [ofParameters, checkWorkGroup, requireCapable, Orderly.word_bind_iff,
    Orderly.ensure_bind_iff, Bool.and_eq_true, decide_eq_true_eq, beq_iff_eq]
  -- The program has become a list of implications that ends at the rounding, and both directions
  -- match this list with the fields of the geometry.
  constructor
  · rintro h ⟨g, holds, groups, tooLarge⟩
    simp only [TuningParameters.Holds, fields, List.mem_cons, List.not_mem_nil, or_false,
      forall_eq_or_imp, forall_eq] at holds
    obtain ⟨hbits, hreduce, hscan, hscatter, hscale, hblocks⟩ := holds
    obtain ⟨h₁, h₂, h₃, h₄, h₅, h₆, h₇, h₈, h₉, hslice, h₁₀, h₁₁, h₁₂, h₁₃, h₁₄⟩ := groups
    rw [hslice] at h₁₁
    rw [slices, hslice] at h₁₂
    have rounded := h _ hbits ⟨h₁, h₂⟩ h₃ _ hreduce _ hscan ⟨⟨h₄, h₅⟩, h₆⟩ ⟨⟨h₇, h₈⟩, h₉⟩ _
      hscatter ⟨⟨⟨h₁₀, h₁₁⟩, h₁₂⟩, h₁₃⟩ _ hscale h₁₄ _ hblocks
    obtain ⟨blocks, fitted⟩ : ∃ blocks, fitBlocks? d g.radix g.granularity
        (g.scatterWorkGroupSize / max d.warpSizeMem g.radix) g.scanBlocks = .ok blocks :=
      Orderly.ofArithmetic_iff.1 (Orderly.bind_iff.1 rounded).1
    exact Nat.not_lt.2 tooLarge ((fitBlocks?_eq_ok g.granularity_pos).1 fitted).1
  · intro h bits hbits hrange hcapable reduce hreduce scan hscan hreduces hscans scatter hscatter
      hscatters scale hscale hpos requested hblocks
    let g : RadixsortGeometry :=
      ⟨bits, reduce, scan, scatter, scale, max d.warpSizeMem (1 <<< bits), requested⟩
    have rounded : (requested.toNat ⌈/⌉ g.granularity.toNat) * g.granularity.toNat < 2 ^ 64 := by
      refine Nat.not_le.1 fun tooLarge => h ⟨g, ?_, ?_, tooLarge⟩
      · simp only [TuningParameters.Holds, fields, List.mem_cons, List.not_mem_nil, or_false,
          forall_eq_or_imp, forall_eq]
        exact ⟨hbits, hreduce, hscan, hscatter, hscale, hblocks⟩
      · exact ⟨hrange.1, hrange.2, hcapable, hreduces.1.1, hreduces.1.2, hreduces.2, hscans.1.1,
          hscans.1.2, hscans.2, rfl, hscatters.1.1.1, hscatters.1.1.2, hscatters.1.2, hscatters.2,
          hpos⟩
    obtain ⟨blocks, fitted⟩ := exists_fitBlocks? _ _ g.granularity_pos rounded
    exact .bind (.ofArithmetic fitted) fun _ => .bind (.ensure _ _) fun _ => .ok _

/-- Half of all words can be rounded up, as work groups are not larger. -/
theorem not_overflows (h : g.scanBlocks.toNat < 2 ^ 63) : ¬ g.Overflows d := by
  rintro ⟨groups, tooLarge⟩
  have hbits := UInt64.le_iff_toNat_le.1 groups.one_le_bits
  have hradix : 2 ≤ g.radix.toNat := by
    rw [toNat_radix (UInt64.le_iff_toNat_le.1 groups.bits_le)]
    exact Nat.pow_le_pow_right (n := 2) (by decide) hbits
  have hgranularity : g.granularity.toNat < 2 ^ 63 := by
    have hdiv : g.scanWorkGroupSize.toNat / g.radix.toNat ≤ g.scanWorkGroupSize.toNat / 2 :=
      Nat.div_le_div_left hradix (by decide)
    have hword := g.scanWorkGroupSize.toNat_lt
    rw [granularity, Word.toNat_max, UInt64.toNat_div, UInt64.toNat_one]
    omega
  have hlt := ceilDiv_mul_lt g.scanBlocks.toNat (granularity_pos g)
  omega

/-- The slice of a scatter group is at least the default radix, so it can be divided by. -/
theorem orderly_defaultParameters (d : DeviceProperties) : Orderly (defaultParameters d) := by
  have hslice : 0 < (max d.warpSizeMem defaultRadix).toNat := by
    rw [Word.toNat_max]
    exact Nat.lt_of_lt_of_le (show 0 < defaultRadix.toNat by decide) (Nat.le_max_right _ _)
  obtain ⟨size, hsize, -⟩ := Word.roundDown?_eq _ hslice
  exact .bind (.ensure _ _) fun _ => .bind (.ofArithmetic hsize) fun _ => .ok _

theorem scanBlocks_of_defaultParameters {p : TuningParameters} (h : defaultParameters d = .ok p) :
    ∃ blocks, p.get? Parameter.scanBlocks = some (.int blocks) ∧ blocks.toNat < 2 ^ 63 := by
  have hunits : d.units.toNat ≤ 2 ^ 32 := by
    have hlt := d.computeUnits.toNat_lt
    rw [DeviceProperties.units, Word.toNat_max, UInt32.toNat_toUInt64, UInt64.toNat_one]
    omega
  have hblocks {n : Word} (hn : n.toNat ≤ 128) : (n * d.units).toNat < 2 ^ 63 := by
    have hle := Nat.mul_le_mul hn hunits
    rw [Word.toNat_mul_of_lt] <;> omega
  unfold defaultParameters at h
  split at h
  rename_i size scatter blocks wanted
  obtain ⟨-, h⟩ := Attempt.ensure_bind_eq_ok.1 h
  obtain ⟨scatterSize, -, h⟩ := Attempt.ofArithmetic_bind_eq_ok.1 h
  cases h
  refine ⟨blocks, TuningParameters.holds_ofWords ?_ (Parameter.scanBlocks, blocks) (by simp), ?_⟩
  · show [Parameter.radixBits, Parameter.reduceWorkGroupSize, Parameter.scanWorkGroupSize,
      Parameter.scatterWorkGroupSize, Parameter.scatterWorkScale, Parameter.scanBlocks].Nodup
    decide
  · split at wanted <;> cases wanted <;> exact hblocks (by decide)

/-- Before any tuning there are far fewer blocks than words. -/
theorem orderly_default (d : DeviceProperties) : Orderly (default d) := by
  refine Orderly.bind_iff.2 ⟨orderly_defaultParameters d, fun p hp => ?_⟩
  obtain ⟨blocks, hblocks, hlt⟩ := scanBlocks_of_defaultParameters hp
  refine orderly_ofParameters_iff.2 fun ⟨g, holds, tooLarge⟩ => not_overflows ?_ tooLarge
  have hasked : p.get? Parameter.scanBlocks = some (.int g.scanBlocks) :=
    holds (Parameter.scanBlocks, g.scanBlocks) (by simp [fields])
  rw [ParamValue.int.inj (Option.some.inj (hasked.symm.trans hblocks))]
  exact hlt

end RadixsortGeometry

theorem Radixsort.orderly_validate (d : DeviceProperties) (problem : RadixsortProblem) :
    Orderly (validate d problem) :=
  .bind (.ensure _ _) fun _ => .bind (.ensure _ _) fun _ =>
    .bind (RadixsortGeometry.orderly_default d) fun _ => .ok _

/-! ## Operations -/

/-- The operation crashes in no state. -/
def CrashFree (x : ExceptT (Failure ε) (StateM σ) α) : Prop := ∀ s, Orderly (exec x s).1

namespace CrashFree

theorem pure (a : α) : CrashFree (Pure.pure a : ExceptT (Failure ε) (StateM σ) α) :=
  fun _ => .ok a

theorem bind {x : ExceptT (Failure ε) (StateM σ) α} {f : α → ExceptT (Failure ε) (StateM σ) β}
    (hx : CrashFree x) (hf : ∀ a, CrashFree (f a)) : CrashFree (x >>= f) := by
  intro s message
  rcases hr : exec x s with ⟨e | a, s'⟩
  · have h := hx s message
    rw [hr] at h
    rw [exec_bind_of_error hr]
    exact fun crash => h (by cases crash; rfl)
  · rw [exec_bind_of_ok hr]
    exact hf a s' message

/-- Where the rest of a sequence does not crash, the sequence crashes just with its first part. -/
theorem orderly_exec_bind {x : ExceptT (Failure ε) (StateM σ) α}
    {f : α → ExceptT (Failure ε) (StateM σ) β} (hf : ∀ a, CrashFree (f a)) (s : σ) :
    Orderly (exec (x >>= f) s).1 ↔ Orderly (exec x s).1 := by
  rcases hr : exec x s with ⟨e | a, s'⟩
  · rw [exec_bind_of_error hr]
    rcases e with e | message
    · exact iff_of_true (.error e) (.error e)
    · exact iff_of_false (fun h => h message rfl) fun h => h message rfl
  · rw [exec_bind_of_ok hr]
    exact iff_of_true (hf a s') (.ok a)

theorem attempt {a : Attempt α} (h : Orderly a) : CrashFree (Device.attempt a) := fun _ => h

theorem orderly_exec_attempt_bind {a : Attempt α} {f : α → Device β} {r : Recorder} :
    Orderly (exec (Device.attempt a >>= f) r).1 ↔
      Orderly a ∧ ∀ x, a = .ok x → Orderly (exec (f x) r).1 := by
  rcases a with (e | message) | x
  · exact iff_of_true (.error e) ⟨.error e, nofun⟩
  · exact iff_of_false (fun h => h message rfl) fun h => h.1 message rfl
  · exact ⟨fun h => ⟨.ok x, fun x' hx' => Except.ok.inj hx' ▸ h⟩, fun h => h.2 x rfl⟩

theorem ofQueue {op : Queue α} (h : CrashFree op) : CrashFree (Device.ofQueue op) := by
  intro r
  rw [exec_ofQueue]
  rcases (h r).ok_or_error with ⟨a, ha⟩ | ⟨e, he⟩
  · rw [ha]
    exact .ok a
  · rw [he]
    exact .error _

theorem require (condition : Bool) (reason : String) :
    CrashFree (Queue.require condition reason) := by
  intro r
  cases condition
  · exact .error _
  · exact .ok _

theorem createBuffer (b : Backend) (size : Word) (access : BufferAccess) :
    CrashFree (b.createBuffer size access) :=
  bind (require _ _) fun _ _ => .ok _

theorem add? {a c : Word} (h : a.toNat + c.toNat < 2 ^ 64) :
    CrashFree (Queue.ofArithmetic (Word.add? a c)) := by
  obtain ⟨sum, hsum⟩ := Word.exists_toNat_eq h
  rw [Word.add?_eq_ok.2 hsum]
  exact fun _ => .ok _

theorem write (b : Backend) (target : Buffer) {offset : Word} {content : List UInt8}
    (h : offset.toNat + (UInt64.ofNat content.length).toNat < 2 ^ 64) :
    CrashFree (b.write target offset content) :=
  bind (add? h) fun _ => bind (require _ _) fun _ _ => .ok _

theorem push (command : Command) (name : String) (duration : Nat) :
    CrashFree (Queue.push command name duration) := fun _ => .ok _

theorem dispatch {b : Backend} (h : ∀ calls launch, Orderly (b.cost calls launch))
    (launch : KernelLaunch) (waitFor : List Event) : CrashFree (b.dispatch launch waitFor) :=
  bind (require _ _) fun _ => bind (require _ _) fun _ => bind (fun _ => h _ _) fun _ => push _ _ _

theorem copy (b : Backend) (source target : Buffer) (size : Word) :
    CrashFree (b.copy source target size) :=
  bind (require _ _) fun _ => push _ _ _

theorem wait (b : Backend) (event : Event) : CrashFree (b.wait event) := by
  intro r
  unfold Backend.wait
  rw [exec_mk]
  rcases r.durations.lookup event.id with _ | duration
  · exact .error _
  · exact .ok _

theorem buildProgram {b : Backend} (h : ∀ calls program, Orderly (b.build calls program))
    (program : Program) : CrashFree (b.buildProgram program) := by
  intro r
  unfold Backend.buildProgram
  rw [exec_mk]
  rcases (h r.buildCalls program).ok_or_error with ⟨_, hbuild⟩ | ⟨e, hbuild⟩ <;> rw [hbuild]
  · exact .ok _
  · exact .error _

end CrashFree

/-! ## Builds -/

variable {b : Backend}

/-- The parameters of a scan hold a geometry whose tile is too large for a word. -/
def Scan.Overflows (d : DeviceProperties) (problem : ScanProblem) (p : TuningParameters) : Prop :=
  p.HasWarpSizes d ∧ ∃ g : ScanGeometry, p.Holds g.fields ∧ g.Overflows d problem.elem

/-- The sizes of a reduction are bounded, so no parameters overflow. -/
def Reduce.Overflows (_ : DeviceProperties) (_ : ReduceProblem) (_ : TuningParameters) : Prop :=
  False

/-- The parameters of a radix sort ask for too many blocks to round them up. -/
def Radixsort.Overflows (d : DeviceProperties) (_problem : RadixsortProblem)
    (p : TuningParameters) : Prop :=
  p.HasWarpSizes d ∧ ∃ g : RadixsortGeometry, p.Holds g.fields ∧ g.Overflows d

/-- Problems of one class have the same parameters that overflow. -/
theorem Scan.overflows_of_canonical_eq {d : DeviceProperties} {problem problem' : ScanProblem}
    {p : TuningParameters} (h : canonical problem' = canonical problem)
    (tooLarge : Overflows d problem p) : Overflows d problem' p := by
  have hsize : problem'.elem.storageSize = problem.elem.storageSize :=
    ElemType.storageSize_of_toSigned_eq (congrArg ScanProblem.elem h)
  have hlimits := ScanGeometry.limits_congr (d := d) hsize
  obtain ⟨warps, g, holds, hg⟩ := tooLarge
  exact ⟨warps, g, holds, { hg with
    reduce_le := hlimits ▸ hg.reduce_le
    scan_le := hlimits ▸ hg.scan_le }⟩

/-- **A scan cannot be built** from parameters that overflow, and nothing else crashes. -/
theorem Scan.orderly_build_iff (h : ∀ calls program, Orderly (b.build calls program))
    (hlimits : b.properties.HasLimits) {problem : ScanProblem} {p : TuningParameters}
    {r : Recorder} :
    Orderly (exec (build b problem p) r).1 ↔ ¬ Overflows b.properties problem p := by
  simp only [build, CrashFree.orderly_exec_attempt_bind, ScanGeometry.orderly_ofParameters,
    Parameter.orderly_checkWarpSizes, true_and, ScanGeometry.ofParameters_eq_ok]
  constructor
  · rintro built ⟨warps, g, holds, tooLarge⟩
    obtain ⟨valid, -⟩ := built g holds () (Parameter.checkWarpSizes_eq_ok.2 warps)
    exact (ScanGeometry.orderly_validate_iff.1 valid).2 tooLarge
  · rintro fits g holds ⟨⟩ warps
    have valid := ScanGeometry.orderly_validate_iff.2 ⟨hlimits, fun tooLarge =>
      fits ⟨Parameter.checkWarpSizes_eq_ok.1 warps, g, holds, tooLarge⟩⟩
    exact ⟨valid, fun _ _ => CrashFree.bind (.ofQueue (.buildProgram h _))
      (fun _ => .bind (.ofQueue (.createBuffer b _ _)) fun _ => .pure _) r⟩

theorem Reduce.crashFree_build (h : ∀ calls program, Orderly (b.build calls program))
    (problem : ReduceProblem) (p : TuningParameters) : CrashFree (build b problem p) :=
  .bind (.attempt (Reduce.orderly_shapeOf _ _ p)) fun _ =>
    .bind (.ofQueue (.buildProgram h _)) fun _ => .bind (.ofQueue (.createBuffer b _ _)) fun _ =>
      .bind (.ofQueue (.createBuffer b _ _)) fun _ => .bind (.attempt (.fit _ _)) fun _ =>
        .bind (.ofQueue (.write b _ ((Nat.zero_add _).trans_lt (UInt64.toNat_lt _)))) fun _ =>
          .bind (.ofQueue (.wait b _)) fun _ => .pure _

/-- **A radix sort cannot be built** from parameters that overflow, and nothing else crashes. -/
theorem Radixsort.orderly_build_iff (h : ∀ calls program, Orderly (b.build calls program))
    {problem : RadixsortProblem} {p : TuningParameters} {r : Recorder} :
    Orderly (exec (build b problem p) r).1 ↔ ¬ Overflows b.properties problem p := by
  simp only [build, CrashFree.orderly_exec_attempt_bind, Parameter.orderly_checkWarpSizes, true_and,
    RadixsortGeometry.orderly_ofParameters_iff]
  constructor
  · rintro built ⟨warps, tooLarge⟩
    exact (built () (Parameter.checkWarpSizes_eq_ok.2 warps)).1 tooLarge
  · rintro fits ⟨⟩ warps
    exact ⟨fun tooLarge => fits ⟨Parameter.checkWarpSizes_eq_ok.1 warps, tooLarge⟩, fun _ _ =>
      CrashFree.bind (.ofQueue (.buildProgram h _))
        (fun _ => .bind (.ofQueue (.createBuffer b _ _)) fun _ => .pure _) r⟩

end KernelTuning
