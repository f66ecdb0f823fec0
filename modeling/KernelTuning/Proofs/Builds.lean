import KernelTuning.Proofs.Geometry

/-!
# Building plans

What the three primitives need in order to build a plan, and what a build leaves alone.

* `fits_of_build`: a plan is built only from parameters that fit the device and the problem.
* `exists_build_of_fits`: on a backend that accepts every program, parameters that fit a valid
  problem make a plan in every state of the device.
* `launchFree_build`: a build launches nothing, whether it succeeds or not.

`LaunchFree` is closed under sequences, so the last one follows the text of each build.
-/

namespace KernelTuning

variable {ε α β : Type}

/-! ## Steps of a build -/

theorem exec_attempt (a : Attempt α) (r : Recorder) : exec (Device.attempt a) r = (a, r) := rfl

theorem exec_attempt_bind_eq_ok {a : Attempt α} {f : α → Device β} {r r' : Recorder} {y : β} :
    exec (Device.attempt a >>= f) r = (.ok y, r') ↔
      ∃ x, a = .ok x ∧ exec (f x) r = (.ok y, r') := by
  rw [exec_bind, exec_attempt]
  rcases a with e | x <;> simp

theorem exec_attempt_bind_of_ok {a : Attempt α} {f : α → Device β} {x : α} (h : a = .ok x)
    (r : Recorder) : exec (Device.attempt a >>= f) r = exec (f x) r := by
  rw [h, exec_bind_of_ok (exec_attempt _ r)]

theorem exec_ofQueue (op : Queue α) (r : Recorder) :
    exec (Device.ofQueue op) r =
      ((exec op r).1.mapError (·.map .ofLaunch), (exec op r).2) := rfl

theorem exec_ofQueue_of_ok {op : Queue α} {r r' : Recorder} {a : α}
    (h : exec op r = (.ok a, r')) : exec (Device.ofQueue op) r = (.ok a, r') := by
  rw [exec_ofQueue, h]
  rfl

theorem exec_ofQueue_eq_ok {op : Queue α} {r r' : Recorder} {a : α}
    (h : exec (Device.ofQueue op) r = (.ok a, r')) : exec op r = (.ok a, r') := by
  rw [exec_ofQueue] at h
  rcases hop : exec op r with ⟨e | x, s⟩ <;> rw [hop] at h
  · simp at h
  · simpa using h

theorem exec_require_of_true {condition : Bool} {reason : String} (r : Recorder)
    (h : condition = true) : exec (Queue.require condition reason) r = (.ok (), r) := by
  simp [Queue.require, h]

theorem exec_require_eq_ok {condition : Bool} {reason : String} {r r' : Recorder}
    (h : exec (Queue.require condition reason) r = (.ok (), r')) : condition = true ∧ r' = r := by
  cases condition <;> simp [Queue.require] at h ⊢
  exact h.symm

theorem exec_ofArithmetic_of_ok {result : Except Word.Fault α} {a : α} (h : result = .ok a)
    (r : Recorder) : exec (Queue.ofArithmetic result) r = (.ok a, r) := by
  rw [h]
  rfl

theorem exec_ofArithmetic_eq_ok {result : Except Word.Fault α} {r r' : Recorder} {a : α}
    (h : exec (Queue.ofArithmetic result) r = (.ok a, r')) : result = .ok a ∧ r' = r := by
  rcases result with fault | b <;> cases h
  exact ⟨rfl, rfl⟩

theorem exec_push (command : Command) (name : String) (duration : Nat) (r : Recorder) :
    exec (Queue.push command name duration) r =
      (.ok ⟨r.lastId + 1, name⟩, r.record command duration) := rfl

theorem exec_createBuffer {b : Backend} {size : Word} (access : BufferAccess) (r : Recorder)
    (h : size ≠ 0) :
    exec (b.createBuffer size access) r =
      (.ok ⟨r.lastId + 1, size, access⟩,
        { r with lastId := r.lastId + 1, buffersCreated := r.buffersCreated + 1 }) := by
  unfold Backend.createBuffer
  rw [exec_bind_of_ok (exec_require_of_true r (by simpa using h))]
  rfl

/-- The backend builds every program. -/
def Backend.Accepts (b : Backend) : Prop := ∀ calls program, b.build calls program = .ok ()

theorem exec_buildProgram_of_accepts {b : Backend} (accepts : b.Accepts) (program : Program)
    (r : Recorder) :
    exec (b.buildProgram program) r =
      (.ok program,
        { r with buildCalls := r.buildCalls + 1, programsBuilt := r.programsBuilt + 1 }) := by
  unfold Backend.buildProgram
  rw [exec_mk]
  simp only [accepts r.buildCalls program]

/-- Bytes from the start of a buffer of the same size can be written and waited for. -/
theorem exec_write_wait {b : Backend} {target : Buffer} {content : List UInt8} (r : Recorder)
    (h : target.size = UInt64.ofNat content.length) :
    ∃ event r', exec (b.write target 0 content) r = (.ok event, r') ∧
      ∃ elapsed r'', exec (b.wait event) r' = (.ok elapsed, r'') := by
  refine ⟨⟨r.lastId + 1, "write"⟩, r.record (.write target.id 0 content) 0, ?_, 0,
    r.record (.write target.id 0 content) 0, ?_⟩
  · have hstop : Word.add? 0 (UInt64.ofNat content.length) = .ok target.size := by
      rw [h, Word.add?_eq_ok]
      exact (Nat.zero_add _).symm
    unfold Backend.write
    dsimp only
    rw [exec_bind_of_ok (exec_ofArithmetic_of_ok hstop r),
      exec_bind_of_ok (exec_require_of_true r (by simp)), exec_push]
  · simp [Backend.wait, Recorder.record]

/-! ## Operations that launch nothing -/

/-- The operation launches no kernel and asks for the duration of none, also if it fails. -/
def LaunchFree (x : ExceptT ε (StateM Recorder) α) : Prop :=
  ∀ r, (exec x r).2.launches = r.launches ∧ (exec x r).2.costCalls = r.costCalls

namespace LaunchFree

theorem pure (a : α) : LaunchFree (Pure.pure a : ExceptT ε (StateM Recorder) α) :=
  fun _ => ⟨rfl, rfl⟩

theorem bind {x : ExceptT ε (StateM Recorder) α} {f : α → ExceptT ε (StateM Recorder) β}
    (hx : LaunchFree x) (hf : ∀ a, LaunchFree (f a)) : LaunchFree (x >>= f) := by
  intro r
  have h := hx r
  rcases hr : exec x r with ⟨e | a, r'⟩ <;> rw [hr] at h
  · rw [exec_bind_of_error hr]
    exact h
  · rw [exec_bind_of_ok hr]
    exact ⟨(hf a r').1.trans h.1, (hf a r').2.trans h.2⟩

theorem attempt (a : Attempt α) : LaunchFree (Device.attempt a) := fun _ => ⟨rfl, rfl⟩

theorem ofQueue {op : Queue α} (h : LaunchFree op) : LaunchFree (Device.ofQueue op) := h

theorem ofArithmetic (result : Except Word.Fault α) :
    LaunchFree (Queue.ofArithmetic result) := fun _ => ⟨rfl, rfl⟩

theorem require (condition : Bool) (reason : String) :
    LaunchFree (Queue.require condition reason) := by
  cases condition <;> exact fun _ => ⟨rfl, rfl⟩

theorem buildProgram (b : Backend) (program : Program) : LaunchFree (b.buildProgram program) := by
  intro r
  unfold Backend.buildProgram
  rw [exec_mk]
  rcases b.build r.buildCalls program with _ | _ <;> exact ⟨rfl, rfl⟩

theorem createBuffer (b : Backend) (size : Word) (access : BufferAccess) :
    LaunchFree (b.createBuffer size access) :=
  bind (require _ _) fun _ _ => ⟨rfl, rfl⟩

theorem write (b : Backend) (target : Buffer) (offset : Word) (content : List UInt8) :
    LaunchFree (b.write target offset content) := by
  refine bind (ofArithmetic _) fun _ => bind (require _ _) fun _ r => ⟨?_, rfl⟩
  rw [exec_push]
  simp [Recorder.launches, Recorder.commands, Recorder.record]

theorem wait (b : Backend) (event : Event) : LaunchFree (b.wait event) := by
  intro r
  unfold Backend.wait
  rw [exec_mk]
  rcases r.durations.lookup event.id with _ | _ <;> exact ⟨rfl, rfl⟩

end LaunchFree

/-! ## Scans -/

theorem ElemType.not_isVoid_of_isStorable {t : ElemType} {d : DeviceProperties}
    (h : t.isStorable d = true) : t.isVoid = false := by
  simp only [isStorable, Bool.and_eq_true, Bool.not_eq_true'] at h
  exact h.1

/-- Every type but the sentinel takes between 1 and 128 bytes. -/
theorem ElemType.storageSize_bounds {t : ElemType} (h : t.isVoid = false) :
    0 < t.storageSize.toNat ∧ t.storageSize.toNat ≤ 128 := by
  obtain ⟨base, length, valid⟩ := t
  have hbase : base ≠ .void := by simpa [isVoid] using h
  rw [if_neg hbase] at valid
  simp only [vectorLengths, List.mem_cons, List.not_mem_nil, or_false] at valid
  show 0 < ((if length = 3 then 4 else length.toUInt64) * base.size).toNat ∧
    ((if length = 3 then 4 else length.toUInt64) * base.size).toNat ≤ 128
  rcases valid with rfl | rfl | rfl | rfl | rfl | rfl <;> cases base <;>
    first | exact absurd rfl hbase | exact ⟨by decide, by decide⟩

namespace Scan

theorem launchFree_build (b : Backend) (problem : ScanProblem) (p : TuningParameters) :
    LaunchFree (build b problem p) :=
  .bind (.attempt _) fun _ => .bind (.attempt _) fun _ => .bind (.attempt _) fun _ =>
    .bind (.ofQueue (.buildProgram b _)) fun _ =>
      .bind (.ofQueue (.createBuffer b _ _)) fun _ => .pure _

variable {b : Backend} {problem : ScanProblem} {p : TuningParameters} {plan : ScanPlan}
  {r r' : Recorder}

theorem fits_of_build (h : exec (build b problem p) r = (.ok plan, r')) :
    Fits b.properties problem p := by
  unfold build at h
  obtain ⟨g, hg, h⟩ := exec_attempt_bind_eq_ok.1 h
  obtain ⟨_, hwarps, h⟩ := exec_attempt_bind_eq_ok.1 h
  obtain ⟨_, hvalid, -⟩ := exec_attempt_bind_eq_ok.1 h
  exact ⟨Parameter.checkWarpSizes_eq_ok.1 hwarps, g, ScanGeometry.ofParameters_eq_ok.1 hg,
    ScanGeometry.validate_eq_ok.1 hvalid⟩

theorem not_isVoid_of_validate {d : DeviceProperties} (h : validate d problem = .ok ()) :
    problem.elem.isVoid = false := by
  simp only [validate, Attempt.ensure_bind_eq_ok, Bool.and_eq_true] at h
  exact ElemType.not_isVoid_of_isStorable h.1.2

/-- The sums of the blocks fit in local memory. -/
theorem sums_le {g : ScanGeometry} {d : DeviceProperties} {elem : ElemType}
    (fits : g.Fits d elem) :
    g.scanBlocks.toNat * elem.storageSize.toNat ≤ d.localMemSize.toNat := by
  have hle := UInt64.le_iff_toNat_le.1 fits.blocks_le
  rw [ScanGeometry.toNat_blocks, ScanGeometry.toNat_localMemElements] at hle
  calc g.scanBlocks.toNat * elem.storageSize.toNat
      ≤ d.localMemSize.toNat / max elem.storageSize.toNat 1 * max elem.storageSize.toNat 1 :=
        Nat.mul_le_mul (Nat.le_trans hle (Nat.min_le_right _ _)) (Nat.le_max_left _ _)
    _ ≤ d.localMemSize.toNat := Nat.div_mul_le_self _ _

theorem toNat_sums {g : ScanGeometry} {d : DeviceProperties} {elem : ElemType}
    (fits : g.Fits d elem) :
    (g.scanBlocks * elem.storageSize).toNat = g.scanBlocks.toNat * elem.storageSize.toNat :=
  Word.toNat_mul_of_lt (Nat.lt_of_le_of_lt (sums_le fits) d.localMemSize.toNat_lt)

theorem sums_ne_zero {g : ScanGeometry} {d : DeviceProperties} {elem : ElemType}
    (fits : g.Fits d elem) (h : elem.isVoid = false) : g.scanBlocks * elem.storageSize ≠ 0 := by
  have hsize := elem.storageSize_bounds h
  have htwo : 2 ≤ g.scanBlocks.toNat := UInt64.le_iff_toNat_le.1 fits.two_le_blocks
  rw [Word.ne_zero_iff, toNat_sums fits]
  exact Nat.mul_pos (by omega) hsize.1

theorem exists_build_of_fits (accepts : b.Accepts) (valid : validate b.properties problem = .ok ())
    (fits : Fits b.properties problem p) (r : Recorder) :
    ∃ plan r', exec (build b problem p) r = (.ok plan, r') := by
  obtain ⟨hwarps, g, holds, hg⟩ := fits
  have hsums := sums_ne_zero hg (not_isVoid_of_validate valid)
  unfold build
  rw [exec_attempt_bind_of_ok (ScanGeometry.ofParameters_eq_ok.2 holds),
    exec_attempt_bind_of_ok (Parameter.checkWarpSizes_eq_ok.2 hwarps),
    exec_attempt_bind_of_ok (ScanGeometry.validate_eq_ok.2 hg),
    exec_bind_of_ok (exec_ofQueue_of_ok (exec_buildProgram_of_accepts accepts _ r)),
    exec_bind_of_ok (exec_ofQueue_of_ok (exec_createBuffer _ _ hsums))]
  exact ⟨_, _, exec_pure _ _⟩

end Scan

/-! ## Reductions -/

theorem Digest.length_littleEndian (n value : Nat) : (littleEndian n value).length = n := by
  induction n generalizing value with
  | zero => rfl
  | succ n ih => rw [littleEndian, List.length_cons, ih]

theorem KernelArg.fit_of_lt {what : String} {w : Word} (h : w.toNat < 2 ^ 32) :
    fit what w = .ok (UInt32.ofNat w.toNat) := if_pos h

namespace Reduce

theorem launchFree_build (b : Backend) (problem : ReduceProblem) (p : TuningParameters) :
    LaunchFree (build b problem p) :=
  .bind (.attempt _) fun _ => .bind (.ofQueue (.buildProgram b _)) fun _ =>
    .bind (.ofQueue (.createBuffer b _ _)) fun _ => .bind (.ofQueue (.createBuffer b _ _)) fun _ =>
      .bind (.attempt _) fun _ => .bind (.ofQueue (.write b _ _ _)) fun _ =>
        .bind (.ofQueue (.wait b _)) fun _ => .pure _

variable {b : Backend} {problem : ReduceProblem} {p : TuningParameters} {plan : ReducePlan}
  {r r' : Recorder}

theorem fits_of_build (h : exec (build b problem p) r = (.ok plan, r')) :
    Fits b.properties problem p := by
  unfold build at h
  obtain ⟨⟨workGroupSize, blocks⟩, hshape, -⟩ := exec_attempt_bind_eq_ok.1 h
  exact ⟨workGroupSize, blocks, shapeOf_eq_ok.1 hshape⟩

theorem not_isVoid_of_validate {d : DeviceProperties} (h : validate d problem = .ok ()) :
    problem.elem.isVoid = false := by
  simp only [validate, Attempt.ensure_bind_eq_ok, Bool.and_eq_true] at h
  exact ElemType.not_isVoid_of_isStorable h.1.2

theorem toNat_sums {blocks : Word} {elem : ElemType} (hblocks : blocks.toNat < 2 ^ 32)
    (h : elem.isVoid = false) :
    ((blocks + 1) * elem.storageSize).toNat = (blocks.toNat + 1) * elem.storageSize.toNat := by
  have hsize := elem.storageSize_bounds h
  have hsucc : (blocks + 1).toNat = blocks.toNat + 1 := by
    rw [UInt64.toNat_add]
    exact Nat.mod_eq_of_lt (show blocks.toNat + 1 < 2 ^ 64 by omega)
  have hlt : (blocks + 1).toNat * elem.storageSize.toNat < 2 ^ 64 :=
    Nat.lt_of_le_of_lt (Nat.mul_le_mul_left _ hsize.2) (by omega)
  rw [Word.toNat_mul_of_lt hlt, hsucc]

theorem sums_ne_zero {blocks : Word} {elem : ElemType} (hblocks : blocks.toNat < 2 ^ 32)
    (h : elem.isVoid = false) : (blocks + 1) * elem.storageSize ≠ 0 := by
  rw [Word.ne_zero_iff, toNat_sums hblocks h]
  exact Nat.mul_pos (Nat.succ_pos _) (elem.storageSize_bounds h).1

theorem exists_build_of_fits (accepts : b.Accepts) (valid : validate b.properties problem = .ok ())
    (fits : Fits b.properties problem p) (r : Recorder) :
    ∃ plan r', exec (build b problem p) r = (.ok plan, r') := by
  obtain ⟨workGroupSize, blocks, hshape⟩ := fits
  have hblocks := hshape.2.2.2.2
  have hsums := sums_ne_zero hblocks (not_isVoid_of_validate valid)
  unfold build
  rw [exec_attempt_bind_of_ok (shapeOf_eq_ok.2 hshape)]
  simp only
  rw [exec_bind_of_ok (exec_ofQueue_of_ok (exec_buildProgram_of_accepts accepts _ r)),
    exec_bind_of_ok (exec_ofQueue_of_ok (exec_createBuffer _ _ hsums)),
    exec_bind_of_ok (exec_ofQueue_of_ok (exec_createBuffer _ _ (by decide))),
    exec_attempt_bind_of_ok (KernelArg.fit_of_lt hblocks)]
  obtain ⟨event, r₁, hwrite, elapsed, r₂, hwait⟩ := @exec_write_wait b
    ⟨r.lastId + 1 + 1, 4, .readWrite⟩ (Digest.littleEndian 4 (UInt32.ofNat blocks.toNat).toNat) _
    (by rw [Digest.length_littleEndian]; rfl)
  rw [exec_bind_of_ok (exec_ofQueue_of_ok hwrite), exec_bind_of_ok (exec_ofQueue_of_ok hwait)]
  exact ⟨_, _, exec_pure _ _⟩

end Reduce

/-! ## Radix sorts -/

namespace Radixsort

theorem launchFree_build (b : Backend) (problem : RadixsortProblem) (p : TuningParameters) :
    LaunchFree (build b problem p) :=
  .bind (.attempt _) fun _ => .bind (.attempt _) fun _ =>
    .bind (.ofQueue (.buildProgram b _)) fun _ =>
      .bind (.ofQueue (.createBuffer b _ _)) fun _ => .pure _

variable {b : Backend} {problem : RadixsortProblem} {p : TuningParameters} {plan : RadixsortPlan}
  {r r' : Recorder}

theorem fits_of_build (h : exec (build b problem p) r = (.ok plan, r')) :
    Fits b.properties problem p := by
  unfold build at h
  obtain ⟨_, hwarps, h⟩ := exec_attempt_bind_eq_ok.1 h
  obtain ⟨g, hg, -⟩ := exec_attempt_bind_eq_ok.1 h
  exact ⟨Parameter.checkWarpSizes_eq_ok.1 hwarps, g, RadixsortGeometry.ofParameters_eq_ok.1 hg⟩

/-- The digit counts of all blocks fit in local memory. -/
theorem histogram_le {g : RadixsortGeometry} {d : DeviceProperties} (fits : g.Fits d) :
    0 < g.radix.toNat ∧ g.scanBlocks.toNat * g.radix.toNat * 4 ≤ d.localMemSize.toNat := by
  have hpos : 0 < g.scanBlocks.toNat := UInt64.lt_iff_toNat_lt.1 fits.blocks_pos
  have hle := UInt64.le_iff_toNat_le.1 fits.blocks_le
  rw [UInt64.toNat_div, Word.toNat_saturatingSub, UInt64.toNat_div] at hle
  have hle : g.scanBlocks.toNat * 4 ≤ d.localMemSize.toNat / g.radix.toNat := by
    rw [show UInt64.toNat 4 = 4 from rfl] at hle
    omega
  -- A radix of zero would leave no room, as division by zero gives zero.
  constructor
  · rcases Nat.eq_zero_or_pos g.radix.toNat with h | h
    · rw [h, Nat.div_zero] at hle
      omega
    · exact h
  · calc g.scanBlocks.toNat * g.radix.toNat * 4
        = g.scanBlocks.toNat * 4 * g.radix.toNat := Nat.mul_right_comm _ _ _
      _ ≤ d.localMemSize.toNat / g.radix.toNat * g.radix.toNat := Nat.mul_le_mul_right _ hle
      _ ≤ d.localMemSize.toNat := Nat.div_mul_le_self _ _

theorem toNat_histogramSize {g : RadixsortGeometry} {d : DeviceProperties} (fits : g.Fits d) :
    g.histogramSize.toNat = g.scanBlocks.toNat * g.radix.toNat * 4 := by
  have hfit := Nat.lt_of_le_of_lt (histogram_le fits).2 d.localMemSize.toNat_lt
  have hproduct : (g.scanBlocks * g.radix).toNat = g.scanBlocks.toNat * g.radix.toNat :=
    Word.toNat_mul_of_lt (by omega)
  rw [RadixsortGeometry.histogramSize, Word.toNat_mul_of_lt, hproduct]
  · rfl
  · rw [hproduct]
    exact hfit

theorem histogramSize_ne_zero {g : RadixsortGeometry} {d : DeviceProperties} (fits : g.Fits d) :
    g.histogramSize ≠ 0 := by
  have hpos : 0 < g.scanBlocks.toNat := UInt64.lt_iff_toNat_lt.1 fits.blocks_pos
  rw [Word.ne_zero_iff, toNat_histogramSize fits]
  exact Nat.mul_pos (Nat.mul_pos hpos (histogram_le fits).1) (by decide)

theorem exists_build_of_fits (accepts : b.Accepts) (fits : Fits b.properties problem p)
    (r : Recorder) : ∃ plan r', exec (build b problem p) r = (.ok plan, r') := by
  obtain ⟨hwarps, g, hg⟩ := fits
  unfold build
  rw [exec_attempt_bind_of_ok (Parameter.checkWarpSizes_eq_ok.2 hwarps),
    exec_attempt_bind_of_ok (RadixsortGeometry.ofParameters_eq_ok.2 hg),
    exec_bind_of_ok (exec_ofQueue_of_ok (exec_buildProgram_of_accepts accepts _ r)),
    exec_bind_of_ok (exec_ofQueue_of_ok (exec_createBuffer _ _ (histogramSize_ne_zero hg.2)))]
  exact ⟨_, _, exec_pure _ _⟩

end Radixsort

end KernelTuning
