import KernelTuning.Proofs.Arguments
import KernelTuning.Proofs.Blocks
import KernelTuning.Proofs.Requests

/-!
# Requests of executions

Every execution that is accepted keeps to the limits of the device and to the sizes of its
buffers, whatever parameters a plan was built from, and whatever counts it is asked for.

* `requests` and `prepare` make all checks of an execution, and give what it then asks of the
  backend. An execution is no more than that (`enqueue_eq`): where the program makes a check
  between two commands, the check cannot fail any more.
* `PlanFits` is what the build of a plan has found, about its geometry and its own buffers.
* Requests of a plan that fits are within bounds (`requests_withinBounds`,
  `prepare_withinBounds`): work groups are those of the plan, and launches are whole groups, one
  or more for each block.

**Theorem (`respectsBackend_build`).** For scans, reductions and radix sorts on a device with
moderate limits, executions go the same without the checks of the backend, blocks cover the
elements, and there is a sum or a digit count for every block that is launched.
-/

namespace KernelTuning

namespace DeviceProperties

variable {d : DeviceProperties} {groups size : Word}

/-- Whole work groups. -/
theorem allows_mul (moderate : d.Moderate) (hpos : 0 < size.toNat)
    (hle : size.toNat ≤ d.maxWorkGroupSize.toNat) (hgroups : 0 < groups.toNat)
    (hlt : groups.toNat < 2 ^ 32) : d.Allows (size * groups) size := by
  have hproduct : size.toNat * groups.toNat < 2 ^ 24 * 2 ^ 32 :=
    Nat.mul_lt_mul'' (Nat.lt_of_le_of_lt hle moderate.workGroup) hlt
  have hglobal : (size * groups).toNat = size.toNat * groups.toNat :=
    Word.toNat_mul_of_lt (by omega)
  refine ⟨hpos, hle, ?_, ?_⟩ <;> rw [hglobal]
  · exact Nat.mul_pos hpos hgroups
  · exact Nat.dvd_mul_right ..

theorem allows_self (hpos : 0 < size.toNat) (hle : size.toNat ≤ d.maxWorkGroupSize.toNat) :
    d.Allows size size := ⟨hpos, hle, hpos, Nat.dvd_refl _⟩

end DeviceProperties

/-! ## Scans -/

namespace Scan

/-- The plan fits a device: its geometry does, and there is a sum for every block. -/
structure PlanFits (d : DeviceProperties) (plan : ScanPlan) : Prop where
  geometry : plan.geometry.Fits d plan.elem
  size_pos : 0 < plan.elem.storageSize.toNat
  sums : plan.sums.size.toNat =
    plan.geometry.scanBlocks.toNat * plan.elem.storageSize.toNat

/-- What an execution asks of the backend, after all checks of the arguments. -/
def requests (plan : ScanPlan) (args : ScanArgs) : Attempt (List Request) := do
  checkArgs plan args
  let (blockSize, blocks) ← blocksOf plan args.elements
  let blockSize ← KernelArg.fit "Scan block size" blockSize
  let elements ← KernelArg.fit "Scan element count" args.elements
  let sums ← sumsLaunch plan args.offset
  let scans := [.launch sums, .launch (scanLaunch plan args.buffer blocks blockSize elements)]
  return if blocks > 1 then .launch (reduceLaunch plan args.buffer blocks blockSize) :: scans
    else scans

/-- The executions of a plan respect the backend. -/
structure RespectsBackend (b : Backend) (plan : ScanPlan) : Prop where
  /-- An execution does the same without the checks of the backend. -/
  unchecked : ∀ args waitFor, enqueue b plan args waitFor =
    Device.attempt (requests plan args) >>= fun requests =>
      Device.ofQueue (chain b.carryOut waitFor requests)
  withinBounds : ∀ args rs, requests plan args = .ok rs →
    ∀ request ∈ rs, request.WithinBounds b.properties
  /-- There is a sum for every block. -/
  blocks : ∀ args rs, requests plan args = .ok rs →
    ∃ size blocks, blocksOf plan args.elements = .ok (size, blocks) ∧
      blocks.toNat * plan.elem.storageSize.toNat ≤ plan.sums.size.toNat

variable {b : Backend} {plan : ScanPlan} {args : ScanArgs}

theorem plan_of_build {problem : ScanProblem} {p : TuningParameters} {r r' : Recorder}
    (h : exec (build b problem p) r = (.ok plan, r')) :
    PlanFits b.properties plan ∧ plan.elem = problem.elem := by
  unfold build at h
  obtain ⟨g, hg, h⟩ := exec_attempt_bind_eq_ok.1 h
  obtain ⟨_, hwarps, h⟩ := exec_attempt_bind_eq_ok.1 h
  obtain ⟨_, hvalid, h⟩ := exec_attempt_bind_eq_ok.1 h
  obtain ⟨program, r₁, -, h⟩ := exec_bind_eq_ok h
  obtain ⟨sums, r₂, hsums, h⟩ := exec_bind_eq_ok h
  cases h
  have fits := ScanGeometry.validate_eq_ok.1 hvalid
  have hcreate := exec_ofQueue_eq_ok hsums
  have hne := Word.ne_zero_iff.1 (ne_zero_of_exec_createBuffer hcreate)
  obtain ⟨rfl, -, -⟩ := exec_createBuffer_eq_ok hcreate
  rw [toNat_sums fits] at hne
  exact ⟨⟨fits, Nat.pos_of_mul_pos_left hne, toNat_sums fits⟩, rfl⟩

theorem exists_sumsLaunch {offset : ScanOffset} (h : ValidOffset plan.elem offset) :
    ∃ launch, sumsLaunch plan offset = .ok launch ∧
      launch.globalSize = plan.geometry.scanBlocks / 2 ∧
      launch.localSize = plan.geometry.scanBlocks / 2 := by
  cases offset with
  | zero => exact ⟨_, rfl, rfl, rfl⟩
  | host bytes => exact ⟨_, rfl, rfl, rfl⟩
  | device buffer index =>
    unfold sumsLaunch
    simp only [KernelArg.fit_of_lt h.1]
    exact ⟨_, rfl, rfl, rfl⟩

/-- All checks come before the first command: once the arguments are accepted, there are blocks,
and every number fits in its argument. -/
theorem enqueue_eq (moderate : b.properties.Moderate) (fits : PlanFits b.properties plan)
    (args : ScanArgs) (waitFor : List Event) :
    enqueue b plan args waitFor = Device.attempt (requests plan args) >>= fun requests =>
      Device.ofQueue (chain b.send waitFor requests) := by
  rcases hargs : checkArgs plan args with e | ⟨⟩
  · unfold enqueue requests
    rw [hargs]
    rfl
  · have valid := checkArgs_eq_ok.1 hargs
    obtain ⟨size, blocks, hblocks, hsize, hcount, -⟩ :=
      blocksOf_eq_ok fits.geometry moderate valid.pos valid.fits
    obtain ⟨launch, hlaunch, -, -⟩ := exists_sumsLaunch valid.offset
    unfold enqueue requests
    simp only [hargs, hblocks, hlaunch, KernelArg.fit_of_lt hsize, KernelArg.fit_of_lt valid.fits,
      Device.attempt_ok_bind, except_ok_bind]
    by_cases hmany : blocks > 1
    · simp only [hmany, if_true, pure_bind, Device.attempt_pure_bind, chain, Device.ofQueue_bind,
        Device.ofQueue_pure, bind_assoc]
      rfl
    · simp only [hmany, if_false, pure_bind, Device.attempt_pure_bind, chain, Device.ofQueue_bind,
        Device.ofQueue_pure, bind_assoc]
      rfl

section

variable {d : DeviceProperties} {blocks : Word}

theorem sums_withinBounds (moderate : d.Moderate) (fits : PlanFits d plan) {launch : KernelLaunch}
    (hglobal : launch.globalSize = plan.geometry.scanBlocks / 2)
    (hlocal : launch.localSize = plan.geometry.scanBlocks / 2) :
    Request.WithinBounds d (.launch launch) := by
  obtain ⟨htwo, -, hle⟩ := fits.geometry.scanBlocks_bounds moderate
  have hhalf : (plan.geometry.scanBlocks / 2).toNat = plan.geometry.scanBlocks.toNat / 2 :=
    UInt64.toNat_div ..
  show d.Allows launch.globalSize launch.localSize
  rw [hglobal, hlocal]
  apply DeviceProperties.allows_self <;> rw [hhalf] <;> omega

theorem scanLaunch_withinBounds (moderate : d.Moderate) (fits : PlanFits d plan)
    (hpos : 0 < blocks.toNat) (hlt : blocks.toNat < 2 ^ 32) (buffer : Buffer)
    (size elements : UInt32) :
    Request.WithinBounds d (.launch (scanLaunch plan buffer blocks size elements)) := by
  have hle := UInt64.le_iff_toNat_le.1 fits.geometry.scan_le
  rw [ScanGeometry.toNat_workGroupSize] at hle
  exact DeviceProperties.allows_mul moderate (Word.isPowerOfTwo_pos fits.geometry.scan_pow)
    (Nat.le_trans hle (Nat.min_le_left _ _)) hpos hlt

theorem reduceLaunch_withinBounds (moderate : d.Moderate) (fits : PlanFits d plan)
    (hmany : 1 < blocks.toNat) (hlt : blocks.toNat < 2 ^ 32) (buffer : Buffer) (size : UInt32) :
    Request.WithinBounds d (.launch (reduceLaunch plan buffer blocks size)) := by
  have hle := UInt64.le_iff_toNat_le.1 fits.geometry.reduce_le
  rw [ScanGeometry.toNat_workGroupSize] at hle
  have hpred : (blocks - 1).toNat = blocks.toNat - 1 :=
    UInt64.toNat_sub_of_le _ _ (UInt64.le_iff_toNat_le.2 (Nat.le_of_lt hmany))
  exact DeviceProperties.allows_mul moderate (Word.isPowerOfTwo_pos fits.geometry.reduce_pow)
    (Nat.le_trans hle (Nat.min_le_left _ _)) (by omega) (by omega)

end

/-- Valid arguments make requests within bounds. -/
theorem exists_requests {d : DeviceProperties} (moderate : d.Moderate) (fits : PlanFits d plan)
    (valid : ValidArgs plan.elem args) :
    ∃ rs, requests plan args = .ok rs ∧ rs ≠ [] ∧ ∀ request ∈ rs, request.WithinBounds d := by
  obtain ⟨size, blocks, hblocks, hsize, hcount, hcount_le⟩ :=
    blocksOf_eq_ok fits.geometry moderate valid.pos valid.fits
  obtain ⟨launch, hlaunch, hglobal, hlocal⟩ := exists_sumsLaunch valid.offset
  obtain ⟨-, hscan_lt, -⟩ := fits.geometry.scanBlocks_bounds moderate
  have hlt : blocks.toNat < 2 ^ 32 := by omega
  have hsums := sums_withinBounds moderate fits hglobal hlocal
  have hscans := scanLaunch_withinBounds moderate fits hcount hlt args.buffer
  unfold requests
  simp only [checkArgs_eq_ok.2 valid, hblocks, hlaunch, KernelArg.fit_of_lt hsize,
    KernelArg.fit_of_lt valid.fits, except_ok_bind]
  by_cases hmany : blocks > 1
  · have hreduces := reduceLaunch_withinBounds moderate fits (UInt64.lt_iff_toNat_lt.1 hmany) hlt
      args.buffer
    rw [if_pos hmany]
    refine ⟨_, rfl, by simp, ?_⟩
    simp [hreduces, hsums, hscans]
  · rw [if_neg hmany]
    refine ⟨_, rfl, by simp, ?_⟩
    simp [hsums, hscans]

theorem validArgs_of_requests {rs : List Request} (h : requests plan args = .ok rs) :
    ValidArgs plan.elem args :=
  checkArgs_eq_ok.1 (Attempt.unit_bind_eq_ok.1 h).1

theorem requests_withinBounds {d : DeviceProperties} (moderate : d.Moderate)
    (fits : PlanFits d plan) {rs : List Request} (h : requests plan args = .ok rs) :
    rs ≠ [] ∧ ∀ request ∈ rs, request.WithinBounds d := by
  obtain ⟨rs', hrs', hbounds⟩ := exists_requests moderate fits (validArgs_of_requests h)
  rw [Except.ok.inj (h.symm.trans hrs')]
  exact hbounds

theorem PlanFits.respectsBackend (moderate : b.properties.Moderate)
    (fits : PlanFits b.properties plan) : RespectsBackend b plan where
  unchecked args waitFor := by
    rw [enqueue_eq moderate fits]
    refine bind_congr_of_ok fun r rs r' h => ?_
    have hrequests : requests plan args = .ok rs := congrArg Prod.fst h
    rw [chain_send_eq (requests_withinBounds moderate fits hrequests).2]
  withinBounds args rs h := (requests_withinBounds moderate fits h).2
  blocks args rs h := by
    have valid := validArgs_of_requests h
    obtain ⟨size, blocks, hblocks, -, -, hle⟩ :=
      blocksOf_eq_ok fits.geometry moderate valid.pos valid.fits
    refine ⟨size, blocks, hblocks, ?_⟩
    rw [fits.sums]
    exact Nat.mul_le_mul_right _ hle

end Scan

/-! ## Reductions -/

namespace Reduce

/-- The plan fits a device: its work group does, and there is one more sum than blocks. -/
structure PlanFits (d : DeviceProperties) (plan : ReducePlan) : Prop extends ShapeFits plan d where
  size_pos : 0 < plan.elem.storageSize.toNat
  size_le : plan.elem.storageSize.toNat ≤ 128
  sums : plan.sums.size.toNat = (plan.blocks.toNat + 1) * plan.elem.storageSize.toNat

/-- What an execution asks of the backend, after all checks of the arguments. -/
def requests (plan : ReducePlan) (args : ReduceArgs) : Attempt (List Request) := do
  checkInput plan args.input args.first args.elements
  checkOutput plan args.output
  match args.output with
  | .buffer buffer position => return [.launch (← launch plan args buffer position)]
  | .host _ =>
    let elemSize := plan.elem.storageSize
    return [.launch (← launch plan args plan.sums plan.blocks),
      .read plan.sums (plan.blocks * elemSize) elemSize]

/-- What an execution gives to the host. -/
def hostResult (plan : ReducePlan) : ReduceOutput → Option (List UInt8)
  | .buffer _ _ => none
  | .host _ => some (List.replicate plan.elem.storageSize.toNat 0)

/-- The executions of a plan respect the backend. -/
structure RespectsBackend (b : Backend) (plan : ReducePlan) : Prop where
  /-- An execution does the same without the checks of the backend. -/
  unchecked : ∀ args waitFor, enqueue b plan args waitFor =
    Device.attempt (requests plan args) >>= fun requests =>
      Device.ofQueue (chain b.carryOut waitFor requests) >>= fun events =>
        pure (events, hostResult plan args.output)
  withinBounds : ∀ args rs, requests plan args = .ok rs →
    ∀ request ∈ rs, request.WithinBounds b.properties
  /-- The blocks cover the elements, in whole work groups. -/
  blocks : ∀ args rs, requests plan args = .ok rs →
    ∃ size, blockSize? plan args.elements = .ok size ∧
      args.elements.toNat ≤ plan.blocks.toNat * size.toNat ∧
      plan.workGroupSize.toNat ∣ size.toNat
  /-- What the host reads is the last element of the sums, behind those of the blocks. -/
  sums : (plan.blocks * plan.elem.storageSize).toNat =
      plan.blocks.toNat * plan.elem.storageSize.toNat ∧
    plan.sums.size.toNat = (plan.blocks.toNat + 1) * plan.elem.storageSize.toNat

variable {b : Backend} {plan : ReducePlan} {args : ReduceArgs}

theorem plan_of_build {problem : ReduceProblem} {p : TuningParameters} {r r' : Recorder}
    (h : exec (build b problem p) r = (.ok plan, r')) :
    PlanFits b.properties plan ∧ plan.elem = problem.elem := by
  unfold build at h
  obtain ⟨⟨workGroupSize, blocks⟩, hshape, h⟩ := exec_attempt_bind_eq_ok.1 h
  obtain ⟨program, r₁, -, h⟩ := exec_bind_eq_ok h
  obtain ⟨sums, r₂, hsums, h⟩ := exec_bind_eq_ok h
  obtain ⟨counter, r₃, -, h⟩ := exec_bind_eq_ok h
  obtain ⟨start, -, h⟩ := exec_attempt_bind_eq_ok.1 h
  obtain ⟨written, r₄, -, h⟩ := exec_bind_eq_ok h
  obtain ⟨elapsed, r₅, -, h⟩ := exec_bind_eq_ok h
  cases h
  obtain ⟨-, hgroup, hgroup_le, hblocks, hblocks_lt⟩ := shapeOf_eq_ok.1 hshape
  have hcreate := exec_ofQueue_eq_ok hsums
  have hne := ne_zero_of_exec_createBuffer hcreate
  obtain ⟨rfl, -, -⟩ := exec_createBuffer_eq_ok hcreate
  have hvoid : problem.elem.isVoid = false := by
    rw [Bool.eq_false_iff]
    intro hvoid
    rw [ElemType.storageSize_eq_zero_iff.2 hvoid] at hne
    exact hne UInt64.mul_zero
  have hle := UInt64.le_iff_toNat_le.1 hgroup_le
  rw [workGroupLimit, Word.toNat_min] at hle
  exact ⟨{
    workGroup_pos := UInt64.lt_iff_toNat_lt.1 hgroup
    workGroup_le := Nat.le_trans hle (Nat.min_le_left _ _)
    blocks_pos := UInt64.lt_iff_toNat_lt.1 hblocks
    blocks_lt := hblocks_lt
    size_pos := (problem.elem.storageSize_bounds hvoid).1
    size_le := (problem.elem.storageSize_bounds hvoid).2
    sums := toNat_sums hblocks_lt hvoid }, rfl⟩

/-- What is read is zero. -/
theorem read_eq_send (source : Buffer) (offset size : Word) (waitFor : List Event) :
    b.read source offset size = b.send (.read source offset size) waitFor >>= fun e =>
      pure (e, List.replicate size.toNat 0) := by
  show _ = (do return (← b.read source offset size).1) >>= _
  unfold Backend.read
  simp only [bind_assoc, pure_bind]

/-- All checks come before the first command. -/
theorem enqueue_eq (b : Backend) (plan : ReducePlan) (args : ReduceArgs) (waitFor : List Event) :
    enqueue b plan args waitFor = Device.attempt (requests plan args) >>= fun requests =>
      Device.ofQueue (chain b.send waitFor requests) >>= fun events =>
        pure (events, hostResult plan args.output) := by
  unfold enqueue requests
  rcases checkInput plan args.input args.first args.elements with e | _
  · rfl
  rcases checkOutput plan args.output with e | _
  · rfl
  rcases args.output with ⟨buffer, position⟩ | size
  · simp only [except_ok_bind, Device.attempt_ok_bind]
    rcases launch plan args buffer position with e | work
    · rfl
    · simp only [Device.attempt_ok_bind, except_ok_bind, Device.attempt_pure_bind, chain,
        Device.ofQueue_bind, Device.ofQueue_pure, bind_assoc, pure_bind]
      rfl
  · simp only [except_ok_bind, Device.attempt_ok_bind]
    rcases launch plan args plan.sums plan.blocks with e | work
    · rfl
    · simp only [Device.attempt_ok_bind, except_ok_bind, Device.attempt_pure_bind, chain,
        Device.ofQueue_bind, Device.ofQueue_pure, bind_assoc, pure_bind]
      refine bind_congr fun reduced => ?_
      rw [read_eq_send _ _ _ [reduced], Device.ofQueue_bind, bind_assoc]
      rfl

/-- The block size of a count, as an argument of a kernel. -/
def BlockFits (plan : ReducePlan) (elements : Word) : Prop :=
  ∃ size, blockSize? plan elements = .ok size ∧ FitsArgument size.toNat

theorem exists_launch_iff {output : Buffer} {position : Word} :
    (∃ work, launch plan args output position = .ok work) ↔ FitsArgument position.toNat ∧
      FitsArgument args.first.toNat ∧ FitsArgument args.elements.toNat ∧
      BlockFits plan args.elements := by
  simp only [launch, KernelArg.fit_bind_eq_ok, Attempt.ofArithmetic_bind_eq_ok]
  constructor
  · rintro ⟨_, _, -, hposition, hfirst, helements, size, hsize, hfits, _⟩
    exact ⟨hposition, hfirst, helements, size, hsize, hfits⟩
  · rintro ⟨hposition, hfirst, helements, size, hsize, hfits⟩
    -- The work items of all blocks are counted on the way to the size of a block.
    obtain ⟨globalSize, hglobal, -⟩ := except_bind_eq_ok.1 hsize
    exact ⟨_, _, hglobal, hposition, hfirst, helements, size, hsize, hfits, rfl⟩

theorem sizes_of_launch {output : Buffer} {position : Word} {work : KernelLaunch}
    (h : launch plan args output position = .ok work) :
    work.globalSize = plan.workGroupSize * plan.blocks ∧ work.localSize = plan.workGroupSize := by
  simp only [launch, KernelArg.fit_bind_eq_ok, Attempt.ofArithmetic_bind_eq_ok] at h
  obtain ⟨globalSize, hglobal, -, -, -, size, -, -, h⟩ := h
  cases h
  refine ⟨?_, rfl⟩
  have hvalue := Word.mul?_eq_ok.1 hglobal
  show globalSize = _
  rw [← UInt64.toNat_inj, hvalue, Word.toNat_mul_of_lt (hvalue ▸ globalSize.toNat_lt)]

theorem launch_withinBounds {d : DeviceProperties} (moderate : d.Moderate)
    (fits : PlanFits d plan) {output : Buffer} {position : Word} {work : KernelLaunch}
    (h : launch plan args output position = .ok work) :
    Request.WithinBounds d (.launch work) := by
  obtain ⟨hglobal, hlocal⟩ := sizes_of_launch h
  show d.Allows work.globalSize work.localSize
  rw [hglobal, hlocal]
  exact DeviceProperties.allows_mul moderate fits.workGroup_pos fits.workGroup_le fits.blocks_pos
    fits.blocks_lt

theorem PlanFits.toNat_offset {d : DeviceProperties} (fits : PlanFits d plan) :
    (plan.blocks * plan.elem.storageSize).toNat =
      plan.blocks.toNat * plan.elem.storageSize.toNat := by
  have hproduct : plan.blocks.toNat * plan.elem.storageSize.toNat ≤ 2 ^ 32 * 128 :=
    Nat.mul_le_mul (Nat.le_of_lt fits.blocks_lt) fits.size_le
  exact Word.toNat_mul_of_lt (by omega)

theorem read_withinBounds {d : DeviceProperties} (fits : PlanFits d plan) :
    Request.WithinBounds d
      (.read plan.sums (plan.blocks * plan.elem.storageSize) plan.elem.storageSize) := by
  show (plan.blocks * plan.elem.storageSize).toNat + _ ≤ plan.sums.size.toNat
  rw [fits.toNat_offset, fits.sums, Nat.add_mul, Nat.one_mul]

theorem requests_withinBounds {d : DeviceProperties} (moderate : d.Moderate)
    (fits : PlanFits d plan) {rs : List Request} (h : requests plan args = .ok rs) :
    rs ≠ [] ∧ ∀ request ∈ rs, request.WithinBounds d := by
  unfold requests at h
  obtain ⟨-, h⟩ := Attempt.unit_bind_eq_ok.1 h
  obtain ⟨-, h⟩ := Attempt.unit_bind_eq_ok.1 h
  split at h
  · obtain ⟨work, hwork, h⟩ := Attempt.bind_eq_ok.1 h
    cases h
    simp [launch_withinBounds moderate fits hwork]
  · obtain ⟨work, hwork, h⟩ := Attempt.bind_eq_ok.1 h
    cases h
    simp [launch_withinBounds moderate fits hwork, read_withinBounds fits]

theorem exists_requests_iff {d : DeviceProperties} (fits : PlanFits d plan) :
    (∃ rs, requests plan args = .ok rs) ↔
      ValidArgs plan.elem args ∧ BlockFits plan args.elements := by
  have hlaunch {output : Buffer} {position : Word} (f : KernelLaunch → List Request) :
      (∃ rs, (launch plan args output position >>= fun work => .ok (f work)) = .ok rs) ↔
        ∃ work, launch plan args output position = .ok work := by
    simp only [Attempt.bind_eq_ok]
    exact ⟨fun ⟨_, work, hwork, _⟩ => ⟨work, hwork⟩, fun ⟨work, hwork⟩ => ⟨_, work, hwork, rfl⟩⟩
  simp only [requests, Attempt.unit_bind_eq_ok, checkInput_eq_ok fits.size_pos,
    checkOutput_eq_ok fits.size_pos, exists_and_left]
  constructor
  · rintro ⟨⟨hpos, hrange, hholds, haccess⟩, houtput, hrs⟩
    refine ⟨⟨hpos, hrange, hholds, haccess, houtput⟩, ?_⟩
    split at hrs
    · exact (exists_launch_iff.1 ((hlaunch _).1 hrs)).2.2.2
    · exact (exists_launch_iff.1 ((hlaunch _).1 hrs)).2.2.2
  · rintro ⟨⟨hpos, hrange, hholds, haccess, houtput⟩, hblock⟩
    have hfirst : FitsArgument args.first.toNat :=
      Nat.lt_of_le_of_lt (Nat.le_add_right _ _) hrange
    have helements : FitsArgument args.elements.toNat :=
      Nat.lt_of_le_of_lt (Nat.le_add_left _ _) hrange
    refine ⟨⟨hpos, hrange, hholds, haccess⟩, houtput, ?_⟩
    split
    · rename_i buffer position hout
      rw [hout] at houtput
      exact (hlaunch _).2 (exists_launch_iff.2 ⟨houtput.1, hfirst, helements, hblock⟩)
    · exact (hlaunch _).2 (exists_launch_iff.2 ⟨fits.blocks_lt, hfirst, helements, hblock⟩)

theorem PlanFits.respectsBackend (moderate : b.properties.Moderate)
    (fits : PlanFits b.properties plan) : RespectsBackend b plan where
  unchecked args waitFor := by
    rw [enqueue_eq]
    refine bind_congr_of_ok fun r rs r' h => ?_
    have hrequests : requests plan args = .ok rs := congrArg Prod.fst h
    rw [chain_send_eq (requests_withinBounds moderate fits hrequests).2]
  withinBounds args rs h := (requests_withinBounds moderate fits h).2
  blocks args rs h := by
    obtain ⟨valid, size, hsize, -⟩ := (exists_requests_iff fits).1 ⟨rs, h⟩
    have helements : args.elements.toNat < 2 ^ 32 :=
      Nat.lt_of_le_of_lt (Nat.le_add_left _ _) valid.fits
    obtain ⟨size', hsize', hvalue⟩ := blockSize?_eq fits.toShapeFits moderate helements
    obtain rfl := Except.ok.inj (hsize.symm.trans hsize')
    refine ⟨size, hsize, ?_, ?_⟩ <;> rw [hvalue]
    · exact le_mul_blockLength fits.workGroup_pos fits.blocks_pos
    · exact dvd_blockLength
  sums := ⟨fits.toNat_offset, fits.sums⟩

end Reduce

/-! ## Radix sorts -/

namespace Radixsort

/-- The plan fits a device: its geometry does, blocks come in whole scatter groups, and there are
digit counts for every block. -/
structure PlanFits (d : DeviceProperties) (plan : RadixsortPlan) : Prop where
  geometry : plan.geometry.Fits d
  slices_dvd : plan.geometry.slices.toNat ∣ plan.geometry.scanBlocks.toNat
  histogram : plan.histogram.size.toNat =
    plan.geometry.scanBlocks.toNat * plan.geometry.radix.toNat * 4

/-- The requests of passes that alternate between two sets of buffers. -/
def passRequests (plan : RadixsortPlan) (shape : Shape) (source target : SortBuffers) :
    List UInt32 → List Request
  | [] => []
  | firstBit :: rest =>
    [.launch (reduceLaunch plan shape source.keys firstBit), .launch (scanLaunch plan shape),
      .launch (scatterLaunch plan shape source target firstBit)]
    ++ passRequests plan shape target source rest

/-- The requests that copy one set of buffers to another. -/
def copyRequests (plan : RadixsortPlan) (source target : SortBuffers) (elements : Word) :
    List Request :=
  .copy source.keys target.keys (elements * plan.keySize) ::
    match source.values, target.values with
    | some input, some out => [.copy input out (elements * plan.valueSize)]
    | _, _ => []

/-- What an execution asks of the backend, after all checks of the arguments. Temporary buffers
are allocated on the way. -/
def prepare (b : Backend) (plan : RadixsortPlan) (args : RadixsortArgs) :
    Device (List Request) := do
  let bits ← Device.attempt (checkArgs plan args)
  let temporary ← temporaries b plan args
  let shape ← Device.attempt (shapeOf plan args.elements)
  let passes := firstBits plan bits
  let sorts := passRequests plan shape args.buffers temporary passes
  if passes.length % 2 = 0 then return sorts
  else return sorts ++ copyRequests plan temporary args.buffers args.elements

/-- The executions of a plan respect the backend. -/
structure RespectsBackend (b : Backend) (plan : RadixsortPlan) : Prop where
  /-- An execution does the same without the checks of the backend. -/
  unchecked : ∀ args waitFor, enqueue b plan args waitFor =
    prepare b plan args >>= fun requests => Device.ofQueue (chain b.carryOut waitFor requests)
  withinBounds : ∀ args rs r r', exec (prepare b plan args) r = (.ok rs, r') →
    ∀ request ∈ rs, request.WithinBounds b.properties
  /-- There are digit counts for every block. -/
  blocks : ∀ args rs r r', exec (prepare b plan args) r = (.ok rs, r') →
    ∃ shape, shapeOf plan args.elements = .ok shape ∧
      shape.blocks.toNat * plan.geometry.radix.toNat * 4 ≤ plan.histogram.size.toNat

variable {b : Backend} {plan : RadixsortPlan} {args : RadixsortArgs}

theorem planFits_of_build {problem : RadixsortProblem} {p : TuningParameters} {r r' : Recorder}
    (h : exec (build b problem p) r = (.ok plan, r')) : PlanFits b.properties plan := by
  have built := builtFrom_of_build h
  obtain ⟨normalizes, fits⟩ := RadixsortGeometry.ofParameters_eq_ok.1 built.geometry
  obtain ⟨requested, -, hblocks⟩ := normalizes.blocks
  exact ⟨fits, fits.slices_dvd hblocks, built.histogram ▸ toNat_histogramSize fits⟩

theorem PlanFits.setTemporaries {d : DeviceProperties} (fits : PlanFits d plan)
    (keys values : Option Buffer) : PlanFits d (setTemporaries keys values plan) :=
  ⟨fits.geometry, fits.slices_dvd, fits.histogram⟩

theorem enqueuePasses_eq (shape : Shape) (source target : SortBuffers) (firstBits : List UInt32)
    (waitFor : List Event) :
    enqueuePasses b plan shape source target waitFor firstBits =
      Device.ofQueue (chain b.send waitFor (passRequests plan shape source target firstBits)) := by
  induction firstBits generalizing source target waitFor with
  | nil => rfl
  | cons firstBit rest ih =>
    have hpass : enqueuePass b plan shape source target firstBit waitFor =
        Device.ofQueue (chain b.send waitFor
          [.launch (reduceLaunch plan shape source.keys firstBit),
          .launch (scanLaunch plan shape),
          .launch (scatterLaunch plan shape source target firstBit)]) := by
      simp only [enqueuePass, chain, pure_bind, bind_assoc]
      rfl
    simp only [passRequests, chain_append, Device.ofQueue_bind, enqueuePasses, hpass, ih]
    rfl

theorem enqueueCopies_eq (source target : SortBuffers) (elements : Word) (waitFor : List Event) :
    enqueueCopies b plan source target elements =
      Device.ofQueue (chain b.send waitFor (copyRequests plan source target elements)) := by
  unfold enqueueCopies copyRequests
  rcases source.values with _ | input <;> rcases target.values with _ | out <;>
    simp only [chain, pure_bind, bind_assoc] <;> rfl

/-- All checks and allocations come before the first command. -/
theorem enqueue_eq (b : Backend) (plan : RadixsortPlan) (args : RadixsortArgs)
    (waitFor : List Event) :
    enqueue b plan args waitFor = prepare b plan args >>= fun requests =>
      Device.ofQueue (chain b.send waitFor requests) := by
  unfold enqueue prepare
  simp only [bind_assoc]
  refine bind_congr fun bits => bind_congr fun temporary => bind_congr fun shape => ?_
  rw [enqueuePasses_eq]
  split
  · simp
  · simp only [pure_bind, chain_append, Device.ofQueue_bind]
    refine bind_congr fun events => ?_
    rw [enqueueCopies_eq _ _ _ (eventsAfter events waitFor)]
    rfl

/-! ### Shapes -/

/-- The block size of a count, as an argument of a kernel. -/
def BlockFits (plan : RadixsortPlan) (elements : Word) : Prop :=
  ∃ size, plan.geometry.blockSize? elements = .ok size ∧ FitsArgument size.toNat

section

variable {d : DeviceProperties} {elements : Word}

/-- The shape of an execution, if its blocks are not too long. -/
theorem exists_shape (moderate : d.Moderate) (fits : PlanFits d plan)
    (hscale : plan.geometry.scatterWorkScale.toNat ≤ RadixsortGeometry.maxWorkScale)
    (hpos : 1 ≤ elements.toNat) (helements : FitsArgument elements.toNat)
    (hblock : BlockFits plan elements) :
    ∃ shape, shapeOf plan elements = .ok shape ∧
      plan.geometry.slices.toNat ∣ shape.blocks.toNat ∧ 0 < shape.blocks.toNat ∧
      shape.blocks.toNat ≤ plan.geometry.scanBlocks.toNat := by
  obtain ⟨size, hsize, hfits⟩ := hblock
  obtain ⟨size', hsize', hvalue⟩ :=
    RadixsortGeometry.blockSize?_eq fits.geometry moderate hscale helements
  obtain rfl := Except.ok.inj (hsize.symm.trans hsize')
  obtain ⟨blocks, hblocks, hdvd, hblocks_pos, hblocks_le, -⟩ :=
    RadixsortGeometry.blocks?_eq fits.geometry fits.slices_dvd hpos hvalue
  obtain ⟨-, hblocks_lt⟩ := fits.geometry.scanBlocks_bounds moderate
  have hle : blocks ≤ plan.geometry.scanBlocks := UInt64.le_iff_toNat_le.2 hblocks_le
  refine ⟨⟨blocks, UInt32.ofNat blocks.toNat, UInt32.ofNat size.toNat,
    UInt32.ofNat elements.toNat⟩, ?_, hdvd, hblocks_pos, hblocks_le⟩
  unfold shapeOf
  simp only [hsize, hblocks, hle, KernelArg.fit_of_lt hfits, KernelArg.fit_of_lt helements,
    KernelArg.fit_of_lt (show blocks.toNat < 2 ^ 32 by omega), Attempt.ofArithmetic_ok,
    Attempt.ensure, except_ok_bind, decide_true, if_true]
  rfl

theorem blockFits_of_shapeOf {shape : Shape} (h : shapeOf plan elements = .ok shape) :
    BlockFits plan elements := by
  unfold shapeOf at h
  obtain ⟨size, hsize, h⟩ := Attempt.ofArithmetic_bind_eq_ok.1 h
  obtain ⟨blocks, -, h⟩ := Attempt.ofArithmetic_bind_eq_ok.1 h
  obtain ⟨-, h⟩ := Attempt.ensure_bind_eq_ok.1 h
  obtain ⟨-, h⟩ := KernelArg.fit_bind_eq_ok.1 h
  obtain ⟨hfits, -⟩ := KernelArg.fit_bind_eq_ok.1 h
  exact ⟨size, hsize, hfits⟩

end

/-! ### Buffers -/

/-- A set of buffers has room for the elements of an execution, as far as the backend checks it. -/
structure HasRoom (plan : RadixsortPlan) (elements : Word) (buffers : SortBuffers) : Prop where
  keys : elements * plan.keySize ≤ buffers.keys.size
  values : ∀ buffer, buffers.values = some buffer → elements * plan.valueSize ≤ buffer.size

theorem mul_le_of_checkBuffer {what verb : String} {buffer : Buffer} {elements size : Word}
    (h : checkBuffer what verb buffer elements size = .ok ()) : elements * size ≤ buffer.size := by
  have hle := Word.checkedMul_any_iff.1 (Attempt.ensure_bind_eq_ok.1 h).1
  rw [UInt64.le_iff_toNat_le,
    Word.toNat_mul_of_lt (Nat.lt_of_le_of_lt hle buffer.size.toNat_lt)]
  exact hle

theorem hasRoom_of_checkArgs {bits : Word} (h : checkArgs plan args = .ok bits) :
    HasRoom plan args.elements args.buffers := by
  unfold checkArgs at h
  obtain ⟨hkeys, h⟩ := Attempt.unit_bind_eq_ok.1 h
  obtain ⟨hvalues, -⟩ := Attempt.unit_bind_eq_ok.1 h
  refine ⟨mul_le_of_checkBuffer hkeys, fun buffer hbuffer => ?_⟩
  rw [hbuffer] at hvalues
  unfold checkValues at hvalues
  dsimp only at hvalues
  split at hvalues
  · cases hvalues
  · exact mul_le_of_checkBuffer hvalues

theorem elements_of_checkArgs {bits : Word} (h : checkArgs plan args = .ok bits) :
    1 ≤ args.elements.toNat ∧ FitsArgument args.elements.toNat := by
  unfold checkArgs at h
  obtain ⟨-, h⟩ := Attempt.unit_bind_eq_ok.1 h
  obtain ⟨-, h⟩ := Attempt.unit_bind_eq_ok.1 h
  obtain ⟨hpos, h⟩ := Attempt.ensure_bind_eq_ok.1 h
  obtain ⟨hfits, -⟩ := KernelArg.fit_bind_eq_ok.1 h
  exact ⟨Word.ne_zero_iff.1 (bne_iff_ne.1 hpos), hfits⟩

/-- A temporary buffer is large enough. -/
theorem size_le_of_temporary {provided : Option Buffer} {size : Word} {buffer : Buffer}
    {r r' : Recorder} (h : exec (temporary b provided size) r = (.ok buffer, r')) :
    size ≤ buffer.size := by
  unfold temporary at h
  split at h
  · rename_i chosen hchosen
    cases h
    exact of_decide_eq_true (Option.filter_eq_some_iff.1 hchosen).2
  · obtain ⟨rfl, -, -⟩ := exec_createBuffer_eq_ok (exec_ofQueue_eq_ok h)
    exact UInt64.le_refl _

theorem hasRoom_of_temporaries {temp : SortBuffers} {r r' : Recorder}
    (h : exec (temporaries b plan args) r = (.ok temp, r')) :
    HasRoom plan args.elements temp := by
  unfold temporaries at h
  obtain ⟨keys, r₁, hkeys, h⟩ := exec_bind_eq_ok h
  split at h
  · cases h
    exact ⟨size_le_of_temporary hkeys, fun buffer hbuffer => by cases hbuffer⟩
  · obtain ⟨values, r₂, hvalues, h⟩ := exec_bind_eq_ok h
    cases h
    refine ⟨size_le_of_temporary hkeys, fun buffer hbuffer => ?_⟩
    obtain rfl := Option.some.inj hbuffer
    exact size_le_of_temporary hvalues

/-! ### Bounds -/

theorem copyRequests_withinBounds {d : DeviceProperties} {source target : SortBuffers}
    {elements : Word} (hsource : HasRoom plan elements source)
    (htarget : HasRoom plan elements target) :
    ∀ request ∈ copyRequests plan source target elements, request.WithinBounds d := by
  intro request hrequest
  unfold copyRequests at hrequest
  rcases List.mem_cons.1 hrequest with rfl | hrequest
  · exact ⟨UInt64.le_iff_toNat_le.1 hsource.keys, UInt64.le_iff_toNat_le.1 htarget.keys⟩
  · split at hrequest
    · rename_i input out hinput hout
      obtain rfl := List.mem_singleton.1 hrequest
      exact ⟨UInt64.le_iff_toNat_le.1 (hsource.values _ hinput),
        UInt64.le_iff_toNat_le.1 (htarget.values _ hout)⟩
    · cases hrequest

section

variable {d : DeviceProperties} {shape : Shape}

theorem reduceLaunch_withinBounds (moderate : d.Moderate) (fits : PlanFits d plan)
    (hpos : 0 < shape.blocks.toNat) (hlt : shape.blocks.toNat < 2 ^ 32) (keys : Buffer)
    (firstBit : UInt32) :
    Request.WithinBounds d (.launch (reduceLaunch plan shape keys firstBit)) :=
  DeviceProperties.allows_mul moderate (Word.isPowerOfTwo_pos fits.geometry.reduce_pow)
    (UInt64.le_iff_toNat_le.1 fits.geometry.reduce_le) hpos hlt

theorem scanLaunch_withinBounds (fits : PlanFits d plan) :
    Request.WithinBounds d (.launch (scanLaunch plan shape)) :=
  DeviceProperties.allows_self (Word.isPowerOfTwo_pos fits.geometry.scan_pow)
    (UInt64.le_iff_toNat_le.1 fits.geometry.scan_le)

/-- Every group scatters the same number of blocks. -/
theorem scatterLaunch_withinBounds (moderate : d.Moderate) (fits : PlanFits d plan)
    (hdvd : plan.geometry.slices.toNat ∣ shape.blocks.toNat) (hpos : 0 < shape.blocks.toNat)
    (hlt : shape.blocks.toNat < 2 ^ 32) (source target : SortBuffers) (firstBit : UInt32) :
    Request.WithinBounds d (.launch (scatterLaunch plan shape source target firstBit)) := by
  have hslices := Word.isPowerOfTwo_pos fits.geometry.slices_pow
  apply DeviceProperties.allows_mul moderate (UInt64.lt_iff_toNat_lt.1 fits.geometry.scatter_pos)
    (UInt64.le_iff_toNat_le.1 fits.geometry.scatter_le) <;> rw [UInt64.toNat_div]
  · exact Nat.div_pos (Nat.le_of_dvd hpos hdvd) hslices
  · exact Nat.lt_of_le_of_lt (Nat.div_le_self _ _) hlt

theorem passRequests_withinBounds (moderate : d.Moderate) (fits : PlanFits d plan)
    (hdvd : plan.geometry.slices.toNat ∣ shape.blocks.toNat) (hpos : 0 < shape.blocks.toNat)
    (hle : shape.blocks.toNat ≤ plan.geometry.scanBlocks.toNat) (source target : SortBuffers)
    (firstBits : List UInt32) :
    ∀ request ∈ passRequests plan shape source target firstBits, request.WithinBounds d := by
  obtain ⟨-, hblocks_lt⟩ := fits.geometry.scanBlocks_bounds moderate
  have hlt : shape.blocks.toNat < 2 ^ 32 := by omega
  induction firstBits generalizing source target with
  | nil => exact List.forall_mem_nil _
  | cons firstBit rest ih =>
    intro request hrequest
    rcases List.mem_append.1 hrequest with hrequest | hrequest
    · simp only [List.mem_cons, List.not_mem_nil, or_false] at hrequest
      rcases hrequest with rfl | rfl | rfl
      · exact reduceLaunch_withinBounds moderate fits hpos hlt _ _
      · exact scanLaunch_withinBounds fits
      · exact scatterLaunch_withinBounds moderate fits hdvd hpos hlt _ _ _
    · exact ih target source request hrequest

end

theorem exists_shape_of_prepare (moderate : b.properties.Moderate)
    (fits : PlanFits b.properties plan)
    (hscale : plan.geometry.scatterWorkScale.toNat ≤ RadixsortGeometry.maxWorkScale)
    {rs : List Request} {r r' : Recorder} (h : exec (prepare b plan args) r = (.ok rs, r')) :
    ∃ bits temp shape, checkArgs plan args = .ok bits ∧ HasRoom plan args.elements temp ∧
      shapeOf plan args.elements = .ok shape ∧
      plan.geometry.slices.toNat ∣ shape.blocks.toNat ∧ 0 < shape.blocks.toNat ∧
      shape.blocks.toNat ≤ plan.geometry.scanBlocks.toNat ∧
      rs = if (firstBits plan bits).length % 2 = 0 then
          passRequests plan shape args.buffers temp (firstBits plan bits)
        else passRequests plan shape args.buffers temp (firstBits plan bits) ++
          copyRequests plan temp args.buffers args.elements := by
  unfold prepare at h
  obtain ⟨bits, hargs, h⟩ := exec_attempt_bind_eq_ok.1 h
  obtain ⟨temp, r₁, htemp, h⟩ := exec_bind_eq_ok h
  obtain ⟨shape, hshape, h⟩ := exec_attempt_bind_eq_ok.1 h
  obtain ⟨hpos, helements⟩ := elements_of_checkArgs hargs
  obtain ⟨shape', hshape', hdvd, hblocks, hblocks_le⟩ :=
    exists_shape moderate fits hscale hpos helements (blockFits_of_shapeOf hshape)
  obtain rfl := Except.ok.inj (hshape.symm.trans hshape')
  refine ⟨bits, temp, shape, hargs, hasRoom_of_temporaries htemp, hshape, hdvd, hblocks,
    hblocks_le, ?_⟩
  dsimp only at h
  split at h <;> rename_i heven
  · cases h
    rw [if_pos heven]
  · cases h
    rw [if_neg heven]

theorem prepare_withinBounds (moderate : b.properties.Moderate)
    (fits : PlanFits b.properties plan)
    (hscale : plan.geometry.scatterWorkScale.toNat ≤ RadixsortGeometry.maxWorkScale)
    {rs : List Request} {r r' : Recorder} (h : exec (prepare b plan args) r = (.ok rs, r')) :
    ∀ request ∈ rs, request.WithinBounds b.properties := by
  obtain ⟨bits, temp, shape, hargs, htemp, -, hdvd, hblocks, hblocks_le, rfl⟩ :=
    exists_shape_of_prepare moderate fits hscale h
  have hpasses := passRequests_withinBounds moderate fits hdvd hblocks hblocks_le args.buffers temp
    (firstBits plan bits)
  split
  · exact hpasses
  · intro request hrequest
    rcases List.mem_append.1 hrequest with hrequest | hrequest
    · exact hpasses request hrequest
    · exact copyRequests_withinBounds htemp (hasRoom_of_checkArgs hargs) request hrequest

theorem PlanFits.respectsBackend (moderate : b.properties.Moderate)
    (fits : PlanFits b.properties plan)
    (hscale : plan.geometry.scatterWorkScale.toNat ≤ RadixsortGeometry.maxWorkScale) :
    RespectsBackend b plan where
  unchecked args waitFor := by
    rw [enqueue_eq]
    refine bind_congr_of_ok fun r rs r' h => ?_
    rw [chain_send_eq (prepare_withinBounds moderate fits hscale h)]
  withinBounds args rs r r' := prepare_withinBounds moderate fits hscale
  blocks args rs r r' h := by
    obtain ⟨-, -, shape, -, -, hshape, -, -, hle, -⟩ :=
      exists_shape_of_prepare moderate fits hscale h
    refine ⟨shape, hshape, ?_⟩
    rw [fits.histogram]
    exact Nat.mul_le_mul_right 4 (Nat.mul_le_mul_right _ hle)

end Radixsort

/-- The parameters before any tuning make plans of scans and reductions on a small graphics device,
and the smallest geometry makes one of radix sorts. -/
theorem exists_builds_gpu :
    (∃ plan r', exec (Scan.build (.steady Backend.gpuProperties) ⟨⟨.uint, 1, by decide⟩⟩
      (Scan.candidates Backend.gpuProperties ⟨⟨.uint, 1, by decide⟩⟩).base) .start =
        (.ok plan, r')) ∧
    (∃ plan r', exec (Reduce.build (.steady Backend.gpuProperties) ⟨⟨.uint, 1, by decide⟩⟩
      (Reduce.candidates Backend.gpuProperties ⟨⟨.uint, 1, by decide⟩⟩).base) .start =
        (.ok plan, r')) ∧
    ∃ r', exec (Radixsort.build (.steady Backend.gpuProperties)
      ⟨⟨.uint, 1, by decide⟩, ⟨.uint, 1, by decide⟩⟩ (Parameter.withWarpSizes
        Radixsort.smallGeometry.toParameters Backend.gpuProperties)) .start =
          (.ok Radixsort.smallPlan, r') := by
  refine ⟨?_, ?_, ⟨1, [], 1, 1, [], 0, 1⟩, by rfl⟩
  · exact exists_of_isOk (by decide +kernel)
  · exact exists_of_isOk (by decide +kernel)

/-- **Executions respect the backend.** On a device with moderate limits, no launch, copy or read
of an execution can be refused for its sizes, for every plan that is built, a radix sort with any
temporary buffers, and for all arguments. -/
theorem respectsBackend_build {b : Backend} (moderate : b.properties.Moderate) :
    (∀ problem parameters plan r r',
      exec (Scan.build b problem parameters) r = (.ok plan, r') → Scan.RespectsBackend b plan) ∧
    (∀ problem parameters plan r r',
      exec (Reduce.build b problem parameters) r = (.ok plan, r') →
        Reduce.RespectsBackend b plan) ∧
    ∀ problem parameters plan r r' keys values,
      exec (Radixsort.build b problem parameters) r = (.ok plan, r') →
        plan.geometry.scatterWorkScale ≤ 65536 →
        Radixsort.RespectsBackend b (Radixsort.setTemporaries keys values plan) := by
  refine ⟨fun problem parameters plan r r' h => ?_, fun problem parameters plan r r' h => ?_,
    fun problem parameters plan r r' keys values h hscale => ?_⟩
  · exact (Scan.plan_of_build h).1.respectsBackend moderate
  · exact (Reduce.plan_of_build h).1.respectsBackend moderate
  · exact ((Radixsort.planFits_of_build h).setTemporaries keys values).respectsBackend moderate
      (UInt64.le_iff_toNat_le.1 hscale)

/-- One plan of each primitive on a small graphics device. -/
theorem respectsBackend_gpu :
    let b := Backend.steady Backend.gpuProperties
    let uint : ElemType := ⟨.uint, 1, by decide⟩
    (∃ plan r', exec (Scan.build b ⟨uint⟩ (Scan.candidates b.properties ⟨uint⟩).base) .start =
      (.ok plan, r') ∧ Scan.RespectsBackend b plan) ∧
    (∃ plan r', exec (Reduce.build b ⟨uint⟩ (Reduce.candidates b.properties ⟨uint⟩).base) .start =
      (.ok plan, r') ∧ Reduce.RespectsBackend b plan) ∧
    Radixsort.RespectsBackend b Radixsort.smallPlan := by
  intro b uint
  have moderate : b.properties.Moderate := ⟨by decide, by decide⟩
  obtain ⟨scans, reduces, sorts⟩ := respectsBackend_build moderate
  obtain ⟨⟨scan, r₁, hscan⟩, ⟨reduce, r₂, hreduce⟩, ⟨r₃, hsort⟩⟩ := exists_builds_gpu
  exact ⟨⟨scan, r₁, hscan, scans _ _ _ _ _ hscan⟩, ⟨reduce, r₂, hreduce, reduces _ _ _ _ _ hreduce⟩,
    sorts _ _ _ _ _ none none hsort (by decide)⟩

end KernelTuning
