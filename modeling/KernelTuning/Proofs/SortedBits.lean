import Mathlib.Algebra.Order.Floor.Div
import KernelTuning.Proofs.SortingPasses
import KernelTuning.SortedMap.Lemmas

/-!
# The bits that a radix sort sorts on

A kernel is compiled for a fixed number of bits per pass, so the last pass sorts on a whole digit
too. The bits that an execution sorts on are read off its commands (`coveredBits`).

**Theorem (`coveredBits_enqueue`).** An execution sorts on the lowest bits of the keys, on each of
them in exactly one pass and in increasing order. Their number is the requested one rounded up to
whole digits, as far as the keys have so many bits. So it sorts on exactly the requested bits if and
only if these are whole digits or all bits of the keys.
-/

namespace KernelTuning

/-! ## Bits of commands -/

/-- The bits that a scatter sorts on, as many as it was compiled for. -/
def Command.sortRange? : Command → Option (List Nat)
  | .launch l =>
    if l.kernel = "radixsortScatter" then
      match l.defines.get? "RADIX_BITS", (l.args[5]? : Option (KernelArg Nat)) with
      | some width, some (.word32 firstBit) => some (List.range' firstBit.toNat width.toNat)
      | _, _ => none
    else none
  | _ => none

theorem Command.sortRange?_of_ne {l : LaunchRecord} (h : l.kernel ≠ "radixsortScatter") :
    Command.sortRange? (.launch l) = none := if_neg h

/-- The bits of a key that some commands sort on, scatter by scatter. -/
def coveredBits (keyBits : Nat) (commands : List Command) : List Nat :=
  (commands.filterMap Command.sortRange?).flatten.filter (· < keyBits)

theorem filter_lt_range (m n : Nat) : (List.range n).filter (· < m) = List.range (min m n) := by
  induction n with
  | zero => simp
  | succ n ih =>
    rw [List.range_succ, List.filter_append, ih]
    by_cases h : n < m
    · rw [List.filter_cons_of_pos (by simpa using h), Nat.min_eq_right (Nat.le_of_lt h),
        Nat.min_eq_right h, List.range_succ]
      rfl
    · rw [List.filter_cons_of_neg (by simpa using h), Nat.min_eq_left (by omega),
        Nat.min_eq_left (by omega)]
      simp

/-- Digits one after the other cover their bits without gaps. -/
theorem flatten_digits (step count : Nat) :
    ((List.range count).map fun pass => List.range' (pass * step) step).flatten =
      List.range (count * step) := by
  induction count with
  | zero => simp
  | succ count ih =>
    have happend := @List.range'_append_1 0 (count * step) step
    rw [Nat.zero_add] at happend
    rw [List.range_succ, List.map_append, List.flatten_append, ih, List.range_eq_range',
      List.range_eq_range', Nat.succ_mul, ← happend]
    simp

/-! ## Constants of programs -/

namespace Program

theorem get?_define (p : Program) (name other : String) (value : Word) :
    (p.define name value).defines.get? other =
      if other = name then some value.toInt64.toInt else p.defines.get? other :=
  SortedMap.get?_insert ..

/-- Extensions do not change other constants. -/
theorem get?_withExtensions (p : Program) (types : List ElemType) {name : String}
    (h16 : name ≠ "ENABLE_KHR_FP16") (h64 : name ≠ "ENABLE_KHR_FP64") :
    (p.withExtensions types).defines.get? name = p.defines.get? name := by
  simp only [withExtensions]
  split <;> split <;> simp [get?_define, h16, h64]

end Program

theorem Word.toInt_toInt64_of_lt {w : Word} (h : w.toNat < 2 ^ 63) :
    w.toInt64.toInt = (w.toNat : Int) :=
  BitVec.toInt_eq_toNat_of_lt (show 2 * w.toNat < 2 ^ 64 by omega)

namespace Radixsort

variable {b : Backend} {plan : RadixsortPlan} {shape : Shape} {source target : SortBuffers}
  {waitFor events : List Event} {r r' : Recorder}

/-- The kernels are compiled for the bits per pass of the geometry. -/
theorem radixBits_program (d : DeviceProperties) (problem : RadixsortProblem)
    {g : RadixsortGeometry} (fits : g.Fits d) :
    (program d problem g).defines.get? "RADIX_BITS" = some (g.radixBits.toNat : Int) := by
  have hle : g.radixBits.toNat ≤ 8 := UInt64.le_iff_toNat_le.1 fits.bits_le
  rw [← Word.toInt_toInt64_of_lt (by omega), program,
    Program.get?_withExtensions _ _ (by decide) (by decide)]
  split <;> simp [Program.defineType, Program.defineAll, Program.get?_define]

/-! ## Commands of an execution -/

section

variable (hwidth : plan.program.defines.get? "RADIX_BITS" =
  some (plan.geometry.radixBits.toNat : Int))

include hwidth

/-- One pass sorts on the bits from its first one on. -/
theorem sortRange?_pass (firstBit : UInt32) (w₁ w₂ w₃ : List Event) :
    [Command.launch (Backend.recordOf (reduceLaunch plan shape source.keys firstBit) w₁),
      .launch (Backend.recordOf (scanLaunch plan shape) w₂),
      .launch (Backend.recordOf (scatterLaunch plan shape source target firstBit) w₃)].filterMap
        Command.sortRange? =
    [List.range' firstBit.toNat plan.geometry.radixBits.toNat] := by
  have hscatter : Command.sortRange? (.launch
      (Backend.recordOf (scatterLaunch plan shape source target firstBit) w₃)) =
        some (List.range' firstBit.toNat plan.geometry.radixBits.toNat) := by
    simp only [Command.sortRange?, Backend.recordOf, scatterLaunch, hwidth, if_true]
    rfl
  have hreduce : (Backend.recordOf (reduceLaunch plan shape source.keys firstBit) w₁).kernel ≠
      "radixsortScatter" := show "radixsortReduce" ≠ "radixsortScatter" by decide
  have hscan : (Backend.recordOf (scanLaunch plan shape) w₂).kernel ≠ "radixsortScatter" :=
    show "radixsortScan" ≠ "radixsortScatter" by decide
  simp only [List.filterMap_cons, List.filterMap_nil, Command.sortRange?_of_ne hreduce,
    Command.sortRange?_of_ne hscan, hscatter]

theorem sortRange?_enqueuePasses {firstBits : List UInt32}
    (h : exec (enqueuePasses b plan shape source target waitFor firstBits) r = (.ok events, r')) :
    ∃ commands, r'.commands = r.commands ++ commands ∧
      commands.filterMap Command.sortRange? = firstBits.map fun firstBit =>
        List.range' firstBit.toNat plan.geometry.radixBits.toNat := by
  induction firstBits generalizing source target waitFor r events with
  | nil =>
    cases h
    exact ⟨[], by simp, rfl⟩
  | cons firstBit rest ih =>
    unfold enqueuePasses at h
    obtain ⟨first, r₁, hpass, h₁⟩ := exec_bind_eq_ok h
    obtain ⟨others, r₂, hothers, h₂⟩ := exec_bind_eq_ok h₁
    cases h₂
    obtain ⟨reduced, scanned, scattered, -, enqueued⟩ := exec_enqueuePass_eq_ok hpass
    obtain ⟨commands, hcommands, hranges⟩ := ih hothers
    refine ⟨_, by rw [hcommands, enqueued.commands_eq, List.append_assoc], ?_⟩
    rw [List.filterMap_append, sortRange?_pass hwidth, hranges]
    rfl

end

/-- Copies do not sort. -/
theorem sortRange?_enqueueCopies {elements : Word}
    (h : exec (enqueueCopies b plan source target elements) r = (.ok events, r')) :
    ∃ commands, r'.commands = r.commands ++ commands ∧
      commands.filterMap Command.sortRange? = [] := by
  unfold enqueueCopies at h
  have h := exec_ofQueue_eq_ok h
  obtain ⟨e, r₁, hcopy, h₁⟩ := exec_bind_eq_ok h
  have first := exec_copy_eq_ok hcopy
  split at h₁
  · obtain ⟨e', r₂, hcopy', h₂⟩ := exec_bind_eq_ok h₁
    cases h₂
    exact ⟨_, (first.append (exec_copy_eq_ok hcopy')).commands_eq, rfl⟩
  · cases h₁
    exact ⟨_, first.commands_eq, rfl⟩

/-- Temporary buffers are made without commands. -/
theorem commands_temporaries {args : RadixsortArgs} {temp : SortBuffers}
    (h : exec (temporaries b plan args) r = (.ok temp, r')) : r'.commands = r.commands := by
  unfold Recorder.commands
  unfold temporaries at h
  obtain ⟨keys, r₁, hkeys, h⟩ := exec_bind_eq_ok h
  have hhistory := (exec_temporary_eq_ok hkeys).1
  split at h
  · cases h
    rw [hhistory]
  · obtain ⟨values, r₂, hvalues, h⟩ := exec_bind_eq_ok h
    cases h
    rw [(exec_temporary_eq_ok hvalues).1, hhistory]

theorem sortedBits_le {args : RadixsortArgs} {bits : Word} (hsize : plan.keySize.toNat ≤ 8)
    (h : effectiveBits plan args.maxBits = .ok bits) :
    sortedBits plan args ≤ 8 * plan.keySize.toNat := by
  have hbits : (keyBits plan).toNat = 8 * plan.keySize.toNat :=
    Word.toNat_mul_of_lt (show 8 * plan.keySize.toNat < 2 ^ 64 by omega)
  unfold sortedBits
  unfold effectiveBits at h
  split
  · exact Nat.le_refl _
  · rename_i hzero
    rw [if_neg hzero] at h
    split at h
    · cases h
    · rename_i hle
      rwa [UInt64.not_lt, UInt64.le_iff_toNat_le, hbits, UInt32.toNat_toUInt64] at hle

/-- The passes take one digit after the other, as many as there are in the requested bits. -/
theorem digits_firstBits {args : RadixsortArgs} {bits : Word}
    (hstep : 1 ≤ plan.geometry.radixBits) (hkey : 0 < plan.keySize.toNat)
    (hsize : plan.keySize.toNat ≤ 8) (h : effectiveBits plan args.maxBits = .ok bits) :
    ((firstBits plan bits).map fun firstBit =>
        List.range' firstBit.toNat plan.geometry.radixBits.toNat) =
      (List.range (sortedBits plan args ⌈/⌉ plan.geometry.radixBits.toNat)).map fun pass =>
        List.range' (pass * plan.geometry.radixBits.toNat) plan.geometry.radixBits.toNat := by
  have hstarts := (firstBits_of_effectiveBits hstep hkey hsize h).1
  rw [← passStarts_eq (UInt64.le_iff_toNat_le.1 hstep), ← Nat.ceilDiv_eq_add_pred_div] at hstarts
  have hdigits := congrArg
    (List.map fun start => List.range' start plan.geometry.radixBits.toNat) hstarts
  rwa [List.map_map, List.map_map] at hdigits

/-- A number of digits, as far as a key has them, makes up the requested bits only if these are
whole digits or all bits of the key. -/
theorem min_digits_eq_iff {keyBits step bits : Nat} (hstep : 1 ≤ step) (hle : bits ≤ keyBits) :
    min keyBits (bits ⌈/⌉ step * step) = bits ↔ step ∣ bits ∨ bits = keyBits := by
  have hpos : 0 < step := hstep
  have hceil : bits ≤ bits ⌈/⌉ step * step := by
    rw [Nat.mul_comm]
    exact le_smul_ceilDiv hpos
  constructor
  · intro h
    rcases Nat.le_total keyBits (bits ⌈/⌉ step * step) with hmin | hmin
    · rw [Nat.min_eq_left hmin] at h
      exact .inr h.symm
    · rw [Nat.min_eq_right hmin] at h
      exact .inl ⟨bits ⌈/⌉ step, by rw [Nat.mul_comm, h]⟩
  · rintro (⟨digits, rfl⟩ | rfl)
    · have hdigits : (step * digits) ⌈/⌉ step = digits := smul_ceilDiv hpos digits
      rw [hdigits, Nat.mul_comm digits, Nat.min_eq_right hle]
    · exact Nat.min_eq_left hceil

/-- What an execution sorts on: digit after digit, as many as there are in the requested bits, which
are no more than a key has. -/
theorem coveredBits_of_enqueue {problem : RadixsortProblem} {parameters : TuningParameters}
    {built : RadixsortPlan} {r₀ r₁ : Recorder} {temporaryKeys temporaryValues : Option Buffer}
    {args : RadixsortArgs} (valid : validate b.properties problem = .ok ())
    (build : exec (build b problem parameters) r₀ = (.ok built, r₁))
    (plan_eq : plan = setTemporaries temporaryKeys temporaryValues built)
    (run : exec (enqueue b plan args waitFor) r = (.ok events, r')) :
    1 ≤ plan.geometry.radixBits.toNat ∧ sortedBits plan args ≤ 8 * plan.keySize.toNat ∧
      ∃ commands, r'.commands = r.commands ++ commands ∧
        coveredBits (8 * plan.keySize.toNat) commands = List.range (min (8 * plan.keySize.toNat)
          (sortedBits plan args ⌈/⌉ plan.geometry.radixBits.toNat *
            plan.geometry.radixBits.toNat)) := by
  obtain ⟨fits, hkeySize, -⟩ := plan_of_build build
  have hprogram := (builtFrom_of_build build).program
  have hwidth : plan.program.defines.get? "RADIX_BITS" =
      some (plan.geometry.radixBits.toNat : Int) := by
    rw [plan_eq]
    exact hprogram ▸ radixBits_program _ _ fits
  have ⟨hkey, hsize⟩ : 0 < plan.keySize.toNat ∧ plan.keySize.toNat ≤ 8 := by
    rw [plan_eq]
    exact hkeySize ▸ keySize_of_validate valid
  have hpos : 1 ≤ plan.geometry.radixBits.toNat := by
    rw [plan_eq]
    exact UInt64.le_iff_toNat_le.1 fits.one_le_bits
  unfold enqueue at run
  obtain ⟨bits, hcheck, h₁⟩ := exec_attempt_bind_eq_ok.1 run
  obtain ⟨temp, r₂, htemp, h₂⟩ := exec_bind_eq_ok h₁
  obtain ⟨shape, hshape, h₃⟩ := exec_attempt_bind_eq_ok.1 h₂
  obtain ⟨sorted, r₃, hpasses, h₄⟩ := exec_bind_eq_ok h₃
  have accepted := accepted_of_checkArgs hcheck
  have hle := sortedBits_le hsize accepted.bits
  obtain ⟨commands, hcommands, hranges⟩ := sortRange?_enqueuePasses hwidth hpasses
  -- The copies after an odd number of passes add nothing.
  obtain ⟨copies, hcopies, hnone⟩ : ∃ copies, r'.commands = r₃.commands ++ copies ∧
      copies.filterMap Command.sortRange? = [] := by
    split at h₄
    · cases h₄
      exact ⟨[], by simp, rfl⟩
    · obtain ⟨copied, r₄, hcopies, h₅⟩ := exec_bind_eq_ok h₄
      cases h₅
      exact sortRange?_enqueueCopies hcopies
  refine ⟨hpos, hle, commands ++ copies, ?_, ?_⟩
  · rw [hcopies, hcommands, commands_temporaries htemp, List.append_assoc]
  · rw [coveredBits, List.filterMap_append, hnone, List.append_nil, hranges,
      digits_firstBits (UInt64.le_iff_toNat_le.2 hpos) hkey hsize accepted.bits, flatten_digits,
      filter_lt_range]

/-- **An execution sorts on whole digits**: on the lowest bits of the keys, on each of them in one
pass and in increasing order, as many as requested rounded up to whole digits. -/
theorem coveredBits_enqueue {problem : RadixsortProblem} {parameters : TuningParameters}
    {built : RadixsortPlan} {r₀ r₁ : Recorder} {temporaryKeys temporaryValues : Option Buffer}
    {args : RadixsortArgs} (valid : validate b.properties problem = .ok ())
    (build : exec (build b problem parameters) r₀ = (.ok built, r₁))
    (plan_eq : plan = setTemporaries temporaryKeys temporaryValues built)
    (run : exec (enqueue b plan args waitFor) r = (.ok events, r')) :
    ∃ commands, r'.commands = r.commands ++ commands ∧
      coveredBits (8 * plan.keySize.toNat) commands = List.range (min (8 * plan.keySize.toNat)
        (sortedBits plan args ⌈/⌉ plan.geometry.radixBits.toNat * plan.geometry.radixBits.toNat)) ∧
      (coveredBits (8 * plan.keySize.toNat) commands = List.range (sortedBits plan args) ↔
        plan.geometry.radixBits.toNat ∣ sortedBits plan args ∨
          sortedBits plan args = 8 * plan.keySize.toNat) := by
  obtain ⟨hpos, hle, commands, hcommands, hcovered⟩ :=
    coveredBits_of_enqueue valid build plan_eq run
  refine ⟨commands, hcommands, hcovered, ?_⟩
  rw [hcovered, ← min_digits_eq_iff hpos hle]
  exact ⟨fun h => by simpa using congrArg List.length h, fun h => congrArg List.range h⟩

/-! ### A partial digit -/

theorem validate_small : validate (Backend.ofProperties Backend.gpuProperties).properties
    ⟨⟨.uint, 1, by decide⟩, ⟨.uint, 1, by decide⟩⟩ = .ok () := by rfl

theorem build_small : exec (build (.ofProperties Backend.gpuProperties)
    ⟨⟨.uint, 1, by decide⟩, ⟨.uint, 1, by decide⟩⟩
    (Parameter.withWarpSizes smallGeometry.toParameters Backend.gpuProperties)) .start =
    (.ok smallPlan, ⟨1, [], 1, 1, [], 0, 1⟩) := by rfl

/-- A single pass on four bits. -/
theorem coveredBits_four : ∃ events r',
    exec (enqueue (.ofProperties Backend.gpuProperties) smallPlan smallArgs [])
      { Recorder.start with lastId := 3 } = (.ok events, r') ∧
    coveredBits (8 * smallPlan.keySize.toNat) r'.commands = List.range 4 := by
  have succeeds : (exec (enqueue (.ofProperties Backend.gpuProperties) smallPlan smallArgs [])
      { Recorder.start with lastId := 3 }).1.isOk = true := by rfl
  rcases run : exec (enqueue (.ofProperties Backend.gpuProperties) smallPlan smallArgs [])
      { Recorder.start with lastId := 3 } with ⟨e | events, r'⟩
  · rw [run] at succeeds
    cases succeeds
  · have plan_eq : smallPlan = setTemporaries none none smallPlan := rfl
    obtain ⟨commands, hcommands, -, hiff⟩ :=
      coveredBits_enqueue validate_small build_small plan_eq run
    refine ⟨events, r', rfl, ?_⟩
    rw [hcommands, show Recorder.commands _ = [] from rfl, List.nil_append]
    exact hiff.2 (.inl (by decide))

/-- The arguments with a bound in the middle of the second digit. -/
def partialArgs : RadixsortArgs := { smallArgs with maxBits := 6 }

/-- A bound of six bits with four bits per pass makes two passes, which also sort on the two bits
above the bound. -/
theorem coveredBits_partial : ∃ events r',
    exec (enqueue (.ofProperties Backend.gpuProperties) smallPlan partialArgs [])
      { Recorder.start with lastId := 3 } = (.ok events, r') ∧
    sortedBits smallPlan partialArgs = 6 ∧
    coveredBits (8 * smallPlan.keySize.toNat) r'.commands = List.range 8 := by
  have succeeds : (exec (enqueue (.ofProperties Backend.gpuProperties) smallPlan partialArgs [])
      { Recorder.start with lastId := 3 }).1.isOk = true := by decide +kernel
  rcases run : exec (enqueue (.ofProperties Backend.gpuProperties) smallPlan partialArgs [])
      { Recorder.start with lastId := 3 } with ⟨e | events, r'⟩
  · rw [run] at succeeds
    cases succeeds
  · have plan_eq : smallPlan = setTemporaries none none smallPlan := rfl
    obtain ⟨-, -, commands, hcommands, hcovered⟩ :=
      coveredBits_of_enqueue validate_small build_small plan_eq run
    refine ⟨events, r', rfl, rfl, ?_⟩
    rw [hcommands, show Recorder.commands _ = [] from rfl, List.nil_append, hcovered]
    exact congrArg List.range (by decide)

end Radixsort

end KernelTuning
