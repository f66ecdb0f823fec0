import KernelTuning.Proofs.Enqueueing

/-!
# The passes of a radix sort

What the commands of a radix sort do to memory, and that an execution leaves the result of its
passes in the buffers of the caller.

**Meaning of commands.** Device memory is the bytes of the buffers. What a pass makes of the bytes
of the elements is a parameter, a function of its first bit; three launches that belong together
(`SortPass.ofLaunches?`) replace the bytes of the target buffers by what the pass makes of those of
the source buffers, and a copy copies bytes (`runCommands`). Any other commands have no meaning.

**Theorem (`enqueue_runs_passes`).** The commands of an execution have a meaning, and it leaves in
the buffers of the caller the result of the passes at 0, `radixBits`, 2 `radixBits`, …, below the
bits to sort on, in this order. Every launch waits for the command before it.

The passes alternate between two sets of buffers, so the induction is over the passes with the two
sets exchanged at each step, and the number of passes decides whether a copy has to follow.
-/

namespace KernelTuning

/-! ## Memory -/

/-- The bytes of the buffers, by the identifiers of the buffers. -/
abbrev DeviceMemory := Nat → Nat → UInt8

namespace DeviceMemory

/-- The first bytes of a buffer. -/
def load (m : DeviceMemory) (id size : Nat) : Fin size → UInt8 := fun i => m id i

/-- The memory with the first bytes of a buffer replaced. -/
def store (m : DeviceMemory) (id : Nat) {size : Nat} (bytes : Fin size → UInt8) : DeviceMemory :=
  fun id' i => if h : id' = id ∧ i < size then bytes ⟨i, h.2⟩ else m id' i

variable {m : DeviceMemory} {id id' size size' : Nat}

@[simp] theorem load_store_self (bytes : Fin size → UInt8) :
    (m.store id bytes).load id size = bytes := by
  funext i
  exact dif_pos ⟨rfl, i.isLt⟩

theorem load_store_of_ne (bytes : Fin size' → UInt8) (h : id ≠ id') :
    (m.store id' bytes).load id size = m.load id size := by
  funext i
  exact dif_neg fun hi => h hi.1

end DeviceMemory

/-- The bytes of the elements to sort: those of the keys and those of the values. -/
abbrev SortContent (keyBytes valueBytes : Nat) := (Fin keyBytes → UInt8) × (Fin valueBytes → UInt8)

namespace SortBuffers

/-- The keys, and the values if there are any. -/
def toList (s : SortBuffers) : List Buffer := s.keys :: s.values.toList

end SortBuffers

/-- The identifiers of a buffer of keys, and of one of values if there are any. -/
structure SortIds where
  keys : Nat
  values : Option Nat
deriving DecidableEq

namespace SortIds

def ofBuffers (s : SortBuffers) : SortIds := ⟨s.keys.id, s.values.map Buffer.id⟩

def toList (s : SortIds) : List Nat := s.keys :: s.values.toList

variable {keyBytes valueBytes : Nat}

/-- The bytes of the elements in some buffers. -/
def load (s : SortIds) (m : DeviceMemory) : SortContent keyBytes valueBytes :=
  (m.load s.keys keyBytes, s.values.elim (fun _ => 0) (m.load · valueBytes))

/-- The memory with the bytes of the elements replaced. -/
def store (s : SortIds) (content : SortContent keyBytes valueBytes) (m : DeviceMemory) :
    DeviceMemory :=
  s.values.elim (m.store s.keys content.1) ((m.store s.keys content.1).store · content.2)

/-- What is stored can be loaded, provided that elements without values have no bytes of them. -/
theorem load_store (s : SortIds) (distinct : s.toList.Nodup)
    (noValues : s.values = none → valueBytes = 0) (content : SortContent keyBytes valueBytes)
    (m : DeviceMemory) : s.load (s.store content m) = content := by
  obtain ⟨keys, _ | values⟩ := s
  · obtain rfl := noValues rfl
    refine Prod.ext (DeviceMemory.load_store_self _) ?_
    funext i
    exact i.elim0
  · have hne : keys ≠ values := by simpa [toList] using distinct
    refine Prod.ext ?_ (DeviceMemory.load_store_self _)
    exact (DeviceMemory.load_store_of_ne _ hne).trans (DeviceMemory.load_store_self _)

end SortIds

/-! ## Meaning of commands -/

/-- A pass as its launches tell it. -/
structure SortPass where
  source : SortIds
  target : SortIds
  elements : UInt32
  firstBit : UInt32

namespace SortPass

/-- The pass that a reduction, a scan and a scatter make together: they share the counts, and the
reduction and the scatter the keys, the block size, the number of elements and the first bit. No
buffer of the pass may be used twice. -/
def ofLaunches? (reduce scan scatter : LaunchRecord) : Option SortPass :=
  match reduce.args, scan.args, scatter.args with
  | [.buffer counts, .buffer keys, .word32 blockSize, .word32 elements, .word32 firstBit],
    [.buffer counts', .word32 _],
    .buffer keysOut :: .buffer keys' :: .buffer counts'' :: .word32 blockSize' ::
      .word32 elements' :: .word32 firstBit' :: values =>
    let pass : Option SortPass :=
      match values with
      | [] => some ⟨⟨keys, none⟩, ⟨keysOut, none⟩, elements, firstBit⟩
      | [.buffer valuesOut, .buffer values] =>
        some ⟨⟨keys, some values⟩, ⟨keysOut, some valuesOut⟩, elements, firstBit⟩
      | _ => none
    pass.filter fun p =>
      reduce.kernel = "radixsortReduce" ∧ scan.kernel = "radixsortScan" ∧
      scatter.kernel = "radixsortScatter" ∧ counts' = counts ∧ counts'' = counts ∧ keys' = keys ∧
      blockSize' = blockSize ∧ elements' = elements ∧ firstBit' = firstBit ∧
      (p.source.toList ++ p.target.toList).Nodup
  | _, _, _ => none

end SortPass

variable {keyBytes valueBytes : Nat}

/-- The memory after some commands of a sort of some elements, if they have a meaning. -/
def runCommands (elements : Nat)
    (pass : Nat → SortContent keyBytes valueBytes → SortContent keyBytes valueBytes) :
    List Command → DeviceMemory → Option DeviceMemory
  | [], m => some m
  | .launch reduce :: .launch scan :: .launch scatter :: rest, m =>
    match SortPass.ofLaunches? reduce scan scatter with
    | some p =>
      if p.elements.toNat = elements then
        runCommands elements pass rest (p.target.store (pass p.firstBit.toNat (p.source.load m)) m)
      else none
    | none => none
  | .copy source target size :: rest, m =>
    runCommands elements pass rest (m.store target (m.load source size.toNat))
  | _, _ => none

namespace Radixsort

/-! ## One pass -/

/-- Two sets of buffers that a sort can go to and fro between. -/
structure Alternating (source target : SortBuffers) : Prop where
  distinct : ((source.toList ++ target.toList).map Buffer.id).Nodup
  values : source.values.isSome = target.values.isSome

theorem Alternating.values_eq_none {source target : SortBuffers} (h : Alternating source target)
    (hnone : target.values = none) : source.values = none := by
  have hsome := h.values
  rw [hnone] at hsome
  simpa using hsome

theorem Alternating.symm {source target : SortBuffers} (h : Alternating source target) :
    Alternating target source where
  distinct := by
    have h := h.distinct
    rw [List.map_append] at h ⊢
    exact List.perm_append_comm.nodup_iff.1 h
  values := h.values.symm

theorem SortIds.toList_ofBuffers (s : SortBuffers) :
    (SortIds.ofBuffers s).toList = s.toList.map Buffer.id := by
  obtain ⟨keys, _ | values⟩ := s <;> rfl

theorem Alternating.nodup_target {source target : SortBuffers} (h : Alternating source target) :
    (SortIds.ofBuffers target).toList.Nodup := by
  have h := h.distinct
  rw [List.map_append] at h
  rw [SortIds.toList_ofBuffers]
  exact (List.nodup_append.1 h).2.1

/-- The launches of a pass tell the pass. -/
theorem ofLaunches?_pass {source target : SortBuffers} (h : Alternating source target)
    (plan : RadixsortPlan) (shape : Shape) (firstBit : UInt32) (w₁ w₂ w₃ : List Event) :
    SortPass.ofLaunches? (Backend.recordOf (reduceLaunch plan shape source.keys firstBit) w₁)
      (Backend.recordOf (scanLaunch plan shape) w₂)
      (Backend.recordOf (scatterLaunch plan shape source target firstBit) w₃) =
    some ⟨.ofBuffers source, .ofBuffers target, shape.elementsArg, firstBit⟩ := by
  obtain ⟨distinct, values⟩ := h
  rw [List.map_append, ← SortIds.toList_ofBuffers, ← SortIds.toList_ofBuffers] at distinct
  obtain ⟨keys, _ | input⟩ := source <;> obtain ⟨keysOut, _ | out⟩ := target
  · refine if_pos (decide_eq_true ?_)
    exact ⟨rfl, rfl, rfl, rfl, rfl, rfl, rfl, rfl, rfl, distinct⟩
  · simp at values
  · simp at values
  · refine if_pos (decide_eq_true ?_)
    exact ⟨rfl, rfl, rfl, rfl, rfl, rfl, rfl, rfl, rfl, distinct⟩

variable {b : Backend} {plan : RadixsortPlan} {shape : Shape} {source target : SortBuffers}
  {waitFor events : List Event} {r r' : Recorder}

theorem exec_enqueuePass_eq_ok {firstBit : UInt32}
    (h : exec (enqueuePass b plan shape source target firstBit waitFor) r = (.ok events, r')) :
    ∃ reduced scanned scattered,
      events = [reduced, scanned, scattered] ∧
      Enqueued r r' events
        [.launch (Backend.recordOf (reduceLaunch plan shape source.keys firstBit) waitFor),
          .launch (Backend.recordOf (scanLaunch plan shape) [reduced]),
          .launch
            (Backend.recordOf (scatterLaunch plan shape source target firstBit) [scanned])] := by
  unfold enqueuePass at h
  have h := exec_ofQueue_eq_ok h
  obtain ⟨reduced, r₁, hreduce, h₁⟩ := exec_bind_eq_ok h
  obtain ⟨scanned, r₂, hscan, h₂⟩ := exec_bind_eq_ok h₁
  obtain ⟨scattered, r₃, hscatter, h₃⟩ := exec_bind_eq_ok h₂
  cases h₃
  refine ⟨reduced, scanned, scattered, rfl, ?_⟩
  exact (exec_dispatch_eq_ok hreduce).append
    ((exec_dispatch_eq_ok hscan).append (exec_dispatch_eq_ok hscatter))

/-! ## All passes -/

/-- What passes from one set of buffers on do: after an even number of them the result lies in that
set, after an odd number in the other one. The commands that follow have no part in it. -/
theorem exec_enqueuePasses_eq_ok (keyBytes : Nat) (alternating : Alternating source target)
    (noValues : source.values = none → valueBytes = 0) {firstBits : List UInt32}
    (h : exec (enqueuePasses b plan shape source target waitFor firstBits) r = (.ok events, r')) :
    ∃ commands, Enqueued r r' events commands ∧ Chained waitFor events commands ∧
      (firstBits ≠ [] → ∃ launch rest, commands = .launch launch :: rest) ∧
      ∀ (pass : Nat → SortContent keyBytes valueBytes → SortContent keyBytes valueBytes)
        (m : DeviceMemory), ∃ m',
        (∀ rest, runCommands shape.elementsArg.toNat pass (commands ++ rest) m =
          runCommands shape.elementsArg.toNat pass rest m') ∧
        (SortIds.ofBuffers (if firstBits.length % 2 = 0 then source else target)).load m' =
          firstBits.foldl (fun content bit => pass bit.toNat content)
            ((SortIds.ofBuffers source).load m) := by
  -- The sets change their roles with every pass, so the induction is for all sources and targets.
  -- What runs after the passes is arbitrary, as the first pass has the other ones after it.
  induction firstBits generalizing source target waitFor r events with
  | nil =>
    cases h
    exact ⟨[], .nil _, trivial, fun h => absurd rfl h, fun pass m => ⟨m, fun _ => rfl, rfl⟩⟩
  | cons firstBit rest ih =>
    unfold enqueuePasses at h
    obtain ⟨first, r₁, hpass, h₁⟩ := exec_bind_eq_ok h
    obtain ⟨others, r₂, hothers, h₂⟩ := exec_bind_eq_ok h₁
    cases h₂
    obtain ⟨reduced, scanned, scattered, rfl, enqueued⟩ := exec_enqueuePass_eq_ok hpass
    have noValues' : target.values = none → valueBytes = 0 := fun hnone =>
      noValues (alternating.values_eq_none hnone)
    obtain ⟨commands, henqueued, hchained, -, hmeaning⟩ := ih alternating.symm noValues' hothers
    refine ⟨_, enqueued.append henqueued, ?_, fun _ => ⟨_, _, rfl⟩, fun pass m => ?_⟩
    · exact .append (((Chained.singleton _ _ _).append (Chained.singleton _ _ _)).append
        (Chained.singleton _ _ _)) hchained
    · -- One pass goes from `source` to `target`, the others start with the sets exchanged.
      let content := pass firstBit.toNat ((SortIds.ofBuffers source).load m)
      obtain ⟨m', hrun, hload⟩ := hmeaning pass ((SortIds.ofBuffers target).store content m)
      refine ⟨m', fun tail => ?_, ?_⟩
      · rw [← hrun tail]
        simp only [List.cons_append, List.nil_append]
        rw [runCommands, ofLaunches?_pass alternating]
        exact if_pos rfl
      · rw [SortIds.load_store _ alternating.nodup_target
          (fun h => noValues' (by simpa [SortIds.ofBuffers] using h))] at hload
        have hparity : (if (firstBit :: rest).length % 2 = 0 then source else target) =
            if rest.length % 2 = 0 then target else source := by
          rw [List.length_cons]
          rcases Nat.mod_two_eq_zero_or_one rest.length with h | h
          · rw [if_neg (by omega), if_pos h]
          · rw [if_pos (by omega), if_neg (by omega)]
        rw [hparity, List.foldl_cons, hload]

/-! ## Copies -/

/-- The copies leave the bytes of the elements in the other set of buffers. -/
theorem exec_enqueueCopies_eq_ok (waitFor : List Event) (alternating : Alternating source target)
    (noValues : source.values = none → valueBytes = 0) {elements : Word}
    (hkeys : (elements * plan.keySize).toNat = keyBytes)
    (hvalues : source.values ≠ none → (elements * plan.valueSize).toNat = valueBytes)
    (h : exec (enqueueCopies b plan source target elements) r = (.ok events, r')) :
    ∃ commands, Enqueued r r' events commands ∧ Chained waitFor events commands ∧
      ∀ (n : Nat) (pass : Nat → SortContent keyBytes valueBytes → SortContent keyBytes valueBytes)
        (m : DeviceMemory), ∃ m', runCommands n pass commands m = some m' ∧
        ((SortIds.ofBuffers target).load m' : SortContent keyBytes valueBytes) =
          (SortIds.ofBuffers source).load m := by
  unfold enqueueCopies at h
  have h := exec_ofQueue_eq_ok h
  obtain ⟨e, r₁, hcopy, h₁⟩ := exec_bind_eq_ok h
  have first := exec_copy_eq_ok hcopy
  have distinct := alternating.distinct
  have values := alternating.values
  obtain ⟨keys, _ | input⟩ := source <;> obtain ⟨keysOut, _ | out⟩ := target
  -- Either both sets have values or none of them has.
  case none.some | some.none => simp at values
  case none.none =>
    cases h₁
    obtain rfl := noValues rfl
    refine ⟨_, first, ⟨by simp, trivial⟩, fun n pass m => ⟨_, rfl, Prod.ext ?_ rfl⟩⟩
    subst hkeys
    exact DeviceMemory.load_store_self _
  case some.some =>
    obtain ⟨e', r₂, hcopy', h₂⟩ := exec_bind_eq_ok h₁
    cases h₂
    refine ⟨_, first.append (exec_copy_eq_ok hcopy'), ⟨by simp, by simp, trivial⟩,
      fun n pass m => ⟨_, rfl, Prod.ext ?_ ?_⟩⟩
    all_goals
      subst hkeys
      obtain rfl := hvalues (by simp)
      simp only [SortBuffers.toList, Option.toList_some, List.cons_append, List.nil_append,
        List.map_cons, List.map_nil, List.nodup_cons, List.mem_cons, List.not_mem_nil, or_false,
        not_or] at distinct
    · exact (DeviceMemory.load_store_of_ne _ distinct.2.2.1).trans (DeviceMemory.load_store_self _)
    · refine (DeviceMemory.load_store_self _).trans ?_
      exact DeviceMemory.load_store_of_ne _ distinct.2.1.1

/-! ## Temporary buffers -/

/-- The buffers of the caller, temporary ones included, are different buffers of the device. -/
structure CallerBuffers (r : Recorder) (plan : RadixsortPlan) (args : RadixsortArgs) : Prop where
  distinct : ((args.buffers.toList ++ plan.temporaryKeys.toList ++
    plan.temporaryValues.toList).map Buffer.id).Nodup
  known : ∀ buffer ∈ args.buffers.toList ++ plan.temporaryKeys.toList ++
    plan.temporaryValues.toList, buffer.id ≤ r.lastId

/-- A temporary buffer is the one of the caller, or a new one. -/
theorem exec_temporary_eq_ok {provided : Option Buffer} {size : Word} {buffer : Buffer}
    (h : exec (temporary b provided size) r = (.ok buffer, r')) :
    r'.history = r.history ∧
      (provided = some buffer ∧ r' = r ∨ buffer.id = r.lastId + 1 ∧ r'.lastId = r.lastId + 1) := by
  unfold temporary at h
  split at h
  · rename_i chosen hchosen
    cases h
    exact ⟨rfl, .inl ⟨(Option.filter_eq_some_iff.1 hchosen).1, rfl⟩⟩
  · obtain ⟨rfl, hid, hhistory⟩ := exec_createBuffer_eq_ok (exec_ofQueue_eq_ok h)
    exact ⟨hhistory, .inr ⟨rfl, hid⟩⟩

theorem exec_temporaries_eq_ok {args : RadixsortArgs} {temp : SortBuffers}
    (buffers : CallerBuffers r plan args)
    (h : exec (temporaries b plan args) r = (.ok temp, r')) :
    r'.history = r.history ∧ Alternating args.buffers temp := by
  obtain ⟨distinct, known⟩ := buffers
  unfold temporaries at h
  obtain ⟨keys, r₁, hkeysRun, h₁⟩ := exec_bind_eq_ok h
  obtain ⟨hhistory, hkeys⟩ := exec_temporary_eq_ok hkeysRun
  obtain ⟨⟨argKeys, _ | argValues⟩, elements, maxBits⟩ := args
  · cases h₁
    refine ⟨hhistory, ?_, rfl⟩
    simp only [SortBuffers.toList, Option.toList_none, List.cons_append, List.nil_append,
      List.map_cons, List.map_nil, List.map_append, List.mem_cons, List.mem_append]
      at distinct known ⊢
    grind
  · obtain ⟨values, r₂, hvaluesRun, h₂⟩ := exec_bind_eq_ok h₁
    obtain ⟨hhistory', hvalues⟩ := exec_temporary_eq_ok hvaluesRun
    cases h₂
    refine ⟨hhistory'.trans hhistory, ?_, rfl⟩
    simp only [SortBuffers.toList, Option.toList_some, List.cons_append, List.nil_append,
      List.map_cons, List.map_nil, List.map_append, List.mem_cons, List.mem_append]
      at distinct known ⊢
    grind

/-! ## Arguments -/

theorem checkedMul_of_any {x y size : Word} (h : (Word.checkedMul x y).any (· ≤ size) = true) :
    (x * y).toNat = x.toNat * y.toNat := by
  unfold Word.checkedMul Word.ofNat? at h
  split at h
  · rename_i hlt
    exact Word.toNat_mul_of_lt hlt
  · cases h

/-- What the check of the arguments has found. -/
structure Accepted (plan : RadixsortPlan) (args : RadixsortArgs) (bits : Word) : Prop where
  keyBytes : (args.elements * plan.keySize).toNat = args.elements.toNat * plan.keySize.toNat
  noValues : args.buffers.values = none → plan.valueSize = 0
  valueBytes : args.buffers.values ≠ none →
    (args.elements * plan.valueSize).toNat = args.elements.toNat * plan.valueSize.toNat
  bits : effectiveBits plan args.maxBits = .ok bits

theorem accepted_of_checkArgs {args : RadixsortArgs} {bits : Word}
    (h : checkArgs plan args = .ok bits) : Accepted plan args bits := by
  unfold checkArgs at h
  obtain ⟨_, hkeys, h⟩ := Attempt.bind_eq_ok.1 h
  obtain ⟨_, hvalues, h⟩ := Attempt.bind_eq_ok.1 h
  obtain ⟨-, h⟩ := Attempt.ensure_bind_eq_ok.1 h
  obtain ⟨_, -, hbits⟩ := Attempt.bind_eq_ok.1 h
  unfold checkBuffer at hkeys
  refine ⟨checkedMul_of_any (Attempt.ensure_bind_eq_ok.1 hkeys).1, fun hnone => ?_, fun hsome => ?_,
    hbits⟩
  · rw [hnone, checkValues, Attempt.ensure_eq_ok] at hvalues
    exact of_decide_eq_true hvalues
  · obtain ⟨values, hvalues'⟩ := Option.ne_none_iff_exists'.1 hsome
    rw [hvalues', checkValues] at hvalues
    split at hvalues
    · cases hvalues
    · unfold checkBuffer at hvalues
      exact checkedMul_of_any (Attempt.ensure_bind_eq_ok.1 hvalues).1

/-! ## First bits -/

/-- The number of lowest bits that an execution sorts on. -/
def sortedBits (plan : RadixsortPlan) (args : RadixsortArgs) : Nat :=
  if args.maxBits = 0 then 8 * plan.keySize.toNat else args.maxBits.toNat

theorem sortedBits_pos (hsize : 0 < plan.keySize.toNat) (args : RadixsortArgs) :
    0 < sortedBits plan args := by
  unfold sortedBits
  split
  · omega
  · rename_i hne
    exact Nat.pos_of_ne_zero fun h => hne (UInt32.toNat_inj.1 h)

theorem toNat_effectiveBits {maxBits : UInt32} {bits : Word} (hsize : plan.keySize.toNat ≤ 8)
    (h : effectiveBits plan maxBits = .ok bits) :
    bits.toNat = (if maxBits = 0 then 8 * plan.keySize.toNat else maxBits.toNat) ∧
      bits.toNat ≤ 64 := by
  have hbits : (keyBits plan).toNat = 8 * plan.keySize.toNat :=
    Word.toNat_mul_of_lt (show 8 * plan.keySize.toNat < 2 ^ 64 by omega)
  unfold effectiveBits at h
  split at h
  · cases h
    rename_i hzero
    rw [if_pos hzero, hbits]
    exact ⟨rfl, by omega⟩
  · split at h
    · cases h
    · cases h
      rename_i hzero hle
      rw [UInt64.not_lt, UInt64.le_iff_toNat_le, hbits] at hle
      rw [if_neg hzero]
      exact ⟨UInt32.toNat_toUInt64 maxBits, by omega⟩

/-- The multiples of the bits per pass below a number of bits. -/
def passStarts (step bits : Nat) : List Nat := (List.range bits).filter (· % step = 0)

theorem passStarts_ne_nil {step bits : Nat} (h : 0 < bits) : passStarts step bits ≠ [] := by
  intro hnil
  rw [passStarts, List.filter_eq_nil_iff] at hnil
  exact hnil 0 (List.mem_range.2 h) (by simp)

theorem passStarts_eq {step : Nat} (hstep : 1 ≤ step) (bits : Nat) :
    (List.range ((bits + step - 1) / step)).map (· * step) = passStarts step bits := by
  induction bits with
  | zero =>
    simp only [passStarts, Nat.zero_add, Nat.div_eq_of_lt (Nat.sub_lt hstep Nat.one_pos)]
    rfl
  | succ bits ih =>
    have hsucc : (bits + 1 + step - 1) / step = bits / step + 1 := by
      rw [show bits + 1 + step - 1 = bits + step by omega, Nat.add_div_right _ hstep]
    have hdiv := Nat.div_add_mod bits step
    unfold passStarts at ih ⊢
    rw [List.range_succ, List.filter_append, ← ih, hsucc]
    by_cases hrem : bits % step = 0
    · -- A pass starts at `bits`.
      have hbits : bits + step - 1 = step * (bits / step) + (step - 1) := by omega
      have hlast : bits / step * step = bits := by rw [Nat.mul_comm]; omega
      rw [hbits, Nat.mul_add_div hstep, Nat.div_eq_of_lt (Nat.sub_lt hstep Nat.one_pos),
        Nat.add_zero, List.range_succ, List.map_append]
      simp [hrem, hlast]
    · have hbits : bits + step - 1 = step * (bits / step + 1) + (bits % step - 1) := by
        rw [Nat.mul_add_one]
        omega
      have hlt : bits % step - 1 < step := by have := Nat.mod_lt bits hstep; omega
      rw [hbits, Nat.mul_add_div hstep, Nat.div_eq_of_lt hlt]
      simp [hrem]

theorem map_toNat_firstBits (hstep : 1 ≤ plan.geometry.radixBits) {bits : Word}
    (hbits : bits.toNat ≤ 64) :
    (firstBits plan bits).map UInt32.toNat =
      passStarts plan.geometry.radixBits.toNat bits.toNat := by
  have hstep : 1 ≤ plan.geometry.radixBits.toNat := UInt64.le_iff_toNat_le.1 hstep
  have hmap : (firstBits plan bits).map UInt32.toNat =
      ((List.range ((bits.toNat + plan.geometry.radixBits.toNat - 1) /
        plan.geometry.radixBits.toNat)).map (· * plan.geometry.radixBits.toNat)).map
          (fun start => (UInt32.ofNat start).toNat) := by
    unfold firstBits
    rw [List.map_map, List.map_map]
    rfl
  rw [hmap, passStarts_eq hstep]
  refine (List.map_congr_left fun start hstart => ?_).trans (List.map_id _)
  have hlt := List.mem_range.1 (List.mem_filter.1 hstart).1
  exact UInt32.toNat_ofNat_of_lt' (show start < 2 ^ 32 by omega)

/-- The passes start at the multiples of their bits, and there is at least one. -/
theorem firstBits_of_effectiveBits {args : RadixsortArgs} {bits : Word}
    (hstep : 1 ≤ plan.geometry.radixBits) (hpos : 0 < plan.keySize.toNat)
    (hsize : plan.keySize.toNat ≤ 8) (h : effectiveBits plan args.maxBits = .ok bits) :
    (firstBits plan bits).map UInt32.toNat =
      passStarts plan.geometry.radixBits.toNat (sortedBits plan args) ∧
    firstBits plan bits ≠ [] := by
  obtain ⟨hsorted, hle⟩ := toNat_effectiveBits hsize h
  have hstarts : (firstBits plan bits).map UInt32.toNat =
      passStarts plan.geometry.radixBits.toNat (sortedBits plan args) := by
    rw [map_toNat_firstBits hstep hle, hsorted]
    rfl
  refine ⟨hstarts, fun hnil => ?_⟩
  rw [hnil, List.map_nil] at hstarts
  exact passStarts_ne_nil (sortedBits_pos hpos args) hstarts.symm

/-! ## Executions -/

theorem keySize_of_validate {d : DeviceProperties} {problem : RadixsortProblem}
    (h : validate d problem = .ok ()) :
    0 < problem.key.storageSize.toNat ∧ problem.key.storageSize.toNat ≤ 8 := by
  have h := (Attempt.ensure_bind_eq_ok.1 h).1
  obtain ⟨⟨base, length, valid⟩, value⟩ := problem
  simp only [Bool.and_eq_true, decide_eq_true_eq] at h
  obtain ⟨⟨⟨⟨hintegral, -⟩, hlength⟩, -⟩, -⟩ := h
  show 0 < ((if length = 3 then 4 else length.toUInt64) * base.size).toNat ∧
    ((if length = 3 then 4 else length.toUInt64) * base.size).toNat ≤ 8
  obtain rfl : length = 1 := hlength
  have hintegral : base.isIntegral = true := hintegral
  cases base <;> first | exact ⟨by decide, by decide⟩ | cases hintegral

/-- What a plan is built from. -/
structure BuiltFrom (b : Backend) (problem : RadixsortProblem) (p : TuningParameters)
    (plan : RadixsortPlan) : Prop where
  geometry : RadixsortGeometry.ofParameters b.properties p = .ok plan.geometry
  program : plan.program = program b.properties problem plan.geometry
  histogram : plan.histogram.size = plan.geometry.histogramSize
  keySize : plan.keySize = problem.key.storageSize
  valueSize : plan.valueSize = problem.value.storageSize

theorem builtFrom_of_build {problem : RadixsortProblem} {p : TuningParameters}
    (h : exec (build b problem p) r = (.ok plan, r')) : BuiltFrom b problem p plan := by
  unfold build at h
  obtain ⟨_, -, h⟩ := exec_attempt_bind_eq_ok.1 h
  obtain ⟨g, hg, h⟩ := exec_attempt_bind_eq_ok.1 h
  obtain ⟨built, r₁, hbuilt, h⟩ := exec_bind_eq_ok h
  obtain ⟨histogram, r₂, hcreate, h⟩ := exec_bind_eq_ok h
  cases h
  obtain rfl := eq_program_of_buildProgram (exec_ofQueue_eq_ok hbuilt)
  obtain ⟨rfl, -, -⟩ := exec_createBuffer_eq_ok (exec_ofQueue_eq_ok hcreate)
  exact ⟨hg, rfl, rfl, rfl, rfl⟩

theorem plan_of_build {problem : RadixsortProblem} {p : TuningParameters}
    (h : exec (build b problem p) r = (.ok plan, r')) :
    plan.geometry.Fits b.properties ∧ plan.keySize = problem.key.storageSize ∧
      plan.valueSize = problem.value.storageSize :=
  have built := builtFrom_of_build h
  ⟨(RadixsortGeometry.ofParameters_eq_ok.1 built.geometry).2, built.keySize, built.valueSize⟩

theorem elementsArg_of_shapeOf {elements : Word} (h : shapeOf plan elements = .ok shape) :
    shape.elementsArg.toNat = elements.toNat := by
  unfold shapeOf at h
  obtain ⟨blockSize, -, h⟩ := Attempt.ofArithmetic_bind_eq_ok.1 h
  obtain ⟨blocks, -, h⟩ := Attempt.ofArithmetic_bind_eq_ok.1 h
  obtain ⟨-, h⟩ := Attempt.ensure_bind_eq_ok.1 h
  obtain ⟨elementsArg, hfit, h⟩ := Attempt.bind_eq_ok.1 h
  obtain ⟨blockSizeArg, -, h⟩ := Attempt.bind_eq_ok.1 h
  obtain ⟨blocksArg, -, h⟩ := Attempt.bind_eq_ok.1 h
  cases h
  unfold KernelArg.fit at hfit
  split at hfit
  · rename_i hlt
    cases hfit
    exact UInt32.toNat_ofNat_of_lt' hlt
  · cases hfit

/-- What an execution of a plan has enqueued. -/
structure RunsPasses (plan : RadixsortPlan) (args : RadixsortArgs) (waitFor events : List Event)
    (r r' : Recorder) (commands : List Command) : Prop where
  commands_eq : r'.commands = r.commands ++ commands
  /-- The events are those of the commands, one for each, once temporary buffers are there. -/
  enqueued : ∃ r₁, r₁.history = r.history ∧ Enqueued r₁ r' events commands
  first : ∃ launch rest, commands = .launch launch :: rest ∧
    launch.waitFor = waitFor.map Event.id
  chained : Chained waitFor events commands
  last : ∃ e, events.getLast? = some e ∧ e.id = r'.lastId
  /-- Whatever the passes do, their composition is left in the buffers of the caller. -/
  sorted : ∀ (pass : Nat →
      SortContent (args.elements.toNat * plan.keySize.toNat)
        (args.elements.toNat * plan.valueSize.toNat) →
      SortContent (args.elements.toNat * plan.keySize.toNat)
        (args.elements.toNat * plan.valueSize.toNat)) (m : DeviceMemory),
    ∃ m', runCommands args.elements.toNat pass commands m = some m' ∧
      (SortIds.ofBuffers args.buffers).load m' =
        (passStarts plan.geometry.radixBits.toNat (sortedBits plan args)).foldl
          (fun content start => pass start content) ((SortIds.ofBuffers args.buffers).load m)

/-- Whatever the last part of an execution is, its commands follow those of the passes. -/
theorem RunsPasses.of_enqueued {args : RadixsortArgs} {r₁ : Recorder} {launch : LaunchRecord}
    {rest : List Command} (history : r₁.history = r.history)
    (enqueued : Enqueued r₁ r' events (.launch launch :: rest))
    (chained : Chained waitFor events (.launch launch :: rest))
    (sorted : ∀ (pass : Nat →
        SortContent (args.elements.toNat * plan.keySize.toNat)
          (args.elements.toNat * plan.valueSize.toNat) →
        SortContent (args.elements.toNat * plan.keySize.toNat)
          (args.elements.toNat * plan.valueSize.toNat)) (m : DeviceMemory),
      ∃ m', runCommands args.elements.toNat pass (.launch launch :: rest) m = some m' ∧
        (SortIds.ofBuffers args.buffers).load m' =
          (passStarts plan.geometry.radixBits.toNat (sortedBits plan args)).foldl
            (fun content start => pass start content) ((SortIds.ofBuffers args.buffers).load m)) :
    RunsPasses plan args waitFor events r r' (.launch launch :: rest) where
  commands_eq := by
    rw [enqueued.commands_eq, Recorder.commands, Recorder.commands, history]
  enqueued := ⟨r₁, history, enqueued⟩
  first := ⟨launch, rest, rfl, chained.first⟩
  chained := chained
  last := enqueued.getLast?_events (List.cons_ne_nil _ _)
  sorted := sorted

/-- **An execution leaves the result of its passes with the caller**, whatever their number, the
temporary buffers and the events that it waits for. -/
theorem enqueue_runs_passes {problem : RadixsortProblem} {parameters : TuningParameters}
    {built : RadixsortPlan} {r₀ r₁ : Recorder} {temporaryKeys temporaryValues : Option Buffer}
    {args : RadixsortArgs} (valid : validate b.properties problem = .ok ())
    (build : exec (build b problem parameters) r₀ = (.ok built, r₁))
    (plan_eq : plan = setTemporaries temporaryKeys temporaryValues built)
    (buffers : CallerBuffers r plan args)
    (run : exec (enqueue b plan args waitFor) r = (.ok events, r')) :
    ∃ commands, RunsPasses plan args waitFor events r r' commands := by
  obtain ⟨fits, hkeySize, -⟩ := plan_of_build build
  have hbits : 1 ≤ plan.geometry.radixBits := plan_eq ▸ fits.one_le_bits
  have hsize : 0 < plan.keySize.toNat ∧ plan.keySize.toNat ≤ 8 := by
    rw [plan_eq]
    exact hkeySize ▸ keySize_of_validate valid
  unfold enqueue at run
  obtain ⟨bits, hcheck, h₁⟩ := exec_attempt_bind_eq_ok.1 run
  obtain ⟨temp, r₂, htemp, h₂⟩ := exec_bind_eq_ok h₁
  obtain ⟨shape, hshape, h₃⟩ := exec_attempt_bind_eq_ok.1 h₂
  obtain ⟨sorted, r₃, hpasses, h₄⟩ := exec_bind_eq_ok h₃
  have accepted := accepted_of_checkArgs hcheck
  -- Two disjoint sets of buffers, of the caller and the temporary ones: the passes alternate.
  obtain ⟨hhistory, alternating⟩ := exec_temporaries_eq_ok buffers htemp
  obtain ⟨hstarts, hne⟩ := firstBits_of_effectiveBits hbits hsize.1 hsize.2 accepted.bits
  have noValues : args.buffers.values = none →
      args.elements.toNat * plan.valueSize.toNat = 0 := by
    intro hnone
    rw [accepted.noValues hnone]
    rfl
  obtain ⟨commands, henqueued, hchained, hfirst, hmeaning⟩ := exec_enqueuePasses_eq_ok
    (args.elements.toNat * plan.keySize.toNat) alternating noValues hpasses
  obtain ⟨launch, rest, rfl⟩ := hfirst hne
  rw [elementsArg_of_shapeOf hshape] at hmeaning
  split at h₄
  · -- After an even number of passes the result is in the buffers of the caller.
    rename_i heven
    cases h₄
    refine ⟨_, .of_enqueued hhistory henqueued hchained fun pass m => ?_⟩
    obtain ⟨m', hrun, hload⟩ := hmeaning pass m
    rw [if_pos heven] at hload
    refine ⟨m', ?_, ?_⟩
    · have h := hrun []
      rwa [List.append_nil] at h
    · rw [hload, ← hstarts, List.foldl_map]
  · -- After an odd number it is in the temporary buffers, and is copied back.
    rename_i hodd
    obtain ⟨copied, r₄, hcopies, h₅⟩ := exec_bind_eq_ok h₄
    cases h₅
    obtain ⟨copies, henqueued', hchained', hmeaning'⟩ := exec_enqueueCopies_eq_ok
      (eventsAfter sorted waitFor) alternating.symm
      (fun hnone => noValues (alternating.values_eq_none hnone)) accepted.keyBytes
      (fun hsome => accepted.valueBytes fun hnone => hsome (alternating.symm.values_eq_none hnone))
      hcopies
    refine ⟨_, .of_enqueued hhistory (henqueued.append henqueued') (hchained.append hchained')
      fun pass m => ?_⟩
    obtain ⟨m', hrun, hload⟩ := hmeaning pass m
    obtain ⟨m'', hrun', hload'⟩ := hmeaning' args.elements.toNat pass m'
    rw [if_neg hodd] at hload
    refine ⟨m'', (hrun copies).trans hrun', ?_⟩
    rw [hload', hload, ← hstarts, List.foldl_map]

/-! ### Small sorts -/

/-- The smallest geometry that a graphics device with groups of 32 scatters with. -/
def smallGeometry : RadixsortGeometry := ⟨4, 16, 16, 32, 1, 32, 8⟩

/-- A plan for pairs of 32-bit words on a small graphics device. -/
def smallPlan : RadixsortPlan where
  program := program Backend.gpuProperties ⟨⟨.uint, 1, by decide⟩, ⟨.uint, 1, by decide⟩⟩
    smallGeometry
  histogram := ⟨1, smallGeometry.histogramSize, .readWrite⟩
  geometry := smallGeometry
  keySize := 4
  valueSize := 4
  temporaryKeys := none
  temporaryValues := none

/-- All elements of two buffers, on their four lowest bits. -/
def smallArgs : RadixsortArgs := ⟨⟨⟨2, 4096, .readWrite⟩, some ⟨3, 4096, .readWrite⟩⟩, 1024, 4⟩

/-- Two passes end in the buffers of the caller. Three end in the temporary buffers, and the result
is copied back. -/
theorem enqueue_runs_passes_alternating :
    let two : RadixsortArgs := { smallArgs with maxBits := 8 }
    let three : RadixsortArgs := { smallArgs with maxBits := 12 }
    let start : Recorder := { Recorder.start with lastId := 3 }
    (passStarts 4 (sortedBits smallPlan two) = [0, 4] ∧
      ∃ events r' commands, RunsPasses smallPlan two [] events start r' commands) ∧
    (passStarts 4 (sortedBits smallPlan three) = [0, 4, 8] ∧
      ∃ events r' commands, RunsPasses smallPlan three [] events start r' commands) := by
  intro two three start
  have valid : validate (Backend.ofProperties Backend.gpuProperties).properties
      ⟨⟨.uint, 1, by decide⟩, ⟨.uint, 1, by decide⟩⟩ = .ok () := by rfl
  have build : exec (build (.ofProperties Backend.gpuProperties)
      ⟨⟨.uint, 1, by decide⟩, ⟨.uint, 1, by decide⟩⟩
      (Parameter.withWarpSizes smallGeometry.toParameters Backend.gpuProperties)) .start =
      (.ok smallPlan, ⟨1, [], 1, 1, [], 0, 1⟩) := by rfl
  have runs (args : RadixsortArgs) (buffers : CallerBuffers start smallPlan args)
      (succeeds : (exec (enqueue (.ofProperties Backend.gpuProperties) smallPlan args [])
        start).1.isOk = true) :
      ∃ events r' commands, RunsPasses smallPlan args [] events start r' commands := by
    rcases run : exec (enqueue (.ofProperties Backend.gpuProperties) smallPlan args []) start with
      ⟨e | events, r'⟩
    · rw [run] at succeeds
      cases succeeds
    · have plan_eq : smallPlan = setTemporaries none none smallPlan := rfl
      exact ⟨events, r', enqueue_runs_passes valid build plan_eq buffers run⟩
  exact ⟨⟨by decide, runs two ⟨by decide, by decide⟩ (by decide +kernel)⟩,
    by decide, runs three ⟨by decide, by decide⟩ (by decide +kernel)⟩

end Radixsort

end KernelTuning
