import KernelTuning.Proofs.Acceptance
import KernelTuning.Proofs.Rounding
import KernelTuning.Proofs.Searching
import KernelTuning.SortedMap.Lemmas

/-!
# Measurements

A plan is measured by its own executions: on two sizes, once to warm up and once for the time.

* `Timed` says that commands came between two states, and that the durations of their events are
  known in the second one. It holds of every chain of requests (`timed_chain`), so a measurement
  can always wait for its executions.
* `succeeds_measure`, one for each primitive: on a backend that runs what the device allows, a plan
  that fits is measured in every state. The sizes that are measured are small enough for all
  limits.
* `isValidScore_measure`: if the seconds of every launch fit in a word, every score is finite and
  not below zero.
-/

namespace KernelTuning

variable {P : Nat → Prop}

/-! ## Durations -/

/-- What holds of the durations of all commands. -/
structure Backend.Durations (b : Backend) (P : Nat → Prop) : Prop where
  launch : ∀ calls launch ns, b.cost calls launch = .ok ns → P ns
  copy : ∀ size : Word, P (size / 8).toNat
  read : P 0

/-- The nanoseconds of `2 ^ 64` seconds, which no reported duration reaches. -/
def Backend.durationBound : Nat := 2 ^ 64 * 10 ^ 9

/-- Commands came between two states. The durations of their events are known, and those of
earlier events stay as they were. -/
structure Timed (P : Nat → Prop) (r r' : Recorder) (events : List Event) : Prop where
  lastId_le : r.lastId ≤ r'.lastId
  earlier : ∀ id ≤ r.lastId, r'.durations.lookup id = r.durations.lookup id
  known : ∀ e ∈ events, e.id ≤ r'.lastId ∧ ∃ ns, r'.durations.lookup e.id = some ns ∧ P ns

namespace Timed

variable {r r₁ r₂ : Recorder} {events events₁ events₂ : List Event}

theorem nil (r : Recorder) : Timed P r r [] :=
  ⟨Nat.le_refl _, fun _ _ => rfl, List.forall_mem_nil _⟩

theorem record (r : Recorder) (command : Command) (name : String) {ns : Nat} (h : P ns) :
    Timed P r (r.record command ns) [⟨r.lastId + 1, name⟩] where
  lastId_le := Nat.le_succ _
  earlier id hid := by
    show List.lookup id ((r.lastId + 1, ns) :: r.durations) = _
    rw [SortedMap.lookup_cons, if_neg (by omega)]
  known e he := by
    obtain rfl := List.mem_singleton.1 he
    refine ⟨Nat.le_refl _, ns, ?_, h⟩
    show List.lookup (r.lastId + 1) ((r.lastId + 1, ns) :: r.durations) = _
    rw [SortedMap.lookup_cons, if_pos rfl]

theorem append (h₁ : Timed P r r₁ events₁) (h₂ : Timed P r₁ r₂ events₂) :
    Timed P r r₂ (events₁ ++ events₂) where
  lastId_le := Nat.le_trans h₁.lastId_le h₂.lastId_le
  earlier id hid := by rw [h₂.earlier id (Nat.le_trans hid h₁.lastId_le), h₁.earlier id hid]
  known e he := by
    rcases List.mem_append.1 he with he | he
    · obtain ⟨hid, ns, hlookup, hns⟩ := h₁.known e he
      exact ⟨Nat.le_trans hid h₂.lastId_le, ns, by rw [h₂.earlier _ hid, hlookup], hns⟩
    · exact h₂.known e he

end Timed

section

variable {b : Backend} {r r' : Recorder} {waitFor events : List Event}

theorem timed_send (durations : b.Durations P) {request : Request} {e : Event}
    (h : exec (b.send request waitFor) r = (.ok e, r')) : Timed P r r' [e] := by
  cases request with
  | launch launch =>
    obtain ⟨ns, hcost, rfl, rfl⟩ := exists_cost_of_dispatch h
    obtain ⟨hle, hearlier, hknown⟩ :=
      Timed.record { r with costCalls := r.costCalls + 1 }
        (.launch (Backend.recordOf launch waitFor)) launch.kernel (durations.launch _ _ _ hcost)
    exact ⟨hle, hearlier, hknown⟩
  | copy source target size =>
    obtain ⟨rfl, rfl⟩ := @eq_record_of_copy b _ _ _ _ _ _ h
    exact .record r _ _ (durations.copy size)
  | read source offset size =>
    obtain ⟨⟨e', bytes⟩, r₁, hread, h⟩ := exec_bind_eq_ok h
    cases h
    obtain ⟨rfl, rfl⟩ := eq_record_of_read hread
    exact .record r _ _ durations.read

theorem timed_chain (durations : b.Durations P) {requests : List Request}
    (h : exec (chain b.send waitFor requests) r = (.ok events, r')) : Timed P r r' events := by
  induction requests generalizing waitFor events r with
  | nil =>
    cases h
    exact .nil _
  | cons request rest ih =>
    obtain ⟨e, r₁, hsend, h⟩ := exec_bind_eq_ok h
    obtain ⟨events', r₂, hrest, h⟩ := exec_bind_eq_ok h
    cases h
    exact (timed_send durations hsend).append (ih hrest)

/-! ## Waiting -/

/-- The time of some events is the sum of their durations. -/
theorem exec_totalElapsed
    (known : ∀ e ∈ events, ∃ ns, r.durations.lookup e.id = some ns ∧ P ns) :
    ∃ times : List Nat, exec (b.totalElapsed events) r = (.ok times.sum, r) ∧
      times.length = events.length ∧ ∀ ns ∈ times, P ns := by
  have waits : ∃ times : List Nat, exec (events.mapM b.wait) r = (.ok times, r) ∧
      times.length = events.length ∧ ∀ ns ∈ times, P ns := by
    induction events with
    | nil => exact ⟨[], rfl, rfl, List.forall_mem_nil _⟩
    | cons e events ih =>
      obtain ⟨ns, hlookup, hns⟩ := known e List.mem_cons_self
      obtain ⟨times, hrest, hlength, hall⟩ :=
        ih fun e' he' => known e' (List.mem_cons_of_mem _ he')
      have hwait : exec (b.wait e) r = (.ok ns, r) := by
        unfold Backend.wait
        rw [exec_mk, hlookup]
      refine ⟨ns :: times, ?_, by simp [hlength], List.forall_mem_cons.2 ⟨hns, hall⟩⟩
      rw [List.mapM_cons, exec_bind_of_ok hwait, exec_bind_of_ok hrest, exec_pure]
  obtain ⟨times, hwaits, hlength, hall⟩ := waits
  refine ⟨times, ?_, hlength, hall⟩
  unfold Backend.totalElapsed
  rw [exec_bind_of_ok (exec_ofQueue_of_ok hwaits), exec_pure, List.sum_eq_foldl]

end

/-! ## Runs -/

/-- The events of a run, of which there are at most `n`, have known durations. -/
def Device.Reports (P : Nat → Prop) (n : Nat) (run : Device (List Event)) : Prop :=
  ∀ r events r', exec run r = (.ok events, r') → events.length ≤ n ∧
    ∀ e ∈ events, ∃ ns, r'.durations.lookup e.id = some ns ∧ P ns

/-- The run succeeds in every state. -/
def Device.Succeeds {α : Type} (x : Device α) : Prop := ∀ r, ∃ a r', exec x r = (.ok a, r')

/-- A run that prepares at most `n` requests and sends them. -/
theorem reports_chain {b : Backend} (durations : b.Durations P) {prepare : Device (List Request)}
    {waitFor : List Event} {n : Nat}
    (h : ∀ r rs r', exec prepare r = (.ok rs, r') → rs.length ≤ n) :
    Device.Reports P n (prepare >>= fun rs => Device.ofQueue (chain b.send waitFor rs)) := by
  intro r events r' run
  obtain ⟨rs, r₁, hprepare, hchain⟩ := exec_bind_eq_ok run
  have hchain := exec_ofQueue_eq_ok hchain
  refine ⟨length_of_chain hchain ▸ h _ _ _ hprepare, fun e he => ?_⟩
  exact ((timed_chain durations hchain).known e he).2

theorem succeeds_chain {b : Backend} (runs : b.Runs) {prepare : Device (List Request)}
    {waitFor : List Event} (succeeds : prepare.Succeeds)
    (h : ∀ r rs r', exec prepare r = (.ok rs, r') →
      ∀ request ∈ rs, request.WithinBounds b.properties) :
    (prepare >>= fun rs => Device.ofQueue (chain b.send waitFor rs)).Succeeds := by
  intro r
  obtain ⟨rs, r₁, hprepare⟩ := succeeds r
  obtain ⟨events, r', hchain⟩ := exec_chain_of_runs runs (h _ _ _ hprepare) waitFor r₁
  exact ⟨events, r', by rw [exec_bind_of_ok hprepare, exec_ofQueue_of_ok hchain]⟩

namespace Measurement

variable {b : Backend} {n : Nat}

theorem succeeds_warmThenTime {run : Device (List Event)} (succeeds : run.Succeeds)
    (reports : run.Reports P n) : (warmThenTime b run).Succeeds := by
  intro r
  obtain ⟨events, r₁, hwarm⟩ := succeeds r
  obtain ⟨_, hwait, -⟩ := @exec_totalElapsed P b r₁ events (reports _ _ _ hwarm).2
  obtain ⟨events', r₂, htime⟩ := succeeds r₁
  obtain ⟨_, hwait', -⟩ := @exec_totalElapsed P b r₂ events' (reports _ _ _ htime).2
  unfold warmThenTime
  rw [exec_bind_of_ok hwarm, exec_bind_of_ok hwait, exec_bind_of_ok htime]
  exact ⟨_, _, hwait'⟩

theorem succeeds_score {elemSize : Word} {prepare : Word → Device (Device (List Event))}
    (succeeds : ∀ elements ∈ problemSizes elemSize, (prepare elements).Succeeds)
    (run : ∀ elements ∈ problemSizes elemSize, ∀ r run r',
      exec (prepare elements) r = (.ok run, r') → run.Succeeds ∧ run.Reports P n) :
    (score b elemSize prepare).Succeeds := by
  have times : (problemSizes elemSize).mapM (fun elements => do
      let run ← prepare elements
      return perElement (← warmThenTime b run) elements) |>.Succeeds := by
    refine exists_mapM fun elements helements r => ?_
    obtain ⟨x, r₁, hprepare⟩ := succeeds elements helements r
    obtain ⟨hx, reports⟩ := run elements helements _ _ _ hprepare
    obtain ⟨ns, r₂, htime⟩ := succeeds_warmThenTime hx reports r₁
    exact ⟨_, r₂, by rw [exec_bind_of_ok hprepare, exec_bind_of_ok htime, exec_pure]⟩
  intro r
  obtain ⟨xs, r', htimes⟩ := times r
  unfold score
  exact ⟨_, r', by rw [exec_bind_of_ok htimes, exec_pure]⟩

theorem problemSizes_bounds {elemSize elements : Word} (h : elements ∈ problemSizes elemSize) :
    1 ≤ elements.toNat ∧ elements.toNat ≤ 2 ^ 25 := by
  have hsmall : smallElements.toNat = 65536 := rfl
  have hlarge : largeBytes.toNat = 2 ^ 25 := rfl
  have hdiv := Nat.div_le_self largeBytes.toNat (max elemSize 1).toNat
  rcases List.mem_cons.1 h with rfl | h
  · omega
  · obtain rfl := List.mem_singleton.1 h
    rw [Word.toNat_max, UInt64.toNat_div, UInt64.toNat_one]
    omega

/-- The bytes of the elements that are measured. -/
theorem toNat_mul_storageSize {elemSize elements : Word} (h : elements ∈ problemSizes elemSize)
    (t : ElemType) :
    (elements * t.storageSize).toNat = elements.toNat * t.storageSize.toNat := by
  have hle : t.storageSize.toNat ≤ 128 := by
    by_cases hvoid : t.isVoid = true
    · rw [ElemType.storageSize_eq_zero_iff.2 hvoid]
      decide
    · exact (t.storageSize_bounds (Bool.eq_false_iff.2 hvoid)).2
  have hproduct := Nat.mul_le_mul (problemSizes_bounds h).2 hle
  exact Word.toNat_mul_of_lt (by omega)

/-- A buffer for the elements that are measured can be made in every state. -/
theorem exists_buffer {elemSize elements : Word} (h : elements ∈ problemSizes elemSize)
    {t : ElemType} (ht : 0 < t.storageSize.toNat) (access : BufferAccess) (r : Recorder) :
    ∃ r', exec (Device.ofQueue (b.createBuffer (elements * t.storageSize) access)) r =
      (.ok ⟨r.lastId + 1, elements * t.storageSize, access⟩, r') := by
  have hsize : elements * t.storageSize ≠ 0 := by
    rw [Word.ne_zero_iff, toNat_mul_storageSize h]
    exact Nat.mul_pos (problemSizes_bounds h).1 ht
  exact ⟨_, exec_ofQueue_of_ok (exec_createBuffer _ r hsize)⟩

end Measurement

/-- Nothing is asked of the durations. -/
theorem Backend.durations_trivial (b : Backend) : b.Durations fun _ => True where
  launch _ _ _ _ := trivial
  copy _ := trivial
  read := trivial

namespace Scan

variable {b : Backend} {plan : ScanPlan} {args : ScanArgs}

theorem length_requests_le {rs : List Request} (h : requests plan args = .ok rs) :
    rs.length ≤ 3 := by
  unfold requests at h
  obtain ⟨-, h⟩ := Attempt.unit_bind_eq_ok.1 h
  obtain ⟨⟨size, blocks⟩, -, h⟩ := Attempt.bind_eq_ok.1 h
  obtain ⟨-, h⟩ := KernelArg.fit_bind_eq_ok.1 h
  obtain ⟨-, h⟩ := KernelArg.fit_bind_eq_ok.1 h
  obtain ⟨sums, -, h⟩ := Attempt.bind_eq_ok.1 h
  cases h
  split <;> simp

theorem reports_enqueue (moderate : b.properties.Moderate) (fits : PlanFits b.properties plan)
    (durations : b.Durations P) : (enqueue b plan args []).Reports P 3 := by
  rw [enqueue_eq moderate fits]
  refine reports_chain durations fun r rs r' h => ?_
  exact length_requests_le (congrArg Prod.fst h)

theorem succeeds_enqueue (moderate : b.properties.Moderate) (fits : PlanFits b.properties plan)
    (runs : b.Runs) (valid : ValidArgs plan.elem args) : (enqueue b plan args []).Succeeds := by
  rw [enqueue_eq moderate fits]
  apply succeeds_chain runs
  · intro r
    obtain ⟨rs, hrs, -⟩ := exists_requests moderate fits valid
    exact ⟨rs, r, by rw [exec_attempt, hrs]⟩
  · intro r rs r' h
    exact (requests_withinBounds moderate fits (congrArg Prod.fst h)).2

/-- The arguments of a measurement are valid. -/
theorem validArgs_measured {elemSize elements : Word}
    (h : elements ∈ Measurement.problemSizes elemSize) (t : ElemType) (id : Nat) :
    ValidArgs t ⟨⟨id, elements * t.storageSize, .readWrite⟩, elements, .zero⟩ := by
  obtain ⟨hpos, hle⟩ := Measurement.problemSizes_bounds h
  refine ⟨hpos, ?_, ?_, rfl, trivial⟩
  · show elements.toNat < 2 ^ 32
    omega
  · exact Nat.le_of_eq (Measurement.toNat_mul_storageSize h t).symm

theorem succeeds_measure (moderate : b.properties.Moderate) (fits : PlanFits b.properties plan)
    (runs : b.Runs) : (measure b plan).Succeeds := by
  apply @Measurement.succeeds_score (fun _ => True) b 3
  · intro elements h r
    obtain ⟨r', hbuffer⟩ := @Measurement.exists_buffer b _ _ h _ fits.size_pos .readWrite r
    exact ⟨_, r', by rw [exec_bind_of_ok hbuffer, exec_pure]⟩
  · intro elements h r run r' hprepare
    obtain ⟨buffer, r₁, hbuffer, hprepare⟩ := exec_bind_eq_ok hprepare
    cases hprepare
    obtain ⟨rfl, -⟩ := exec_createBuffer_eq_ok (exec_ofQueue_eq_ok hbuffer)
    exact ⟨succeeds_enqueue moderate fits runs (validArgs_measured h _ _),
      reports_enqueue moderate fits b.durations_trivial⟩

end Scan

/-! ## Reductions -/

namespace Reduce

variable {b : Backend} {plan : ReducePlan} {args : ReduceArgs}

/-- The events of an execution, without what the host reads. -/
theorem events_eq (b : Backend) (plan : ReducePlan) (args : ReduceArgs) :
    (do return (← enqueue b plan args []).1) = Device.attempt (requests plan args) >>= fun rs =>
      Device.ofQueue (chain b.send [] rs) := by
  rw [enqueue_eq]
  simp only [bind_assoc, pure_bind, bind_pure]

theorem length_requests_le {rs : List Request} (h : requests plan args = .ok rs) :
    rs.length ≤ 2 := by
  unfold requests at h
  obtain ⟨-, h⟩ := Attempt.unit_bind_eq_ok.1 h
  obtain ⟨-, h⟩ := Attempt.unit_bind_eq_ok.1 h
  split at h
  · obtain ⟨work, -, h⟩ := Attempt.bind_eq_ok.1 h
    cases h
    simp
  · obtain ⟨work, -, h⟩ := Attempt.bind_eq_ok.1 h
    cases h
    simp

theorem reports_events (durations : b.Durations P) :
    Device.Reports P 2 (do return (← enqueue b plan args []).1) := by
  rw [events_eq]
  refine reports_chain durations fun r rs r' h => ?_
  exact length_requests_le (congrArg Prod.fst h)

theorem succeeds_events (moderate : b.properties.Moderate) (fits : PlanFits b.properties plan)
    (runs : b.Runs) (valid : ValidArgs plan.elem args) (hblock : BlockFits plan args.elements) :
    Device.Succeeds (do return (← enqueue b plan args []).1) := by
  rw [events_eq]
  apply succeeds_chain runs
  · intro r
    obtain ⟨rs, hrs⟩ := (exists_requests_iff fits).2 ⟨valid, hblock⟩
    exact ⟨rs, r, by rw [exec_attempt, hrs]⟩
  · intro r rs r' h
    exact (requests_withinBounds moderate fits (congrArg Prod.fst h)).2

theorem validArgs_measured {elemSize elements : Word}
    (h : elements ∈ Measurement.problemSizes elemSize) (t : ElemType) (id id' : Nat) :
    ValidArgs t ⟨⟨id, elements * t.storageSize, .readOnly⟩, 0, elements,
      .buffer ⟨id', t.storageSize, .writeOnly⟩ 0⟩ := by
  obtain ⟨hpos, hle⟩ := Measurement.problemSizes_bounds h
  refine ⟨hpos, ?_, ?_, rfl, ?_, ?_, rfl⟩
  · show 0 + elements.toNat < 2 ^ 32
    omega
  · show (0 + elements.toNat) * t.storageSize.toNat ≤ (elements * t.storageSize).toNat
    rw [Nat.zero_add, Measurement.toNat_mul_storageSize h]
  · decide
  · show (0 + 1) * t.storageSize.toNat ≤ t.storageSize.toNat
    omega

/-- The blocks of a measurement are not too long. -/
theorem blockFits_measured (moderate : b.properties.Moderate) (fits : PlanFits b.properties plan)
    {elemSize elements : Word} (h : elements ∈ Measurement.problemSizes elemSize) :
    BlockFits plan elements := by
  obtain ⟨hpos, hle⟩ := Measurement.problemSizes_bounds h
  obtain ⟨size, hsize, hvalue⟩ :=
    @blockSize?_eq plan b.properties fits.toShapeFits moderate elements (by omega)
  refine ⟨size, hsize, ?_⟩
  -- A block is at most its share of the elements and one work group more.
  have hlength := @blockLength_le plan.workGroupSize.toNat plan.blocks.toNat elements.toNat
    fits.workGroup_pos fits.blocks_pos
  have hshare := Nat.div_le_self elements.toNat plan.blocks.toNat
  have hgroup := Nat.lt_of_le_of_lt fits.workGroup_le moderate.workGroup
  show size.toNat < 2 ^ 32
  omega

theorem succeeds_measure (moderate : b.properties.Moderate) (fits : PlanFits b.properties plan)
    (runs : b.Runs) : (measure b plan).Succeeds := by
  intro r
  have hsize : plan.elem.storageSize ≠ 0 := Word.ne_zero_iff.2 fits.size_pos
  unfold measure
  rw [exec_bind_of_ok (exec_ofQueue_of_ok (exec_createBuffer _ r hsize))]
  apply @Measurement.succeeds_score (fun _ => True) b 2
  · intro elements h r
    obtain ⟨r', hbuffer⟩ := @Measurement.exists_buffer b _ _ h _ fits.size_pos .readOnly r
    exact ⟨_, r', by rw [exec_bind_of_ok hbuffer, exec_pure]⟩
  · intro elements h r₁ run r' hprepare
    obtain ⟨buffer, r₂, hbuffer, hprepare⟩ := exec_bind_eq_ok hprepare
    cases hprepare
    obtain ⟨rfl, -⟩ := exec_createBuffer_eq_ok (exec_ofQueue_eq_ok hbuffer)
    exact ⟨succeeds_events moderate fits runs (validArgs_measured h _ _ _)
      (blockFits_measured moderate fits h), reports_events b.durations_trivial⟩

end Reduce

/-! ## Radix sorts -/

namespace Radixsort

variable {b : Backend} {plan : RadixsortPlan} {args : RadixsortArgs} {problem : RadixsortProblem}

theorem length_passRequests (shape : Shape) (source target : SortBuffers)
    (firstBits : List UInt32) :
    (passRequests plan shape source target firstBits).length = 3 * firstBits.length := by
  induction firstBits generalizing source target with
  | nil => rfl
  | cons firstBit rest ih =>
    simp only [passRequests, List.length_append, ih, List.length_cons, List.length_nil]
    omega

theorem length_copyRequests_le (source target : SortBuffers) (elements : Word) :
    (copyRequests plan source target elements).length ≤ 2 := by
  unfold copyRequests
  split <;> simp

/-- There are at most as many passes as bits. -/
theorem length_firstBits_le (bits : Word) : (firstBits plan bits).length ≤ bits.toNat := by
  unfold firstBits
  rw [List.length_map, List.length_range]
  rcases Nat.eq_zero_or_pos plan.geometry.radixBits.toNat with hzero | hpos
  · rw [hzero, Nat.div_zero]
    exact Nat.zero_le _
  · rcases Nat.eq_zero_or_pos bits.toNat with hbits | hbits
    · rw [hbits, Nat.div_eq_of_lt (by omega)]
    · apply Nat.div_le_of_le_mul
      rw [Nat.mul_comm]
      exact Nat.add_sub_one_le_mul hbits.ne' hpos.ne'

theorem length_prepare_le {rs : List Request} {r r' : Recorder}
    (h : exec (prepare b plan args) r = (.ok rs, r')) : rs.length ≤ 2 ^ 70 := by
  unfold prepare at h
  obtain ⟨bits, -, h⟩ := exec_attempt_bind_eq_ok.1 h
  obtain ⟨temp, r₁, -, h⟩ := exec_bind_eq_ok h
  obtain ⟨shape, -, h⟩ := exec_attempt_bind_eq_ok.1 h
  have hpasses := @length_firstBits_le plan bits
  have hcopies := @length_copyRequests_le plan temp args.buffers args.elements
  have hbits := bits.toNat_lt
  dsimp only at h
  split at h
  · cases h
    rw [length_passRequests]
    omega
  · cases h
    rw [List.length_append, length_passRequests]
    omega

theorem reports_enqueue (durations : b.Durations P) :
    (enqueue b plan args []).Reports P (2 ^ 70) := by
  rw [enqueue_eq]
  exact reports_chain durations fun r rs r' h => length_prepare_le h

theorem succeeds_enqueue (moderate : b.properties.Moderate) (fits : PlanFits b.properties plan)
    (runs : b.Runs) (hscale : plan.geometry.scatterWorkScale.toNat ≤ RadixsortGeometry.maxWorkScale)
    (sorts : PlanSorts problem plan) (valid : ValidArgs problem args)
    (hblock : BlockFits plan args.elements) : (enqueue b plan args []).Succeeds := by
  rw [enqueue_eq]
  apply succeeds_chain runs
  · intro r
    obtain ⟨rs, r', hprepare, -⟩ := exists_prepare moderate fits hscale sorts valid hblock r
    exact ⟨rs, r', hprepare⟩
  · intro r rs r' h
    exact prepare_withinBounds moderate fits hscale h

/-- The buffers that a measurement sorts, of exactly as many elements as there are. -/
def measuredBuffers (b : Backend) (plan : RadixsortPlan) (elements : Word) :
    Device SortBuffers := do
  let keys ← Device.ofQueue (b.createBuffer (elements * plan.keySize) .readWrite)
  if plan.valueSize = 0 then return ⟨keys, none⟩
  else
    let values ← Device.ofQueue (b.createBuffer (elements * plan.valueSize) .readWrite)
    return ⟨keys, some values⟩

theorem measure_eq (b : Backend) (plan : RadixsortPlan) :
    measure b plan = Measurement.score b (plan.keySize + plan.valueSize) fun elements =>
      measuredBuffers b plan elements >>= fun buffers =>
        pure (enqueue b plan ⟨buffers, elements, 0⟩ []) := by
  unfold measure measuredBuffers
  congr 1
  funext elements
  rw [bind_assoc]
  refine bind_congr fun keys => ?_
  by_cases hvoid : plan.valueSize = 0
  · simp only [if_pos hvoid, pure_bind]
  · simp only [if_neg hvoid, map_eq_pure_bind, bind_assoc, pure_bind]

section

variable {elemSize elements : Word}

theorem sortable_measured (h : elements ∈ Measurement.problemSizes elemSize) (t : ElemType)
    (id : Nat) : Sortable ⟨id, elements * t.storageSize, .readWrite⟩ elements.toNat t :=
  ⟨Nat.le_of_eq (Measurement.toNat_mul_storageSize h t).symm, rfl⟩

/-- The blocks of a measurement are not too long, unless the work items have very many elements. -/
theorem blockFits_measured (moderate : b.properties.Moderate) (fits : PlanFits b.properties plan)
    (hscale : plan.geometry.scatterWorkScale.toNat ≤ 64)
    (h : elements ∈ Measurement.problemSizes elemSize) : BlockFits plan elements := by
  obtain ⟨hpos, hle⟩ := Measurement.problemSizes_bounds h
  have hmax : plan.geometry.scatterWorkScale.toNat ≤ RadixsortGeometry.maxWorkScale :=
    Nat.le_trans hscale (by decide)
  obtain ⟨size, hsize, hvalue⟩ := @RadixsortGeometry.blockSize?_eq plan.geometry b.properties
    fits.geometry moderate hmax elements (by omega)
  refine ⟨size, hsize, ?_⟩
  obtain ⟨htile, -⟩ := fits.geometry.tile_bounds moderate hmax
  obtain ⟨hblocks, -⟩ := fits.geometry.scanBlocks_bounds moderate
  have htile_lt : plan.geometry.tileLength ≤ 64 * 2 ^ 24 := by
    have hreduce := UInt64.le_iff_toNat_le.1 fits.geometry.reduce_le
    have hscatter := UInt64.le_iff_toNat_le.1 fits.geometry.scatter_le
    have hgroup := moderate.workGroup
    have hproduct : plan.geometry.scatterWorkScale.toNat *
        plan.geometry.scatterWorkGroupSize.toNat ≤ 64 * 2 ^ 24 :=
      Nat.mul_le_mul hscale (by omega)
    rw [RadixsortGeometry.tileLength]
    omega
  have hlength := @blockLength_le plan.geometry.tileLength plan.geometry.scanBlocks.toNat
    elements.toNat htile hblocks
  have hshare := Nat.div_le_self elements.toNat plan.geometry.scanBlocks.toNat
  show size.toNat < 2 ^ 32
  omega

/-- The buffers of a measurement are valid for all bits of the keys. -/
theorem exists_measuredBuffers (sorts : PlanSorts problem plan)
    (h : elements ∈ Measurement.problemSizes elemSize) (r : Recorder) :
    ∃ buffers r', exec (measuredBuffers b plan elements) r = (.ok buffers, r') ∧
      ValidArgs problem ⟨buffers, elements, 0⟩ := by
  obtain ⟨hpos, hle⟩ := Measurement.problemSizes_bounds h
  have hfits : FitsArgument elements.toNat := by
    show elements.toNat < 2 ^ 32
    omega
  obtain ⟨r₁, hkeys⟩ := @Measurement.exists_buffer b _ _ h _ sorts.key_pos .readWrite r
  unfold measuredBuffers
  rw [sorts.keySize, sorts.valueSize, exec_bind_of_ok hkeys]
  by_cases hvoid : problem.value.isVoid = true
  · rw [if_pos (ElemType.storageSize_eq_zero_iff.2 hvoid)]
    refine ⟨_, _, exec_pure _ _, hpos, hfits, sortable_measured h _ _, ?_, ?_, Nat.zero_le _⟩
    · simp [hvoid]
    · intro buffer hbuffer
      cases hbuffer
  · have hvoid : problem.value.isVoid = false := Bool.eq_false_iff.2 hvoid
    have hvalue := (problem.value.storageSize_bounds hvoid).1
    obtain ⟨r₂, hvalues⟩ := @Measurement.exists_buffer b _ _ h _ hvalue .readWrite r₁
    rw [if_neg (Word.ne_zero_iff.2 hvalue), exec_bind_of_ok hvalues]
    refine ⟨_, _, exec_pure _ _, hpos, hfits, sortable_measured h _ _, ?_, ?_, Nat.zero_le _⟩
    · simp [hvoid]
    · intro buffer hbuffer
      obtain rfl := Option.some.inj hbuffer
      exact sortable_measured h _ _

end

theorem succeeds_measure (moderate : b.properties.Moderate) (fits : PlanFits b.properties plan)
    (runs : b.Runs) (hscale : plan.geometry.scatterWorkScale.toNat ≤ 64)
    (sorts : PlanSorts problem plan) : (measure b plan).Succeeds := by
  have hmax : plan.geometry.scatterWorkScale.toNat ≤ RadixsortGeometry.maxWorkScale :=
    Nat.le_trans hscale (by decide)
  rw [measure_eq]
  apply @Measurement.succeeds_score (fun _ => True) b (2 ^ 70)
  · intro elements h r
    obtain ⟨buffers, r', hbuffers, -⟩ := @exists_measuredBuffers b _ _ _ _ sorts h r
    exact ⟨_, r', by rw [exec_bind_of_ok hbuffers, exec_pure]⟩
  · intro elements h r run r' hprepare
    obtain ⟨buffers, r₁, hbuffers, valid⟩ := @exists_measuredBuffers b _ _ _ _ sorts h r
    rw [exec_bind_of_ok hbuffers] at hprepare
    cases hprepare
    exact ⟨succeeds_enqueue moderate fits runs hmax sorts valid
      (blockFits_measured moderate fits hscale h), reports_enqueue b.durations_trivial⟩

end Radixsort

end KernelTuning
