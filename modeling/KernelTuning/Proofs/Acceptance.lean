import KernelTuning.Proofs.CacheStability
import KernelTuning.Proofs.Executions

/-!
# Which executions are accepted

An execution of a ready algorithm succeeds exactly if its arguments are valid and its blocks are
not too long for a kernel argument. Everything else is refused, by an error and not by a crash,
before any command reaches the device.

* `Attempt.Refuses`: an attempt that fails only by refusing. The checks of the arguments are made
  of such attempts.
* `SucceedsIff` says for all executions of a plan that they succeed under a condition, and what a
  refusal leaves alone. It is shown for the requests of each primitive, whose chain succeeds on a
  backend that runs what the device allows.

**Theorem (`succeedsIff_valid`).** For scans, reductions and radix sorts on a device with moderate
limits, whatever cache or search their plans come from, and for arguments with any counts and
indices.
-/

namespace KernelTuning

/-! ## Refusals -/

/-- The attempt fails by internal errors only. -/
def Attempt.Refuses {α : Type} (x : Attempt α) : Prop :=
  ∀ f, x = .error f → ∃ message, f = .error (.internal message)

namespace Attempt.Refuses

variable {α β : Type}

theorem ok (a : α) : Refuses (.ok a) := fun _ h => by cases h

theorem fail (reason : String) : Refuses (.fail reason : Attempt α) := fun _ h => by
  cases h
  exact ⟨reason, rfl⟩

theorem bind {x : Attempt α} {f : α → Attempt β} (hx : x.Refuses)
    (hf : ∀ a, x = .ok a → (f a).Refuses) : (x >>= f).Refuses := by
  rcases x with e | a
  · intro f' h
    cases h
    exact hx e rfl
  · exact hf a rfl

theorem ensure (condition : Bool) (reason : String) :
    Refuses (Attempt.ensure condition reason) := by
  cases condition
  · exact fail reason
  · exact ok ()

theorem ofArithmetic {x : Except Word.Fault α} {a : α} (h : x = .ok a) :
    Refuses (Attempt.ofArithmetic x) := h ▸ ok a

theorem fit (what : String) (w : Word) : Refuses (KernelArg.fit what w) := by
  unfold KernelArg.fit
  split
  · exact ok _
  · exact fail _

end Attempt.Refuses

/-! ## Executions of a plan -/

namespace Algorithm

variable {Q L A O : Type}

/-- Some construction for a problem, from any cache and by any search, ends with a plan. -/
def Constructs [Problem Q] (p : Primitive Recorder Q L A O) (problem : Q) (plan : L) : Prop :=
  ∃ (σ : Type) (t : Tuner σ) (now : UInt64) (s s' : σ) (d d' : Recorder)
    (a : ReadyAlgorithm Q L Unit),
    exec (create p t now problem : Action (σ × Recorder) (Algorithm Q L Unit)) (s, d) =
      (.ok (.ready a), s', d') ∧ a.plan = plan

/-- The executions of a plan succeed exactly under a condition. The others are refused by an
error, before any command. -/
def SucceedsIff (p : Primitive Recorder Q L A O) (plan : L) (args : A) (condition : Prop) :
    Prop :=
  ∀ (β : Type) (a : ReadyAlgorithm Q L β) (waitFor : List Event) (r : Recorder), a.plan = plan →
    ((∃ x r', exec (execute p args waitFor (.ready a)) r = (.ok x, r')) ↔ condition) ∧
    ∀ f r', exec (execute p args waitFor (.ready a)) r = (.error f, r') →
      (∃ message, f = .error (.internal message)) ∧ r'.history = r.history

theorem SucceedsIff.congr {p : Primitive Recorder Q L A O} {plan : L} {args : A}
    {condition condition' : Prop} (h : SucceedsIff p plan args condition)
    (same : condition ↔ condition') : SucceedsIff p plan args condition' := propext same ▸ h

theorem built_of_constructs [Problem Q] {p : Primitive Recorder Q L A O} {problem : Q} {plan : L}
    (h : Constructs p problem plan) :
    p.validate problem = .ok () ∧
      ∃ parameters d d', exec (p.build problem parameters) d = (.ok plan, d') := by
  obtain ⟨σ, t, now, s, s', d, d', a, run, rfl⟩ := h
  obtain ⟨d₀, built⟩ := exists_built run
  refine ⟨?_, _, _, _, built⟩
  cases create_exit run with
  | cached valid => exact valid
  | searched valid => exact valid

/-- Every plan can be constructed from a cache that has its parameters. -/
theorem constructs_of_built [Problem Q] [Json.LawfulCodec Q] {p : Primitive Recorder Q L A O}
    {problem : Q} {plan : L} {parameters : TuningParameters} {d d' : Recorder}
    (valid : p.validate problem = .ok ()) (nonempty : (spaceOf p problem).isEmpty = false)
    (built : exec (p.build problem parameters) d = (.ok plan, d')) :
    Constructs p problem plan := by
  let entry : CacheEntry Q :=
    ⟨keyOf p problem, parameters, .zero, 0, (spaceOf p problem).checksum⟩
  let t : Tuner MemoryStorage := ⟨MemoryStorage.storage, .silent, fun _ _ m => m⟩
  obtain ⟨score, hlookup⟩ := @MemoryStorage.lookup_written Q _ .empty _ entry rfl rfl
    (show Binary64.zero.isFinite = true by decide)
  have found : t.lookup (keyOf p problem) (spaceOf p problem)
      (.written .empty entry.key.recordPath (CacheRecord.bytes entry)) =
        some { entry with score } :=
    Option.filter_eq_some_iff.2 ⟨hlookup, decide_eq_true rfl⟩
  exact ⟨_, t, 0, _, _, _, _, _, exec_create_of_found valid nonempty found built, rfl⟩

theorem exec_get_ready {β : Type} (a : ReadyAlgorithm Q L β) (name : String) (r : Recorder) :
    exec (ExceptT.mk (pure (((ready a).get name).mapError .error)) : Action Recorder _) r =
      (.ok a, r) := rfl

theorem exec_execute {β : Type} (p : Primitive Recorder Q L A O) (args : A)
    (waitFor : List Event) (a : ReadyAlgorithm Q L β) {r r' : Recorder} {events : List Event}
    {output : O} (run : exec (p.enqueue a.plan args waitFor) r = (.ok (events, output), r'))
    (hne : events ≠ []) :
    exec (execute p args waitFor (.ready a)) r =
      (.ok (events.getLast hne, output,
        a.callback.toList.map (.called · (events.getLast hne))), r') := by
  unfold execute
  rw [exec_bind_of_ok (exec_get_ready a p.name r), exec_bind_of_ok run]
  simp only [List.getLast?_eq_some_getLast hne, exec_pure]

theorem exec_execute_of_error {β : Type} {p : Primitive Recorder Q L A O} {args : A}
    {waitFor : List Event} {a : ReadyAlgorithm Q L β} {r r' : Recorder} {f : Failure Error}
    (run : exec (p.enqueue a.plan args waitFor) r = (.error f, r')) :
    exec (execute p args waitFor (.ready a)) r = (.error f, r') := by
  unfold execute
  rw [exec_bind_of_ok (exec_get_ready a p.name r), exec_bind_of_error run]

theorem succeedsIff_of_enqueue {p : Primitive Recorder Q L A O} {plan : L} {args : A}
    {condition : Prop}
    (accepted : condition → ∀ waitFor r, ∃ events output r',
      exec (p.enqueue plan args waitFor) r = (.ok (events, output), r') ∧ events ≠ [])
    (refused : ¬ condition → ∀ waitFor r, ∃ message r',
      exec (p.enqueue plan args waitFor) r = (.error (.error (.internal message)), r') ∧
        r'.history = r.history) :
    SucceedsIff p plan args condition := by
  rintro β a waitFor r rfl
  by_cases hcondition : condition
  · obtain ⟨events, output, r', run, hne⟩ := accepted hcondition waitFor r
    rw [exec_execute p args waitFor a run hne]
    refine ⟨iff_of_true ⟨_, _, rfl⟩ hcondition, ?_⟩
    intro f r'' h
    cases h
  · obtain ⟨message, r', run, hhistory⟩ := refused hcondition waitFor r
    rw [exec_execute_of_error run]
    constructor
    · refine iff_of_false ?_ hcondition
      rintro ⟨x, r'', h⟩
      cases h
    · intro f r'' h
      cases h
      exact ⟨⟨message, rfl⟩, hhistory⟩

end Algorithm

variable {b : Backend} {Q L A O : Type}

/-- An execution that prepares requests and sends them. It is enough that the preparation gives
requests within bounds exactly under the condition, and enqueues nothing. -/
theorem succeedsIff_of_prepare {p : Primitive Recorder Q L A O} {plan : L} {args : A}
    {condition : Prop} {prepare : Device (List Request)} {output : O} (runs : b.Runs)
    (enqueue_eq : ∀ waitFor, p.enqueue plan args waitFor = prepare >>= fun rs =>
      Device.ofQueue (chain b.send waitFor rs) >>= fun events => pure (events, output))
    (accepted : condition → ∀ r, ∃ rs r', exec prepare r = (.ok rs, r') ∧ rs ≠ [] ∧
      ∀ request ∈ rs, request.WithinBounds b.properties)
    (refused : ¬ condition → ∀ r, ∃ message r',
      exec prepare r = (.error (.error (.internal message)), r') ∧ r'.history = r.history) :
    Algorithm.SucceedsIff p plan args condition := by
  apply Algorithm.succeedsIff_of_enqueue
  · intro hcondition waitFor r
    obtain ⟨rs, r₁, hprepare, hne, hbounds⟩ := accepted hcondition r
    obtain ⟨events, r', hrun⟩ := exec_chain_of_runs runs hbounds waitFor r₁
    have hevents : events ≠ [] := by
      rw [← List.length_pos_iff, length_of_chain hrun]
      exact List.length_pos_iff.2 hne
    refine ⟨events, output, r', ?_, hevents⟩
    rw [enqueue_eq, exec_bind_of_ok hprepare, exec_bind_of_ok (exec_ofQueue_of_ok hrun), exec_pure]
  · intro hcondition waitFor r
    obtain ⟨message, r', hprepare, hhistory⟩ := refused hcondition r
    exact ⟨message, r', by rw [enqueue_eq, exec_bind_of_error hprepare], hhistory⟩

/-- Requests that are prepared without the device. -/
theorem succeedsIff_of_requests {p : Primitive Recorder Q L A O} {plan : L} {args : A}
    {condition : Prop} {requests : Attempt (List Request)} {output : O} (runs : b.Runs)
    (enqueue_eq : ∀ waitFor, p.enqueue plan args waitFor = Device.attempt requests >>= fun rs =>
      Device.ofQueue (chain b.send waitFor rs) >>= fun events => pure (events, output))
    (exists_iff : (∃ rs, requests = .ok rs) ↔ condition)
    (bounds : ∀ rs, requests = .ok rs → rs ≠ [] ∧
      ∀ request ∈ rs, request.WithinBounds b.properties)
    (refuses : requests.Refuses) : Algorithm.SucceedsIff p plan args condition := by
  apply succeedsIff_of_prepare runs enqueue_eq
  · intro hcondition r
    obtain ⟨rs, hrs⟩ := exists_iff.2 hcondition
    exact ⟨rs, r, by rw [exec_attempt, hrs], bounds rs hrs⟩
  · intro hcondition r
    rcases hrequests : requests with f | rs
    · obtain ⟨message, rfl⟩ := refuses f hrequests
      exact ⟨message, r, exec_attempt _ r, rfl⟩
    · exact absurd (exists_iff.1 ⟨rs, hrequests⟩) hcondition

/-! ## Scans -/

namespace Scan

variable {plan : ScanPlan} {args : ScanArgs}

/-- The block size of a count, as an argument of a kernel. -/
def BlockFits (plan : ScanPlan) (elements : Word) : Prop :=
  ∃ size, plan.geometry.blockSize? elements = .ok size ∧ FitsArgument size.toNat

theorem exists_requests_iff {d : DeviceProperties} (moderate : d.Moderate)
    (fits : PlanFits d plan) :
    (∃ rs, requests plan args = .ok rs) ↔
      ValidArgs plan.elem args ∧ BlockFits plan args.elements := by
  constructor
  · rintro ⟨rs, hrequests⟩
    have valid := validArgs_of_requests hrequests
    obtain ⟨size, hsize, -, hlt⟩ := ScanGeometry.blockSize?_eq fits.geometry moderate valid.fits
    exact ⟨valid, size, hsize, hlt⟩
  · rintro ⟨valid, -⟩
    obtain ⟨rs, hrequests, -⟩ := exists_requests moderate fits valid
    exact ⟨rs, hrequests⟩

/-- Once the arguments are accepted, nothing is refused any more. -/
theorem refuses_requests {d : DeviceProperties} (moderate : d.Moderate) (fits : PlanFits d plan) :
    (requests plan args).Refuses := by
  have offset : (checkOffset plan args.offset).Refuses := by
    unfold checkOffset
    rcases args.offset with _ | bytes | ⟨buffer, index⟩
    · exact .ok ()
    · exact .ensure _ _
    · exact .bind (.fit _ _) fun _ _ => .bind (.ensure _ _) fun _ _ => .ensure _ _
  have checks : (checkArgs plan args).Refuses :=
    .bind (.ensure _ _) fun _ _ => .bind (.ensure _ _) fun _ _ => .bind offset fun _ _ =>
      .bind (.fit _ _) fun _ _ => .ensure _ _
  rcases hargs : checkArgs plan args with f | _
  · rw [hargs] at checks
    unfold requests
    rw [hargs]
    exact .bind checks fun _ h => by cases h
  · obtain ⟨rs, hrequests, -⟩ := exists_requests moderate fits (checkArgs_eq_ok.1 hargs)
    rw [hrequests]
    exact .ok rs

theorem succeedsIff (moderate : b.properties.Moderate) (runs : b.Runs)
    (fits : PlanFits b.properties plan) (args : ScanArgs) :
    Algorithm.SucceedsIff (primitive b) plan args
      (ValidArgs plan.elem args ∧ BlockFits plan args.elements) := by
  have enqueue_eq (waitFor : List Event) : (primitive b).enqueue plan args waitFor =
      Device.attempt (requests plan args) >>= fun rs =>
        Device.ofQueue (chain b.send waitFor rs) >>= fun events => pure (events, ()) := by
    show (do return (← enqueue b plan args waitFor, ())) = _
    rw [Scan.enqueue_eq moderate fits, bind_assoc]
  exact succeedsIff_of_requests runs enqueue_eq (exists_requests_iff moderate fits)
    (fun _ => requests_withinBounds moderate fits) (refuses_requests moderate fits)

end Scan

/-! ## Reductions -/

namespace Reduce

variable {plan : ReducePlan} {args : ReduceArgs}

theorem refuses_requests {d : DeviceProperties} (moderate : d.Moderate)
    (fits : PlanFits d plan) : (requests plan args).Refuses := by
  have input : (checkInput plan args.input args.first args.elements).Refuses :=
    .bind (.ensure _ _) fun _ _ => .bind (.fit _ _) fun _ _ => .bind (.ensure _ _) fun _ _ =>
      .ensure _ _
  have output : (checkOutput plan args.output).Refuses := by
    unfold checkOutput
    rcases args.output with ⟨buffer, position⟩ | size
    · exact .bind (.ensure _ _) fun _ _ => .bind (.ensure _ _) fun _ _ =>
        .bind (.fit _ _) fun _ _ => .ok ()
    · exact .ensure _ _
  have work (buffer : Buffer) (position : Word) : (launch plan args buffer position).Refuses := by
    have hproduct := Word.mul?_of_lt (Nat.lt_trans (fits.product_lt moderate) (by decide))
    refine .bind (.ofArithmetic hproduct) fun _ _ =>
      .bind (.fit _ _) fun _ _ => .bind (.fit _ _) fun _ _ => .bind (.fit _ _) fun _ helements => ?_
    obtain ⟨size, hsize, -⟩ := blockSize?_eq fits.toShapeFits moderate
      (KernelArg.fit_eq_ok.1 helements).1
    exact .bind (.ofArithmetic hsize) fun _ _ => .bind (.fit _ _) fun _ _ => .ok _
  unfold requests
  refine .bind input fun _ _ => .bind output fun _ _ => ?_
  split
  · exact .bind (work _ _) fun _ _ => .ok _
  · exact .bind (work _ _) fun _ _ => .ok _

theorem succeedsIff (moderate : b.properties.Moderate) (runs : b.Runs)
    (fits : PlanFits b.properties plan) (args : ReduceArgs) :
    Algorithm.SucceedsIff (primitive b) plan args
      (ValidArgs plan.elem args ∧ BlockFits plan args.elements) :=
  succeedsIff_of_requests runs (enqueue_eq b plan args) (exists_requests_iff fits)
    (fun _ => requests_withinBounds moderate fits) (refuses_requests moderate fits)

end Reduce

/-! ## Radix sorts -/

namespace Radixsort

variable {plan : RadixsortPlan} {args : RadixsortArgs} {problem : RadixsortProblem}

/-- The plan moves keys and values of the sizes of a problem, and sorts on some bits at a time. -/
structure PlanSorts (problem : RadixsortProblem) (plan : RadixsortPlan) : Prop where
  keySize : plan.keySize = problem.key.storageSize
  key_pos : 0 < problem.key.storageSize.toNat
  key_le : problem.key.storageSize.toNat ≤ 8
  valueSize : plan.valueSize = problem.value.storageSize
  one_le_bits : 1 ≤ plan.geometry.radixBits

theorem PlanSorts.setTemporaries (sorts : PlanSorts problem plan) (keys values : Option Buffer) :
    PlanSorts problem (setTemporaries keys values plan) :=
  ⟨sorts.keySize, sorts.key_pos, sorts.key_le, sorts.valueSize, sorts.one_le_bits⟩

theorem planSorts_of_build {p : TuningParameters} {r r' : Recorder}
    (valid : validate b.properties problem = .ok ())
    (h : exec (build b problem p) r = (.ok plan, r')) : PlanSorts problem plan := by
  obtain ⟨fits, hkey, hvalue⟩ := plan_of_build h
  obtain ⟨hpos, hle⟩ := keySize_of_validate valid
  exact ⟨hkey, hpos, hle, hvalue, fits.one_le_bits⟩

theorem PlanSorts.checkArgs_eq_ok (sorts : PlanSorts problem plan) :
    (∃ bits, checkArgs plan args = .ok bits) ↔ ValidArgs problem args :=
  Radixsort.checkArgs_eq_ok sorts.keySize sorts.key_le sorts.valueSize

/-! ### Refusals -/

theorem refuses_checkArgs : (checkArgs plan args).Refuses := by
  have buffer (what verb : String) (buffer : Buffer) (size : Word) :
      (checkBuffer what verb buffer args.elements size).Refuses :=
    .bind (.ensure _ _) fun _ _ => .ensure _ _
  have values : (checkValues plan args.buffers.values args.elements).Refuses := by
    unfold checkValues
    split
    · exact .ensure _ _
    · split
      · exact .fail _
      · exact buffer _ _ _ _
  have bits : (effectiveBits plan args.maxBits).Refuses := by
    unfold effectiveBits
    split
    · exact .ok _
    · split
      · exact .fail _
      · exact .ok _
  exact .bind (buffer _ _ _ _) fun _ _ => .bind values fun _ _ => .bind (.ensure _ _) fun _ _ =>
    .bind (.fit _ _) fun _ _ => bits

/-- There is a block size and a number of blocks for every count that fits in an argument, so that
only their own sizes are refused. -/
theorem refuses_shapeOf {d : DeviceProperties} {elements : Word} (moderate : d.Moderate)
    (fits : PlanFits d plan)
    (hscale : plan.geometry.scatterWorkScale.toNat ≤ RadixsortGeometry.maxWorkScale)
    (hpos : 1 ≤ elements.toNat) (helements : FitsArgument elements.toNat) :
    (shapeOf plan elements).Refuses := by
  obtain ⟨size, hsize, hvalue⟩ :=
    RadixsortGeometry.blockSize?_eq fits.geometry moderate hscale helements
  obtain ⟨blocks, hblocks, -⟩ :=
    RadixsortGeometry.blocks?_eq fits.geometry fits.slices_dvd hpos hvalue
  unfold shapeOf
  refine .bind (.ofArithmetic hsize) fun size' h => ?_
  rw [hsize] at h
  cases h
  refine .bind (.ofArithmetic hblocks) fun _ _ => ?_
  exact .bind (.ensure _ _) fun _ _ => .bind (.fit _ _) fun _ _ => .bind (.fit _ _) fun _ _ =>
    .bind (.fit _ _) fun _ _ => .ok _

/-! ### Preparations -/

/-- A temporary buffer for some bytes can always be had, without a command. -/
theorem exists_temporary {provided : Option Buffer} {size : Word} (hsize : 0 < size.toNat)
    (r : Recorder) :
    ∃ buffer r', exec (temporary b provided size) r = (.ok buffer, r') ∧
      r'.history = r.history := by
  unfold temporary
  split
  · exact ⟨_, r, exec_pure _ r, rfl⟩
  · exact ⟨_, _, exec_ofQueue_of_ok (exec_createBuffer _ r (Word.ne_zero_iff.2 hsize)), rfl⟩

/-- Elements that fit in some buffer take a number of bytes that fits in a word. -/
theorem Sortable.mul_pos {buffer : Buffer} {elements : Word} {elem : ElemType}
    (sortable : Sortable buffer elements.toNat elem) (hpos : 1 ≤ elements.toNat)
    (hsize : 0 < elem.storageSize.toNat) : 0 < (elements * elem.storageSize).toNat := by
  rw [Word.toNat_mul_of_lt (Nat.lt_of_le_of_lt sortable.1 buffer.size.toNat_lt)]
  exact Nat.mul_pos hpos hsize

theorem exists_temporaries (sorts : PlanSorts problem plan) (valid : ValidArgs problem args)
    (r : Recorder) :
    ∃ temp r', exec (temporaries b plan args) r = (.ok temp, r') ∧ r'.history = r.history := by
  obtain ⟨keys, r₁, hkeys, hhistory⟩ := @exists_temporary b plan.temporaryKeys _
    (valid.keys.mul_pos valid.pos sorts.key_pos) r
  unfold temporaries
  rw [sorts.keySize, exec_bind_of_ok hkeys]
  rcases hvalues : args.buffers.values with _ | buffer
  · exact ⟨_, r₁, exec_pure _ r₁, hhistory⟩
  · have hvoid : problem.value.isVoid = false := by simpa [hvalues] using valid.typed
    have sortable := valid.values buffer hvalues
    obtain ⟨values, r₂, htemp, hhistory'⟩ := @exists_temporary b plan.temporaryValues _
      (sortable.mul_pos valid.pos (problem.value.storageSize_bounds hvoid).1) r₁
    refine ⟨⟨keys, some values⟩, r₂, ?_, hhistory'.trans hhistory⟩
    rw [sorts.valueSize]
    exact exec_bind_of_ok htemp

/-- All accepted arguments ask for some pass. -/
theorem exists_prepare (moderate : b.properties.Moderate) (fits : PlanFits b.properties plan)
    (hscale : plan.geometry.scatterWorkScale.toNat ≤ RadixsortGeometry.maxWorkScale)
    (sorts : PlanSorts problem plan) (valid : ValidArgs problem args)
    (hblock : BlockFits plan args.elements) (r : Recorder) :
    ∃ rs r', exec (prepare b plan args) r = (.ok rs, r') ∧ rs ≠ [] := by
  obtain ⟨bits, hargs⟩ := sorts.checkArgs_eq_ok.2 valid
  obtain ⟨temp, r₁, htemp, -⟩ := @exists_temporaries b _ _ _ sorts valid r
  obtain ⟨shape, hshape, -⟩ := exists_shape moderate fits hscale valid.pos valid.fits hblock
  have hpasses : firstBits plan bits ≠ [] :=
    (firstBits_of_effectiveBits sorts.one_le_bits (sorts.keySize ▸ sorts.key_pos)
      (sorts.keySize ▸ sorts.key_le) (accepted_of_checkArgs hargs).bits).2
  have hsorts : passRequests plan shape args.buffers temp (firstBits plan bits) ≠ [] := by
    obtain ⟨first, rest, hcons⟩ := List.exists_cons_of_ne_nil hpasses
    rw [hcons]
    exact List.cons_ne_nil _ _
  unfold prepare
  rw [exec_attempt_bind_of_ok hargs, exec_bind_of_ok htemp, exec_attempt_bind_of_ok hshape]
  by_cases heven : (firstBits plan bits).length % 2 = 0
  · refine ⟨_, r₁, ?_, hsorts⟩
    simp only [if_pos heven, exec_pure]
  · refine ⟨passRequests plan shape args.buffers temp (firstBits plan bits) ++
      copyRequests plan temp args.buffers args.elements, r₁, ?_,
      List.append_ne_nil_of_left_ne_nil hsorts _⟩
    simp only [if_neg heven, exec_pure]

theorem succeedsIff (moderate : b.properties.Moderate) (runs : b.Runs)
    (fits : PlanFits b.properties plan)
    (hscale : plan.geometry.scatterWorkScale.toNat ≤ RadixsortGeometry.maxWorkScale)
    (sorts : PlanSorts problem plan) (args : RadixsortArgs) :
    Algorithm.SucceedsIff (primitive b) plan args
      (ValidArgs problem args ∧ BlockFits plan args.elements) := by
  have enqueue_eq (waitFor : List Event) : (primitive b).enqueue plan args waitFor =
      prepare b plan args >>= fun rs =>
        Device.ofQueue (chain b.send waitFor rs) >>= fun events => pure (events, ()) := by
    show (do return (← enqueue b plan args waitFor, ())) = _
    rw [Radixsort.enqueue_eq, bind_assoc]
  apply succeedsIff_of_prepare runs enqueue_eq
  · rintro ⟨valid, hblock⟩ r
    obtain ⟨rs, r', hprepare, hne⟩ :=
      exists_prepare moderate fits hscale sorts valid hblock r
    exact ⟨rs, r', hprepare, hne, prepare_withinBounds moderate fits hscale hprepare⟩
  · intro hcondition r
    unfold prepare
    rcases hargs : checkArgs plan args with f | bits
    · obtain ⟨message, rfl⟩ := refuses_checkArgs f hargs
      exact ⟨message, r, rfl, rfl⟩
    · have valid := sorts.checkArgs_eq_ok.1 ⟨bits, hargs⟩
      obtain ⟨temp, r₁, htemp, hhistory⟩ := @exists_temporaries b _ _ _ sorts valid r
      rw [exec_attempt_bind_of_ok rfl, exec_bind_of_ok htemp]
      -- By now temporary buffers may exist, but no command has been enqueued.
      rcases hshape : shapeOf plan args.elements with f | shape
      · obtain ⟨message, rfl⟩ :=
          refuses_shapeOf moderate fits hscale valid.pos valid.fits f hshape
        exact ⟨message, r₁, rfl, hhistory⟩
      · exact absurd ⟨valid, blockFits_of_shapeOf hshape⟩ hcondition

end Radixsort

/-- **Accepted executions.** On a device with moderate limits and a backend that runs what the
device allows, the executions of every algorithm that was created succeed exactly for valid
arguments with blocks that are not too long. The others end with an error before any command. A
radix sort may be given any temporary buffers. -/
theorem succeedsIff_valid {b : Backend} (moderate : b.properties.Moderate) (runs : b.Runs) :
    (∀ problem plan, Algorithm.Constructs (Scan.primitive b) problem plan → ∀ args,
      Algorithm.SucceedsIff (Scan.primitive b) plan args
        (Scan.ValidArgs problem.elem args ∧ Scan.BlockFits plan args.elements)) ∧
    (∀ problem plan, Algorithm.Constructs (Reduce.primitive b) problem plan → ∀ args,
      Algorithm.SucceedsIff (Reduce.primitive b) plan args
        (Reduce.ValidArgs problem.elem args ∧ Reduce.BlockFits plan args.elements)) ∧
    ∀ problem plan keys values, Algorithm.Constructs (Radixsort.primitive b) problem plan →
      plan.geometry.scatterWorkScale ≤ 65536 → ∀ args,
        Algorithm.SucceedsIff (Radixsort.primitive b)
          (Radixsort.setTemporaries keys values plan) args
          (Radixsort.ValidArgs problem args ∧ Radixsort.BlockFits plan args.elements) := by
  refine ⟨fun problem plan h args => ?_, fun problem plan h args => ?_,
    fun problem plan keys values h hscale args => ?_⟩
  · obtain ⟨-, p, d, d', build⟩ := Algorithm.built_of_constructs h
    obtain ⟨fits, helem⟩ := Scan.plan_of_build build
    exact helem ▸ Scan.succeedsIff moderate runs fits args
  · obtain ⟨-, p, d, d', build⟩ := Algorithm.built_of_constructs h
    obtain ⟨fits, helem⟩ := Reduce.plan_of_build build
    exact helem ▸ Reduce.succeedsIff moderate runs fits args
  · obtain ⟨valid, p, d, d', build⟩ := Algorithm.built_of_constructs h
    have fits := (Radixsort.planFits_of_build build).setTemporaries keys values
    have sorts := (Radixsort.planSorts_of_build valid build).setTemporaries keys values
    exact Radixsort.succeedsIff moderate runs fits (UInt64.le_iff_toNat_le.1 hscale) sorts args

/-- One of each primitive on a small graphics device, with a buffer of 1024 elements. All of them
can be scanned; from the second one on there are not as many to reduce; and a sort of pairs is
refused without values. -/
theorem succeedsIff_gpu :
    let b := Backend.steady Backend.gpuProperties
    let uint : ElemType := ⟨.uint, 1, by decide⟩
    let buffer : Buffer := ⟨0, 4096, .readWrite⟩
    (∃ plan, Algorithm.Constructs (Scan.primitive b) ⟨uint⟩ plan ∧
      Algorithm.SucceedsIff (Scan.primitive b) plan ⟨buffer, 1024, .zero⟩ True) ∧
    (∃ plan, Algorithm.Constructs (Reduce.primitive b) ⟨uint⟩ plan ∧
      Algorithm.SucceedsIff (Reduce.primitive b) plan ⟨buffer, 1, 1024, .host 4⟩ False) ∧
    Algorithm.Constructs (Radixsort.primitive b) ⟨uint, uint⟩ Radixsort.smallPlan ∧
      Algorithm.SucceedsIff (Radixsort.primitive b) Radixsort.smallPlan ⟨⟨buffer, none⟩, 1024, 0⟩
        False := by
  intro b uint buffer
  have moderate : b.properties.Moderate := ⟨by decide, by decide⟩
  obtain ⟨scans, reduces, sorts⟩ := succeedsIff_valid moderate (Backend.runs_steady _)
  obtain ⟨⟨scan, r₁, hscan⟩, ⟨reduce, r₂, hreduce⟩, ⟨r₃, hsort⟩⟩ := exists_builds_gpu
  have vscan : Scan.validate Backend.gpuProperties ⟨⟨.uint, 1, by decide⟩⟩ = .ok () := by rfl
  have vreduce : Reduce.validate Backend.gpuProperties ⟨⟨.uint, 1, by decide⟩⟩ = .ok () := by rfl
  have vsort : Radixsort.validate Backend.gpuProperties
      ⟨⟨.uint, 1, by decide⟩, ⟨.uint, 1, by decide⟩⟩ = .ok () := by rfl
  have cscan : Algorithm.Constructs (Scan.primitive b) ⟨uint⟩ scan :=
    Algorithm.constructs_of_built vscan (Scan.isEmpty_candidates vscan) hscan
  have creduce : Algorithm.Constructs (Reduce.primitive b) ⟨uint⟩ reduce :=
    Algorithm.constructs_of_built vreduce (Reduce.isEmpty_candidates vreduce) hreduce
  have csort : Algorithm.Constructs (Radixsort.primitive b) ⟨uint, uint⟩ Radixsort.smallPlan :=
    Algorithm.constructs_of_built vsort (Radixsort.isEmpty_candidates vsort) hsort
  -- The plans come from the general theorem on builds, only the arguments are evaluated.
  refine ⟨⟨scan, cscan, ?_⟩, ⟨reduce, creduce, ?_⟩, csort, ?_⟩
  · have valid : Scan.ValidArgs ⟨.uint, 1, by decide⟩ ⟨⟨0, 4096, .readWrite⟩, 1024, .zero⟩ :=
      ⟨by decide, by decide, by decide, rfl, trivial⟩
    obtain ⟨size, hsize, -, hlt⟩ :=
      ScanGeometry.blockSize?_eq (Scan.plan_of_build hscan).1.geometry moderate valid.fits
    exact (scans _ _ cscan _).congr (iff_true_intro ⟨valid, size, hsize, hlt⟩)
  · have invalid : ¬ Reduce.ValidArgs ⟨.uint, 1, by decide⟩
        ⟨⟨0, 4096, .readWrite⟩, 1, 1024, .host 4⟩ := fun h => absurd h.holds (by decide)
    exact (reduces _ _ creduce _).congr (iff_false_intro (mt And.left invalid))
  · have invalid : ¬ Radixsort.ValidArgs ⟨⟨.uint, 1, by decide⟩, ⟨.uint, 1, by decide⟩⟩
        ⟨⟨⟨0, 4096, .readWrite⟩, none⟩, 1024, 0⟩ := fun h => absurd h.typed (by decide)
    exact (sorts _ _ none none csort (by decide) _).congr
      (iff_false_intro (mt And.left invalid))

end KernelTuning
