import KernelTuning.Proofs.Enqueueing

/-!
# Requests to a device

A primitive asks the backend for launches, copies and reads (`Request`). The backend checks each of
them before it is carried out: work groups against the limits of the device, copies and reads
against the sizes of the buffers.

* `send` is the operation of the backend for a request; `carryOut` is what remains of it without
  the checks. The two are the same program for a request within bounds (`send_eq_carryOut`), so
  that none of the refusals can be reached.
* `chain` sends requests one after the other, each waiting for the one before.
* On a backend that refuses no launch within the limits of the device (`Backend.Runs`), a chain
  within bounds succeeds in every state (`exec_chain_of_runs`).
-/

namespace KernelTuning

variable {ε σ α β : Type}

/-! ## Programs that do the same -/

theorem ext_exec {x y : ExceptT ε (StateM σ) α} (h : ∀ s, exec x s = exec y s) : x = y := funext h

/-- Programs that go on alike after every success of their common start. -/
theorem bind_congr_of_ok {x : ExceptT ε (StateM σ) α} {f g : α → ExceptT ε (StateM σ) β}
    (h : ∀ s a s', exec x s = (.ok a, s') → f a = g a) : x >>= f = x >>= g := by
  apply ext_exec
  intro s
  rw [exec_bind, exec_bind]
  rcases hx : exec x s with ⟨_ | a, s'⟩
  · rfl
  · simp only [h s a s' hx]

namespace Device

theorem attempt_ok_bind (a : α) (f : α → Device β) : attempt (.ok a) >>= f = f a := rfl

theorem attempt_pure_bind (a : α) (f : α → Device β) : attempt (pure a) >>= f = f a := rfl

theorem ofQueue_pure (a : α) : ofQueue (pure a) = pure a := rfl

theorem ofQueue_bind (x : Queue α) (f : α → Queue β) :
    ofQueue (x >>= f) = ofQueue x >>= fun a => ofQueue (f a) := by
  apply ext_exec
  intro r
  rw [exec_ofQueue, exec_bind, exec_bind, exec_ofQueue]
  rcases exec x r with ⟨_ | _, _⟩ <;> rfl

end Device

theorem Queue.ofArithmetic_ok (a : α) : ofArithmetic (.ok a) = pure a := rfl

theorem Queue.require_of_true {condition : Bool} {reason : String} (h : condition = true) :
    require condition reason = pure () := if_pos h

/-! ## Requests -/

/-- A command that is asked for, with the buffers that it works on. -/
inductive Request where
  | launch (launch : KernelLaunch)
  | copy (source target : Buffer) (size : Word)
  | read (source : Buffer) (offset size : Word)

/-- A range of work items and a work group that a device can run. -/
structure DeviceProperties.Allows (d : DeviceProperties) (globalSize localSize : Word) : Prop where
  local_pos : 1 ≤ localSize.toNat
  local_le : localSize.toNat ≤ d.maxWorkGroupSize.toNat
  global_pos : 0 < globalSize.toNat
  local_dvd : localSize.toNat ∣ globalSize.toNat

/-- The request keeps to the limits of a device and to the sizes of its buffers. -/
def Request.WithinBounds (d : DeviceProperties) : Request → Prop
  | .launch kernel => d.Allows kernel.globalSize kernel.localSize
  | .copy source target size =>
    size.toNat ≤ source.size.toNat ∧ size.toNat ≤ target.size.toNat
  | .read source offset size => offset.toNat + size.toNat ≤ source.size.toNat

namespace Backend

variable {b : Backend}

/-- The operation of the backend for a request. -/
def send (b : Backend) (request : Request) (waitFor : List Event) : Queue Event :=
  match request with
  | .launch launch => b.dispatch launch waitFor
  | .copy source target size => b.copy source target size
  | .read source offset size => do return (← b.read source offset size).1

/-- Carries out a request without checking it. -/
def carryOut (b : Backend) (request : Request) (waitFor : List Event) : Queue Event :=
  match request with
  | .launch launch => do
    let record := recordOf launch waitFor
    let duration ← b.costOf record
    Queue.push (.launch record) launch.kernel duration
  | .copy source target size => Queue.push (.copy source.id target.id size) "copy" (size / 8).toNat
  | .read source offset size => Queue.push (.read source.id offset size) "read" 0

/-- No check of the backend refuses a request within bounds. -/
theorem send_eq_carryOut {request : Request} (h : request.WithinBounds b.properties)
    (waitFor : List Event) : b.send request waitFor = b.carryOut request waitFor := by
  -- Every request has its own checks, each of which one of its bounds answers.
  cases request with
  | launch launch =>
    obtain ⟨hpos, hle, hglobal, hdvd⟩ := h
    have hlocal : (launch.localSize != 0 &&
        decide (launch.localSize ≤ b.properties.maxWorkGroupSize)) = true := by
      rw [Bool.and_eq_true, bne_iff_ne, Word.ne_zero_iff, decide_eq_true_eq,
        UInt64.le_iff_toNat_le]
      exact ⟨hpos, hle⟩
    have hmultiple : (launch.globalSize != 0 &&
        launch.globalSize % launch.localSize == 0) = true := by
      rw [Bool.and_eq_true, bne_iff_ne, Word.ne_zero_iff, beq_iff_eq, ← UInt64.toNat_inj,
        UInt64.toNat_mod]
      exact ⟨hglobal, Nat.mod_eq_zero_of_dvd hdvd⟩
    show b.dispatch launch waitFor = _
    rw [dispatch, Queue.require_of_true hlocal, Queue.require_of_true hmultiple, pure_bind,
      pure_bind]
    rfl
  | copy source target size =>
    have hbounds : (decide (size ≤ source.size) && decide (size ≤ target.size)) = true := by
      rw [Bool.and_eq_true, decide_eq_true_eq, decide_eq_true_eq, UInt64.le_iff_toNat_le,
        UInt64.le_iff_toNat_le]
      exact h
    show b.copy source target size = _
    rw [Backend.copy, Queue.require_of_true hbounds, pure_bind]
    rfl
  | read source offset size =>
    change offset.toNat + size.toNat ≤ source.size.toNat at h
    obtain ⟨stop, hstop, hsum⟩ :=
      Word.exists_add?_eq (Nat.lt_of_le_of_lt h source.size.toNat_lt)
    have hbounds : decide (stop ≤ source.size) = true := by
      rw [decide_eq_true_eq, UInt64.le_iff_toNat_le, hsum]
      exact h
    show (do return (← b.read source offset size).1) = _
    rw [Backend.read, hstop, Queue.ofArithmetic_ok, pure_bind, Queue.require_of_true hbounds,
      pure_bind, bind_assoc]
    simp only [pure_bind, bind_pure]
    rfl

end Backend

/-! ## Chains -/

/-- Sends requests in turn, each of which waits for the one before. -/
def chain (send : Request → List Event → Queue Event) : List Event → List Request →
    Queue (List Event)
  | _, [] => pure []
  | waitFor, request :: rest => do
    let event ← send request waitFor
    return event :: (← chain send [event] rest)

section

variable {send send' : Request → List Event → Queue Event}

theorem chain_congr {requests : List Request}
    (h : ∀ request ∈ requests, ∀ waitFor, send request waitFor = send' request waitFor)
    (waitFor : List Event) : chain send waitFor requests = chain send' waitFor requests := by
  induction requests generalizing waitFor with
  | nil => rfl
  | cons request rest ih =>
    have hrest := ih fun later hlater => h later (List.mem_cons_of_mem _ hlater)
    simp only [chain, h request List.mem_cons_self, hrest]

/-- The checks of the backend make no difference to requests within bounds. -/
theorem chain_send_eq {b : Backend} {requests : List Request}
    (h : ∀ request ∈ requests, request.WithinBounds b.properties) (waitFor : List Event) :
    chain b.send waitFor requests = chain b.carryOut waitFor requests :=
  chain_congr (fun request hrequest => Backend.send_eq_carryOut (h request hrequest)) waitFor

theorem chain_append (first second : List Request) (waitFor : List Event) :
    chain send waitFor (first ++ second) = do
      let events ← chain send waitFor first
      return events ++ (← chain send (eventsAfter events waitFor) second) := by
  induction first generalizing waitFor with
  | nil => simp [chain, eventsAfter]
  | cons request rest ih => simp [chain, ih, eventsAfter_cons]

end

/-! ## Backends that refuse nothing -/

/-- The backend runs every launch that the device allows. -/
def Backend.Runs (b : Backend) : Prop :=
  ∀ (calls : Nat) (launch : LaunchRecord),
    b.properties.Allows launch.globalSize launch.localSize → ∃ ns, b.cost calls launch = .ok ns

/-- A device on which everything succeeds, and every launch takes a nanosecond. -/
def Backend.steady (properties : DeviceProperties) : Backend :=
  { Backend.ofProperties properties with cost := fun _ _ => .ok 1 }

theorem Backend.runs_steady (properties : DeviceProperties) : (steady properties).Runs :=
  fun _ _ _ => ⟨1, rfl⟩

variable {b : Backend}

/-- A request within bounds is carried out. -/
theorem exec_carryOut_of_runs (runs : b.Runs) {request : Request}
    (h : request.WithinBounds b.properties) (waitFor : List Event) (r : Recorder) :
    ∃ (e : Event) (r' : Recorder), exec (b.carryOut request waitFor) r = (.ok e, r') := by
  cases request with
  | launch launch =>
    obtain ⟨ns, hcost⟩ := runs r.costCalls (Backend.recordOf launch waitFor) h
    have hcostOf : exec (b.costOf (Backend.recordOf launch waitFor)) r =
        (.ok ns, { r with costCalls := r.costCalls + 1 }) := by
      unfold Backend.costOf
      rw [exec_mk, hcost]
    exact ⟨_, _, (exec_bind_of_ok hcostOf).trans (exec_push ..)⟩
  | copy | read => exact ⟨_, _, exec_push ..⟩

/-- A chain of requests within bounds is carried out. -/
theorem exec_chain_of_runs (runs : b.Runs) {requests : List Request}
    (h : ∀ request ∈ requests, request.WithinBounds b.properties) (waitFor : List Event)
    (r : Recorder) :
    ∃ events r', exec (chain b.send waitFor requests) r = (.ok events, r') := by
  rw [chain_send_eq h]
  induction requests generalizing waitFor r with
  | nil => exact ⟨[], r, rfl⟩
  | cons request rest ih =>
    obtain ⟨e, r₁, hfirst⟩ := exec_carryOut_of_runs runs (h request List.mem_cons_self) waitFor r
    obtain ⟨events, r₂, hrest⟩ :=
      ih (fun later hlater => h later (List.mem_cons_of_mem _ hlater)) [e] r₁
    exact ⟨e :: events, r₂, by rw [chain, exec_bind_of_ok hfirst, exec_bind_of_ok hrest, exec_pure]⟩

/-- There is one event for each request of a chain. -/
theorem length_of_chain {send : Request → List Event → Queue Event} {requests : List Request}
    {waitFor events : List Event} {r r' : Recorder}
    (h : exec (chain send waitFor requests) r = (.ok events, r')) :
    events.length = requests.length := by
  induction requests generalizing waitFor events r with
  | nil =>
    cases h
    rfl
  | cons request rest ih =>
    obtain ⟨e, r₁, -, h⟩ := exec_bind_eq_ok h
    obtain ⟨events', r₂, hrest, h⟩ := exec_bind_eq_ok h
    cases h
    simp [ih hrest]

end KernelTuning
