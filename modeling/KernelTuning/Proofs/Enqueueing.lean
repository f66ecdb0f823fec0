import KernelTuning.Proofs.Builds

/-!
# Enqueued commands

What operations of a queue add to the record of commands. `Enqueued` says which commands were
added and that the events are theirs, one for each in the same order; `Chained` says that every
launch among them waits for exactly the command before it. Both are closed under sequences, so the
execution of a primitive is described part by part.
-/

namespace KernelTuning

/-! ## Commands and events -/

/-- Between two states exactly some commands were enqueued, and their events are the given ones. -/
structure Enqueued (r r' : Recorder) (events : List Event) (commands : List Command) : Prop where
  history : r'.history = commands.reverse ++ r.history
  ids : events.map Event.id = List.range' (r.lastId + 1) commands.length
  lastId : r'.lastId = r.lastId + commands.length

namespace Enqueued

variable {r r₁ r₂ : Recorder} {events events₁ events₂ : List Event}
  {commands commands₁ commands₂ : List Command}

theorem nil (r : Recorder) : Enqueued r r [] [] := ⟨rfl, rfl, rfl⟩

theorem append (h₁ : Enqueued r r₁ events₁ commands₁) (h₂ : Enqueued r₁ r₂ events₂ commands₂) :
    Enqueued r r₂ (events₁ ++ events₂) (commands₁ ++ commands₂) where
  history := by rw [h₂.history, h₁.history, List.reverse_append, List.append_assoc]
  ids := by
    rw [List.map_append, h₁.ids, h₂.ids, h₁.lastId, List.length_append, Nat.add_right_comm,
      List.range'_append_1]
  lastId := by rw [h₂.lastId, h₁.lastId, List.length_append, Nat.add_assoc]

theorem length_events (h : Enqueued r r₁ events commands) : events.length = commands.length := by
  have h := congrArg List.length h.ids
  rwa [List.length_map, List.length_range'] at h

theorem commands_eq (h : Enqueued r r₁ events commands) : r₁.commands = r.commands ++ commands := by
  unfold Recorder.commands
  rw [h.history, List.reverse_append, List.reverse_reverse]

/-- The last event is that of the last command. -/
theorem getLast?_events (h : Enqueued r r₁ events commands) (hne : commands ≠ []) :
    ∃ e, events.getLast? = some e ∧ e.id = r₁.lastId := by
  have hevents : events ≠ [] := by
    rw [← List.length_pos_iff, h.length_events]
    exact List.length_pos_iff.2 hne
  obtain ⟨e, he⟩ : ∃ e, events.getLast? = some e := ⟨_, List.getLast?_eq_some_getLast hevents⟩
  refine ⟨e, he, ?_⟩
  have hlast : (events.map Event.id).getLast? = some e.id := by rw [List.getLast?_map, he]; rfl
  rw [h.ids, List.getLast?_range', if_neg (by simpa using hne)] at hlast
  rw [h.lastId, ← Option.some.inj hlast, Nat.add_right_comm, Nat.add_sub_cancel]

end Enqueued

/-- Every launch waits for exactly the command before it, the first one for the given events. -/
def Chained : List Event → List Event → List Command → Prop
  | _, [], [] => True
  | waitFor, e :: events, c :: commands =>
    (∀ launch, c = .launch launch → launch.waitFor = waitFor.map Event.id) ∧
      Chained [e] events commands
  | _, _, _ => False

theorem eventsAfter_cons (e : Event) (events waitFor : List Event) :
    eventsAfter (e :: events) waitFor = eventsAfter events [e] := by
  cases events with
  | nil => rfl
  | cons e' rest =>
    unfold eventsAfter
    rw [List.getLast?_cons_cons, List.getLast?_eq_some_getLast (List.cons_ne_nil e' rest)]

theorem Chained.append {waitFor events₁ events₂ : List Event} {commands₁ commands₂ : List Command}
    (h₁ : Chained waitFor events₁ commands₁)
    (h₂ : Chained (eventsAfter events₁ waitFor) events₂ commands₂) :
    Chained waitFor (events₁ ++ events₂) (commands₁ ++ commands₂) := by
  induction events₁ generalizing waitFor commands₁ with
  | nil =>
    cases commands₁ with
    | nil => exact h₂
    | cons => exact h₁.elim
  | cons e events ih =>
    cases commands₁ with
    | nil => exact h₁.elim
    | cons c commands =>
      rw [eventsAfter_cons] at h₂
      exact ⟨h₁.1, ih h₁.2 h₂⟩

theorem Chained.singleton (e : Event) (waitFor : List Event) (launch : KernelLaunch) :
    Chained waitFor [e] [.launch (Backend.recordOf launch waitFor)] :=
  ⟨fun _ h => by cases h; rfl, trivial⟩

/-- The first launch waits for the given events. -/
theorem Chained.first {waitFor events : List Event} {launch : LaunchRecord}
    {commands : List Command} (h : Chained waitFor events (.launch launch :: commands)) :
    launch.waitFor = waitFor.map Event.id := by
  cases events with
  | nil => exact h.elim
  | cons e events => exact h.1 launch rfl

/-! ## Operations -/

variable {b : Backend} {r r' : Recorder} {e : Event}

/-- A launch that is enqueued takes the duration that the backend gives it. -/
theorem exists_cost_of_dispatch {launch : KernelLaunch} {waitFor : List Event}
    (h : exec (b.dispatch launch waitFor) r = (.ok e, r')) :
    ∃ ns, b.cost r.costCalls (Backend.recordOf launch waitFor) = .ok ns ∧
      e = ⟨r.lastId + 1, launch.kernel⟩ ∧
      r' = { r with costCalls := r.costCalls + 1 }.record
        (.launch (Backend.recordOf launch waitFor)) ns := by
  unfold Backend.dispatch at h
  obtain ⟨_, r₁, hlocal, h₁⟩ := exec_bind_eq_ok h
  obtain ⟨_, r₂, hglobal, h₂⟩ := exec_bind_eq_ok h₁
  obtain ⟨ns, r₃, hcost, h₃⟩ := exec_bind_eq_ok h₂
  obtain ⟨-, rfl⟩ := exec_require_eq_ok hlocal
  obtain ⟨-, rfl⟩ := exec_require_eq_ok hglobal
  unfold Backend.costOf at hcost
  rw [exec_mk] at hcost
  obtain ⟨hns, rfl⟩ := Prod.mk.inj hcost
  rw [exec_push] at h₃
  cases h₃
  exact ⟨ns, hns, rfl, rfl⟩

theorem exec_dispatch_eq_ok {launch : KernelLaunch} {waitFor : List Event}
    (h : exec (b.dispatch launch waitFor) r = (.ok e, r')) :
    Enqueued r r' [e] [.launch (Backend.recordOf launch waitFor)] := by
  obtain ⟨ns, -, rfl, rfl⟩ := exists_cost_of_dispatch h
  exact ⟨rfl, rfl, rfl⟩

theorem eq_record_of_copy {source target : Buffer} {size : Word}
    (h : exec (b.copy source target size) r = (.ok e, r')) :
    e = ⟨r.lastId + 1, "copy"⟩ ∧
      r' = r.record (.copy source.id target.id size) (size / 8).toNat := by
  unfold Backend.copy at h
  obtain ⟨_, r₁, hbounds, h₁⟩ := exec_bind_eq_ok h
  obtain ⟨-, rfl⟩ := exec_require_eq_ok hbounds
  rw [exec_push] at h₁
  cases h₁
  exact ⟨rfl, rfl⟩

theorem exec_copy_eq_ok {source target : Buffer} {size : Word}
    (h : exec (b.copy source target size) r = (.ok e, r')) :
    Enqueued r r' [e] [.copy source.id target.id size] := by
  obtain ⟨rfl, rfl⟩ := eq_record_of_copy h
  exact ⟨rfl, rfl, rfl⟩

theorem eq_record_of_read {source : Buffer} {offset size : Word} {bytes : List UInt8}
    (h : exec (b.read source offset size) r = (.ok (e, bytes), r')) :
    e = ⟨r.lastId + 1, "read"⟩ ∧ r' = r.record (.read source.id offset size) 0 := by
  unfold Backend.read at h
  obtain ⟨_, r₀, hstop, h₀⟩ := exec_bind_eq_ok h
  obtain ⟨-, rfl⟩ := exec_ofArithmetic_eq_ok hstop
  obtain ⟨_, r₁, hbounds, h₁⟩ := exec_bind_eq_ok h₀
  obtain ⟨-, rfl⟩ := exec_require_eq_ok hbounds
  obtain ⟨event, r₂, hpush, h₂⟩ := exec_bind_eq_ok h₁
  rw [exec_push] at hpush
  cases hpush
  cases h₂
  exact ⟨rfl, rfl⟩

theorem exec_createBuffer_eq_ok {size : Word} {access : BufferAccess} {buffer : Buffer}
    (h : exec (b.createBuffer size access) r = (.ok buffer, r')) :
    buffer = ⟨r.lastId + 1, size, access⟩ ∧ r'.lastId = r.lastId + 1 ∧ r'.history = r.history := by
  unfold Backend.createBuffer at h
  obtain ⟨_, r₁, hsize, h₁⟩ := exec_bind_eq_ok h
  obtain ⟨-, rfl⟩ := exec_require_eq_ok hsize
  cases h₁
  exact ⟨rfl, rfl, rfl⟩

theorem eq_program_of_buildProgram {program built : Program}
    (h : exec (b.buildProgram program) r = (.ok built, r')) : built = program := by
  unfold Backend.buildProgram at h
  rw [exec_mk] at h
  split at h
  · cases h
    rfl
  · cases h

theorem ne_zero_of_exec_createBuffer {size : Word} {access : BufferAccess} {buffer : Buffer}
    (h : exec (b.createBuffer size access) r = (.ok buffer, r')) : size ≠ 0 := by
  unfold Backend.createBuffer at h
  obtain ⟨_, r₁, hsize, -⟩ := exec_bind_eq_ok h
  simpa using (exec_require_eq_ok hsize).1

end KernelTuning
