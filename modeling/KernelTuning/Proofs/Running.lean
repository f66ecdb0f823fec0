import KernelTuning.Backend.Recorder

/-!
# Running operations

`exec` runs an operation that may fail on a state: it gives the result together with the state
left behind, also by a failure. The lemmas say what `exec` does to each way of putting operations
together, so that a program is followed one bind at a time. Attempts have no state; they are
inverted by `iff`s, which read off a successful attempt what its checks have found.
-/

namespace KernelTuning

variable {ε σ α β : Type}

/-- The result of an operation on a state, and the state that it leaves behind. -/
def exec (x : ExceptT ε (StateM σ) α) (s : σ) : Except ε α × σ := x.run.run s

@[simp] theorem exec_mk (f : σ → Except ε α × σ) (s : σ) : exec (ExceptT.mk f) s = f s := rfl

@[simp] theorem exec_pure (a : α) (s : σ) :
    exec (pure a : ExceptT ε (StateM σ) α) s = (.ok a, s) := rfl

@[simp] theorem exec_throw (e : ε) (s : σ) :
    exec (throw e : ExceptT ε (StateM σ) α) s = (.error e, s) := rfl

@[simp] theorem mapError_ok {ε' : Type} (f : ε → ε') (a : α) :
    (Except.ok a : Except ε α).mapError f = .ok a := rfl

@[simp] theorem mapError_error {ε' : Type} (f : ε → ε') (e : ε) :
    (Except.error e : Except ε α).mapError f = .error (f e) := rfl

theorem except_ok_bind (a : α) (f : α → Except ε β) : (Except.ok a >>= f) = f a := rfl

/-- A sequence of results succeeds with what its second part makes of the first one. -/
theorem except_bind_eq_ok {x : Except ε α} {f : α → Except ε β} {b : β} :
    (x >>= f) = .ok b ↔ ∃ a, x = .ok a ∧ f a = .ok b := by
  rcases x with e | a
  · simp [bind, Except.bind]
  · simp [bind, Except.bind]

theorem exec_mapError {ε' : Type} (x : ExceptT ε (StateM σ) α) (f : ε → ε') (s : σ) :
    exec (ExceptT.mk do return (← x.run).mapError f : ExceptT ε' (StateM σ) α) s =
      ((exec x s).1.mapError f, (exec x s).2) := rfl

/-! ## Sequences -/

theorem exec_bind (x : ExceptT ε (StateM σ) α) (f : α → ExceptT ε (StateM σ) β) (s : σ) :
    exec (x >>= f) s =
      match exec x s with
      | (.ok a, s') => exec (f a) s'
      | (.error e, s') => (.error e, s') := by
  show (ExceptT.bindCont f (exec x s).1) (exec x s).2 = _
  rcases exec x s with ⟨_ | _, _⟩ <;> rfl

theorem exec_bind_of_ok {x : ExceptT ε (StateM σ) α} {f : α → ExceptT ε (StateM σ) β} {s s' : σ}
    {a : α} (h : exec x s = (.ok a, s')) : exec (x >>= f) s = exec (f a) s' := by
  rw [exec_bind, h]

theorem exec_bind_of_error {x : ExceptT ε (StateM σ) α} {f : α → ExceptT ε (StateM σ) β}
    {s s' : σ} {e : ε} (h : exec x s = (.error e, s')) : exec (x >>= f) s = (.error e, s') := by
  rw [exec_bind, h]

/-- A sequence that succeeds passes through a state in which its first part has succeeded. -/
theorem exec_bind_eq_ok {x : ExceptT ε (StateM σ) α} {f : α → ExceptT ε (StateM σ) β} {s s'' : σ}
    {b : β} (h : exec (x >>= f) s = (.ok b, s'')) :
    ∃ a s', exec x s = (.ok a, s') ∧ exec (f a) s' = (.ok b, s'') := by
  rw [exec_bind] at h
  rcases hx : exec x s with ⟨_ | a, s'⟩ <;> rw [hx] at h
  · simp at h
  · exact ⟨a, s', rfl, h⟩

theorem exists_of_isOk {x : ExceptT ε (StateM σ) α} {s : σ} (h : (exec x s).1.isOk = true) :
    ∃ a s', exec x s = (.ok a, s') := by
  rcases hx : exec x s with ⟨e | a, s'⟩ <;> rw [hx] at h
  · cases h
  · exact ⟨a, s', rfl⟩

/-! ## Lists -/

/-- What succeeds on each element in every state succeeds on the list. -/
theorem exists_mapM {f : α → ExceptT ε (StateM σ) β} {l : List α}
    (h : ∀ a ∈ l, ∀ s, ∃ b s', exec (f a) s = (.ok b, s')) (s : σ) :
    ∃ bs s', exec (l.mapM f) s = (.ok bs, s') := by
  induction l generalizing s with
  | nil => exact ⟨[], s, rfl⟩
  | cons a l ih =>
    obtain ⟨b, s₁, hfirst⟩ := h a List.mem_cons_self s
    obtain ⟨bs, s₂, hrest⟩ := ih (fun a' ha' => h a' (List.mem_cons_of_mem _ ha')) s₁
    refine ⟨b :: bs, s₂, ?_⟩
    rw [List.mapM_cons, exec_bind_of_ok hfirst, exec_bind_of_ok hrest, exec_pure]

namespace Attempt

theorem bind_eq_ok {x : Attempt α} {f : α → Attempt β} {b : β} :
    (x >>= f) = .ok b ↔ ∃ a, x = .ok a ∧ f a = .ok b :=
  except_bind_eq_ok

theorem ensure_eq_ok {condition : Bool} {reason : String} :
    ensure condition reason = .ok () ↔ condition = true := by
  cases condition <;> simp [ensure, fail]

theorem ensure_bind_eq_ok {condition : Bool} {reason : String} {f : Unit → Attempt β} {b : β} :
    (ensure condition reason >>= f) = .ok b ↔ condition = true ∧ f () = .ok b := by
  cases condition <;> simp [ensure, fail, bind, Except.bind]

@[simp] theorem ofArithmetic_ok (a : α) : ofArithmetic (.ok a) = .ok a := rfl

@[simp] theorem ofArithmetic_error (fault : Word.Fault) :
    (ofArithmetic (.error fault) : Attempt α) = .error (.ofFault fault) := rfl

theorem ofArithmetic_bind_eq_ok {x : Except Word.Fault α} {f : α → Attempt β} {b : β} :
    (ofArithmetic x >>= f) = .ok b ↔ ∃ a, x = .ok a ∧ f a = .ok b := by
  cases x <;> simp [bind, Except.bind]

end Attempt

end KernelTuning
