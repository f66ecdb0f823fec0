import KernelTuning.Algorithm.Create
import KernelTuning.Proofs.Running

/-!
# How a construction ends

`Algorithm.create` has many exits: before anything is read, at a cached entry, in the middle of
the search, at the final build, after the write. `Exit` lists them, each with what was found on
the way there and the states of the storage and of the device that it leaves behind.

**Theorem (`create_exit`).** Every construction ends in one of the exits of `Exit`.

What holds of all constructions is then proved by cases on the exit, and no proof follows the
program a second time.

* `Unused` says that no cached entry could be used, and what a refused build left of the device.
* `SearchExit` lists the ends of a search, with the entry that it stores if it succeeds.
-/

namespace KernelTuning.Algorithm

variable {σ δ Q L A O α β : Type} [Problem Q]

/-! ## Parts of a construction -/

theorem exec_onDevice (action : Action δ α) (s : σ) (d : δ) :
    exec (onDevice action : Action (σ × δ) α) (s, d) =
      ((exec action d).1, s, (exec action d).2) := rfl

theorem exec_onState (change : StateM σ α) (s : σ) (d : δ) :
    exec (onState change : Action (σ × δ) α) (s, d) =
      (.ok (change.run s).1, (change.run s).2, d) := rfl

theorem exec_orNone (action : Action δ α) (d : δ) :
    exec (orNone action) d =
      match exec action d with
      | (.ok a, d') => (.ok (some a), d')
      | (.error (.error _), d') => (.ok none, d')
      | (.error (.crash message), d') => (.error (.crash message), d') := by
  unfold orNone exec
  rw [ExceptT.run_mk, StateT.run_bind]
  rcases action.run.run d with ⟨(_ | _) | _, _⟩ <;> rfl

/-- The reason of a failure, if there was one. -/
def failure? {ε : Type} : Except ε α → Option ε
  | .ok _ => none
  | .error e => some e

/-- The entry that is stored for parameters that a search has found. -/
def foundEntry (p : Primitive δ Q L A O) (problem : Q) (now : UInt64)
    (found : TuningParameters × Binary64) : CacheEntry Q :=
  ⟨keyOf p problem, found.1, found.2, now, (spaceOf p problem).checksum⟩

/-- The state after the report of a search. -/
def afterReport (p : Primitive δ Q L A O) (t : Tuner σ) (trace : Search.Trace) (s : σ) : σ :=
  t.report (Search.events p.name p.device.fingerprint.name trace) s

theorem run_persist (t : Tuner σ) (key : TuningKey Q) (space : CandidateSpace) (now : UInt64)
    (outcome : TuneOutcome) (s : σ) (h : outcome.persistError = none) :
    (t.persist key space now outcome).run s =
      let stored := exec (t.storage.store
        (⟨key, outcome.parameters, outcome.score, now, space.checksum⟩ : CacheEntry Q)) s
      ({ outcome with persistError := failure? stored.1 }, stored.2) := by
  unfold Tuner.persist exec
  rw [StateT.run_bind]
  rcases (t.storage.store _).run.run s with ⟨e | _, s'⟩
  · rfl
  · obtain ⟨_, _, _, _⟩ := outcome
    obtain rfl := h
    rfl

/-! ## The exits -/

/-- No cached entry can be used for a problem: there is none, or the plan of its parameters is
refused. In the second case the device is left as the refused build leaves it. -/
inductive Unused (p : Primitive δ Q L A O) (t : Tuner σ) (problem : Q) (s : σ) (d : δ) : δ → Prop
  | missing (none : t.lookup (keyOf p problem) (spaceOf p problem) s = none) :
      Unused p t problem s d d
  | refused {entry : CacheEntry Q} {e : Error} {d' : δ}
      (found : t.lookup (keyOf p problem) (spaceOf p problem) s = some entry)
      (built : exec (p.build problem entry.parameters) d = (.error (.error e), d')) :
      Unused p t problem s d d'

/-- The ends of a search for a problem. -/
inductive SearchExit (p : Primitive δ Q L A O) (t : Tuner σ) (now : UInt64) (problem : Q)
    (s : σ) (d : δ) : Except (Failure Error) (Algorithm Q L β) → σ → δ → Prop
  | disabled (off : t.policy.enabled = false) :
      SearchExit p t now problem s d
        (.error (.error (.tune (.disabled p.name p.device.fingerprint.name)))) s d
  | exhausted {trace : Search.Trace} {d' : δ} (on : t.policy.enabled = true)
      (searched : (Search.run (score p problem) (spaceOf p problem)).run d = (trace, d'))
      (nothing : Search.selected? trace = none) :
      SearchExit p t now problem s d
        (.error (.error (.tune (.allCandidatesFailed p.name (Search.evaluated trace)
          (Search.lastFailure trace))))) (afterReport p t trace s) d'
  | unbuilt {trace : Search.Trace} {d₁ d' : δ} {found : TuningParameters × Binary64}
      {e : Failure Error} (on : t.policy.enabled = true)
      (searched : (Search.run (score p problem) (spaceOf p problem)).run d = (trace, d₁))
      (selected : Search.selected? trace = some found)
      (built : exec (p.build problem found.1) d₁ = (.error e, d')) :
      SearchExit p t now problem s d (.error e) (afterReport p t trace s) d'
  | tuned {trace : Search.Trace} {d₁ d' : δ} {found : TuningParameters × Binary64} {plan : L}
      {stored : Except CacheError Unit} {s' : σ} (on : t.policy.enabled = true)
      (searched : (Search.run (score p problem) (spaceOf p problem)).run d = (trace, d₁))
      (selected : Search.selected? trace = some found)
      (built : exec (p.build problem found.1) d₁ = (.ok plan, d'))
      (store : exec (t.storage.store (foundEntry p problem now found)) (afterReport p t trace s) =
        (stored, s')) :
      SearchExit p t now problem s d
        (.ok (ofPlan p problem found.1 plan (.tuned (Search.evaluated trace) found.2)
          (failure? stored))) s' d'

/-- The ends of a construction: the result, and what is left of the states. -/
inductive Exit (p : Primitive δ Q L A O) (t : Tuner σ) (now : UInt64) (problem : Q)
    (s : σ) (d : δ) : Except (Failure Error) (Algorithm Q L β) → σ → δ → Prop
  | invalid {e : Failure Error} (refused : p.validate problem = .error e) :
      Exit p t now problem s d (.error e) s d
  | noCandidate (valid : p.validate problem = .ok ()) (empty : (spaceOf p problem).isEmpty) :
      Exit p t now problem s d (.error (.error (.tune (.emptySpace p.name)))) s d
  | crashed {entry : CacheEntry Q} {message : Option String} {d' : δ}
      (valid : p.validate problem = .ok ()) (nonempty : (spaceOf p problem).isEmpty = false)
      (found : t.lookup (keyOf p problem) (spaceOf p problem) s = some entry)
      (built : exec (p.build problem entry.parameters) d = (.error (.crash message), d')) :
      Exit p t now problem s d (.error (.crash message)) s d'
  | cached {entry : CacheEntry Q} {plan : L} {d' : δ}
      (valid : p.validate problem = .ok ()) (nonempty : (spaceOf p problem).isEmpty = false)
      (found : t.lookup (keyOf p problem) (spaceOf p problem) s = some entry)
      (built : exec (p.build problem entry.parameters) d = (.ok plan, d')) :
      Exit p t now problem s d
        (.ok (ofPlan p problem entry.parameters plan (.cached entry.score) none)) s d'
  | searched {d₁ d' : δ} {s' : σ} {result : Except (Failure Error) (Algorithm Q L β)}
      (valid : p.validate problem = .ok ()) (nonempty : (spaceOf p problem).isEmpty = false)
      (unused : Unused p t problem s d d₁)
      (search : SearchExit p t now problem s d₁ result s' d') :
      Exit p t now problem s d result s' d'

/-! ## Every construction takes one of them -/

section

variable (p : Primitive δ Q L A O) (t : Tuner σ) (problem : Q) (s : σ) (d : δ)

theorem exec_fromCache_of_none
    (h : t.lookup (keyOf p problem) (spaceOf p problem) s = none) :
    exec (fromCache p t problem : Action (σ × δ) (Option (Algorithm Q L β))) (s, d) =
      (.ok none, s, d) := by
  unfold fromCache
  rw [exec_bind_of_ok (exec_onState _ s d)]
  simp only [StateT.run, h]
  rfl

theorem exec_fromCache_of_some {entry : CacheEntry Q}
    (h : t.lookup (keyOf p problem) (spaceOf p problem) s = some entry) :
    exec (fromCache p t problem : Action (σ × δ) (Option (Algorithm Q L β))) (s, d) =
      match exec (p.build problem entry.parameters) d with
      | (.ok plan, d') =>
        (.ok (some (ofPlan p problem entry.parameters plan (.cached entry.score) none)), s, d')
      | (.error (.error _), d') => (.ok none, s, d')
      | (.error (.crash message), d') => (.error (.crash message), s, d') := by
  unfold fromCache
  rw [exec_bind_of_ok (exec_onState _ s d)]
  simp only [StateT.run, h]
  rw [exec_bind, exec_onDevice, exec_orNone]
  rcases exec (p.build problem entry.parameters) d with ⟨(_ | _) | _, _⟩ <;> rfl

theorem exec_search_of_disabled (measure : Measure δ) (algorithm device : String)
    (space : CandidateSpace) (off : t.policy.enabled = false) :
    exec (t.search algorithm device space measure) (s, d) =
      (.error (.disabled algorithm device), s, d) := by
  unfold Tuner.search
  simp [off]

theorem exec_search (measure : Measure δ) (algorithm device : String) {space : CandidateSpace}
    (on : t.policy.enabled = true) (nonempty : space.isEmpty = false) :
    exec (t.search algorithm device space measure) (s, d) =
      (Tuner.outcome algorithm ((Search.run measure space).run d).1,
        t.report (Search.events algorithm device ((Search.run measure space).run d).1) s,
        ((Search.run measure space).run d).2) := by
  unfold Tuner.search
  rw [exec_mk]
  simp only [on, nonempty, Bool.not_true, Bool.false_eq_true, if_false]
  rfl

end

variable {p : Primitive δ Q L A O} {t : Tuner σ} {now : UInt64} {problem : Q} {s s' : σ}
  {d d₁ d' : δ} {result : Except (Failure Error) (Algorithm Q L β)}

/-- A construction that is not refused comes to the cache. -/
theorem exec_create_of_valid (valid : p.validate problem = .ok ())
    (nonempty : (spaceOf p problem).isEmpty = false) :
    exec (create p t now problem : Action (σ × δ) (Algorithm Q L β)) (s, d) =
      exec (do
        match ← (fromCache p t problem : Action (σ × δ) (Option (Algorithm Q L β))) with
        | some algorithm => return algorithm
        | none => fromSearch p t now problem) (s, d) := by
  unfold create
  rw [valid, nonempty]
  rfl

/-- A construction that cannot use a cached entry goes on as a search. -/
theorem exec_create_of_unused (valid : p.validate problem = .ok ())
    (nonempty : (spaceOf p problem).isEmpty = false) (unused : Unused p t problem s d d₁) :
    exec (create p t now problem : Action (σ × δ) (Algorithm Q L β)) (s, d) =
      exec (fromSearch p t now problem : Action (σ × δ) (Algorithm Q L β)) (s, d₁) := by
  have hnone : exec (fromCache p t problem : Action (σ × δ) (Option (Algorithm Q L β))) (s, d) =
      (.ok none, s, d₁) := by
    cases unused with
    | missing none => exact exec_fromCache_of_none p t problem s d none
    | refused found built => rw [exec_fromCache_of_some p t problem s d found, built]
  rw [exec_create_of_valid valid nonempty, exec_bind_of_ok hnone]

/-- A construction ends at a cached entry whose parameters make a plan. -/
theorem exec_create_of_found {entry : CacheEntry Q} {plan : L}
    (valid : p.validate problem = .ok ()) (nonempty : (spaceOf p problem).isEmpty = false)
    (found : t.lookup (keyOf p problem) (spaceOf p problem) s = some entry)
    (built : exec (p.build problem entry.parameters) d = (.ok plan, d')) :
    exec (create p t now problem : Action (σ × δ) (Algorithm Q L β)) (s, d) =
      (.ok (ofPlan p problem entry.parameters plan (.cached entry.score) none), s, d') := by
  rw [exec_create_of_valid valid nonempty, exec_bind,
    exec_fromCache_of_some p t problem s d found, built]
  rfl

/-- A construction crashes with the plan of a cached entry. -/
theorem exec_create_of_crashed {entry : CacheEntry Q} {message : Option String}
    (valid : p.validate problem = .ok ()) (nonempty : (spaceOf p problem).isEmpty = false)
    (found : t.lookup (keyOf p problem) (spaceOf p problem) s = some entry)
    (built : exec (p.build problem entry.parameters) d = (.error (.crash message), d')) :
    exec (create p t now problem : Action (σ × δ) (Algorithm Q L β)) (s, d) =
      (.error (.crash message), s, d') := by
  rw [exec_create_of_valid valid nonempty, exec_bind,
    exec_fromCache_of_some p t problem s d found, built]

theorem exec_fromSearch_of_built {trace : Search.Trace} {found : TuningParameters × Binary64}
    {plan : L} (nonempty : (spaceOf p problem).isEmpty = false) (on : t.policy.enabled = true)
    (searched : (Search.run (score p problem) (spaceOf p problem)).run d = (trace, d₁))
    (selected : Search.selected? trace = some found)
    (built : exec (p.build problem found.1) d₁ = (.ok plan, d')) :
    exec (fromSearch p t now problem : Action (σ × δ) (Algorithm Q L β)) (s, d) =
      let stored := exec (t.storage.store (foundEntry p problem now found))
        (afterReport p t trace s)
      (.ok (ofPlan p problem found.1 plan (.tuned (Search.evaluated trace) found.2)
        (failure? stored.1)), stored.2, d') := by
  unfold fromSearch
  rw [exec_bind, exec_mapError, exec_search t s d _ _ _ on nonempty, searched]
  simp only [Tuner.outcome, selected, mapError_ok, exec_bind, exec_onDevice, built,
    exec_onState, run_persist, exec_pure]
  rfl

theorem fromSearch_exit (nonempty : (spaceOf p problem).isEmpty = false)
    (h : exec (fromSearch p t now problem : Action (σ × δ) (Algorithm Q L β)) (s, d) =
      (result, s', d')) : SearchExit p t now problem s d result s' d' := by
  rcases hon : t.policy.enabled with _ | _
  · unfold fromSearch at h
    rw [exec_bind, exec_mapError, exec_search_of_disabled t s d _ _ _ _ hon] at h
    cases h
    exact .disabled hon
  · rcases hrun : (Search.run (score p problem) (spaceOf p problem)).run d with ⟨trace, d₁⟩
    have hsearch := exec_search t s d (score p problem) p.name (keyOf p problem).device.name
      hon nonempty
    rw [hrun] at hsearch
    -- The device has made its measurements, whatever comes of them.
    rcases hsel : Search.selected? trace with _ | found
    · unfold fromSearch at h
      rw [exec_bind, exec_mapError, hsearch] at h
      simp only [Tuner.outcome, hsel, mapError_error] at h
      cases h
      exact .exhausted hon hrun hsel
    · rcases hbuild : exec (p.build problem found.1) d₁ with ⟨e | plan, d₂⟩
      · unfold fromSearch at h
        rw [exec_bind, exec_mapError, hsearch] at h
        simp only [Tuner.outcome, hsel, mapError_ok, exec_bind, exec_onDevice, hbuild] at h
        cases h
        exact .unbuilt hon hrun hsel hbuild
      · rw [exec_fromSearch_of_built nonempty hon hrun hsel hbuild] at h
        cases h
        exact .tuned hon hrun hsel hbuild rfl

/-- **Every construction takes one of the exits.** -/
theorem create_exit
    (h : exec (create p t now problem : Action (σ × δ) (Algorithm Q L β)) (s, d) =
      (result, s', d')) : Exit p t now problem s d result s' d' := by
  rcases hvalid : p.validate problem with e | _
  · unfold create at h
    rw [hvalid] at h
    cases h
    exact .invalid hvalid
  rcases hempty : (spaceOf p problem).isEmpty with _ | _
  · -- Building from an entry may fail, which leads to the search, or crash, which does not.
    rcases hfound : t.lookup (keyOf p problem) (spaceOf p problem) s with _ | entry
    · rw [exec_create_of_unused hvalid hempty (.missing hfound)] at h
      exact .searched hvalid hempty (.missing hfound) (fromSearch_exit hempty h)
    · rcases hbuild : exec (p.build problem entry.parameters) d with ⟨(e | message) | plan, d₁⟩
      · rw [exec_create_of_unused hvalid hempty (.refused hfound hbuild)] at h
        exact .searched hvalid hempty (.refused hfound hbuild) (fromSearch_exit hempty h)
      · rw [exec_create_of_crashed hvalid hempty hfound hbuild] at h
        cases h
        exact .crashed hvalid hempty hfound hbuild
      · rw [exec_create_of_found hvalid hempty hfound hbuild] at h
        cases h
        exact .cached hvalid hempty hfound hbuild
  · unfold create at h
    rw [hvalid, hempty] at h
    cases h
    exact .noCandidate hvalid hempty

end KernelTuning.Algorithm
