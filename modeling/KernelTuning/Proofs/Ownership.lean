import KernelTuning.Backend.Rule
import KernelTuning.Host
import KernelTuning.Probe
import KernelTuning.Proofs.Creation
import KernelTuning.Proofs.Custody

/-!
# Who holds a state and a callback

A program makes any number of algorithms of one primitive, and moves, runs and drops them in any
order (`Use`); to write over an algorithm is to drop it. The algorithms, and the callbacks that the
program passes, are numbered as they come. A plan carries the number of the creation that made it,
which no operation looks at, so two algorithms hold the same state exactly if they hold the same
number.

A use changes the custody of the callbacks and the stock of states in one of the ways of
`Use.Change`, each of which keeps them sound.

**Theorem** (`owned_run`). In every run each resolved state is held by at most one algorithm, as it
was resolved but for its callback. Each callback that was passed is either held by one algorithm,
and was not freed, or by none, and was freed exactly once; it is never called afterwards. Every use
frees, moves and calls what `Use.Follows` says.
-/

namespace KernelTuning

variable {σ δ Q L A O K β : Type}

/-! ## Algorithms with numbers -/

namespace Algorithm

def ready? : Algorithm Q L β → Option (ReadyAlgorithm Q L β)
  | ready s => some s
  | disposed => none

def mapPlan (f : L → K) : Algorithm Q L β → Algorithm Q K β
  | ready s => ready (s.mapPlan f)
  | disposed => disposed

theorem callback?_eq (a : Algorithm Q L β) : a.callback? = a.ready?.bind (·.callback) := by
  cases a <;> rfl

theorem callback?_mapPlan (f : L → K) (a : Algorithm Q L β) :
    (a.mapPlan f).callback? = a.callback? := by
  cases a <;> rfl

/-- A new algorithm is ready and has no callback. -/
theorem ready_of_create [Problem Q] {p : Primitive δ Q L A O} {tuner : Tuner σ} {now : UInt64}
    {q : Q} {s s' : σ × δ} {a : Algorithm Q L β} (h : exec (create p tuner now q) s = (.ok a, s')) :
    ∃ r, a = .ready r ∧ r.callback = none := by
  obtain ⟨s, d⟩ := s
  obtain ⟨s', d'⟩ := s'
  rcases create_exit h with _ | _ | _ | _ | ⟨_, _, _, search⟩
  · exact ⟨_, rfl, rfl⟩
  · rcases search with _ | _ | _ | _
    exact ⟨_, rfl, rfl⟩

theorem execute_disposed {p : Primitive δ Q L A O} {args : A} {waitFor : List Event} (d : δ) :
    exec ((disposed : Algorithm Q L β).execute p args waitFor) d =
      (.error (.error (disposedError p.name)), d) := rfl

/-- A successful execution calls the callback once, for the event that it gives. -/
theorem execute_notices {p : Primitive δ Q L A O} {args : A} {waitFor : List Event} {d d' : δ}
    {a : Algorithm Q L β} {event : Event} {output : O} {notices : List (Notice β)}
    (h : exec (a.execute p args waitFor) d = (.ok (event, output, notices), d')) :
    notices = a.callback?.toList.map (.called · event) := by
  cases a with
  | disposed =>
    rw [execute_disposed] at h
    cases h
  | ready s =>
    change exec (p.enqueue s.plan args waitFor >>= _) d = _ at h
    obtain ⟨⟨events, made⟩, d₁, -, h⟩ := exec_bind_eq_ok h
    dsimp only at h
    split at h
    · cases h
      rfl
    · cases h

end Algorithm

/-! ## Programs -/

/-- One use of the algorithms of a program, which are meant by their numbers. -/
inductive Use (Q A : Type) where
  | create (now : UInt64) (problem : Q)
  | default
  | take (i : ℕ)
  | swap (i j : ℕ)
  | dispose (i : ℕ)
  | drop (i : ℕ)
  | setCallback (i : ℕ)
  | clearCallback (i : ℕ)
  | execute (i : ℕ) (args : A) (waitFor : List Event)

/-- The algorithms of a program. -/
structure Holders (Q L : Type) where
  /-- The algorithms that exist. -/
  algorithms : ℕ → Option (Algorithm Q (ℕ × L) ℕ)
  /-- The number of the next algorithm. -/
  size : ℕ
  /-- The states that were resolved, as they were then. -/
  resolved : List (ReadyAlgorithm Q L ℕ)
  /-- The number of the next callback. -/
  callbacks : ℕ
  /-- What happened to the callbacks. -/
  log : List (Notice ℕ)

namespace Holders

/-- A program that has made nothing yet. -/
def start : Holders Q L := ⟨fun _ => none, 0, [], 0, []⟩

def set (w : Holders Q L) (i : ℕ) (a : Option (Algorithm Q (ℕ × L) ℕ)) : Holders Q L :=
  { w with algorithms := Function.update w.algorithms i a }

/-- A program with one algorithm more. -/
def add (w : Holders Q L) (a : Algorithm Q (ℕ × L) ℕ) : Holders Q L :=
  { w.set w.size (some a) with size := w.size + 1 }

/-- A program with one resolved algorithm more, whose plan gets the next number. -/
def resolve (w : Holders Q L) (a : Algorithm Q L ℕ) : Holders Q L :=
  { w.add (a.mapPlan (w.resolved.length, ·)) with resolved := w.resolved ++ a.ready?.toList }

def tell (w : Holders Q L) (notices : List (Notice ℕ)) : Holders Q L :=
  { w with log := w.log ++ notices }

/-- A program that has passed a callback to an algorithm. -/
def pass (w : Holders Q L) (i : ℕ) (a : Algorithm Q (ℕ × L) ℕ) (notices : List (Notice ℕ)) :
    Holders Q L :=
  { (w.set i (some a)).tell notices with callbacks := w.callbacks + 1 }

/-- The state that an algorithm holds. -/
def state? (w : Holders Q L) (i : ℕ) : Option (ReadyAlgorithm Q (ℕ × L) ℕ) :=
  (w.algorithms i).bind Algorithm.ready?

/-- The callback that an algorithm holds. -/
def callback? (w : Holders Q L) (i : ℕ) : Option ℕ := (w.state? i).bind (·.callback)

/-- How often the user data of a callback was freed. -/
def freed (w : Holders Q L) (n : ℕ) : ℕ := w.log.count (.released n)

end Holders

section

variable [Problem Q]

/-- What a use gives, and what it leaves behind. A use of an algorithm that does not exist does
nothing. -/
def Use.perform (p : Primitive δ Q L A O) (tuner : Tuner σ) (u : Use Q A)
    (x : (σ × δ) × Holders Q L) : Attempt (Option Event) × (σ × δ) × Holders Q L :=
  let (s, w) := x
  match u with
  | create now q =>
    match exec (Algorithm.create p tuner now q) s with
    | (.ok a, s') => (.ok none, s', w.resolve a)
    | (.error f, s') => (.error f, s', w)
  | default => (.ok none, s, w.add .disposed)
  | take i =>
    match w.algorithms i with
    | some a => (.ok none, s, (w.set i (some a.take.2)).add a.take.1)
    | none => (.ok none, s, w)
  | swap i j =>
    match w.algorithms i, w.algorithms j with
    | some a, some b => (.ok none, s, (w.set i (some (a.swap b).1)).set j (some (a.swap b).2))
    | _, _ => (.ok none, s, w)
  | dispose i =>
    match w.algorithms i with
    | some a => (.ok none, s, (w.set i (some a.dispose.1)).tell a.dispose.2)
    | none => (.ok none, s, w)
  | drop i =>
    match w.algorithms i with
    | some a => (.ok none, s, (w.set i none).tell a.release)
    | none => (.ok none, s, w)
  | setCallback i =>
    match w.algorithms i with
    | some a =>
      let (result, a, notices) := a.setCallback p.name w.callbacks
      ((result.map fun _ => none).mapError .error, s, w.pass i a notices)
    | none => (.ok none, s, w)
  | clearCallback i =>
    match w.algorithms i with
    | some a =>
      let (result, a, notices) := a.clearCallback p.name
      ((result.map fun _ => none).mapError .error, s, (w.set i (some a)).tell notices)
    | none => (.ok none, s, w)
  | execute i args waitFor =>
    match w.algorithms i with
    | some a =>
      match exec ((a.mapPlan Prod.snd).execute p args waitFor) s.2 with
      | (.ok (event, _, notices), d) => (.ok (some event), (s.1, d), w.tell notices)
      | (.error f, d) => (.error f, (s.1, d), w)
    | none => (.ok none, s, w)

/-- What is left after some uses in turn. -/
def Use.run (p : Primitive δ Q L A O) (tuner : Tuner σ) :
    List (Use Q A) → (σ × δ) × Holders Q L → (σ × δ) × Holders Q L
  | [], x => x
  | u :: rest, x => run p tuner rest (u.perform p tuner x).2

end

/-! ## The views of a program -/

namespace Holders

variable {w : Holders Q L} {i j : ℕ} {a b : Algorithm Q (ℕ × L) ℕ}

def stock (w : Holders Q L) : Stock Q L := ⟨w.state?, w.resolved⟩

def custody (w : Holders Q L) : Custody := ⟨w.callback?, w.callbacks, w.log⟩

/-- The algorithms to come do not exist yet. -/
def Unmade (w : Holders Q L) : Prop := ∀ k, w.size ≤ k → w.algorithms k = none

structure Sound (w : Holders Q L) : Prop where
  unmade : w.Unmade
  stock : w.stock.Sound
  custody : w.custody.Sound

theorem Unmade.set (h : w.Unmade) (hi : w.algorithms i = some a)
    (b : Option (Algorithm Q (ℕ × L) ℕ)) : (w.set i b).Unmade := by
  intro k (hk : w.size ≤ k)
  have hki : k ≠ i := by
    rintro rfl
    rw [h k hk] at hi
    cases hi
  exact (Function.update_of_ne hki ..).trans (h k hk)

theorem Unmade.add (h : w.Unmade) (a : Algorithm Q (ℕ × L) ℕ) : (w.add a).Unmade := by
  intro k (hk : w.size + 1 ≤ k)
  exact (Function.update_of_ne (by omega) ..).trans (h k (by omega))

theorem custody_eq (w : Holders Q L) :
    w.custody = ⟨w.stock.callback?, w.callbacks, w.log⟩ := rfl

theorem state?_of_algorithms (h : w.algorithms i = some a) : w.state? i = a.ready? := by
  rw [state?, h, Option.bind_some]

theorem callback?_of_algorithms (h : w.algorithms i = some a) : w.callback? i = a.callback? := by
  rw [callback?, state?_of_algorithms h, a.callback?_eq]

theorem state?_of_absent (h : w.algorithms i = none) : w.state? i = none := by
  rw [state?, h, Option.bind_none]

theorem state?_size (h : w.Sound) : w.state? w.size = none :=
  state?_of_absent (h.unmade _ (Nat.le_refl _))

theorem stock_set (w : Holders Q L) (i : ℕ) (a : Option (Algorithm Q (ℕ × L) ℕ)) :
    (w.set i a).stock = w.stock.set i (a.bind Algorithm.ready?) := by
  apply Stock.ext
  · funext j
    rw [Stock.states_set]
    show ((Function.update w.algorithms i a j).bind _) = _
    rw [Function.update_apply]
    split <;> rfl
  · rfl

theorem stock_add (w : Holders Q L) (a : Algorithm Q (ℕ × L) ℕ) :
    (w.add a).stock = w.stock.set w.size a.ready? := stock_set w w.size (some a)

/-- Moving states moves the callbacks along. -/
theorem custody_of_move {w' : Holders Q L} {e : Equiv.Perm ℕ} (h : w'.stock = w.stock.move e)
    (hcallbacks : w'.callbacks = w.callbacks) (hlog : w'.log = w.log) :
    w'.custody = w.custody.move e := by
  rw [custody_eq, h, hcallbacks, hlog]
  rfl

theorem stock_take (h : w.Sound) (hi : w.algorithms i = some a) :
    ((w.set i (some a.take.2)).add a.take.1).stock = w.stock.move (Equiv.swap i w.size) := by
  rw [stock_add, stock_set, ← Stock.set_set_eq_move]
  show (w.stock.set i none).set w.size a.ready? = _
  rw [← state?_of_algorithms hi, ← state?_size h]
  rfl

theorem stock_swap (hi : w.algorithms i = some a) (hj : w.algorithms j = some b) :
    ((w.set i (some (a.swap b).1)).set j (some (a.swap b).2)).stock =
      w.stock.move (Equiv.swap i j) := by
  rw [stock_set, stock_set, ← Stock.set_set_eq_move]
  show (w.stock.set i b.ready?).set j a.ready? = _
  rw [← state?_of_algorithms hi, ← state?_of_algorithms hj]
  rfl

theorem stock_resolve {r : ReadyAlgorithm Q L ℕ} :
    (w.resolve (.ready r)).stock = w.stock.resolve w.size r := by
  have hstates := congrArg Stock.states (stock_add w (.ready (r.mapPlan (w.resolved.length, ·))))
  exact Stock.ext hstates rfl

theorem stock_default (h : w.Sound) : (w.add .disposed).stock = w.stock := by
  rw [stock_add]
  exact Stock.set_eq_self (state?_size h)

theorem custody_resolve {r : ReadyAlgorithm Q L ℕ} (h : w.Sound) (hr : r.callback = none) :
    (w.resolve (.ready r)).custody = w.custody := by
  have hempty : w.stock.callback? w.size = none := by
    rw [Stock.callback?, show w.stock.states w.size = none from state?_size h, Option.bind_none]
  rw [custody_eq, stock_resolve, Stock.callback?_resolve hempty hr]
  rfl

/-- The custody after an algorithm has given up its callback. -/
theorem custody_giveUp (hi : w.algorithms i = some a) {b : Option (Algorithm Q (ℕ × L) ℕ)}
    (hb : (b.bind Algorithm.ready?).bind (·.callback) = none) :
    ((w.set i b).tell a.release).custody = w.custody.giveUp i := by
  show Custody.mk (w.set i b).stock.callback? w.callbacks (w.log ++ a.release) = _
  rw [stock_set, Stock.callback?_set, hb, Algorithm.release, ← callback?_of_algorithms hi]
  rfl

/-- The custody after an algorithm has changed its callback for the next one. -/
theorem custody_takeOver (hi : w.algorithms i = some a) {s : ReadyAlgorithm Q (ℕ × L) ℕ}
    (hs : s.callback = some w.callbacks) :
    (w.pass i (.ready s) a.release).custody = (w.custody.giveUp i).takeOver i := by
  have hheld : Function.update w.callback? i (some w.callbacks) =
      Function.update (Function.update w.callback? i none) i (some w.callbacks) :=
    (Function.update_idem ..).symm
  show Custody.mk (w.set i (some (.ready s))).stock.callback? (w.callbacks + 1)
    (w.log ++ a.release) = _
  rw [stock_set, Stock.callback?_set, Algorithm.release, ← callback?_of_algorithms hi]
  show Custody.mk (Function.update _ i s.callback) _ _ = _
  rw [hs]
  exact Custody.ext hheld rfl rfl

/-- An empty algorithm that is written back changes nothing. -/
theorem stock_set_disposed (hi : w.algorithms i = some .disposed) :
    (w.set i (some .disposed)).stock = w.stock :=
  (stock_set w i _).trans (Stock.set_eq_self (state?_of_algorithms hi))

theorem custody_set_disposed (hi : w.algorithms i = some .disposed) :
    ((w.set i (some .disposed)).tell []).custody = w.custody := by
  show Custody.mk (w.set i (some .disposed)).stock.callback? w.callbacks (w.log ++ []) = _
  rw [stock_set_disposed hi, List.append_nil]
  rfl

theorem custody_refuse (hi : w.algorithms i = some .disposed) :
    (w.pass i .disposed [.released w.callbacks]).custody = w.custody.refuse := by
  show Custody.mk (w.set i (some .disposed)).stock.callback? _ _ = _
  rw [stock_set_disposed hi]
  rfl

end Holders

/-! ## What a use does -/

namespace Use

/-- The uses that move states. -/
def Moves : Use Q A → Prop
  | take _ | swap _ _ => True
  | _ => False

/-- The uses that free the callback of an algorithm. -/
def Frees (i : ℕ) : Use Q A → Prop
  | dispose j | drop j | setCallback j | clearCallback j => j = i
  | _ => False

/-- The uses of an algorithm that fail if it is disposed of. -/
def Needs (i : ℕ) : Use Q A → Prop
  | setCallback j | clearCallback j | execute j _ _ => j = i
  | _ => False

/-- Where a use leaves the states of the algorithms. -/
def target (w : Holders Q L) : Use Q A → Equiv.Perm ℕ
  | take i => if (w.algorithms i).isSome then Equiv.swap i w.size else Equiv.refl ℕ
  | swap i j =>
    if (w.algorithms i).isSome ∧ (w.algorithms j).isSome then Equiv.swap i j else Equiv.refl ℕ
  | _ => Equiv.refl ℕ

/-- The views after a use. -/
inductive Change (w : Holders Q L) : Use Q A → Stock Q L → Custody → Prop
  | move {u : Use Q A} (idle : ∀ i, u.Frees i → w.state? i = none) :
      Change w u (w.stock.move (u.target w)) (w.custody.move (u.target w))
  | resolve {now : UInt64} {q : Q} {r : ReadyAlgorithm Q L ℕ} (fresh : r.callback = none) :
      Change w (create now q) (w.stock.resolve w.size r) w.custody
  | dispose {i : ℕ} : Change w (dispose i) (w.stock.set i none) (w.custody.giveUp i)
  | drop {i : ℕ} : Change w (drop i) (w.stock.set i none) (w.custody.giveUp i)
  | clear {i : ℕ} {s : ReadyAlgorithm Q (ℕ × L) ℕ} (held : w.state? i = some s) :
      Change w (clearCallback i) (w.stock.set i (some { s with callback := none }))
        (w.custody.giveUp i)
  | replace {i : ℕ} {s : ReadyAlgorithm Q (ℕ × L) ℕ} (held : w.state? i = some s) :
      Change w (setCallback i) (w.stock.set i (some { s with callback := some w.callbacks }))
        ((w.custody.giveUp i).takeOver i)
  | refuse {i : ℕ} (empty : w.state? i = none) :
      Change w (setCallback i) w.stock w.custody.refuse
  | call {i : ℕ} {args : A} {waitFor : List Event} (event : Event) :
      Change w (execute i args waitFor) w.stock (w.custody.call i event)

theorem sound_start : (.start : Holders Q L).Sound where
  unmade _ _ := rfl
  stock := ⟨fun h => (nomatch h), fun h => (nomatch h)⟩
  custody := ⟨fun h => (nomatch h), fun h => (nomatch h), fun _ h => (nomatch h),
    fun h => (nomatch h), fun _ h => (nomatch h), .nil⟩

variable {w : Holders Q L}

theorem unmoved {u : Use Q A} (htarget : u.target w = Equiv.refl ℕ)
    (idle : ∀ i, u.Frees i → w.state? i = none) : Change w u w.stock w.custody := by
  have hmove : Change w u (w.stock.move (u.target w)) (w.custody.move (u.target w)) := .move idle
  rwa [htarget] at hmove

theorem Change.sound_stock {u : Use Q A} {S : Stock Q L} {c : Custody} (h : w.Sound)
    (change : Change w u S c) : S.Sound := by
  cases change with
  | move _ => exact h.stock.move _
  | resolve fresh => exact h.stock.resolve fresh
  | dispose | drop => exact h.stock.set fun t ht => nomatch ht
  | clear held | replace held =>
    refine h.stock.set fun t ht => ⟨_, held, ?_⟩
    obtain rfl := Option.some.inj ht
    exact ⟨rfl, rfl⟩
  | refuse _ | call _ => exact h.stock

theorem Change.sound_custody {u : Use Q A} {S : Stock Q L} {c : Custody} (h : w.Sound)
    (change : Change w u S c) : c.Sound := by
  cases change with
  | move _ => exact h.custody.move _
  | resolve _ => exact h.custody
  | dispose | drop | clear _ => exact h.custody.giveUp _
  | replace _ =>
    exact (h.custody.giveUp _).takeOver (by rw [Custody.held_giveUp, if_pos rfl])
  | refuse _ => exact h.custody.refuse
  | call event => exact h.custody.call _ event

/-- States are moved in pairs. -/
theorem target_target (u : Use Q A) (w : Holders Q L) (i : ℕ) :
    u.target w (u.target w i) = i := by
  unfold target
  cases u with
  | take j =>
    dsimp only
    split
    · exact Equiv.congr_fun (Equiv.swap_swap _ _) i
    · rfl
  | swap j k =>
    dsimp only
    split
    · exact Equiv.congr_fun (Equiv.swap_swap _ _) i
    · rfl
  | _ => rfl

theorem Change.log_of_frees {u : Use Q A} {S : Stock Q L} {c : Custody} {i n : ℕ}
    (change : Change w u S c) (hi : w.callback? i = some n) (hfrees : u.Frees i) :
    c.log = w.log ++ [.released n] := by
  have hstate : w.state? i ≠ none := by
    intro hnone
    rw [Holders.callback?, hnone] at hi
    cases hi
  have hrelease : w.log ++ (w.callback? i).toList.map .released = w.log ++ [.released n] := by
    rw [hi]
    rfl
  cases change with
  | move idle => exact absurd (idle i hfrees) hstate
  | resolve _ | call _ => exact hfrees.elim
  | dispose | drop | clear _ | replace _ =>
    obtain rfl := hfrees
    exact hrelease
  | refuse empty =>
    obtain rfl := hfrees
    exact absurd empty hstate

theorem Change.held_target {u : Use Q A} {S : Stock Q L} {c : Custody} {i n : ℕ}
    (change : Change w u S c) (hi : w.callback? i = some n) (hfrees : ¬u.Frees i) :
    c.held (u.target w i) = some n := by
  cases change with
  | move _ =>
    show w.callback? (u.target w (u.target w i)) = some n
    rwa [target_target]
  | resolve _ | refuse _ | call _ => exact hi
  | dispose | drop | clear _ =>
    show (w.custody.giveUp _).held i = some n
    rw [Custody.held_giveUp, if_neg fun h => hfrees h.symm]
    exact hi
  | replace _ =>
    show ((w.custody.giveUp _).takeOver _).held i = some n
    rw [Custody.held_takeOver, if_neg fun h => hfrees h.symm, Custody.held_giveUp,
      if_neg fun h => hfrees h.symm]
    exact hi

theorem Change.of_moves {u : Use Q A} {S : Stock Q L} {c : Custody} (change : Change w u S c)
    (hmoves : u.Moves) :
    c.log = w.log ∧ ∀ i, S.states (u.target w i) = w.state? i := by
  cases change with
  | move _ =>
    refine ⟨rfl, fun i => ?_⟩
    show w.state? (u.target w (u.target w i)) = w.state? i
    rw [target_target]
  | resolve _ | dispose | drop | clear _ | replace _ | refuse _ | call _ => exact hmoves.elim

theorem Change.of_setCallback {S : Stock Q L} {c : Custody} {i : ℕ}
    (change : Change w (setCallback i : Use Q A) S c) (hstate : (w.state? i).isSome) :
    c.held i = some w.callbacks ∧ c.passed = w.callbacks + 1 ∧
      c.log = w.log ++ (w.callback? i).toList.map .released := by
  have hne : w.state? i ≠ none := Option.isSome_iff_ne_none.1 hstate
  generalize hu : (setCallback i : Use Q A) = u at change
  cases change with
  | move idle => exact absurd (idle i (hu ▸ rfl)) hne
  | replace held =>
    cases hu
    refine ⟨?_, rfl, rfl⟩
    rw [Custody.held_takeOver, if_pos rfl]
    rfl
  | refuse empty =>
    cases hu
    exact absurd empty hne
  | resolve _ | dispose | drop | clear _ | call _ => cases hu

/-! ### One use at a time -/

section

variable {i j : ℕ} {a b : Algorithm Q (ℕ × L) ℕ}

theorem change_take (h : w.Sound) (hi : w.algorithms i = some a) :
    let w' := (w.set i (some a.take.2)).add a.take.1
    Change w (take i : Use Q A) w'.stock w'.custody := by
  intro w'
  have hstock : w'.stock = w.stock.move (Equiv.swap i w.size) := Holders.stock_take h hi
  have htarget : (take i : Use Q A).target w = Equiv.swap i w.size := by
    simp [target, hi]
  rw [Holders.custody_of_move hstock rfl rfl, hstock, ← htarget]
  exact .move fun i hi => hi.elim

theorem change_swap (hi : w.algorithms i = some a) (hj : w.algorithms j = some b) :
    let w' := (w.set i (some (a.swap b).1)).set j (some (a.swap b).2)
    Change w (swap i j : Use Q A) w'.stock w'.custody := by
  intro w'
  have hstock : w'.stock = w.stock.move (Equiv.swap i j) := Holders.stock_swap hi hj
  have htarget : (swap i j : Use Q A).target w = Equiv.swap i j := by
    simp [target, hi, hj]
  rw [Holders.custody_of_move hstock rfl rfl, hstock, ← htarget]
  exact .move fun i hi => hi.elim

theorem change_dispose (hi : w.algorithms i = some a) :
    let w' := (w.set i (some a.dispose.1)).tell a.dispose.2
    Change w (dispose i : Use Q A) w'.stock w'.custody := by
  intro w'
  have hcustody : w'.custody = w.custody.giveUp i := Holders.custody_giveUp hi rfl
  rw [hcustody]
  exact Holders.stock_set w i _ ▸ .dispose

theorem change_drop (hi : w.algorithms i = some a) :
    let w' := (w.set i none).tell a.release
    Change w (drop i : Use Q A) w'.stock w'.custody := by
  intro w'
  have hcustody : w'.custody = w.custody.giveUp i := Holders.custody_giveUp hi rfl
  rw [hcustody]
  exact Holders.stock_set w i none ▸ .drop

theorem change_setCallback {name : String} (hi : w.algorithms i = some a) :
    let after := (a.setCallback name w.callbacks).2
    let w' := w.pass i after.1 after.2
    Change w (setCallback i : Use Q A) w'.stock w'.custody := by
  intro after w'
  cases a with
  | ready state =>
    have hcustody : w'.custody = (w.custody.giveUp i).takeOver i := Holders.custody_takeOver hi rfl
    rw [hcustody]
    exact Holders.stock_set w i _ ▸ .replace (Holders.state?_of_algorithms hi)
  | disposed =>
    have hcustody : w'.custody = w.custody.refuse := Holders.custody_refuse hi
    rw [hcustody]
    exact Holders.stock_set_disposed hi ▸ .refuse (Holders.state?_of_algorithms hi)

theorem change_clearCallback {name : String} (hi : w.algorithms i = some a) :
    let after := (a.clearCallback name).2
    let w' := (w.set i (some after.1)).tell after.2
    Change w (clearCallback i : Use Q A) w'.stock w'.custody := by
  intro after w'
  cases a with
  | ready state =>
    have hcustody : w'.custody = w.custody.giveUp i := Holders.custody_giveUp hi rfl
    rw [hcustody]
    exact Holders.stock_set w i _ ▸ .clear (Holders.state?_of_algorithms hi)
  | disposed =>
    have hcustody : w'.custody = w.custody := Holders.custody_set_disposed hi
    rw [hcustody]
    exact Holders.stock_set_disposed hi ▸
      unmoved rfl fun j hj => hj ▸ Holders.state?_of_algorithms hi

theorem change_execute {p : Primitive δ Q L A O} {args : A} {waitFor : List Event} {d d' : δ}
    {event : Event} {output : O} {notices : List (Notice ℕ)} (hi : w.algorithms i = some a)
    (run : exec ((a.mapPlan Prod.snd).execute p args waitFor) d =
      (.ok (event, output, notices), d')) :
    Change w (execute i args waitFor) (w.tell notices).stock (w.tell notices).custody := by
  rw [Algorithm.execute_notices run, Algorithm.callback?_mapPlan,
    ← Holders.callback?_of_algorithms hi]
  exact .call event

end

variable [Problem Q] {p : Primitive δ Q L A O} {tuner : Tuner σ} {s : σ × δ}

/-- **Every use changes the views in one of the ways of `Change`.** -/
theorem change_perform (h : w.Sound) (u : Use Q A) :
    Change w u (u.perform p tuner (s, w)).2.2.stock (u.perform p tuner (s, w)).2.2.custody := by
  -- One case for each use, and in it one for whether the algorithm exists: a use of an absent one
  -- is `unmoved`, since nothing is held there that it could free.
  cases u with
  | create now q =>
    simp only [perform]
    split
    · rename_i run
      -- A new algorithm has no callback, so the custody does not see it.
      obtain ⟨r, rfl, hr⟩ := Algorithm.ready_of_create run
      rw [Holders.stock_resolve, Holders.custody_resolve h hr]
      exact .resolve hr
    · exact .move fun i hi => hi.elim
  | default =>
    rw [perform, Holders.custody_eq, Holders.stock_default h]
    exact .move fun i hi => hi.elim
  | take i =>
    simp only [perform]
    split
    · exact change_take h ‹_›
    · exact unmoved (by simp [target, *]) fun i hi => hi.elim
  | swap i j =>
    simp only [perform]
    split
    · exact change_swap ‹_› ‹_›
    · -- An exchange needs both algorithms, in the program as in `target`.
      rename_i habsent
      refine unmoved (if_neg fun hboth => ?_) fun i hi => hi.elim
      obtain ⟨a, hi⟩ := Option.isSome_iff_exists.1 hboth.1
      obtain ⟨b, hj⟩ := Option.isSome_iff_exists.1 hboth.2
      exact habsent a b hi hj
  | dispose i =>
    simp only [perform]
    split
    · exact change_dispose ‹_›
    · exact unmoved rfl fun j hj => hj ▸ Holders.state?_of_absent ‹_›
  | drop i =>
    simp only [perform]
    split
    · exact change_drop ‹_›
    · exact unmoved rfl fun j hj => hj ▸ Holders.state?_of_absent ‹_›
  | setCallback i =>
    simp only [perform]
    split
    · exact change_setCallback ‹_›
    · exact unmoved rfl fun j hj => hj ▸ Holders.state?_of_absent ‹_›
  | clearCallback i =>
    simp only [perform]
    split
    · exact change_clearCallback ‹_›
    · exact unmoved rfl fun j hj => hj ▸ Holders.state?_of_absent ‹_›
  | execute i args waitFor =>
    simp only [perform]
    split
    · split
      · exact change_execute ‹_› ‹_›
      · exact unmoved rfl fun j hj => hj.elim
    · exact unmoved rfl fun j hj => hj.elim

theorem unmade_perform (h : w.Unmade) (u : Use Q A) :
    (u.perform p tuner (s, w)).2.2.Unmade := by
  cases u with
  | create now q =>
    simp only [perform]
    split
    · exact h.add _
    · exact h
  | default => exact h.add _
  | take i =>
    simp only [perform]
    split
    · exact (h.set ‹_› _).add _
    · exact h
  | swap i j =>
    simp only [perform]
    split
    · rename_i hi hj
      -- `Unmade.set` asks for an algorithm at the index, and the first `set` may have changed it.
      by_cases hij : j = i
      · subst hij
        exact (h.set hi _).set (Function.update_self ..) _
      · exact (h.set hi _).set ((Function.update_of_ne hij ..).trans hj) _
    · exact h
  | dispose i | drop i | setCallback i | clearCallback i =>
    simp only [perform]
    split
    · exact h.set ‹_› _
    · exact h
  | execute i args waitFor =>
    simp only [perform]
    split
    · split
      · exact h
      · exact h
    · exact h

theorem sound_perform (h : w.Sound) (u : Use Q A) : (u.perform p tuner (s, w)).2.2.Sound where
  unmade := unmade_perform h.unmade u
  stock := (change_perform h u).sound_stock h
  custody := (change_perform h u).sound_custody h

/-! ## Every use, one by one -/

/-- What a use does to the callbacks and to the states. -/
structure Follows (p : Primitive δ Q L A O) (u : Use Q A) (w : Holders Q L)
    (result : Attempt (Option Event)) (w' : Holders Q L) : Prop where
  /-- A use that frees the callback of an algorithm frees it once, and nobody holds it then. -/
  frees : ∀ i n, w.callback? i = some n → u.Frees i →
    w'.log = w.log ++ [.released n] ∧ ∀ k, w'.callback? k ≠ some n
  /-- Every other use leaves it where its state is moved, and does not free it. -/
  keeps : ∀ i n, w.callback? i = some n → ¬u.Frees i →
    w'.callback? (u.target w i) = some n ∧ w'.freed n = 0
  /-- Moving frees nothing, and takes whole states along. -/
  moves : u.Moves → w'.log = w.log ∧ ∀ i, w'.state? (u.target w i) = w.state? i
  /-- A callback is installed after the former one was freed. -/
  installs : ∀ i, u = setCallback i → (w.state? i).isSome →
    result = .ok none ∧ w'.callback? i = some w.callbacks ∧ w'.callbacks = w.callbacks + 1 ∧
      w'.log = w.log ++ (w.callback? i).toList.map .released
  /-- An empty algorithm frees the callback that it is passed at once. -/
  refuses : ∀ i, u = setCallback i → w.algorithms i = some .disposed →
    w'.callbacks = w.callbacks + 1 ∧ w'.log = w.log ++ [.released w.callbacks]
  /-- A successful execution calls the callback once, with the event that it gives. -/
  calls : ∀ i args waitFor event, u = execute i args waitFor → result = .ok (some event) →
    w'.log = w.log ++ (w.callback? i).toList.map (.called · event)
  /-- A failed execution calls nothing. -/
  silent : ∀ i args waitFor failure, u = execute i args waitFor → result = .error failure →
    w'.log = w.log
  /-- What needs a state fails on an empty algorithm, and changes no algorithm. -/
  disposed : ∀ i, w.algorithms i = some .disposed → u.Needs i →
    result = .error (.error (Algorithm.disposedError p.name)) ∧ w'.algorithms = w.algorithms

theorem perform_setCallback_ready {i : ℕ} (hstate : (w.state? i).isSome) :
    ((setCallback i).perform p tuner (s, w)).1 = .ok none := by
  rcases hi : w.algorithms i with _ | state | _
  · rw [Holders.state?_of_absent hi] at hstate
    cases hstate
  · simp only [perform, hi, Algorithm.setCallback]
    rfl
  · rw [Holders.state?_of_algorithms hi] at hstate
    cases hstate

theorem perform_execute (i : ℕ) (args : A) (waitFor : List Event) :
    let x := (execute i args waitFor).perform p tuner (s, w)
    (∀ event, x.1 = .ok (some event) →
      x.2.2.log = w.log ++ (w.callback? i).toList.map (.called · event)) ∧
    ∀ failure, x.1 = .error failure → x.2.2.log = w.log := by
  rcases hi : w.algorithms i with _ | a
  · simp only [perform, hi]
    exact ⟨fun event h => (nomatch h), fun failure h => (nomatch h)⟩
  · simp only [perform, hi]
    split
    · rename_i event output notices d run
      refine ⟨fun event' h => ?_, fun failure h => (nomatch h)⟩
      cases h
      rw [Algorithm.execute_notices run, Algorithm.callback?_mapPlan,
        ← Holders.callback?_of_algorithms hi]
      rfl
    · exact ⟨fun event h => (nomatch h), fun _ _ => rfl⟩

theorem perform_disposed {u : Use Q A} {i : ℕ} (hi : w.algorithms i = some .disposed)
    (hneeds : u.Needs i) :
    (u.perform p tuner (s, w)).1 = .error (.error (Algorithm.disposedError p.name)) ∧
      (u.perform p tuner (s, w)).2.2.algorithms = w.algorithms := by
  have hsame : Function.update w.algorithms i (some .disposed) = w.algorithms := by
    rw [← hi, Function.update_eq_self]
  cases u with
  | setCallback j | clearCallback j =>
    obtain rfl := hneeds
    simp only [perform, hi]
    exact ⟨rfl, hsame⟩
  | execute j args waitFor =>
    obtain rfl := hneeds
    simp [perform, hi, Algorithm.mapPlan, Algorithm.execute_disposed]
  | _ => exact hneeds.elim

theorem follows_perform (h : w.Sound) (u : Use Q A) :
    u.Follows p w (u.perform p tuner (s, w)).1 (u.perform p tuner (s, w)).2.2 := by
  have sound : (u.perform p tuner (s, w)).2.2.Sound := sound_perform h u
  have change : Change w u (u.perform p tuner (s, w)).2.2.stock
    (u.perform p tuner (s, w)).2.2.custody := change_perform h u
  constructor
  · -- What is freed now is in the log, so by soundness afterwards nobody holds it.
    intro i n hi hfrees
    have hlog := change.log_of_frees hi hfrees
    refine ⟨hlog, fun k hk => ?_⟩
    have hunfreed := sound.custody.unfreed hk
    rw [hlog, List.count_append] at hunfreed
    simp at hunfreed
  · -- What is not freed has moved with its state, and what is held is unfreed.
    intro i n hi hfrees
    have hheld := change.held_target hi hfrees
    exact ⟨hheld, sound.custody.unfreed hheld⟩
  · exact change.of_moves
  · rintro i rfl hstate
    exact ⟨perform_setCallback_ready hstate, change.of_setCallback hstate⟩
  · rintro i rfl hi
    simp only [perform, hi]
    exact ⟨rfl, rfl⟩
  · rintro i args waitFor event rfl hresult
    exact (perform_execute i args waitFor).1 event hresult
  · rintro i args waitFor failure rfl hresult
    exact (perform_execute i args waitFor).2 failure hresult
  · exact fun i hi hneeds => perform_disposed hi hneeds

/-! ## Runs -/

theorem sound_run (uses : List (Use Q A)) {x : (σ × δ) × Holders Q L} (h : x.2.Sound) :
    (run p tuner uses x).2.Sound := by
  induction uses generalizing x with
  | nil => exact h
  | cons u rest ih => exact ih (sound_perform h u)

end Use

/-- **Ownership of states and callbacks**, in every run and at every use after it. All that can fail
on an empty algorithm does, and is an internal error. -/
theorem owned_run [Problem Q] (p : Primitive δ Q L A O) (tuner : Tuner σ) (s : σ × δ)
    (uses : List (Use Q A)) :
    let x := Use.run p tuner uses (s, .start)
    x.2.Sound ∧
      (∀ u : Use Q A, u.Follows p x.2 (u.perform p tuner x).1 (u.perform p tuner x).2.2) ∧
      ∀ name, (.disposed : Algorithm Q L ℕ).get name = .error (Algorithm.disposedError name) ∧
        (∀ f, Algorithm.modifyPlan name f (.disposed : Algorithm Q L ℕ) =
          .error (Algorithm.disposedError name)) ∧
        ∀ detail value, Algorithm.setDetail name detail value (.disposed : Algorithm Q L ℕ) =
          .error (Algorithm.disposedError name) := by
  have sound : (Use.run p tuner uses (s, .start)).2.Sound := Use.sound_run uses Use.sound_start
  exact ⟨sound, fun u => Use.follows_perform sound u,
    fun name => ⟨rfl, fun _ => rfl, fun _ _ => rfl⟩⟩

/-- A callback that is called, left with an algorithm that moves, and replaced; one that an empty
algorithm is passed; and one that is dropped with its algorithm. -/
example :
    let args : ProbeArgs := ⟨⟨7, 4096, .readWrite⟩, 1024⟩
    (Use.run (Probe.primitive (.ofProperties Backend.gpuProperties))
      (Host.tuner Host.memoryStorage .silent)
      [.create 0 "x", .setCallback 0, .execute 0 args [], .take 0, .execute 0 args [],
        .setCallback 0, .setCallback 1, .execute 1 args [], .drop 1]
      ((Host.empty, .start), .start)).2.log =
    [.called 0 ⟨19, "probe"⟩, .released 1, .released 0, .called 2 ⟨20, "probe"⟩, .released 2] := by
  decide +kernel

end KernelTuning
