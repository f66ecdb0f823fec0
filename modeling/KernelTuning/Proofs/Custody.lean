import KernelTuning.Algorithm.Basic
import Mathlib.Logic.Equiv.Basic

/-!
# Custody of callbacks and states

Two ledgers of the algorithms of a program, apart from what the algorithms are. The `Custody` of
the callbacks is which one each algorithm holds, how many were passed, and the notices so far. The
`Stock` of states is which one each algorithm holds, and what was ever resolved; a plan carries the
number of the creation that made it.

**Soundness.** A callback that was passed has one holder, and was not freed, or has none, and was
freed once; it is not called after that. A state is one that was resolved, as it was then but for
its callback, and has one holder. Moving, giving up, taking over, refusing and calling keep the
ledgers sound. A callback is replaced by giving it up before the next one is taken over.
-/

namespace KernelTuning

variable {Q L K β : Type}

/-! ## Custody of callbacks -/

/-- Who holds which callback, how many were passed, and what happened to them. -/
@[ext]
structure Custody where
  held : ℕ → Option ℕ
  passed : ℕ
  log : List (Notice ℕ)

/-- The callback that a notice is about. -/
def Notice.callback : Notice β → β
  | called callback _ => callback
  | released callback => callback

namespace Custody

variable {c : Custody}

/-- Every callback that was passed has one holder, or was freed once and not called since. -/
structure Sound (c : Custody) : Prop where
  single : ∀ {i j n}, c.held i = some n → c.held j = some n → i = j
  passed : ∀ {i n}, c.held i = some n → n < c.passed
  known : ∀ notice ∈ c.log, notice.callback < c.passed
  unfreed : ∀ {i n}, c.held i = some n → c.log.count (.released n) = 0
  freed : ∀ n < c.passed, (∀ i, c.held i ≠ some n) → c.log.count (.released n) = 1
  silent : c.log.Pairwise fun a b => ∀ n event, a = .released n → b ≠ .called n event

def move (c : Custody) (e : Equiv.Perm ℕ) : Custody := { c with held := c.held ∘ e }

/-- An algorithm gives up its callback. -/
def giveUp (c : Custody) (i : ℕ) : Custody where
  held := Function.update c.held i none
  passed := c.passed
  log := c.log ++ (c.held i).toList.map .released

/-- An algorithm takes over the next callback. -/
def takeOver (c : Custody) (i : ℕ) : Custody :=
  { c with held := Function.update c.held i (some c.passed), passed := c.passed + 1 }

/-- The next callback is given up at once. -/
def refuse (c : Custody) : Custody :=
  { c with passed := c.passed + 1, log := c.log ++ [.released c.passed] }

/-- The callback of an algorithm is called. -/
def call (c : Custody) (i : ℕ) (event : Event) : Custody :=
  { c with log := c.log ++ (c.held i).toList.map (.called · event) }

theorem held_giveUp (i j : ℕ) : (c.giveUp i).held j = if j = i then none else c.held j :=
  Function.update_apply ..

theorem held_takeOver (i j : ℕ) :
    (c.takeOver i).held j = if j = i then some c.passed else c.held j :=
  Function.update_apply ..

theorem Sound.count_passed (h : c.Sound) : c.log.count (.released c.passed) = 0 :=
  List.count_eq_zero.2 fun hmem => Nat.lt_irrefl _ (h.known _ hmem)

theorem Sound.move (h : c.Sound) (e : Equiv.Perm ℕ) : (c.move e).Sound where
  single hi hj := e.injective (h.single hi hj)
  passed hi := h.passed hi
  known := h.known
  unfreed hi := h.unfreed hi
  freed n hn hnone := h.freed n hn fun i hi => hnone (e.symm i) <| by
    show c.held (e (e.symm i)) = some n
    rwa [e.apply_symm_apply]
  silent := h.silent

theorem giveUp_eq_self {i : ℕ} (hi : c.held i = none) : c.giveUp i = c := by
  have hheld : Function.update c.held i none = c.held := by
    rw [← hi, Function.update_eq_self]
  unfold giveUp
  rw [hheld, hi]
  simp

theorem Sound.giveUp (h : c.Sound) (i : ℕ) : (c.giveUp i).Sound := by
  rcases hheld : c.held i with _ | n
  · rwa [giveUp_eq_self hheld]
  -- A callback that another algorithm holds is another callback.
  have hother {j m : ℕ} (hj : (c.giveUp i).held j = some m) : c.held j = some m ∧ m ≠ n := by
    rw [held_giveUp] at hj
    split at hj
    · cases hj
    · rename_i hji
      exact ⟨hj, fun hmn => hji (h.single hj (hmn ▸ hheld))⟩
  have hlog : (c.giveUp i).log = c.log ++ [.released n] := by
    simp [Custody.giveUp, hheld]
  constructor
  · exact fun hj hk => h.single (hother hj).1 (hother hk).1
  · exact fun hj => h.passed (hother hj).1
  · rw [hlog]
    intro notice hmem
    rcases List.mem_append.1 hmem with hmem | hmem
    · exact h.known notice hmem
    · obtain rfl := List.mem_singleton.1 hmem
      exact h.passed hheld
  · intro j m hj
    obtain ⟨hj, hne⟩ := hother hj
    rw [hlog, List.count_append, h.unfreed hj, List.count_singleton]
    simp [hne.symm]
  · intro m hm hnone
    rw [hlog, List.count_append, List.count_singleton]
    -- The callback given up is freed for the first time. Any other one was free before.
    by_cases hmn : m = n
    · rw [hmn, h.unfreed hheld]
      simp
    · have hnone' : ∀ j, c.held j ≠ some m := by
        intro j hj
        have hji : j ≠ i := by
          rintro rfl
          rw [hheld] at hj
          exact hmn (Option.some.inj hj).symm
        exact hnone j (by rwa [held_giveUp, if_neg hji])
      rw [h.freed m hm hnone']
      simp [Ne.symm hmn]
  · rw [hlog, List.pairwise_append]
    refine ⟨h.silent, List.pairwise_singleton _ _, fun a _ b hb m event _ => ?_⟩
    obtain rfl := List.mem_singleton.1 hb
    simp

theorem Sound.takeOver (h : c.Sound) {i : ℕ} (hi : c.held i = none) : (c.takeOver i).Sound := by
  have hcases {j m : ℕ} (hj : (c.takeOver i).held j = some m) :
      (j = i ∧ m = c.passed) ∨ (c.held j = some m ∧ m < c.passed) := by
    rw [held_takeOver] at hj
    split at hj
    · exact .inl ⟨‹_›, (Option.some.inj hj).symm⟩
    · exact .inr ⟨hj, h.passed hj⟩
  -- The new callback has the next number, which no algorithm holds and the log does not know.
  constructor
  · intro j k m hj hk
    rcases hcases hj with ⟨rfl, hm⟩ | ⟨hj, hm⟩ <;> rcases hcases hk with ⟨rfl, hm'⟩ | ⟨hk, hm'⟩
    · rfl
    · omega
    · omega
    · exact h.single hj hk
  · intro j m hj
    show m < c.passed + 1
    rcases hcases hj with ⟨-, hm⟩ | ⟨-, hm⟩ <;> omega
  · exact fun notice hmem => Nat.lt_succ_of_lt (h.known notice hmem)
  · intro j m hj
    rcases hcases hj with ⟨-, rfl⟩ | ⟨hj, -⟩
    · exact h.count_passed
    · exact h.unfreed hj
  · intro m (hm : m < c.passed + 1) hnone
    have hne : m ≠ c.passed := by
      rintro rfl
      exact hnone i (by rw [held_takeOver, if_pos rfl])
    refine h.freed m (by omega) fun j hj => ?_
    have hji : j ≠ i := by
      rintro rfl
      rw [hi] at hj
      cases hj
    exact hnone j (by rwa [held_takeOver, if_neg hji])
  · exact h.silent

theorem Sound.refuse (h : c.Sound) : c.refuse.Sound where
  single := h.single
  passed hi := Nat.lt_succ_of_lt (h.passed hi)
  known notice hmem := by
    rcases List.mem_append.1 hmem with hmem | hmem
    · exact Nat.lt_succ_of_lt (h.known notice hmem)
    · obtain rfl := List.mem_singleton.1 hmem
      exact Nat.lt_succ_self _
  unfreed {i n} hi := by
    have hne : n ≠ c.passed := Nat.ne_of_lt (h.passed hi)
    rw [Custody.refuse, List.count_append, h.unfreed hi, List.count_singleton]
    simp [hne.symm]
  freed n hn hnone := by
    rw [Custody.refuse, List.count_append, List.count_singleton]
    by_cases hne : n = c.passed
    · rw [hne, h.count_passed]
      simp
    · have hlt : n < c.passed + 1 := hn
      rw [h.freed n (by omega) hnone]
      simp [Ne.symm hne]
  silent := by
    rw [Custody.refuse, List.pairwise_append]
    refine ⟨h.silent, List.pairwise_singleton _ _, fun a _ b hb m event _ => ?_⟩
    obtain rfl := List.mem_singleton.1 hb
    simp

theorem Sound.call (h : c.Sound) (i : ℕ) (event : Event) : (c.call i event).Sound := by
  have hcount (n : ℕ) : (c.call i event).log.count (.released n) = c.log.count (.released n) := by
    rw [Custody.call, List.count_append]
    rcases c.held i <;> simp
  constructor
  · exact h.single
  · exact h.passed
  · intro notice hmem
    rcases List.mem_append.1 hmem with hmem | hmem
    · exact h.known notice hmem
    · obtain ⟨n, hn, rfl⟩ := List.mem_map.1 hmem
      exact h.passed (Option.mem_toList.1 hn)
  · exact fun hi => (hcount _).trans (h.unfreed hi)
  · exact fun n hn hnone => (hcount n).trans (h.freed n hn hnone)
  · rw [Custody.call, List.pairwise_append]
    refine ⟨h.silent, ?_, fun a ha b hb n event' hreleased hcalled => ?_⟩
    · rcases c.held i <;> simp
    · obtain ⟨m, hm, rfl⟩ := List.mem_map.1 hb
      have hcallback : m = n := by
        cases hcalled
        rfl
      subst hcallback hreleased
      have := h.unfreed (Option.mem_toList.1 hm)
      exact List.count_eq_zero.1 this ha

end Custody

/-! ## States with numbers -/

/-- The state with another plan. -/
def ReadyAlgorithm.mapPlan (f : L → K) (s : ReadyAlgorithm Q L β) : ReadyAlgorithm Q K β where
  problem := s.problem
  parameters := s.parameters
  plan := f s.plan
  resolution := s.resolution
  details := s.details
  persistError := s.persistError
  callback := s.callback

/-- The state as it was resolved: without the number of its plan, and without a callback. -/
def ReadyAlgorithm.origin (s : ReadyAlgorithm Q (ℕ × L) β) : ReadyAlgorithm Q L β :=
  { s.mapPlan Prod.snd with callback := none }

/-! ## Stock of states -/

/-- Who holds which state, and the states that were resolved. -/
@[ext]
structure Stock (Q L : Type) where
  states : ℕ → Option (ReadyAlgorithm Q (ℕ × L) ℕ)
  resolved : List (ReadyAlgorithm Q L ℕ)

namespace Stock

variable {S : Stock Q L}

/-- Every state is one that was resolved, and has one holder. -/
structure Sound (S : Stock Q L) : Prop where
  whole : ∀ {i s}, S.states i = some s → S.resolved[s.plan.1]? = some s.origin
  single : ∀ {i j s t}, S.states i = some s → S.states j = some t → s.plan.1 = t.plan.1 → i = j

def callback? (S : Stock Q L) (i : ℕ) : Option ℕ := (S.states i).bind (·.callback)

def move (S : Stock Q L) (e : Equiv.Perm ℕ) : Stock Q L := { S with states := S.states ∘ e }

def set (S : Stock Q L) (i : ℕ) (s : Option (ReadyAlgorithm Q (ℕ × L) ℕ)) : Stock Q L :=
  { S with states := Function.update S.states i s }

/-- A state is resolved, and gets the next number. -/
def resolve (S : Stock Q L) (i : ℕ) (r : ReadyAlgorithm Q L ℕ) : Stock Q L where
  states := Function.update S.states i (some (r.mapPlan (S.resolved.length, ·)))
  resolved := S.resolved ++ [r]

theorem states_set (i j : ℕ) (s : Option (ReadyAlgorithm Q (ℕ × L) ℕ)) :
    (S.set i s).states j = if j = i then s else S.states j := Function.update_apply ..

theorem callback?_set (S : Stock Q L) (i : ℕ) (s : Option (ReadyAlgorithm Q (ℕ × L) ℕ)) :
    (S.set i s).callback? = Function.update S.callback? i (s.bind (·.callback)) := by
  funext j
  rw [Function.update_apply, callback?, states_set]
  split <;> rfl

theorem callback?_resolve {i : ℕ} {r : ReadyAlgorithm Q L ℕ} (hi : S.callback? i = none)
    (hr : r.callback = none) : (S.resolve i r).callback? = S.callback? := by
  have hset := S.callback?_set i (some (r.mapPlan (S.resolved.length, ·)))
  rw [Option.bind_some, show (r.mapPlan (S.resolved.length, ·)).callback = none from hr, ← hi,
    Function.update_eq_self] at hset
  exact hset

theorem set_eq_self {i : ℕ} {s : Option (ReadyAlgorithm Q (ℕ × L) ℕ)} (h : S.states i = s) :
    S.set i s = S := by
  unfold set
  rw [← h, Function.update_eq_self]

theorem set_set_eq_move (i j : ℕ) :
    (S.set i (S.states j)).set j (S.states i) = S.move (Equiv.swap i j) := by
  unfold set move
  rw [Equiv.swap_comm, Equiv.comp_swap_eq_update]

theorem Sound.move (h : S.Sound) (e : Equiv.Perm ℕ) : (S.move e).Sound where
  whole hi := h.whole hi
  single hi hj hst := e.injective (h.single hi hj hst)

/-- A state may be lost, or change its callback. -/
theorem Sound.set (h : S.Sound) {i : ℕ} {s : Option (ReadyAlgorithm Q (ℕ × L) ℕ)}
    (hs : ∀ t, s = some t → ∃ t', S.states i = some t' ∧ t.plan.1 = t'.plan.1 ∧
      t.origin = t'.origin) : (S.set i s).Sound := by
  have hformer {j t} (hj : (S.set i s).states j = some t) :
      ∃ t', S.states j = some t' ∧ t.plan.1 = t'.plan.1 ∧ t.origin = t'.origin := by
    rw [states_set] at hj
    split at hj
    · rename_i hji
      exact hji ▸ hs t hj
    · exact ⟨t, hj, rfl, rfl⟩
  constructor
  · intro j t hj
    obtain ⟨t', hj', hplan, horigin⟩ := hformer hj
    rw [hplan, horigin]
    exact h.whole hj'
  · intro j k t u hj hk htu
    obtain ⟨t', hj', hplan, -⟩ := hformer hj
    obtain ⟨u', hk', hplan', -⟩ := hformer hk
    exact h.single hj' hk' (by rw [← hplan, ← hplan', htu])

theorem Sound.resolve (h : S.Sound) {i : ℕ} {r : ReadyAlgorithm Q L ℕ} (hr : r.callback = none) :
    (S.resolve i r).Sound := by
  have hcases {j t} (hj : (S.resolve i r).states j = some t) :
      (j = i ∧ t.plan.1 = S.resolved.length ∧ t.origin = r) ∨
        (S.states j = some t ∧ t.plan.1 < S.resolved.length) := by
    change Function.update _ _ _ _ = _ at hj
    rw [Function.update_apply] at hj
    split at hj
    · obtain rfl := Option.some.inj hj
      refine .inl ⟨‹_›, rfl, ?_⟩
      obtain ⟨_, _, _, _, _, _, _⟩ := r
      obtain rfl := hr
      rfl
    · exact .inr ⟨hj, (List.getElem?_eq_some_iff.1 (h.whole hj)).1⟩
  constructor
  · intro j t hj
    show (S.resolved ++ [r])[t.plan.1]? = some t.origin
    rcases hcases hj with ⟨-, hnumber, horigin⟩ | ⟨hj, hlt⟩
    · rw [hnumber, horigin, List.getElem?_concat_length]
    · rw [List.getElem?_append_left hlt, h.whole hj]
  · -- The new plan has a number that no state before it has, so equal numbers mean equal states.
    intro j k t u hj hk htu
    rcases hcases hj with ⟨rfl, hnumber, -⟩ | ⟨hj, hlt⟩ <;>
      rcases hcases hk with ⟨rfl, hnumber', -⟩ | ⟨hk, hlt'⟩
    · rfl
    · omega
    · omega
    · exact h.single hj hk htu

end Stock

end KernelTuning
