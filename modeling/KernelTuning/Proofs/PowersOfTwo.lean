import Mathlib.Data.List.Sort
import KernelTuning.Proofs.Candidates

/-!
# Listing the powers of two

`powersOfTwo?` gives the powers of two between two words as a list. The enumeration behind it goes
word by word: it starts at the first power of two that is at least `min`, doubles with a checked
product, and ends at the first word above `max` or after a word that has no double.

* `firstPower`: where it starts. Above `2^63` there is no power of two to start from, and the word
  wraps around to zero.
* `Enumerates`: the enumerations that end, with the words that they yield.
* `ListsPowers`: what such a list should be.

**Theorem (`listsPowers_powersOfTwo`).** For every two words, the enumeration ends if and only if
`min` is at most `2^63`, and it yields exactly the powers of two between the two, in increasing
order. `powersOfTwo?` gives the same list at the same words.

Above `2^63` the range has no power of two, and its list would be empty. But the enumeration starts
at zero, which is its own double, and never ends (`not_enumerates_zero`); where overflow is checked,
the start itself fails.
-/

namespace KernelTuning.Word

variable {min max x : Word} {l l' : List Word}

/-! ## Doublings as numbers -/

theorem mem_doublings_iff {p max n : Nat} (hp : 0 < p) :
    n ∈ doublings p max ↔ ∃ k, n = p * 2 ^ k ∧ n ≤ max := by
  refine ⟨fun h => ?_, fun ⟨k, hn, hle⟩ => hn ▸ mem_doublings hp k (hn ▸ hle)⟩
  fun_induction doublings p max with
  | case1 p hp' ih =>
    rcases List.mem_cons.1 h with rfl | hmem
    · exact ⟨0, (Nat.mul_one n).symm, hp'.2⟩
    · obtain ⟨k, rfl, hle⟩ := ih (Nat.mul_pos (by decide) hp) hmem
      exact ⟨k + 1, by rw [Nat.pow_succ', ← Nat.mul_assoc, Nat.mul_comm p 2], hle⟩
  | case2 p hstop => exact absurd h List.not_mem_nil

theorem pairwise_doublings (p max : Nat) : (doublings p max).Pairwise (· < ·) := by
  fun_induction doublings p max with
  | case1 p hp ih =>
    refine List.pairwise_cons.2 ⟨fun n hn => ?_, ih⟩
    obtain ⟨k, rfl, -⟩ := (mem_doublings_iff (Nat.mul_pos (by decide) hp.1)).1 hn
    have hpow := Nat.mul_le_mul_left (2 * p) (Nat.two_pow_pos k)
    omega
  | case2 p hstop => exact List.Pairwise.nil

/-! ## The list -/

/-- The list holds exactly the powers of two of `min..=max`, in increasing order, so each once. -/
structure ListsPowers (min max : Word) (l : List Word) : Prop where
  increasing : l.Pairwise (· < ·)
  mem_iff : ∀ p, p ∈ l ↔ (∃ k, p.toNat = 2 ^ k) ∧ min ≤ p ∧ p ≤ max

theorem le_ceilPowerOfTwo (n : Nat) : n ≤ ceilPowerOfTwo n := by
  unfold ceilPowerOfTwo
  split
  · assumption
  · have hlt := Nat.lt_log2_self (n := n - 1)
    omega

theorem ceilPowerOfTwo_lt_iff : ceilPowerOfTwo min.toNat < modulus ↔ min.toNat ≤ 2 ^ 63 := by
  refine ⟨fun h => ?_, fun h => Nat.lt_of_le_of_lt (ceilPowerOfTwo_le h) (by decide)⟩
  obtain ⟨k, hk⟩ := exists_ceilPowerOfTwo_eq min.toNat
  rw [hk] at h
  have hk63 : k ≤ 63 := Nat.le_of_lt_succ ((Nat.pow_lt_pow_iff_right (by decide)).1 h)
  exact Nat.le_trans (hk ▸ le_ceilPowerOfTwo min.toNat) (Nat.pow_le_pow_right (by decide) hk63)

/-- The words of the list, as numbers, are the doublings of the first power. -/
theorem toNat_of_mem_doublings {p n : Nat} (hn : n ∈ doublings p max.toNat) (hp : 0 < p) :
    (UInt64.ofNat n).toNat = n := by
  obtain ⟨k, -, hle⟩ := (mem_doublings_iff hp).1 hn
  exact UInt64.toNat_ofNat_of_lt' (Nat.lt_of_le_of_lt hle max.toNat_lt)

theorem ceilPowerOfTwo_pos (n : Nat) : 0 < ceilPowerOfTwo n := by
  obtain ⟨k, hk⟩ := exists_ceilPowerOfTwo_eq n
  exact hk ▸ Nat.two_pow_pos k

/-- The doublings of the first power from `min` on are the powers of two of the range. -/
theorem mem_doublings_ceilPowerOfTwo {n : Nat} :
    n ∈ doublings (ceilPowerOfTwo min.toNat) max.toNat ↔
      (∃ k, n = 2 ^ k) ∧ min.toNat ≤ n ∧ n ≤ max.toNat := by
  rw [mem_doublings_iff (ceilPowerOfTwo_pos _)]
  obtain ⟨j, hj⟩ := exists_ceilPowerOfTwo_eq min.toNat
  constructor
  · rintro ⟨k, hn, hle⟩
    have hmin := Nat.mul_le_mul (le_ceilPowerOfTwo min.toNat) (Nat.two_pow_pos k)
    rw [Nat.mul_one, ← hn] at hmin
    exact ⟨⟨j + k, by rw [hn, hj, Nat.pow_add]⟩, hmin, hle⟩
  · rintro ⟨⟨k, rfl⟩, hmin, hle⟩
    have hjk : j ≤ k := (Nat.pow_le_pow_iff_right (by decide)).1 (hj ▸ ceilPowerOfTwo_le hmin)
    exact ⟨k - j, by rw [hj, ← Nat.pow_add, Nat.add_sub_cancel' hjk], hle⟩

theorem listsPowers_doublings :
    ListsPowers min max ((doublings (ceilPowerOfTwo min.toNat) max.toNat).map UInt64.ofNat) := by
  have hword {n : Nat} (hn : n ∈ doublings (ceilPowerOfTwo min.toNat) max.toNat) :=
    toNat_of_mem_doublings hn (ceilPowerOfTwo_pos _)
  constructor
  · refine List.pairwise_map.2 ((pairwise_doublings _ _).imp_of_mem fun ha hb hlt => ?_)
    rwa [UInt64.lt_iff_toNat_lt, hword ha, hword hb]
  · intro p
    rw [List.mem_map, UInt64.le_iff_toNat_le, UInt64.le_iff_toNat_le,
      ← mem_doublings_ceilPowerOfTwo]
    exact ⟨fun ⟨n, hn, hp⟩ => by rwa [← hp, hword hn], fun hp => ⟨_, hp, UInt64.ofNat_toNat⟩⟩

/-- A range has one list of its powers. -/
theorem ListsPowers.unique (h : ListsPowers min max l) (h' : ListsPowers min max l') : l = l' :=
  h.increasing.eq_of_mem_iff h'.increasing fun p => (h.mem_iff p).trans (h'.mem_iff p).symm

/-- A range above `2^63` has no power of two. -/
theorem listsPowers_nil (h : 2 ^ 63 < min.toNat) : ListsPowers min max [] := by
  refine ⟨.nil, fun p => iff_of_false List.not_mem_nil ?_⟩
  rintro ⟨⟨k, hk⟩, hmin, -⟩
  have hlow : 2 ^ 63 < 2 ^ k := hk ▸ Nat.lt_of_lt_of_le h (UInt64.le_iff_toNat_le.1 hmin)
  have hhigh : 2 ^ k < 2 ^ 64 := hk ▸ p.toNat_lt
  rw [Nat.pow_lt_pow_iff_right (by decide)] at hlow hhigh
  omega

theorem powersOfTwo?_eq_some_iff :
    powersOfTwo? min max = some l ↔ min.toNat ≤ 2 ^ 63 ∧ ListsPowers min max l := by
  rw [← ceilPowerOfTwo_lt_iff]
  unfold powersOfTwo?
  simp only [Option.ite_none_right_eq_some, Option.some.injEq]
  exact and_congr_right fun _ =>
    ⟨fun h => h ▸ listsPowers_doublings, listsPowers_doublings.unique⟩

/-- The list is right for every range, also where the enumeration has no start. -/
theorem ListsPowers.of_powersOfTwo : ListsPowers min max (powersOfTwo min max) := by
  unfold powersOfTwo
  rcases hl : powersOfTwo? min max with _ | l
  · refine listsPowers_nil (Nat.not_le.1 fun h => ?_)
    exact absurd (powersOfTwo?_eq_some_iff.2 ⟨h, listsPowers_doublings⟩) (by rw [hl]; nofun)
  · exact (powersOfTwo?_eq_some_iff.1 hl).2

/-! ## The enumeration -/

/-- Where the enumeration starts: the first power of two from `min` on, as a word. -/
def firstPower (min : Word) : Word := UInt64.ofNat (ceilPowerOfTwo min.toNat)

/-- The enumeration from a word on ends, and yields the list. -/
inductive Enumerates (max : Word) : Word → List Word → Prop
  | above {x : Word} (hx : max < x) : Enumerates max x []
  | last {x : Word} (hx : x ≤ max) (double : checkedMul x 2 = none) : Enumerates max x [x]
  | next {x y : Word} {l : List Word} (hx : x ≤ max) (double : checkedMul x 2 = some y)
      (rest : Enumerates max y l) : Enumerates max x (x :: l)

/-- An enumeration yields one list. -/
theorem Enumerates.unique (h : Enumerates max x l) (h' : Enumerates max x l') : l = l' := by
  induction h generalizing l' with
  | above hx =>
    cases h' with
    | above => rfl
    | last hx' => exact absurd hx (UInt64.not_lt.2 hx')
    | next hx' => exact absurd hx (UInt64.not_lt.2 hx')
  | last hx double =>
    cases h' with
    | above hx' => exact absurd hx' (UInt64.not_lt.2 hx)
    | last => rfl
    | next _ double' => exact absurd (double.symm.trans double') nofun
  | next hx double rest ih =>
    cases h' with
    | above hx' => exact absurd hx' (UInt64.not_lt.2 hx)
    | last _ double' => exact absurd (double'.symm.trans double) nofun
    | next _ double' rest' =>
      cases Option.some.inj (double.symm.trans double')
      rw [ih rest']

/-- Zero is its own double, so the enumeration from there never ends. -/
theorem not_enumerates_zero : ¬ Enumerates max 0 l := by
  intro h
  have hself : checkedMul 0 2 = some 0 := by decide
  generalize hx : (0 : Word) = x at h
  induction h with
  | above hlt => exact UInt64.not_lt_zero (hx ▸ hlt)
  | last _ double =>
    subst hx
    exact absurd (hself.symm.trans double) nofun
  | next _ double _ ih =>
    subst hx
    exact ih (Option.some.inj (hself.symm.trans double))

/-- The enumeration from a positive word ends, and yields its doublings. -/
theorem enumerates_doublings {n : Nat} (hpos : 0 < n) (hlt : n < modulus) :
    Enumerates max (UInt64.ofNat n) ((doublings n max.toNat).map UInt64.ofNat) := by
  fun_induction doublings n max.toNat with
  | case1 n hle ih =>
    have hn : (UInt64.ofNat n).toNat = n := UInt64.toNat_ofNat_of_lt' hlt
    have hx : UInt64.ofNat n ≤ max := UInt64.le_iff_toNat_le.2 (hn.symm ▸ hle.2)
    have hdouble : checkedMul (UInt64.ofNat n) 2 = ofNat? (2 * n) := by
      rw [checkedMul, hn, Nat.mul_comm]
      rfl
    rcases Nat.lt_or_ge (2 * n) modulus with hfits | hover
    · exact .next hx (hdouble.trans (if_pos hfits)) (ih (by omega) hfits)
    · -- the double exceeds every word, `max` too
      have hstop : ¬ (0 < 2 * n ∧ 2 * n ≤ max.toNat) := fun h =>
        absurd (Nat.lt_of_le_of_lt h.2 max.toNat_lt) (Nat.not_lt.2 hover)
      rw [List.map_cons, doublings, dif_neg hstop]
      exact .last hx (hdouble.trans (if_neg (Nat.not_lt.2 hover)))
  | case2 n hstop =>
    refine .above ?_
    rw [UInt64.lt_iff_toNat_lt, UInt64.toNat_ofNat_of_lt' hlt]
    omega

theorem firstPower_eq_zero (h : 2 ^ 63 < min.toNat) : firstPower min = 0 := by
  have hle : ceilPowerOfTwo min.toNat ≤ 2 ^ 64 :=
    ceilPowerOfTwo_le (Nat.le_of_lt min.toNat_lt)
  have hge : ¬ ceilPowerOfTwo min.toNat < modulus :=
    mt ceilPowerOfTwo_lt_iff.1 (Nat.not_le.2 h)
  have heq : ceilPowerOfTwo min.toNat = 2 ^ 64 := Nat.le_antisymm hle (Nat.not_lt.1 hge)
  rw [firstPower, heq]
  rfl

/-- The enumeration ends where there is a power of two to start from, and yields the powers of two
of the range. -/
theorem enumerates_iff :
    Enumerates max (firstPower min) l ↔ min.toNat ≤ 2 ^ 63 ∧ ListsPowers min max l := by
  rcases Nat.lt_or_ge (2 ^ 63) min.toNat with hlt | hle
  · rw [firstPower_eq_zero hlt]
    exact iff_of_false not_enumerates_zero fun h => absurd h.1 (Nat.not_le.2 hlt)
  · have hrun : Enumerates max (firstPower min) _ :=
      enumerates_doublings (ceilPowerOfTwo_pos min.toNat) (ceilPowerOfTwo_lt_iff.2 hle)
    exact ⟨fun h => ⟨hle, hrun.unique h ▸ listsPowers_doublings⟩,
      fun h => listsPowers_doublings.unique h.2 ▸ hrun⟩

/-- Every range has one list of its powers of two, `powersOfTwo`. Both the enumeration and
`powersOfTwo?` end with this list if and only if the lower bound is at most `2^63`, and with no
other list. -/
theorem listsPowers_powersOfTwo (min max : Word) :
    ListsPowers min max (powersOfTwo min max) ∧
    ∀ l, (Enumerates max (firstPower min) l ↔ min.toNat ≤ 2 ^ 63 ∧ ListsPowers min max l) ∧
      (powersOfTwo? min max = some l ↔ min.toNat ≤ 2 ^ 63 ∧ ListsPowers min max l) :=
  ⟨ListsPowers.of_powersOfTwo, fun _ => ⟨enumerates_iff, powersOfTwo?_eq_some_iff⟩⟩

/-- Between `2^63 + 1` and the largest word lies no power of two, so the empty list would be right;
the enumeration of this range does not end with any list. -/
theorem not_enumerates_above :
    ListsPowers 9223372036854775809 18446744073709551615 [] ∧
    powersOfTwo? 9223372036854775809 18446744073709551615 = none ∧
    ∀ l, ¬ Enumerates 18446744073709551615 (firstPower 9223372036854775809) l := by
  have habove : 2 ^ 63 < (9223372036854775809 : Word).toNat := by decide
  refine ⟨listsPowers_nil habove, by decide +kernel, fun l h => ?_⟩
  exact not_enumerates_zero (firstPower_eq_zero habove ▸ h)

end KernelTuning.Word
