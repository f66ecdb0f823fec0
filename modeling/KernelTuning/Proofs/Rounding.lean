import KernelTuning.Binary64.Decimal
import Mathlib

/-!
# Rounding is monotone

Rounding a quotient to a double keeps the order of the numerators (`word_ofRatio_mono`), and so
does the product with a fixed double (`word_mul_mono`). The order is that of the words, which for
non-negative doubles is the order of the numbers, with infinity at the top.

**Theorem (`isFinite_mul_pow`).** A word times a power of ten that does not exceed the number next
to the largest double by more than half a unit is finite, for all three roundings on the way. By
monotonicity one product for each power of ten decides this.

Far from infinity a power of two above the exact result is enough: rounding takes a result below
`2 ^ k` to one below `2 ^ (k + 2)` (`scaled_ofRatio_lt`).
-/

namespace KernelTuning.Binary64

/-! ## The nearest whole number -/

theorem nearestQuotient_eq (n d : Nat) :
    nearestQuotient n d =
      if 2 * (n % d) < d then n / d
      else if d < 2 * (n % d) then n / d + 1 else n / d + n / d % 2 := rfl

theorem div_le_nearestQuotient (n d : Nat) : n / d ≤ nearestQuotient n d := by
  rw [nearestQuotient_eq]
  split
  · exact le_rfl
  split
  · exact Nat.le_succ _
  · exact Nat.le_add_right _ _

theorem nearestQuotient_le (n d : Nat) : nearestQuotient n d ≤ n / d + 1 := by
  rw [nearestQuotient_eq]
  split
  · exact Nat.le_succ _
  split
  · exact le_rfl
  · have := Nat.mod_lt (n / d) (by decide : 0 < 2)
    omega

theorem nearestQuotient_mono {m n d : Nat} (h : m ≤ n) :
    nearestQuotient m d ≤ nearestQuotient n d := by
  rcases Nat.lt_or_ge (m / d) (n / d) with hlt | hge
  · calc nearestQuotient m d ≤ m / d + 1 := nearestQuotient_le m d
      _ ≤ n / d := hlt
      _ ≤ nearestQuotient n d := div_le_nearestQuotient n d
  · have hquotient : m / d = n / d := le_antisymm (Nat.div_le_div_right h) hge
    have hremainder : m % d ≤ n % d := by
      have hm := Nat.div_add_mod m d
      have hn := Nat.div_add_mod n d
      rw [hquotient] at hm
      omega
    rw [nearestQuotient_eq, nearestQuotient_eq, hquotient]
    split_ifs <;> omega

/-! ## Rounding to a double -/

/-- The places that are rounded away, for a quotient with the integral part `q`. -/
def roundedPlaces (q : Nat) : Nat := q.log2 - 52

theorem log2_mono {p q : Nat} (h : p ≤ q) : p.log2 ≤ q.log2 := by
  rcases Nat.eq_zero_or_pos p with rfl | hp
  · simp
  · exact (Nat.le_log2 (by omega)).2 (le_trans (Nat.log2_self_le hp.ne') h)

/-- At most 53 bits are left. -/
theorem div_roundedPlaces_lt (q : Nat) : q / 2 ^ roundedPlaces q < 2 ^ 53 := by
  apply (Nat.div_lt_iff_lt_mul (by positivity)).2
  rw [← Nat.pow_add]
  exact lt_of_lt_of_le Nat.lt_log2_self
    (Nat.pow_le_pow_right (by decide) (by unfold roundedPlaces; omega))

/-- If bits are rounded away, exactly 53 are left. -/
theorem le_div_roundedPlaces {q : Nat} (h : 0 < roundedPlaces q) :
    2 ^ 52 ≤ q / 2 ^ roundedPlaces q := by
  have hlog : q.log2 = 52 + roundedPlaces q := by
    unfold roundedPlaces at h ⊢
    omega
  have hq : q ≠ 0 := by
    rintro rfl
    simp [roundedPlaces] at h
  apply (Nat.le_div_iff_mul_le (by positivity)).2
  rw [← Nat.pow_add, ← hlog]
  exact Nat.log2_self_le hq

/-- The word of a rounded quotient, before it is cut off at infinity. -/
def roundedWord (num den : Nat) : Nat :=
  roundedPlaces (num * unitScale / den) * 2 ^ 52 +
    nearestQuotient (num * unitScale) (den * 2 ^ roundedPlaces (num * unitScale / den))

theorem word_ofRatio (num den : Nat) :
    (ofRatio num den).word = min (roundedWord num den) (2047 * 2 ^ 52) := by
  show (UInt64.ofNat (min (roundedWord num den) (2047 * 2 ^ 52))).toNat = _
  rw [UInt64.toNat_ofNat']
  omega

theorem roundedWord_mono {m n den : Nat} (h : m ≤ n) : roundedWord m den ≤ roundedWord n den := by
  have hscaled : m * unitScale ≤ n * unitScale := Nat.mul_le_mul_right _ h
  have hquotient : m * unitScale / den ≤ n * unitScale / den := Nat.div_le_div_right hscaled
  have hplaces : roundedPlaces (m * unitScale / den) ≤ roundedPlaces (n * unitScale / den) :=
    Nat.sub_le_sub_right (log2_mono hquotient) 52
  unfold roundedWord
  rcases Nat.eq_or_lt_of_le hplaces with heq | hlt
  · rw [heq]
    exact Nat.add_le_add_left (nearestQuotient_mono hscaled) _
  · -- A carry out of the lower binade does not reach past the start of the upper one.
    have hlow := div_roundedPlaces_lt (m * unitScale / den)
    have hhigh := le_div_roundedPlaces (q := n * unitScale / den) (by omega)
    rw [Nat.div_div_eq_div_mul] at hlow hhigh
    have hbelow := nearestQuotient_le (m * unitScale)
      (den * 2 ^ roundedPlaces (m * unitScale / den))
    have habove := div_le_nearestQuotient (n * unitScale)
      (den * 2 ^ roundedPlaces (n * unitScale / den))
    have hstep : (roundedPlaces (m * unitScale / den) + 1) * 2 ^ 52 ≤
        roundedPlaces (n * unitScale / den) * 2 ^ 52 := Nat.mul_le_mul_right _ hlt
    omega

theorem word_ofRatio_mono {m n den : Nat} (h : m ≤ n) :
    (ofRatio m den).word ≤ (ofRatio n den).word := by
  rw [word_ofRatio, word_ofRatio]
  exact min_le_min_right _ (roundedWord_mono h)

theorem word_ofRatio_le (num den : Nat) : (ofRatio num den).word ≤ 2047 * 2 ^ 52 := by
  rw [word_ofRatio]
  exact Nat.min_le_right _ _

/-! ## Products -/

theorem exponentField_of_word_lt {x : Binary64} (h : x.word < 2 ^ 63) :
    x.exponentField = x.word / 2 ^ 52 := by
  unfold exponentField
  omega

theorem scaled_mono {x y : Binary64} (h : x.word ≤ y.word) (hy : y.word < 2 ^ 63) :
    x.scaled ≤ y.scaled := by
  have hx : x.word < 2 ^ 63 := lt_of_le_of_lt h hy
  have hfx : x.fractionField < 2 ^ 52 := Nat.mod_lt _ (by positivity)
  have hex := exponentField_of_word_lt hx
  have hey := exponentField_of_word_lt hy
  have hfield : x.exponentField ≤ y.exponentField := by
    rw [hex, hey]
    exact Nat.div_le_div_right h
  unfold scaled shift significand
  -- Words of one binade are compared by their fractions. Of two binades the higher one starts where
  -- the lower one ends, and the lowest one has no hidden bit.
  rcases Nat.eq_or_lt_of_le hfield with heq | hlt
  · rw [heq]
    apply Nat.mul_le_mul_right
    have hfraction : x.fractionField ≤ y.fractionField := by
      unfold fractionField
      omega
    split <;> omega
  · rw [if_neg (by omega : y.exponentField ≠ 0)]
    have hhigh : 2 ^ 52 * 2 ^ (y.exponentField - 1) ≤
        (2 ^ 52 + y.fractionField) * 2 ^ (y.exponentField - 1) :=
      Nat.mul_le_mul_right _ (Nat.le_add_right _ _)
    refine le_trans ?_ hhigh
    split
    · rename_i hzero
      have hone : 1 ≤ 2 ^ (y.exponentField - 1) := Nat.one_le_two_pow
      rw [hzero]
      calc x.fractionField * 2 ^ (0 - 1) = x.fractionField := by simp
        _ ≤ 2 ^ 52 * 1 := by omega
        _ ≤ 2 ^ 52 * 2 ^ (y.exponentField - 1) := Nat.mul_le_mul_left _ hone
    · rename_i hpos
      calc (2 ^ 52 + x.fractionField) * 2 ^ (x.exponentField - 1)
          ≤ (2 ^ 52 * 2) * 2 ^ (x.exponentField - 1) := Nat.mul_le_mul_right _ (by omega)
        _ = 2 ^ 52 * 2 ^ x.exponentField := by
          rw [Nat.mul_assoc, ← Nat.pow_succ', Nat.succ_eq_add_one,
            Nat.sub_add_cancel (Nat.pos_of_ne_zero hpos)]
        _ ≤ 2 ^ 52 * 2 ^ (y.exponentField - 1) :=
          Nat.mul_le_mul_left _ (Nat.pow_le_pow_right (by decide) (by omega))

theorem word_mul_mono {w x y z : Binary64} (hx : w.word ≤ x.word) (hz : y.word ≤ z.word)
    (hxword : x.word < 2 ^ 63) (hzword : z.word < 2 ^ 63) : (w.mul y).word ≤ (x.mul z).word :=
  word_ofRatio_mono (Nat.mul_le_mul (scaled_mono hx hxword) (scaled_mono hz hzword))

theorem word_ofNat_lt (n : Nat) : (ofNat n).word < 2 ^ 63 := by
  have := word_ofRatio_le n 1
  unfold ofNat
  omega

theorem word_mul_lt (x y : Binary64) : (x.mul y).word < 2 ^ 63 := by
  have := word_ofRatio_le (x.scaled * y.scaled) (unitScale * unitScale)
  unfold mul
  omega

theorem isFinite_iff_word_lt {x : Binary64} (h : x.word < 2 ^ 63) :
    x.isFinite = true ↔ x.word < 2047 * 2 ^ 52 := by
  unfold isFinite
  rw [exponentField_of_word_lt h, bne_iff_ne]
  omega

/-! ## Products with powers of ten -/

theorem isFinite_mul_of_le {s m t n : Nat} (hs : s ≤ m) (ht : t ≤ n)
    (h : ((ofNat m).mul (ofNat n)).isFinite = true) :
    ((ofNat s).mul (ofNat t)).isFinite = true := by
  have hle := word_mul_mono (word_ofRatio_mono hs : (ofNat s).word ≤ (ofNat m).word)
    (word_ofRatio_mono ht : (ofNat t).word ≤ (ofNat n).word) (word_ofNat_lt m) (word_ofNat_lt n)
  have hlt := (isFinite_iff_word_lt (word_mul_lt _ _)).1 h
  exact (isFinite_iff_word_lt (word_mul_lt _ _)).2 (lt_of_le_of_lt hle hlt)

/-- The middle between the two largest doubles. -/
@[irreducible]
def safeBound : Nat := 2 ^ 1024 - 3 * 2 ^ 970

/-- Every word times `10 ^ 288` is within the bound, and `10 ^ 309` is not. -/
theorem safeBound_between : (2 ^ 64 - 1) * 10 ^ 288 ≤ safeBound ∧ safeBound < 10 ^ 309 := by
  decide +kernel

theorem lt_of_pow_le_safeBound {m n : Nat} (h : 10 ^ n ≤ safeBound) (hm : safeBound < 10 ^ m) :
    n < m := (Nat.pow_lt_pow_iff_right (by decide)).1 (lt_of_le_of_lt h hm)

/-- The largest word whose product with a power of ten is within the bound. -/
def largestFactor (n : Nat) : Nat := min (safeBound / 10 ^ n) (2 ^ 64 - 1)

/-- From `10 ^ 288` on the bound decides, below it no word exceeds the bound. -/
theorem isFinite_largestFactor :
    ∀ k < 21, ((ofNat (largestFactor (288 + k))).mul (ofNat (10 ^ (288 + k)))).isFinite = true := by
  decide +kernel

theorem largestFactor_of_le {m n : Nat} (h : n ≤ m) (hm : (2 ^ 64 - 1) * 10 ^ m ≤ safeBound) :
    largestFactor n = 2 ^ 64 - 1 := by
  have hpow : 10 ^ n ≤ 10 ^ m := Nat.pow_le_pow_right (by decide) h
  apply min_eq_right
  apply (Nat.le_div_iff_mul_le (by positivity)).2
  exact le_trans (Nat.mul_le_mul_left _ hpow) hm

theorem isFinite_mul_pow {s n : Nat} (hs : s < 2 ^ 64) (hn : n ≤ 308) (h : s * 10 ^ n ≤ safeBound) :
    ((ofNat s).mul (ofNat (10 ^ n))).isFinite = true := by
  have hfactor : s ≤ largestFactor (288 + (n - 288)) := by
    rcases Nat.le_total n 288 with hle | hge
    · rw [largestFactor_of_le (by omega : _ ≤ 288) safeBound_between.1]
      omega
    · rw [Nat.add_sub_cancel' hge]
      exact le_min ((Nat.le_div_iff_mul_le (by positivity)).2 h) (by omega)
  have hplace : n - 288 < 21 := by omega
  have hpow : 10 ^ n ≤ 10 ^ (288 + (n - 288)) := Nat.pow_le_pow_right (by decide) (by omega)
  exact isFinite_mul_of_le hfactor hpow (isFinite_largestFactor (n - 288) hplace)

/-! ## Magnitudes -/

theorem unitScale_pos : 0 < unitScale := by
  unfold unitScale
  positivity

/-- A quotient below a power of two is rounded to at most that power. -/
theorem word_ofRatio_le_of_lt {num den k : Nat} (h : num * unitScale / den < 2 ^ k)
    (hk : 53 ≤ k) : (ofRatio num den).word ≤ (k - 51) * 2 ^ 52 := by
  have hplaces : roundedPlaces (num * unitScale / den) ≤ k - 53 := by
    have hlog : (num * unitScale / den).log2 < k := by
      rcases Nat.eq_zero_or_pos (num * unitScale / den) with hzero | hpos
      · rw [hzero, Nat.log2_zero]
        omega
      · exact (Nat.log2_lt hpos.ne').2 h
    unfold roundedPlaces
    omega
  have hquotient := div_roundedPlaces_lt (num * unitScale / den)
  rw [Nat.div_div_eq_div_mul] at hquotient
  have hnearest := nearestQuotient_le (num * unitScale)
    (den * 2 ^ roundedPlaces (num * unitScale / den))
  have hshift := Nat.mul_le_mul_right (2 ^ 52) hplaces
  calc (ofRatio num den).word ≤ roundedWord num den := by
        rw [word_ofRatio]
        exact Nat.min_le_left _ _
    _ ≤ (k - 53) * 2 ^ 52 + 2 ^ 53 := Nat.add_le_add hshift (Nat.le_trans hnearest hquotient)
    _ = (k - 51) * 2 ^ 52 := by omega

theorem scaled_lt {x : Binary64} {e : Nat} (h : x.word ≤ e * 2 ^ 52) (he : e < 2048) :
    x.scaled < 2 ^ (e + 53) := by
  have hfield : x.exponentField ≤ e := by
    rw [exponentField_of_word_lt (by omega)]
    omega
  have hfraction : x.fractionField < 2 ^ 52 := Nat.mod_lt _ (by positivity)
  have hsignificand : x.significand < 2 ^ 53 := by
    unfold significand
    split <;> omega
  have hshift : 2 ^ x.shift ≤ 2 ^ e := by
    apply Nat.pow_le_pow_right (by decide)
    unfold shift
    omega
  rw [Nat.add_comm, Nat.pow_add]
  exact Nat.mul_lt_mul_of_lt_of_le hsignificand hshift (by positivity)

/-- Rounding at most quadruples the bound of a quotient. -/
theorem scaled_ofRatio_lt {num den k : Nat} (h : num * unitScale / den < 2 ^ k) (hk : 53 ≤ k)
    (hk' : k < 2099) : (ofRatio num den).scaled < 2 ^ (k + 2) := by
  have hlt := scaled_lt (word_ofRatio_le_of_lt h hk) (by omega)
  rwa [show k - 51 + 53 = k + 2 by omega] at hlt

theorem isFinite_ofRatio {num den k : Nat} (h : num * unitScale / den < 2 ^ k) (hk : 53 ≤ k)
    (hk' : k < 2098) : (ofRatio num den).isFinite = true := by
  have hle := word_ofRatio_le_of_lt h hk
  exact (isFinite_iff_word_lt (by omega)).2 (by omega)

theorem scaled_ofNat_lt {n k : Nat} (h : n < 2 ^ k) (hk : k < 1000) :
    (ofNat n).scaled < 2 ^ (k + 1076) := by
  apply scaled_ofRatio_lt (k := k + 1074) _ (by omega) (by omega)
  obtain ⟨u, hu, hscale⟩ : ∃ u, u = 1074 ∧ unitScale = 2 ^ u := ⟨1074, rfl, rfl⟩
  rw [Nat.div_one, hscale, ← hu, Nat.pow_add]
  exact Nat.mul_lt_mul_of_pos_right h (by positivity)

/-- A whole number from one on is rounded to at least one. -/
theorem unitScale_le_scaled_ofNat {n : Nat} (h : 1 ≤ n) : unitScale ≤ (ofNat n).scaled := by
  have hone : (ofNat 1).scaled = unitScale := by decide +kernel
  rw [← hone]
  exact scaled_mono (word_ofRatio_mono h) (word_ofNat_lt n)

/-- Dividing by a whole number does not enlarge the quotient that is rounded. -/
theorem quotient_ofNat_lt {x : Binary64} {n k : Nat} (hx : x.scaled < 2 ^ k) (hn : 1 ≤ n) :
    x.scaled * unitScale / (ofNat n).scaled < 2 ^ k := by
  apply Nat.lt_of_le_of_lt _ hx
  apply Nat.div_le_of_le_mul
  rw [Nat.mul_comm]
  exact Nat.mul_le_mul_right _ (unitScale_le_scaled_ofNat hn)

theorem scaled_div_ofNat_lt {x : Binary64} {n k : Nat} (hx : x.scaled < 2 ^ k) (hn : 1 ≤ n)
    (hk : 53 ≤ k) (hk' : k < 2099) : (x.div (ofNat n)).scaled < 2 ^ (k + 2) :=
  scaled_ofRatio_lt (quotient_ofNat_lt hx hn) hk hk'

end KernelTuning.Binary64
