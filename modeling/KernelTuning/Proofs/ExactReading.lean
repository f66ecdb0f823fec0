import KernelTuning.Proofs.ScoreReading

/-!
# Doubles that are read back exactly

The reader computes the number of a text with roundings, so a double need not come back from its own
text (`IsReadBack`). It does if the text is short: then the digits and the power of ten are doubles
themselves, and the only rounding is that of the decimal.

**Intervals.** The numbers that round to a double form an interval, to which the ends belong if the
significand is even (`Rounds`). Below the least significand of a binade the interval is half as
wide, and what is rounded up there carries into the binade (`roundedWord_of_boundary`).

**Theorem (`isReadBack_of_hasShortText`).** A finite double is read back exactly if the digits of
its text make a number of at most 53 bits, and the power of ten is at most the 22nd.
-/

namespace KernelTuning

open Json

namespace Binary64

/-! ## Quotients with a common factor -/

theorem nearestQuotient_mul_right (n d : Nat) {c : Nat} (hc : 0 < c) :
    nearestQuotient (n * c) (d * c) = nearestQuotient n d := by
  have hquotient : n * c / (d * c) = n / d := Nat.mul_div_mul_right n d hc
  have hremainder : 2 * (n * c % (d * c)) = 2 * (n % d) * c := by
    rw [Nat.mul_mod_mul_right, Nat.mul_assoc]
  simp only [nearestQuotient_eq, hquotient, hremainder, Nat.mul_lt_mul_right hc]

/-- A quotient is rounded alike however it is written. -/
theorem ofRatio_mul_right (num den : Nat) {c : Nat} (hc : 0 < c) :
    ofRatio (num * c) (den * c) = ofRatio num den := by
  simp only [ofRatio, Nat.mul_right_comm num c, Nat.mul_right_comm den c,
    Nat.mul_div_mul_right _ _ hc, nearestQuotient_mul_right _ _ hc]

/-! ## The interval of a double -/

/-- What is within half a unit of a whole number is rounded to it, if it is even also from the
ends. -/
theorem nearestQuotient_of_near {n d m : Nat} (hd : 0 < d) (hlow : 2 * m * d ≤ 2 * n + d)
    (hhigh : 2 * n ≤ 2 * m * d + d)
    (hodd : m % 2 = 1 → 2 * m * d < 2 * n + d ∧ 2 * n < 2 * m * d + d) :
    nearestQuotient n d = m := by
  have hsplit := Nat.div_add_mod n d
  have hremainder := Nat.mod_lt n hd
  rw [nearestQuotient_eq]
  generalize n / d = q at hsplit ⊢
  generalize n % d = r at hsplit hremainder ⊢
  subst hsplit
  have hle : q ≤ m := by
    by_contra hlt
    have := Nat.mul_le_mul_left d (Nat.succ_le_of_lt (not_le.1 hlt))
    nlinarith
  have hge : m ≤ q + 1 := by
    by_contra hlt
    have := Nat.mul_le_mul_left d (Nat.succ_le_of_lt (not_le.1 hlt))
    nlinarith
  -- The whole part or the number after it, and then the remainder decides.
  obtain rfl | rfl : m = q ∨ m = q + 1 := by omega
  · have hmul : 2 * m * d = 2 * (d * m) := by ring
    rw [hmul] at hlow hhigh hodd
    split_ifs <;> omega
  · have hmul : 2 * (q + 1) * d = 2 * (d * q) + 2 * d := by ring
    rw [hmul] at hlow hhigh hodd
    split_ifs <;> omega

/-- The quotient lies in the interval of the numbers that round to a double. The ends belong to it
if the significand is even. -/
structure Rounds (x : Binary64) (num den : Nat) : Prop where
  above : x.roundingFloor * den ≤ 4 * (num * unitScale)
  below : 4 * (num * unitScale) ≤ x.roundingCeiling * den
  odd : x.significand % 2 = 1 → x.roundingFloor * den < 4 * (num * unitScale) ∧
    4 * (num * unitScale) < x.roundingCeiling * den

/-- The word of a double without its sign has the significand at its place. -/
theorem absWord_eq (x : Binary64) : x.absWord = x.shift * 2 ^ 52 + x.significand := by
  unfold absWord shift significand exponentField fractionField
  split <;> omega

theorem roundedPlaces_eq {q p : Nat} (hlow : 2 ^ 52 * 2 ^ p ≤ q) (hhigh : q < 2 ^ 53 * 2 ^ p) :
    roundedPlaces q = p := by
  rw [← Nat.pow_add] at hlow hhigh
  have hpos : 0 < 2 ^ (52 + p) := Nat.two_pow_pos _
  have hge := (Nat.le_log2 (by omega)).2 hlow
  have hlt := (Nat.log2_lt (by omega)).2 hhigh
  unfold roundedPlaces
  omega

theorem roundedPlaces_of_lt {q : Nat} (h : q < 2 ^ 53) : roundedPlaces q = 0 := by
  unfold roundedPlaces
  rcases Nat.eq_zero_or_pos q with rfl | hpos
  · rfl
  · have := (Nat.log2_lt hpos.ne').2 h
    omega

/-- A quotient within half a unit of a significand that is not the least one of its binade. -/
theorem roundedPlaces_of_near {n den m p : Nat} (hden : 0 < den) (hm : m < 2 ^ 53)
    (hp : p ≠ 0 → 2 ^ 52 < m) (hlow : 2 * m * (den * 2 ^ p) ≤ 2 * n + den * 2 ^ p)
    (hhigh : 2 * n ≤ 2 * m * (den * 2 ^ p) + den * 2 ^ p) : roundedPlaces (n / den) = p := by
  have hunit : 0 < den * 2 ^ p := Nat.mul_pos hden (Nat.two_pow_pos p)
  have hupper : n < 2 ^ 53 * (den * 2 ^ p) := by
    have hle := Nat.mul_le_mul_right (den * 2 ^ p) (Nat.succ_le_of_lt hm)
    rw [Nat.succ_mul] at hle
    rw [Nat.mul_assoc] at hhigh
    omega
  rcases Nat.eq_zero_or_pos p with rfl | hpos
  · rw [Nat.pow_zero, Nat.mul_one] at hupper
    exact roundedPlaces_of_lt ((Nat.div_lt_iff_lt_mul hden).2 hupper)
  · have hlower : 2 ^ 52 * (den * 2 ^ p) ≤ n := by
      have hle := Nat.mul_le_mul_right (den * 2 ^ p) (Nat.succ_le_of_lt (hp hpos.ne'))
      rw [Nat.succ_mul] at hle
      rw [Nat.mul_assoc] at hlow
      omega
    refine roundedPlaces_eq ((Nat.le_div_iff_mul_le hden).2 ?_)
      ((Nat.div_lt_iff_lt_mul hden).2 ?_)
    · rwa [Nat.mul_assoc, Nat.mul_comm (2 ^ p)]
    · rwa [Nat.mul_assoc, Nat.mul_comm (2 ^ p)]

/-- Below the least significand of a binade the units are those of the binade below, and rounding up
carries back into it. -/
theorem roundedWord_of_boundary {n den k : Nat} (hden : 0 < den)
    (hlow : 2 * 2 ^ 53 * (den * 2 ^ k) ≤ 2 * n + den * 2 ^ k)
    (hhigh : 2 * n ≤ 2 * 2 ^ 52 * (den * 2 ^ (k + 1)) + den * 2 ^ (k + 1)) :
    roundedPlaces (n / den) * 2 ^ 52 + nearestQuotient n (den * 2 ^ roundedPlaces (n / den)) =
      (k + 1) * 2 ^ 52 + 2 ^ 52 := by
  have hunit : 0 < den * 2 ^ k := Nat.mul_pos hden (Nat.two_pow_pos k)
  have hdouble : den * 2 ^ (k + 1) = 2 * (den * 2 ^ k) := by
    rw [Nat.pow_succ]
    ring
  have hquotient (c p : Nat) : c * 2 ^ p ≤ n / den ↔ c * (den * 2 ^ p) ≤ n := by
    rw [Nat.le_div_iff_mul_le hden, Nat.mul_assoc, Nat.mul_comm (2 ^ p)]
  -- In the binade below the significand is rounded up to its end, in this one down to its start.
  rcases Nat.lt_or_ge (n / den) (2 ^ 52 * 2 ^ (k + 1)) with hbelow | habove
  · have hn : n < 2 ^ 52 * (den * 2 ^ (k + 1)) := by
      rw [← not_le, ← hquotient, not_le]
      exact hbelow
    rw [hdouble] at hn
    have hplaces : roundedPlaces (n / den) = k := by
      refine roundedPlaces_eq ((hquotient _ _).2 (by omega)) ?_
      rw [← not_le, hquotient]
      omega
    have hnearest := nearestQuotient_of_near (n := n) (m := 2 ^ 53) hunit hlow (by omega) (by omega)
    rw [hplaces, hnearest]
    omega
  · have hn := (hquotient _ _).1 habove
    have hplaces : roundedPlaces (n / den) = k + 1 := by
      refine roundedPlaces_eq habove ?_
      rw [← not_le, hquotient]
      omega
    have hnearest := nearestQuotient_of_near (n := n) (m := 2 ^ 52)
      (Nat.mul_pos hden (Nat.two_pow_pos (k + 1))) (by omega) hhigh (by omega)
    rw [hplaces, hnearest]

/-- The least significand of a binade that has one below it. -/
theorem significand_of_boundary {x : Binary64} (h : x.fractionField = 0 ∧ 1 < x.exponentField) :
    x.significand = 2 ^ 52 ∧ ∃ k, x.shift = k + 1 := by
  obtain ⟨hfraction, hexponent⟩ := h
  refine ⟨?_, x.shift - 1, ?_⟩
  · unfold significand
    rw [if_neg (by omega), hfraction, Nat.add_zero]
  · unfold shift
    omega

theorem lt_significand {x : Binary64} (h : ¬(x.fractionField = 0 ∧ 1 < x.exponentField))
    (hshift : x.shift ≠ 0) : 2 ^ 52 < x.significand := by
  unfold shift at hshift
  unfold significand
  rw [if_neg (by omega)]
  omega

/-- **A quotient in the interval of a double is rounded to this double.** -/
theorem roundedWord_of_rounds {x : Binary64} {num den : Nat} (hden : 0 < den)
    (h : x.Rounds num den) : roundedWord num den = x.absWord := by
  obtain ⟨habove, hbelow, hodd⟩ := h
  have hsignificand := x.significand_lt
  have hvalue : 4 * x.scaled * den = 4 * (x.significand * (den * 2 ^ x.shift)) := by
    unfold scaled
    ring
  have hunit : 2 ^ x.shift * den = den * 2 ^ x.shift := Nat.mul_comm _ _
  rw [absWord_eq]
  simp only [roundingFloor, roundingCeiling, Nat.sub_mul, Nat.add_mul, hvalue] at habove hbelow hodd
  unfold roundedWord
  generalize num * unitScale = n at *
  -- At the least significand of a binade the interval is narrower below than above.
  by_cases hboundary : x.fractionField = 0 ∧ 1 < x.exponentField
  · obtain ⟨hleast, k, hk⟩ := significand_of_boundary hboundary
    have hdouble : den * 2 ^ (k + 1) = 2 * (den * 2 ^ k) := by
      rw [Nat.pow_succ]
      ring
    rw [hk] at hunit
    simp only [if_pos hboundary, Nat.mul_assoc, hk, hunit, hleast, hdouble] at habove hbelow ⊢
    exact roundedWord_of_boundary hden (by omega) (by rw [hdouble]; omega)
  · simp only [if_neg hboundary, Nat.mul_assoc, hunit] at habove hbelow hodd
    generalize hm : x.significand = m at *
    have hp := hm ▸ lt_significand hboundary
    generalize x.shift = p at *
    have hplaces := roundedPlaces_of_near (n := n) hden hsignificand hp
      (by rw [Nat.mul_assoc]; omega) (by rw [Nat.mul_assoc]; omega)
    have hnearest := nearestQuotient_of_near (n := n) (m := m)
      (Nat.mul_pos hden (Nat.two_pow_pos p)) (by rw [Nat.mul_assoc]; omega)
      (by rw [Nat.mul_assoc]; omega) (by rw [Nat.mul_assoc]; omega)
    rw [hplaces, hnearest]

/-- The shortest decimal of a double lies in its interval. -/
theorem rounds_of_shortest {x : Binary64} (tie : Tie) (h : x.significand ≠ 0) {num den : Nat}
    (hden : 0 < den) (hmagnitude : (x.shortest tie).magnitude * den = num) :
    x.Rounds num den := by
  have hden' : (0 : ℚ) < den := by exact_mod_cast hden
  have hposition : ((4 * (num * unitScale) : ℕ) : ℚ) =
      (x.shortest tie).magnitude * (4 * unitScale : ℕ) * den := by
    push_cast
    rw [← hmagnitude]
    ring
  obtain ⟨hlow, hhigh, -⟩ := shortest_bounds tie h
  refine ⟨?_, ?_, fun hodd => ?_⟩
  · have hle := mul_le_mul_of_nonneg_right hlow hden'.le
    rw [← hposition] at hle
    exact_mod_cast hle
  · have hle := mul_le_mul_of_nonneg_right hhigh hden'.le
    rw [← hposition] at hle
    exact_mod_cast hle
  · -- The ends of the interval do not belong to it, so no decimal on a grid is taken there.
    obtain ⟨n, -, hgrid⟩ := exists_onGrid_shortest tie h
    obtain ⟨c, hdecimal, -, hopen⟩ := exists_inside_of_onGrid hgrid
    obtain ⟨hbelow, habove⟩ := hopen (by rw [hodd]; rfl)
    generalize leadingExponent (4 * x.scaled) (4 * unitScale) - n = e at *
    have hpow : (0 : ℚ) < 10 ^ (-e).toNat := by positivity
    rw [hdecimal, (Decimal.ofDigits_spec c e).1] at hposition
    have hlow' : (x.roundingFloor : ℚ) < c * 10 ^ e * (4 * unitScale : ℕ) := by
      refine lt_of_mul_lt_mul_right ?_ hpow.le
      rw [mul_zpow_ten]
      exact_mod_cast hbelow
    have hhigh' : (c * 10 ^ e * (4 * unitScale : ℕ) : ℚ) < x.roundingCeiling := by
      refine lt_of_mul_lt_mul_right ?_ hpow.le
      rw [mul_zpow_ten]
      exact_mod_cast habove
    have hlt := mul_lt_mul_of_pos_right hlow' hden'
    have hgt := mul_lt_mul_of_pos_right hhigh' hden'
    rw [← hposition] at hlt hgt
    exact ⟨by exact_mod_cast hlt, by exact_mod_cast hgt⟩

/-! ## Exact operations -/

theorem nearestQuotient_mul_self (k : Nat) {d : Nat} (hd : 0 < d) :
    nearestQuotient (k * d) d = k := by
  have h := nearestQuotient_mul_right k 1 hd
  rw [Nat.one_mul] at h
  rw [h, nearestQuotient_eq, Nat.mod_one, Nat.div_one]
  rfl

/-- Whole numbers of at most 53 bits are doubles. -/
theorem scaled_ofNat {n : Nat} (h : n < 2 ^ 53) : (ofNat n).scaled = n * unitScale := by
  have hfinite : (ofNat n).isFinite = true := isFinite_ofNat_of_lt (by omega)
  obtain ⟨u, hu, hscale⟩ : ∃ u, u = 1074 ∧ unitScale = 2 ^ u := ⟨1074, rfl, rfl⟩
  have hplaces : roundedPlaces (n * unitScale / 1) ≤ u := by
    have hlt : n * unitScale / 1 < 2 ^ (53 + u) := by
      rw [Nat.div_one, hscale, Nat.pow_add]
      exact Nat.mul_lt_mul_of_pos_right h (by positivity)
    unfold roundedPlaces
    rcases Nat.eq_zero_or_pos (n * unitScale / 1) with hzero | hpos
    · rw [hzero, Nat.log2_zero]
      omega
    · have := (Nat.log2_lt hpos.ne').2 hlt
      omega
  have hscaled := scaled_ofRatio hfinite
  generalize roundedPlaces (n * unitScale / 1) = p at hplaces hscaled
  have hsplit : n * unitScale = n * 2 ^ (u - p) * (1 * 2 ^ p) := by
    rw [hscale, Nat.one_mul, Nat.mul_assoc, ← Nat.pow_add, Nat.sub_add_cancel hplaces]
  rw [ofNat, hscaled, hsplit, nearestQuotient_mul_self _ (by positivity)]
  ring

theorem scaled_ofNat_pow_ten :
    ∀ k ≤ 22, (ofNat (10 ^ k)).scaled = 10 ^ k * unitScale := by
  decide +kernel

/-- **With exact operands a decimal is rounded once.** -/
theorem scalePowerOfTen?_eq {s : Nat} {e : Int} (hs : 1 ≤ s) (hs' : s < 2 ^ 53)
    (hlow : -22 ≤ e) (hhigh : e ≤ 22) :
    scalePowerOfTen? s e = some (ofRatio (s * 10 ^ e.toNat) (10 ^ (-e).toNat)) := by
  have hscale := unitScale_pos
  have hstart := scaled_ofNat hs'
  unfold scalePowerOfTen?
  split
  · rename_i hnonneg
    have hpower := scaled_ofNat_pow_ten e.toNat (by omega)
    have hproduct : (ofNat s).mul (ofNat (10 ^ e.toNat)) = ofRatio (s * 10 ^ e.toNat) 1 := by
      rw [← ofRatio_mul_right _ _ (Nat.mul_pos hscale hscale), Nat.one_mul]
      unfold mul
      rw [hstart, hpower, Nat.mul_mul_mul_comm]
    have hfinite : (ofRatio (s * 10 ^ e.toNat) 1).isFinite = true := by
      have hpow : 10 ^ e.toNat ≤ 10 ^ 22 := Nat.pow_le_pow_right (by decide) (by omega)
      have hbound : s * 10 ^ e.toNat ≤ 2 ^ 53 * 10 ^ 22 := Nat.mul_le_mul hs'.le hpow
      exact isFinite_ofNat (m := 100) (hbound.trans (by decide)) (by decide)
    rw [if_neg (by omega), if_neg (by omega), hproduct]
    dsimp only
    rw [if_pos hfinite, show (-e).toNat = 0 by omega, Nat.pow_zero]
  · rename_i hneg
    have hpower := scaled_ofNat_pow_ten (-e).toNat (by omega)
    have hquotient :
        (ofNat s).div (ofNat (10 ^ (-e).toNat)) = ofRatio s (10 ^ (-e).toNat) := by
      rw [← ofRatio_mul_right _ _ hscale]
      unfold div
      rw [hstart, hpower]
    show some (scalePowerOfTen?.shrink (ofNat s) (-e).toNat) = _
    rw [scalePowerOfTen?.shrink, if_pos (by omega), hquotient, show e.toNat = 0 by omega,
      Nat.pow_zero, Nat.mul_one]

/-! ## Reading back -/

/-- The double is read back from its own text, with all of its bits. -/
def IsReadBack (x : Binary64) : Prop := x.literal.double? = some x

instance (x : Binary64) : Decidable x.IsReadBack :=
  inferInstanceAs (Decidable (x.literal.double? = some x))

/-- The digits make a number of at most 53 bits, and the power of ten of the text is a double. -/
structure HasShortText (x : Binary64) : Prop where
  digits : NumberLiteral.value (x.literal.whole ++ x.literal.fraction) < 2 ^ 53
  low : -22 ≤ x.literal.scale - x.literal.fraction.length
  high : x.literal.scale - x.literal.fraction.length ≤ 22

theorem absWord_lt {x : Binary64} (h : x.isFinite = true) : x.absWord < 2047 * 2 ^ 52 := by
  have hexponent : x.exponentField ≠ 2047 := by simpa [isFinite] using h
  unfold exponentField at hexponent
  unfold absWord
  omega

/-- A double is its magnitude with its sign. -/
theorem eq_of_absWord {x m : Binary64} (h : m.word = x.absWord) :
    (if x.isNegative then m.negate else m) = x := by
  have hword : x.word < 2 ^ 64 := x.bits.toNat_lt
  have heq : (if x.isNegative then m.negate else m).word = x.word := by
    unfold absWord at h
    rcases hsign : x.isNegative with _ | _
    · simp only [isNegative, decide_eq_false_iff_not, not_le] at hsign
      rw [if_neg Bool.false_ne_true]
      omega
    · simp only [isNegative, decide_eq_true_eq] at hsign
      rw [if_pos rfl]
      unfold negate
      rw [word, UInt64.toNat_ofNat']
      omega
  generalize (if x.isNegative then m.negate else m) = y at heq ⊢
  cases x
  cases y
  exact congrArg Binary64.mk (UInt64.toNat_inj.1 heq)

/-- **Doubles with short texts are read back exactly.** The reader computes with exact operands
then, so it rounds the decimal once, and the decimal lies in the interval of the double. -/
theorem isReadBack_of_hasShortText {x : Binary64} (hfinite : x.isFinite = true)
    (h : x.HasShortText) : x.IsReadBack := by
  unfold IsReadBack
  by_cases hzero : x.significand = 0
  · obtain ⟨habs, hread⟩ := double?_literal_of_zero hzero
    rw [hread, eq_of_absWord]
    rw [habs]
    rfl
  · obtain ⟨-, hread⟩ := double?_literal hfinite hzero
    obtain ⟨hdigits, hlow, hhigh⟩ := h
    have hmagnitude : x.literal.magnitude = (x.shortest .even).magnitude :=
      Decimal.magnitude_literal x.isNegative (x.shortest .even)
    unfold NumberLiteral.magnitude at hmagnitude
    -- Digits and exponent of the text. The shortest decimal is reached through their value only.
    generalize NumberLiteral.value (x.literal.whole ++ x.literal.fraction) = s at *
    generalize x.literal.scale - x.literal.fraction.length = e at *
    have hs : 1 ≤ s := by
      rw [Nat.one_le_iff_ne_zero]
      rintro rfl
      have hone := one_le_shortest .even hzero
      rw [← hmagnitude, Nat.cast_zero, zero_mul, zero_mul] at hone
      linarith
    have hden : 0 < 10 ^ (-e).toNat := by positivity
    have hrounds : x.Rounds (s * 10 ^ e.toNat) (10 ^ (-e).toNat) := by
      refine rounds_of_shortest .even hzero hden ?_
      rw [← hmagnitude]
      push_cast
      rw [mul_assoc, zpow_ten]
    have habs := absWord_lt hfinite
    have hword : (ofRatio (s * 10 ^ e.toNat) (10 ^ (-e).toNat)).word = x.absWord := by
      rw [word_ofRatio, roundedWord_of_rounds hden hrounds]
      omega
    rw [hread, scalePowerOfTen?_eq hs hdigits hlow hhigh, Option.map_some, eq_of_absWord hword]

end Binary64

end KernelTuning
