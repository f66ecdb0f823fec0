import KernelTuning.Proofs.DecimalText
import KernelTuning.Proofs.RoundingError

/-!
# Doubles that are read back

A finite double is read back from its text but for its last bits: the sign is the same, and at most
sixteen steps lie between the two (`Binary64.Close`).

**Writing.** Seventeen digits always suffice: the grid of the longest decimals is finer than the
interval of the numbers that round to a double, so one of its points lies in there
(`isSome_onGrid`). So the shortest decimal is at most half a unit off (`abs_shortest_sub_le`), and
its digits fit in a word.

**Reading.** No digit is dropped then, and the reader rounds up to five times
(`within_scalePowerOfTen?`), which takes it at most six units further.

**Theorem** (`close_of_double?_literal`). What is read from the literal of a finite double is close
to it.
-/

namespace KernelTuning

open Json

/-- Taking zeros off a coefficient does not enlarge it. -/
theorem Decimal.coefficient_ofDigits_le (c : Nat) (e : Int) : (ofDigits c e).coefficient ≤ c := by
  induction c using Nat.strong_induction_on generalizing e with
  | _ c ih =>
    rw [ofDigits]
    split
    · exact (ih (c / 10) (by omega) (e + 1)).trans (Nat.div_le_self c 10)
    · exact le_rfl

namespace Binary64

/-! ## The leading digit -/

theorem leadingExponent_bounds {num den : Nat} (hden : 0 < den)
    (hsmall : ∃ k < 330, den ≤ num * 10 ^ k) :
    (10 : ℚ) ^ leadingExponent num den * den ≤ num ∧
      (num : ℚ) < 10 ^ (leadingExponent num den + 1) * den := by
  rcases Nat.lt_or_ge num den with hlt | hge
  · -- Below one the exponent is found by trying powers: `k` is the first that lifts the quotient to
    -- one, and the power before it does not, which is the upper bound.
    obtain ⟨k, hk⟩ : ∃ k, (List.range 330).find? (fun k => den ≤ num * 10 ^ k) = some k := by
      obtain ⟨k, hk, hle⟩ := hsmall
      rw [← Option.isSome_iff_exists, List.find?_isSome]
      exact ⟨k, List.mem_range.2 hk, decide_eq_true hle⟩
    have hleading : leadingExponent num den = -(k : ℤ) := by
      unfold leadingExponent
      rw [if_neg (by omega), hk]
    obtain ⟨hfound, -, hbefore⟩ := List.find?_range_eq_some.1 hk
    have hle : (den : ℚ) ≤ num * 10 ^ k := by exact_mod_cast of_decide_eq_true hfound
    have hpos : k ≠ 0 := by
      rintro rfl
      rw [pow_zero, mul_one] at hle
      have : den ≤ num := by exact_mod_cast hle
      omega
    obtain ⟨j, rfl⟩ := Nat.exists_eq_succ_of_ne_zero hpos
    have hlast : (num * 10 ^ j : ℚ) < den := by
      have := hbefore j (Nat.lt_succ_self j)
      simp only [Bool.not_eq_true', decide_eq_false_iff_not, not_le] at this
      exact_mod_cast this
    have hten : (0 : ℚ) < 10 ^ j := by positivity
    rw [hleading]
    constructor
    · rw [zpow_neg, zpow_natCast, inv_mul_le_iff₀ (by positivity), mul_comm]
      exact hle
    · rw [show (-((j.succ : ℕ) : ℤ) + 1) = -(j : ℤ) by push_cast; ring, zpow_neg, zpow_natCast,
        lt_inv_mul_iff₀ hten, mul_comm]
      exact hlast
  · -- From one on it is the logarithm of the whole part, whose bounds carry over to the quotient.
    have hquotient : num / den ≠ 0 := (Nat.div_pos hge hden).ne'
    have hlow := Nat.pow_log_le_self 10 hquotient
    have hhigh := Nat.lt_pow_succ_log_self (by decide : 1 < 10) (num / den)
    rw [leadingExponent_of_lt hge hlow hhigh]
    have hlow' := (Nat.le_div_iff_mul_le hden).1 hlow
    have hhigh' := (Nat.div_lt_iff_lt_mul hden).1 hhigh
    constructor
    · rw [zpow_natCast]
      exact_mod_cast hlow'
    · rw [← Nat.cast_succ, zpow_natCast]
      exact_mod_cast hhigh'

/-! ## The grid of the longest decimals -/

/-- A point of the grid lies in the interval if the grid is finer than that. -/
theorem isSome_onGrid {tie : Tie} {low value high den : Nat} {closed : Bool} {e : Int}
    (hlow : low < value) (hhigh : value < high)
    (hden : 0 < den) (hfine : 10 ^ e.toNat * den < (high - low) * 10 ^ (-e).toNat) :
    (onGrid tie low value high den closed e).isSome = true := by
  unfold onGrid
  extract_lets gridNum gridDen lower position inside fromBelow fromAbove takesLower
  have hgridDen : 0 < gridDen := by positivity
  have hgridNum : 0 < gridNum := by positivity
  have hinside (c : Nat) (h : low * gridDen < position c) (h' : position c < high * gridDen) :
      inside c = true := by
    simp only [inside]
    split
    · exact decide_eq_true ⟨h.le, h'.le⟩
    · exact decide_eq_true ⟨h, h'⟩
  have hstep : position (lower + 1) = position lower + gridNum * den := by
    simp only [position]
    ring
  have hbelow : position lower ≤ value * gridDen := by
    have := Nat.div_mul_le_self (value * gridDen) (den * gridNum)
    simp only [position, lower]
    linarith
  have habove : value * gridDen < position (lower + 1) := by
    have := Nat.lt_mul_div_succ (value * gridDen) (Nat.mul_pos hden hgridNum)
    simp only [position, lower]
    linarith
  have hvalue : value * gridDen < high * gridDen := Nat.mul_lt_mul_of_pos_right hhigh hgridDen
  have hfloor : low * gridDen < value * gridDen := Nat.mul_lt_mul_of_pos_right hlow hgridDen
  have hwidth : low * gridDen + gridNum * den < high * gridDen := by
    have hfine' : gridNum * den < (high - low) * gridDen := hfine
    rw [Nat.sub_mul] at hfine'
    omega
  -- If the point below the value is not inside, the next one is: a step is less than the interval.
  have hsome : inside lower = true ∨ inside (lower + 1) = true := by
    by_cases h : low * gridDen < position lower
    · exact .inl (hinside lower h (by omega))
    · exact .inr (hinside (lower + 1) (by omega) (by omega))
  rcases hsome with h | h
  · rw [h]
    cases inside (lower + 1) <;> rfl
  · rw [h]
    cases inside lower <;> rfl

theorem unitScale_le_pow {x : Binary64} (h : x.significand ≠ 0) :
    ∃ k < 330, 4 * unitScale ≤ 4 * x.scaled * 10 ^ k := by
  have hbound : ∀ k, k = 324 → unitScale ≤ 10 ^ k := by
    rintro k rfl
    decide +kernel
  have hscaled : 0 < x.scaled := Nat.mul_pos (Nat.pos_of_ne_zero h) (by positivity)
  refine ⟨324, by decide, ?_⟩
  rw [Nat.mul_assoc]
  exact Nat.mul_le_mul_left 4 ((hbound 324 rfl).trans (Nat.le_mul_of_pos_left _ hscaled))

/-- The interval of a double: it reaches half a unit to either side, less below a power of two, and
is wider than a step of seventeen digits. -/
theorem interval_bounds {x : Binary64} (h : x.significand ≠ 0) :
    4 * x.scaled ≤ x.roundingFloor + 2 * 2 ^ x.shift ∧ x.roundingFloor < 4 * x.scaled ∧
      4 * x.scaled < x.roundingCeiling ∧
      4 * x.scaled < 10 ^ 16 * (x.roundingCeiling - x.roundingFloor) := by
  have hunit : 0 < 2 ^ x.shift := Nat.two_pow_pos _
  have hlower : 1 * 2 ^ x.shift ≤ x.scaled :=
    Nat.mul_le_mul_right _ (Nat.one_le_iff_ne_zero.2 h)
  have hupper : x.scaled ≤ (2 ^ 53 - 1) * 2 ^ x.shift :=
    Nat.mul_le_mul_right _ (Nat.le_sub_one_of_lt x.significand_lt)
  unfold roundingFloor roundingCeiling
  split
  · -- A power of two has the least significand, so its half steps below are small against it.
    rename_i hpower
    have hsignificand : x.significand = 2 ^ 52 := by
      unfold significand
      rw [if_neg (by omega), hpower.1, Nat.add_zero]
    have hscaled : x.scaled = 2 ^ 52 * 2 ^ x.shift := by
      unfold scaled
      rw [hsignificand]
    omega
  · omega

/-- **Seventeen digits suffice.** -/
theorem isSome_onGrid_seventeen {x : Binary64} (tie : Tie) (h : x.significand ≠ 0) :
    (onGrid tie x.roundingFloor (4 * x.scaled) x.roundingCeiling (4 * unitScale)
      (x.significand % 2 == 0)
      (leadingExponent (4 * x.scaled) (4 * unitScale) - 16)).isSome = true := by
  obtain ⟨-, hfloor, hceiling, hwidth⟩ := interval_bounds h
  have hden : 0 < 4 * unitScale := Nat.mul_pos (by decide) unitScale_pos
  obtain ⟨hleading, -⟩ := leadingExponent_bounds hden (unitScale_le_pow h)
  refine isSome_onGrid hfloor hceiling hden ?_
  -- Only the bounds of these numbers matter from here on. Left in place, their powers of two would
  -- be computed.
  generalize leadingExponent (4 * x.scaled) (4 * unitScale) = leading at hleading ⊢
  generalize x.roundingCeiling - x.roundingFloor = width at hwidth ⊢
  generalize 4 * unitScale = den at hleading ⊢
  generalize 4 * x.scaled = value at hleading hwidth
  have hpow : (0 : ℚ) < 10 ^ (-(leading - 16)).toNat := by positivity
  have hwidth' : (value : ℚ) < 10 ^ 16 * width := by exact_mod_cast hwidth
  have hstep : (10 : ℚ) ^ (leading - 16) * den < width := by
    have hsplit : (10 : ℚ) ^ leading = 10 ^ (leading - 16) * 10 ^ 16 := by
      rw [← zpow_natCast, ← zpow_add₀ (by norm_num)]
      congr 1
      push_cast
      ring
    rw [hsplit] at hleading
    refine lt_of_mul_lt_mul_left ?_ (by norm_num : (0 : ℚ) ≤ 10 ^ 16)
    linarith
  have hgrid : (10 : ℚ) ^ (leading - 16).toNat * den < width * 10 ^ (-(leading - 16)).toNat := by
    rw [← zpow_ten]
    calc (10 : ℚ) ^ (leading - 16) * 10 ^ (-(leading - 16)).toNat * den
        = 10 ^ (leading - 16) * den * 10 ^ (-(leading - 16)).toNat := by ring
      _ < width * 10 ^ (-(leading - 16)).toNat := mul_lt_mul_of_pos_right hstep hpow
  exact_mod_cast hgrid

/-! ## The shortest decimal -/

/-- A decimal on a grid of at most seventeen digits lies in the interval, and its digits fit in a
word. -/
theorem onGrid_bounds {x : Binary64} {tie : Tie} {closed : Bool} {n : Nat} {d : Decimal}
    (h : x.significand ≠ 0) (hn : n < 17)
    (hgrid : onGrid tie x.roundingFloor (4 * x.scaled) x.roundingCeiling (4 * unitScale) closed
      (leadingExponent (4 * x.scaled) (4 * unitScale) - n) = some d) :
    (x.roundingFloor : ℚ) ≤ d.magnitude * (4 * unitScale : ℕ) ∧
      d.magnitude * (4 * unitScale : ℕ) ≤ x.roundingCeiling ∧ d.coefficient < 2 ^ 64 := by
  have hden : 0 < 4 * unitScale := Nat.mul_pos (by decide) unitScale_pos
  obtain ⟨-, hleading⟩ := leadingExponent_bounds hden (unitScale_le_pow h)
  have hceiling : 2 * x.roundingCeiling ≤ 3 * (4 * x.scaled) := by
    have hlower : 1 * 2 ^ x.shift ≤ x.scaled :=
      Nat.mul_le_mul_right _ (Nat.one_le_iff_ne_zero.2 h)
    unfold roundingCeiling
    omega
  obtain ⟨c, rfl, ⟨hbelow, habove⟩, -⟩ := exists_inside_of_onGrid hgrid
  obtain ⟨hmagnitude, -⟩ := Decimal.ofDigits_spec c
    (leadingExponent (4 * x.scaled) (4 * unitScale) - n)
  have hcoefficient := Decimal.coefficient_ofDigits_le c
    (leadingExponent (4 * x.scaled) (4 * unitScale) - n)
  rw [hmagnitude]
  generalize leadingExponent (4 * x.scaled) (4 * unitScale) = leading
    at hleading hbelow habove hcoefficient ⊢
  generalize 4 * unitScale = den at hden hleading hbelow habove ⊢
  generalize 4 * x.scaled = value at hleading hceiling
  have hden' : (0 : ℚ) < den := by exact_mod_cast hden
  have hpow : (0 : ℚ) < 10 ^ (-(leading - n)).toNat := by positivity
  have hlow : (x.roundingFloor : ℚ) ≤ c * 10 ^ (leading - n) * den := by
    refine le_of_mul_le_mul_right ?_ hpow
    rw [mul_zpow_ten]
    exact_mod_cast hbelow
  have hhigh : (c * 10 ^ (leading - n) * den : ℚ) ≤ x.roundingCeiling := by
    refine le_of_mul_le_mul_right ?_ hpow
    rw [mul_zpow_ten]
    exact_mod_cast habove
  refine ⟨hlow, hhigh, lt_of_le_of_lt hcoefficient ?_⟩
  -- The number has one digit more than the grid, and the interval ends at one and a half of it.
  have hdigits : (c : ℚ) < 15 * 10 ^ n := by
    have hceiling' : (2 * x.roundingCeiling : ℚ) ≤ 3 * value := by exact_mod_cast hceiling
    have hsplit : (10 : ℚ) ^ (leading + 1) = 10 ^ (leading - n) * 10 ^ n * 10 := by
      rw [← zpow_natCast, ← zpow_add₀ (by norm_num), ← zpow_add_one₀ (by norm_num)]
      congr 1
      ring
    rw [hsplit] at hleading
    have hgap : (0 : ℚ) < 10 ^ (leading - n) * den := by positivity
    refine lt_of_mul_lt_mul_right ?_ hgap.le
    linarith
  have hfits : 15 * 10 ^ n ≤ 15 * 10 ^ 16 :=
    Nat.mul_le_mul_left _ (Nat.pow_le_pow_right (by decide) (by omega))
  have hnat : c < 15 * 10 ^ n := by exact_mod_cast hdigits
  omega

/-- The shortest decimal lies on the grid of one of the lengths. -/
theorem exists_onGrid_shortest {x : Binary64} (tie : Tie) (h : x.significand ≠ 0) :
    ∃ n : ℕ, n < 17 ∧ onGrid tie x.roundingFloor (4 * x.scaled) x.roundingCeiling (4 * unitScale)
      (x.significand % 2 == 0) (leadingExponent (4 * x.scaled) (4 * unitScale) - n) =
        some (x.shortest tie) := by
  rw [shortest_eq tie h]
  rcases hfind : (List.range 17).findSome? (fun n : ℕ =>
      onGrid tie x.roundingFloor (4 * x.scaled) x.roundingCeiling (4 * unitScale)
        (x.significand % 2 == 0) (leadingExponent (4 * x.scaled) (4 * unitScale) - n)) with _ | d
  · have hnone := List.findSome?_eq_none_iff.1 hfind 16 (by decide)
    have hsome := isSome_onGrid_seventeen tie h
    rw [show (16 : ℤ) = ((16 : ℕ) : ℤ) by rfl, hnone] at hsome
    cases hsome
  · obtain ⟨n, hn, hgrid⟩ := List.exists_of_findSome?_eq_some hfind
    exact ⟨n, List.mem_range.1 hn, hgrid⟩

/-- The shortest decimal lies in the interval, and its digits fit in a word. -/
theorem shortest_bounds {x : Binary64} (tie : Tie) (h : x.significand ≠ 0) :
    (x.roundingFloor : ℚ) ≤ (x.shortest tie).magnitude * (4 * unitScale : ℕ) ∧
      (x.shortest tie).magnitude * (4 * unitScale : ℕ) ≤ x.roundingCeiling ∧
      (x.shortest tie).coefficient < 2 ^ 64 := by
  obtain ⟨n, hn, hgrid⟩ := exists_onGrid_shortest tie h
  exact onGrid_bounds h hn hgrid

/-- The shortest decimal is at most half a unit off. -/
theorem abs_shortest_sub_le {x : Binary64} (tie : Tie) (h : x.significand ≠ 0) :
    |(x.shortest tie).magnitude * unitScale - x.scaled| ≤ (2 ^ x.shift : ℕ) / 2 := by
  obtain ⟨hlow, hhigh, -⟩ := shortest_bounds tie h
  obtain ⟨hfloor, -, -, -⟩ := interval_bounds h
  have hfloor' : (4 * x.scaled : ℚ) ≤ x.roundingFloor + 2 * (2 ^ x.shift : ℕ) := by
    exact_mod_cast hfloor
  have hceiling : (x.roundingCeiling : ℚ) = 4 * x.scaled + 2 * (2 ^ x.shift : ℕ) := by
    unfold roundingCeiling
    push_cast
    ring
  generalize unitScale = U at hlow hhigh ⊢
  push_cast at hlow hhigh hfloor' hceiling ⊢
  rw [abs_le]
  constructor <;> linarith

end Binary64

/-! ## Reading -/

namespace Json.NumberLiteral

/-- A literal whose digits fit in a word is read with all of them. -/
theorem double?_of_fits {n : NumberLiteral} (hfits : value (n.whole ++ n.fraction) < 2 ^ 64)
    (hexponent : ∀ e, n.exponent = some e → value e.2 < 2 ^ 31) :
    n.double? = (Binary64.scalePowerOfTen? (value (n.whole ++ n.fraction))
      (n.scale - n.fraction.length)).map fun x => if n.isNegative then x.negate else x := by
  rw [value_append] at hfits ⊢
  have hwhole : value n.whole < 2 ^ 64 :=
    lt_of_le_of_lt ((Nat.le_mul_of_pos_right _ (by positivity)).trans (Nat.le_add_right _ _)) hfits
  have hext : extend 0 n.whole = (value n.whole, n.whole.length) := by
    simpa using @extend_of_fits 0 n.whole (by simpa using hwhole)
  unfold double? scale
  simp only [hext, extend_of_fits hfits, Nat.sub_self]
  rcases he : n.exponent with _ | ⟨minus, digits⟩
  · simp
  · have hlt := hexponent _ he
    simp only at hlt ⊢
    rw [if_neg (by omega)]
    cases minus
    · simp only [Bool.false_eq_true, if_false]
      congr 2
      push_cast
      ring
    · simp only [if_true]
      congr 2
      push_cast
      ring

end Json.NumberLiteral

namespace Decimal

/-- The digits of a literal fit in a word if those of the decimal do. -/
theorem value_literal_lt (minus : Bool) {d : Decimal} (h : d.coefficient < 2 ^ 64) :
    NumberLiteral.value ((d.literal minus).whole ++ (d.literal minus).fraction) < 2 ^ 64 := by
  have hpoint := d.point_eq
  unfold literal
  split
  · split
    · have hdigits : ∀ m ∈ d.digitList ++ List.replicate d.exponent.toNat 0, m < 10 := by
        simp only [List.mem_append, List.mem_replicate]
        rintro m (hm | ⟨-, rfl⟩)
        · exact d.digitList_lt m hm
        · decide
      have hvalue := NumberLiteral.value_lt hdigits
      have hlength : 10 ^ (d.digitList ++ List.replicate d.exponent.toNat 0).length ≤ 10 ^ 16 := by
        apply Nat.pow_le_pow_right (by decide)
        rw [List.length_append, List.length_replicate]
        omega
      show NumberLiteral.value (d.digitList ++ List.replicate d.exponent.toNat 0 ++ [0]) < 2 ^ 64
      rw [NumberLiteral.value_append_singleton]
      omega
    split
    · simpa only [List.take_append_drop, value_digitList] using h
    · rw [NumberLiteral.value_append, NumberLiteral.value_append,
        NumberLiteral.value_replicate_zero, value_digitList]
      simpa [NumberLiteral.value] using h
  · simpa only [List.take_append_drop, value_digitList] using h

/-- A power of ten that is not far below every double has a moderate exponent. -/
theorem le_exponent {s : Nat} {e : Int} (hs : s < 2 ^ 64)
    (h : (1 : ℚ) ≤ s * 10 ^ e * (4 * Binary64.unitScale : ℕ)) : -616 ≤ e := by
  by_contra hlt
  obtain ⟨m, hm, hscale⟩ : ∃ m, m = 617 ∧ 2 ^ 64 * (4 * Binary64.unitScale) ≤ 10 ^ m :=
    ⟨617, rfl, by decide +kernel⟩
  obtain ⟨k, hk, hk'⟩ : ∃ k : ℕ, e = -k ∧ m ≤ k := ⟨(-e).toNat, by omega, by omega⟩
  have hden : (0 : ℚ) < (4 * Binary64.unitScale : ℕ) := by
    exact_mod_cast Nat.mul_pos (by decide) Binary64.unitScale_pos
  have hpow : 10 ^ m ≤ 10 ^ k := Nat.pow_le_pow_right (by decide) hk'
  generalize 4 * Binary64.unitScale = den at h hden hscale
  have hnat : s * den < 10 ^ k :=
    lt_of_lt_of_le (Nat.mul_lt_mul_of_pos_right hs (by exact_mod_cast hden)) (hscale.trans hpow)
  have hcast : (s * den : ℚ) < 10 ^ k := by exact_mod_cast hnat
  rw [hk, zpow_neg, zpow_natCast] at h
  have : (s : ℚ) * (10 ^ k)⁻¹ * den < 1 := by
    rw [mul_right_comm, ← div_eq_mul_inv, div_lt_one (by positivity)]
    exact hcast
  linarith

end Decimal

namespace Binary64

theorem one_le_shortest {x : Binary64} (tie : Tie) (h : x.significand ≠ 0) :
    (1 : ℚ) ≤ (x.shortest tie).magnitude * (4 * unitScale : ℕ) := by
  have hpos : 1 ≤ x.roundingFloor := roundingFloor_pos h
  have hpos' : (1 : ℚ) ≤ x.roundingFloor := by exact_mod_cast hpos
  exact hpos'.trans (shortest_bounds tie h).1

theorem point_shortest_le {x : Binary64} (hfinite : x.isFinite = true) (h : x.significand ≠ 0) :
    (x.shortest .even).point ≤ 309 := by
  by_cases hlargest : x.IsLargest
  · rw [hlargest.shortest]
    decide +kernel
  · have hcoefficient : (x.shortest .even).coefficient ≠ 0 := by
      intro hzero
      have hone := one_le_shortest .even h
      rw [Decimal.magnitude, hzero, Nat.cast_zero, zero_mul, zero_mul] at hone
      linarith
    exact Decimal.point_le hcoefficient (magnitude_shortest_le .even hfinite hlargest)

/-- The digits of the literal of a double fit in a word, so it is read as this word with a power of
ten. -/
theorem double?_literal {x : Binary64} (hfinite : x.isFinite = true) (h : x.significand ≠ 0) :
    NumberLiteral.value (x.literal.whole ++ x.literal.fraction) < 2 ^ 64 ∧
      x.literal.double? =
        (scalePowerOfTen? (NumberLiteral.value (x.literal.whole ++ x.literal.fraction))
          (x.literal.scale - x.literal.fraction.length)).map
            fun y => if x.isNegative then y.negate else y := by
  have hcoefficient := (shortest_bounds .even h).2.2
  have hvalue := Decimal.value_literal_lt x.isNegative hcoefficient
  have hsign : ((x.shortest .even).literal x.isNegative).isNegative = x.isNegative := by
    unfold Decimal.literal
    split_ifs <;> rfl
  have hexponent : ∀ e, x.literal.exponent = some e → NumberLiteral.value e.2 < 2 ^ 31 := by
    intro e he
    have hhigh := point_shortest_le hfinite h
    have hlow : -616 ≤ (x.shortest .even).exponent :=
      Decimal.le_exponent hcoefficient (one_le_shortest .even h)
    have hpoint := (x.shortest .even).point_eq
    unfold literal Decimal.literal at he
    split_ifs at he
    obtain rfl := Option.some.inj he
    rw [NumberLiteral.value_toDigits]
    omega
  have hread := NumberLiteral.double?_of_fits hvalue hexponent
  rw [hsign] at hread
  exact ⟨hvalue, hread⟩

/-- The word and the power of ten denote the shortest decimal. -/
theorem exists_double?_literal {x : Binary64} (hfinite : x.isFinite = true)
    (h : x.significand ≠ 0) :
    ∃ (s : ℕ) (e : ℤ), 1 ≤ s ∧ s < 2 ^ 64 ∧ -616 ≤ e ∧
      s * (10 : ℚ) ^ e = (x.shortest .even).magnitude ∧
      x.literal.double? =
        (scalePowerOfTen? s e).map fun y => if x.isNegative then y.negate else y := by
  obtain ⟨hvalue, hread⟩ := double?_literal hfinite h
  have hone := one_le_shortest .even h
  have hmagnitude : x.literal.magnitude = (x.shortest .even).magnitude :=
    Decimal.magnitude_literal x.isNegative (x.shortest .even)
  rw [← hmagnitude] at hone
  refine ⟨_, _, ?_, hvalue, Decimal.le_exponent hvalue hone, hmagnitude, hread⟩
  rw [Nat.one_le_iff_ne_zero]
  intro hzero
  rw [NumberLiteral.magnitude, hzero, Nat.cast_zero, zero_mul, zero_mul] at hone
  linarith

/-! ## Close doubles -/

/-- Two doubles agree but for their last bits: they have the same sign, and at most sixteen steps
lie between them. -/
structure Close (x y : Binary64) : Prop where
  finite : y.isFinite = true
  sign : y.isNegative = x.isNegative
  above : y.word ≤ x.word + 16
  below : x.word ≤ y.word + 16

/-- What is read for the magnitude of a double is at most eight of its units off. -/
theorem scaled_bounds_of_within {x m : Binary64} (h : x.significand ≠ 0)
    (within : Within m (x.shortest .even).magnitude) :
    m.scaled ≤ x.scaled + 8 * 2 ^ x.shift ∧ x.scaled ≤ m.scaled + 8 * 2 ^ x.shift := by
  have hshortest := abs_shortest_sub_le .even h
  have hupper : x.scaled ≤ (2 ^ 53 - 1) * 2 ^ x.shift :=
    Nat.mul_le_mul_right _ (Nat.le_sub_one_of_lt x.significand_lt)
  have hunit : 1 ≤ 2 ^ x.shift := Nat.two_pow_pos _
  have hscale := unitScale_pos_rat
  unfold Within toRat halfUnit at within
  generalize (x.shortest .even).magnitude = q at within hshortest
  generalize 2 ^ x.shift = u at hshortest hupper hunit ⊢
  generalize unitScale = U at within hshortest hscale
  -- All errors in units of the least double.
  have hread : |(m.scaled : ℚ) - q * U| ≤ 6 * roundoff * (q * U) + 3 / 2 := by
    have hsplit : (m.scaled : ℚ) - q * U = (m.scaled / U - q) * U := by
      field_simp
    rw [hsplit, abs_mul, abs_of_pos hscale]
    calc |(m.scaled : ℚ) / U - q| * U ≤ (6 * roundoff * q + 3 * (1 / (2 * U))) * U := by gcongr
      _ = 6 * roundoff * (q * U) + 3 / 2 := by
        field_simp
  have hupper' : (x.scaled : ℚ) ≤ (2 ^ 53 - 1) * u := by
    rw [show (2 ^ 53 - 1 : ℚ) = ((2 ^ 53 - 1 : ℕ) : ℚ) by norm_num]
    exact_mod_cast hupper
  have hunit' : (1 : ℚ) ≤ u := by exact_mod_cast hunit
  obtain ⟨hlow, hhigh⟩ := abs_le.1 hshortest
  obtain ⟨hlow', hhigh'⟩ := abs_le.1 hread
  unfold roundoff at hlow' hhigh'
  norm_num at hlow' hhigh'
  constructor
  · have : (m.scaled : ℚ) ≤ x.scaled + 8 * u := by linarith
    exact_mod_cast this
  · have : (x.scaled : ℚ) ≤ m.scaled + 8 * u := by linarith
    exact_mod_cast this

/-- A sign that is put on again makes close doubles of close magnitudes. -/
theorem close_of_absWord {x m : Binary64} (hfinite : m.word < 2047 * 2 ^ 52)
    (habove : m.word ≤ x.absWord + 16) (hbelow : x.absWord ≤ m.word + 16) :
    Close x (if x.isNegative then m.negate else m) := by
  have hword : x.word < 2 ^ 64 := x.bits.toNat_lt
  unfold absWord at habove hbelow
  rcases hsign : x.isNegative with _ | _
  · rw [if_neg Bool.false_ne_true]
    simp only [isNegative, decide_eq_false_iff_not, not_le] at hsign
    refine ⟨(isFinite_iff_word_lt (by omega)).2 hfinite, ?_, by omega, by omega⟩
    simp only [isNegative]
    exact decide_eq_decide.2 (by omega)
  · rw [if_pos rfl]
    simp only [isNegative, decide_eq_true_eq] at hsign
    have hnegated : m.negate.word = m.word + 2 ^ 63 := by
      unfold negate word
      rw [UInt64.toNat_ofNat', ← word]
      omega
    refine ⟨?_, ?_, by omega, by omega⟩
    · unfold isFinite exponentField
      rw [hnegated, bne_iff_ne]
      omega
    · simp only [isNegative]
      exact decide_eq_decide.2 (by omega)

theorem double?_literal_of_zero {x : Binary64} (h : x.significand = 0) :
    x.absWord = 0 ∧
      x.literal.double? = some (if x.isNegative then zero.negate else zero) := by
  have habs : x.absWord = 0 := by
    have hscaled : scaledOf x.absWord = scaledOf 0 + 0 * 2 ^ (0 / 2 ^ 52 - 1) := by
      rw [← scaled_eq, scaled, h, Nat.zero_mul]
      rfl
    exact Nat.le_zero.1 (word_le_of_scaled_le hscaled.le)
  have hshortest : x.shortest .even = ⟨0, 0⟩ := by
    unfold shortest
    rw [if_pos h]
  have hliteral : ∀ minus : Bool, (Decimal.literal minus ⟨0, 0⟩).double? =
      some (if minus then zero.negate else zero) := by decide +kernel
  rw [literal, hshortest]
  exact ⟨habs, hliteral _⟩

theorem close_of_double?_zero {x y : Binary64} (h : x.significand = 0)
    (hread : x.literal.double? = some y) : Close x y := by
  obtain ⟨habs, hzero⟩ := double?_literal_of_zero h
  rw [← Option.some.inj (hzero.symm.trans hread)]
  refine close_of_absWord ?_ ?_ ?_
  · decide
  · rw [habs]
    decide
  · rw [habs]
    exact Nat.zero_le _

/-- **What is read from the literal of a finite double is close to it.** -/
theorem close_of_double?_literal {x y : Binary64} (hfinite : x.isFinite = true)
    (hread : x.literal.double? = some y) : Close x y := by
  by_cases hzero : x.significand = 0
  · exact close_of_double?_zero hzero hread
  obtain ⟨s, e, hs, hs', he, hmagnitude, hliteral⟩ := exists_double?_literal hfinite hzero
  rw [hliteral, Option.map_eq_some_iff] at hread
  obtain ⟨m, hscaled, rfl⟩ := hread
  obtain ⟨hword, hwithin⟩ := within_scalePowerOfTen? hs hs' he hscaled
  rw [hmagnitude] at hwithin
  obtain ⟨habove, hbelow⟩ := scaled_bounds_of_within hzero hwithin
  have habs : m.absWord = m.word := absWord_of_lt (by omega)
  rw [scaled_eq, scaled_eq, shift_eq, habs] at habove hbelow
  have hsteps := word_le_of_scaled_le habove
  exact close_of_absWord hword (by omega) (le_word_of_le_scaled hbelow)

end Binary64

end KernelTuning
