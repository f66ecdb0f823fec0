import KernelTuning.Proofs.Rounding

/-!
# The error of rounded arithmetic

How far a double lies from the number that it stands for.

**One rounding.** The nearest double differs from a number by at most one part in `2 ^ 53`, or by
half of the least positive double (`abs_toRat_ofRatio_sub_le`). Both are added up here, so no case
is made of small numbers.

**Powers of ten.** A word that is multiplied by a power of ten, or divided by one, is rounded three
times. Below the range of a single division there are two more roundings. In all cases the result
is off by at most six parts in `2 ^ 53` and three halves of the least double
(`abs_toRat_scalePowerOfTen?_sub_le`).

**Steps.** The words of doubles count them in their order, so a small difference of the values is a
small difference of the words (`word_le_of_scaled_le`, `le_word_of_le_scaled`).
-/

namespace KernelTuning.Binary64

/-! ## Words and magnitudes -/

/-- The magnitude of the double with a word that has no sign. -/
def scaledOf (w : Nat) : Nat :=
  if w / 2 ^ 52 = 0 then w % 2 ^ 52 else (2 ^ 52 + w % 2 ^ 52) * 2 ^ (w / 2 ^ 52 - 1)

/-- The word without its sign. -/
def absWord (x : Binary64) : Nat := x.word % 2 ^ 63

theorem scaled_eq (x : Binary64) : x.scaled = scaledOf x.absWord := by
  have hexponent : x.exponentField = x.absWord / 2 ^ 52 := by
    unfold exponentField absWord
    omega
  have hfraction : x.fractionField = x.absWord % 2 ^ 52 := by
    unfold fractionField absWord
    omega
  unfold scaled shift significand scaledOf
  rw [hexponent, hfraction]
  split
  · rename_i hzero
    rw [hzero, Nat.zero_sub, pow_zero, Nat.mul_one]
  · rfl

theorem shift_eq (x : Binary64) : x.shift = x.absWord / 2 ^ 52 - 1 := by
  unfold shift exponentField absWord
  omega

theorem absWord_of_lt {x : Binary64} (h : x.word < 2 ^ 63) : x.absWord = x.word :=
  Nat.mod_eq_of_lt h

/-- The next double is one unit in the last place away. -/
theorem scaledOf_succ (w : Nat) : scaledOf (w + 1) = scaledOf w + 2 ^ (w / 2 ^ 52 - 1) := by
  have hlt : w % 2 ^ 52 < 2 ^ 52 := Nat.mod_lt _ (by positivity)
  rcases Nat.lt_or_ge (w % 2 ^ 52 + 1) (2 ^ 52) with hinside | hcarry
  · have hquotient : (w + 1) / 2 ^ 52 = w / 2 ^ 52 := by omega
    have hremainder : (w + 1) % 2 ^ 52 = w % 2 ^ 52 + 1 := by omega
    unfold scaledOf
    rw [hquotient, hremainder]
    split
    · rename_i hzero
      rw [hzero, Nat.zero_sub, Nat.pow_zero]
    · ring
  · have hquotient : (w + 1) / 2 ^ 52 = w / 2 ^ 52 + 1 := by omega
    have hremainder : (w + 1) % 2 ^ 52 = 0 := by omega
    have hlast : w % 2 ^ 52 = 2 ^ 52 - 1 := by omega
    unfold scaledOf
    rw [hquotient, hremainder, hlast, if_neg (Nat.succ_ne_zero _), Nat.add_sub_cancel]
    split
    · rename_i hzero
      rw [hzero, Nat.zero_sub, Nat.pow_zero]
      rfl
    · rename_i hpos
      obtain ⟨e, he⟩ := Nat.exists_eq_succ_of_ne_zero hpos
      rw [he, Nat.succ_eq_add_one, Nat.add_sub_cancel, Nat.pow_succ]
      omega

/-- Doubles are at least as far apart as the units of the smaller one. -/
theorem scaledOf_add_le (w k : Nat) :
    scaledOf w + k * 2 ^ (w / 2 ^ 52 - 1) ≤ scaledOf (w + k) := by
  induction k with
  | zero => rw [Nat.zero_mul, Nat.add_zero, Nat.add_zero]
  | succ k ih =>
    have hunit : 2 ^ (w / 2 ^ 52 - 1) ≤ 2 ^ ((w + k) / 2 ^ 52 - 1) :=
      Nat.pow_le_pow_right (by decide)
        (Nat.sub_le_sub_right (Nat.div_le_div_right (Nat.le_add_right w k)) 1)
    calc scaledOf w + (k + 1) * 2 ^ (w / 2 ^ 52 - 1)
        = scaledOf w + k * 2 ^ (w / 2 ^ 52 - 1) + 2 ^ (w / 2 ^ 52 - 1) := by ring
      _ ≤ scaledOf (w + k) + 2 ^ ((w + k) / 2 ^ 52 - 1) := Nat.add_le_add ih hunit
      _ = scaledOf (w + k + 1) := (scaledOf_succ _).symm

theorem scaledOf_lt (w : Nat) : scaledOf w < 2 ^ 53 * 2 ^ (w / 2 ^ 52 - 1) := by
  have hlt : w % 2 ^ 52 < 2 ^ 52 := Nat.mod_lt _ (by positivity)
  have hpos : 0 < 2 ^ (w / 2 ^ 52 - 1) := by positivity
  unfold scaledOf
  split
  · calc w % 2 ^ 52 < 2 ^ 53 * 1 := by omega
      _ ≤ 2 ^ 53 * 2 ^ (w / 2 ^ 52 - 1) := Nat.mul_le_mul_left _ hpos
  · exact Nat.mul_lt_mul_of_pos_right (by omega) hpos

/-- A double that is at most `k` units above another is at most `k` steps above it. -/
theorem word_le_of_scaled_le {w w' k : Nat}
    (h : scaledOf w' ≤ scaledOf w + k * 2 ^ (w / 2 ^ 52 - 1)) : w' ≤ w + k := by
  by_contra hlt
  obtain ⟨j, rfl⟩ := Nat.exists_eq_add_of_lt (not_le.1 hlt)
  have hstep := scaledOf_add_le w (k + j + 1)
  have hpos : 0 < 2 ^ (w / 2 ^ 52 - 1) := by positivity
  have hmore : (k + 1) * 2 ^ (w / 2 ^ 52 - 1) ≤ (k + j + 1) * 2 ^ (w / 2 ^ 52 - 1) :=
    Nat.mul_le_mul_right _ (by omega)
  rw [Nat.add_mul, Nat.one_mul] at hmore
  rw [show w + (k + j + 1) = w + k + j + 1 by ring] at hstep
  omega

/-- A double that is at most eight units below another is at most sixteen steps below it, since
units are halved at most once on the way. -/
theorem le_word_of_le_scaled {w w' : Nat}
    (h : scaledOf w ≤ scaledOf w' + 8 * 2 ^ (w / 2 ^ 52 - 1)) : w ≤ w' + 16 := by
  rcases Nat.le_total w w' with hle | hge
  · omega
  obtain ⟨k, rfl⟩ := Nat.exists_eq_add_of_le hge
  have hsteps := scaledOf_add_le w' k
  -- Units that grow fourfold on the way would leave more than eight of them in between.
  have hunits : 2 ^ ((w' + k) / 2 ^ 52 - 1) ≤ 2 * 2 ^ (w' / 2 ^ 52 - 1) := by
    by_contra hfar
    have hexponent : w' / 2 ^ 52 - 1 + 2 ≤ (w' + k) / 2 ^ 52 - 1 := by
      by_contra hnear
      apply hfar
      rw [← Nat.pow_succ']
      exact Nat.pow_le_pow_right (by decide) (by omega)
    have hsmall := scaledOf_lt w'
    have hlarge : 2 ^ 52 * 2 ^ ((w' + k) / 2 ^ 52 - 1) ≤ scaledOf (w' + k) := by
      unfold scaledOf
      rw [if_neg (by omega)]
      exact Nat.mul_le_mul_right _ (Nat.le_add_right _ _)
    have hquarter : 4 * 2 ^ (w' / 2 ^ 52 - 1) ≤ 2 ^ ((w' + k) / 2 ^ 52 - 1) := by
      calc 4 * 2 ^ (w' / 2 ^ 52 - 1) = 2 ^ (w' / 2 ^ 52 - 1 + 2) := by rw [Nat.pow_add]; ring
        _ ≤ 2 ^ ((w' + k) / 2 ^ 52 - 1) := Nat.pow_le_pow_right (by decide) hexponent
    omega
  have hpos : 0 < 2 ^ (w' / 2 ^ 52 - 1) := by positivity
  have hbound : k * 2 ^ (w' / 2 ^ 52 - 1) ≤ 16 * 2 ^ (w' / 2 ^ 52 - 1) := by omega
  have hk := Nat.le_of_mul_le_mul_right hbound hpos
  omega

/-! ## One rounding -/

/-- The number that a double stands for, without its sign. -/
def toRat (x : Binary64) : ℚ := x.scaled / unitScale

/-- The relative error of one rounding. -/
def roundoff : ℚ := 1 / 2 ^ 53

/-- Half of the least positive double. -/
def halfUnit : ℚ := 1 / (2 * unitScale)

theorem unitScale_pos_rat : (0 : ℚ) < unitScale := by exact_mod_cast unitScale_pos

/-- The nearest whole number is at most half a divisor off. -/
theorem nearestQuotient_bounds (n : Nat) {d : Nat} (hd : 0 < d) :
    2 * n ≤ 2 * (nearestQuotient n d * d) + d ∧ 2 * (nearestQuotient n d * d) ≤ 2 * n + d := by
  have hdiv : d * (n / d) + n % d = n := Nat.div_add_mod n d
  have hremainder : n % d < d := Nat.mod_lt n hd
  have hlower : n / d * d = d * (n / d) := Nat.mul_comm _ _
  have hupper : (n / d + 1) * d = d * (n / d) + d := by ring
  rw [nearestQuotient_eq]
  split
  · omega
  split
  · omega
  · rcases Nat.mod_two_eq_zero_or_one (n / d) with heven | hodd
    · rw [heven, Nat.add_zero]
      omega
    · rw [hodd]
      omega

theorem abs_nearestQuotient_sub_le (n : Nat) {d : Nat} (hd : 0 < d) :
    |(nearestQuotient n d : ℚ) - n / d| ≤ 1 / 2 := by
  have hd' : (0 : ℚ) < d := by exact_mod_cast hd
  obtain ⟨hlow, hhigh⟩ := nearestQuotient_bounds n hd
  have hlow' : (2 * n : ℚ) ≤ 2 * (nearestQuotient n d * d) + d := by exact_mod_cast hlow
  have hhigh' : (2 * (nearestQuotient n d * d) : ℚ) ≤ 2 * n + d := by exact_mod_cast hhigh
  rw [abs_le]
  constructor
  · rw [le_sub_iff_add_le, ← sub_nonneg]
    have : (nearestQuotient n d : ℚ) - (-(1 / 2) + n / d) =
        (2 * (nearestQuotient n d * d) + d - 2 * n) / (2 * d) := by
      field_simp
      ring
    rw [this]
    exact div_nonneg (by linarith) (by linarith)
  · rw [sub_le_iff_le_add, ← sub_nonneg]
    have : (1 / 2 + n / d : ℚ) - nearestQuotient n d =
        (2 * n + d - 2 * (nearestQuotient n d * d)) / (2 * d) := by
      field_simp
      ring
    rw [this]
    exact div_nonneg (by linarith) (by linarith)

/-- The word of a rounded quotient has the rounded significand at its place, also where this
carries into the next binade. -/
theorem scaledOf_roundedWord (num den : Nat) :
    scaledOf (roundedWord num den) =
      nearestQuotient (num * unitScale) (den * 2 ^ roundedPlaces (num * unitScale / den)) *
        2 ^ roundedPlaces (num * unitScale / den) := by
  unfold roundedWord
  have hbelow := div_roundedPlaces_lt (num * unitScale / den)
  rw [Nat.div_div_eq_div_mul] at hbelow
  have hnearest := nearestQuotient_le (num * unitScale)
    (den * 2 ^ roundedPlaces (num * unitScale / den))
  have habove : 0 < roundedPlaces (num * unitScale / den) → 2 ^ 52 ≤
      nearestQuotient (num * unitScale) (den * 2 ^ roundedPlaces (num * unitScale / den)) := by
    intro hpos
    have hle := le_div_roundedPlaces hpos
    rw [Nat.div_div_eq_div_mul] at hle
    exact hle.trans (div_le_nearestQuotient _ _)
  generalize nearestQuotient (num * unitScale)
    (den * 2 ^ roundedPlaces (num * unitScale / den)) = m at hnearest habove ⊢
  generalize roundedPlaces (num * unitScale / den) = p at habove ⊢
  have hle : m ≤ 2 ^ 53 := by omega
  unfold scaledOf
  -- Below the hidden bit, with it, and with a carry, after which the fraction is zero.
  rcases Nat.lt_or_ge m (2 ^ 52) with hsmall | hlarge
  · obtain rfl : p = 0 := by omega
    rw [if_pos (by omega), Nat.pow_zero]
    omega
  rcases Nat.lt_or_ge m (2 ^ 53) with hplain | hcarry
  · rw [if_neg (by omega), show (p * 2 ^ 52 + m) / 2 ^ 52 - 1 = p by omega,
      show 2 ^ 52 + (p * 2 ^ 52 + m) % 2 ^ 52 = m by omega]
  · obtain rfl : m = 2 ^ 53 := by omega
    rw [if_neg (by omega), show (p * 2 ^ 52 + 2 ^ 53) / 2 ^ 52 - 1 = p + 1 by omega,
      show 2 ^ 52 + (p * 2 ^ 52 + 2 ^ 53) % 2 ^ 52 = 2 ^ 52 by omega, Nat.pow_succ]
    omega

/-- The unit of a rounded number is at most its part that a rounding can lose, or the least one. -/
theorem pow_roundedPlaces_le (n : Nat) {d : Nat} (hd : 0 < d) :
    (2 ^ roundedPlaces (n / d) : ℕ) / 2 ≤ roundoff * (n / d : ℚ) + 1 / 2 := by
  have hd' : (0 : ℚ) < d := by exact_mod_cast hd
  have hquotient : (0 : ℚ) ≤ n / d := by positivity
  unfold roundoff
  rcases Nat.eq_zero_or_pos (roundedPlaces (n / d)) with hzero | hpos
  · rw [hzero]
    norm_num
    exact hquotient
  · have hle := (Nat.le_div_iff_mul_le (by positivity)).1 (le_div_roundedPlaces hpos)
    have hfloor : ((n / d : ℕ) : ℚ) ≤ n / d := Nat.cast_div_le
    have hcast : (2 ^ 52 : ℚ) * (2 ^ roundedPlaces (n / d) : ℕ) ≤ (n / d : ℕ) := by
      exact_mod_cast hle
    norm_num at hcast ⊢
    linarith

/-- The error of a rounded significand `m`, in a number of units `u / U` that stand for it. -/
theorem abs_mul_div_sub_le {m u U num den : ℚ} (hu : 0 < u) (hU : 0 < U) (hden : 0 < den)
    (herror : |m - num * U / (den * u)| ≤ 1 / 2)
    (hplace : u / 2 ≤ roundoff * (num * U / den) + 1 / 2) :
    |m * u / U - num / den| ≤ roundoff * (num / den) + 1 / (2 * U) := by
  have hsplit : m * u / U - num / den = (m - num * U / (den * u)) * (u / U) := by field_simp
  rw [hsplit, abs_mul, abs_of_pos (div_pos hu hU)]
  calc |m - num * U / (den * u)| * (u / U)
      ≤ 1 / 2 * (u / U) := by gcongr
    _ = u / 2 / U := by ring
    _ ≤ (roundoff * (num * U / den) + 1 / 2) / U := by gcongr
    _ = roundoff * (num / den) + 1 / (2 * U) := by field_simp

/-- A finite quotient has the rounded significand. -/
theorem scaled_ofRatio {num den : Nat} (hfinite : (ofRatio num den).isFinite = true) :
    (ofRatio num den).scaled =
      nearestQuotient (num * unitScale) (den * 2 ^ roundedPlaces (num * unitScale / den)) *
        2 ^ roundedPlaces (num * unitScale / den) := by
  have hword := (isFinite_iff_word_lt (Nat.lt_of_le_of_lt (word_ofRatio_le num den)
    (by decide))).1 hfinite
  have hrounded : (ofRatio num den).word = roundedWord num den := by
    rw [word_ofRatio] at hword ⊢
    omega
  rw [scaled_eq, absWord_of_lt (by omega), hrounded, scaledOf_roundedWord]

/-- **The error of one rounding.** -/
theorem abs_toRat_ofRatio_sub_le (num : Nat) {den : Nat} (hden : 0 < den)
    (hfinite : (ofRatio num den).isFinite = true) :
    |(ofRatio num den).toRat - num / den| ≤ roundoff * (num / den) + halfUnit := by
  have hscaled := scaled_ofRatio hfinite
  have hden' : (0 : ℚ) < den := by exact_mod_cast hden
  have hplace := pow_roundedPlaces_le (num * unitScale) hden
  have herror := abs_nearestQuotient_sub_le (num * unitScale)
    (Nat.mul_pos hden (Nat.two_pow_pos (roundedPlaces (num * unitScale / den))))
  have hunit := unitScale_pos_rat
  unfold toRat halfUnit
  rw [hscaled]
  generalize nearestQuotient (num * unitScale)
    (den * 2 ^ roundedPlaces (num * unitScale / den)) = m at herror ⊢
  have hpow : 0 < 2 ^ roundedPlaces (num * unitScale / den) := Nat.two_pow_pos _
  generalize 2 ^ roundedPlaces (num * unitScale / den) = u at hplace herror hpow ⊢
  generalize unitScale = U at hplace herror hunit ⊢
  have hu : (0 : ℚ) < u := by exact_mod_cast hpow
  push_cast at herror hplace ⊢
  exact abs_mul_div_sub_le hu hunit hden' herror hplace

/-! ## Products and quotients -/

theorem abs_toRat_mul_sub_le {x y : Binary64} (hfinite : (x.mul y).isFinite = true) :
    |(x.mul y).toRat - x.toRat * y.toRat| ≤ roundoff * (x.toRat * y.toRat) + halfUnit := by
  have h := abs_toRat_ofRatio_sub_le (x.scaled * y.scaled)
    (Nat.mul_pos unitScale_pos unitScale_pos) hfinite
  have hquotient : ((x.scaled * y.scaled : ℕ) : ℚ) / (unitScale * unitScale : ℕ) =
      x.toRat * y.toRat := by
    unfold toRat
    push_cast
    rw [div_mul_div_comm]
  rwa [hquotient] at h

theorem abs_toRat_div_sub_le {x y : Binary64} (hy : 0 < y.scaled)
    (hfinite : (x.div y).isFinite = true) :
    |(x.div y).toRat - x.toRat / y.toRat| ≤ roundoff * (x.toRat / y.toRat) + halfUnit := by
  have h := abs_toRat_ofRatio_sub_le x.scaled hy hfinite
  have hquotient : (x.scaled : ℚ) / y.scaled = x.toRat / y.toRat := by
    unfold toRat
    rw [div_div_div_cancel_right₀ unitScale_pos_rat.ne']
  rwa [hquotient] at h

/-- Half of the least double is nothing beside one. -/
theorem halfUnit_le : halfUnit ≤ roundoff / 100 := by
  have hscale : 2 ^ 60 ≤ unitScale := by
    obtain ⟨n, hn, hscale⟩ : ∃ n, n = 1074 ∧ unitScale = 2 ^ n := ⟨1074, rfl, rfl⟩
    rw [hscale]
    exact Nat.pow_le_pow_right (by decide) (by omega)
  unfold halfUnit roundoff
  generalize unitScale = U at hscale ⊢
  have hscale' : (1152921504606846976 : ℚ) ≤ U := by exact_mod_cast hscale
  rw [div_div, div_le_div_iff₀ (by linarith) (by norm_num)]
  norm_num
  linarith

/-- A positive whole number is rounded relatively. -/
theorem abs_toRat_ofNat_sub_le {n : Nat} (hn : 1 ≤ n) (hfinite : (ofNat n).isFinite = true) :
    |(ofNat n).toRat - n| ≤ 101 / 100 * roundoff * n := by
  have h := abs_toRat_ofRatio_sub_le n Nat.one_pos hfinite
  have hn' : (1 : ℚ) ≤ n := by exact_mod_cast hn
  have hroundoff : 0 < roundoff := by unfold roundoff; positivity
  rw [Nat.cast_one, div_one] at h
  refine h.trans ?_
  have hhalf := halfUnit_le
  nlinarith

/-! ## Errors that add up -/

section

variable {a b a' b' s t : ℚ}

theorem abs_mul_sub_mul_le (ha : 0 ≤ a) (hb : 0 ≤ b) (ha' : |a' - a| ≤ s * a)
    (hb' : |b' - b| ≤ t * b) : |a' * b' - a * b| ≤ (s + t + s * t) * (a * b) := by
  have hsplit : a' * b' - a * b = (a' - a) * b + a * (b' - b) + (a' - a) * (b' - b) := by ring
  have hproduct : |(a' - a) * (b' - b)| ≤ s * a * (t * b) := by
    rw [abs_mul]
    exact mul_le_mul ha' hb' (abs_nonneg _) ((abs_nonneg _).trans ha')
  have hfirst : |(a' - a) * b| ≤ s * a * b := by
    rw [abs_mul, abs_of_nonneg hb]
    gcongr
  have hsecond : |a * (b' - b)| ≤ a * (t * b) := by
    rw [abs_mul, abs_of_nonneg ha]
    gcongr
  calc |a' * b' - a * b|
      ≤ |(a' - a) * b| + |a * (b' - b)| + |(a' - a) * (b' - b)| := by
        rw [hsplit]
        exact (abs_add_le _ _).trans (by gcongr; exact abs_add_le _ _)
    _ ≤ s * a * b + a * (t * b) + s * a * (t * b) := by gcongr
    _ = (s + t + s * t) * (a * b) := by ring

/-- The quotient of two numbers with errors, where the first one has an absolute error too. -/
theorem abs_div_sub_div_le {h : ℚ} (ha : 0 ≤ a) (hb : 0 < b) (ht : t < 1)
    (ha' : |a' - a| ≤ s * a + h) (hb' : |b' - b| ≤ t * b) :
    |a' / b' - a / b| ≤ ((s + t) * (a / b) + h / b) / (1 - t) := by
  have hlow : (1 - t) * b ≤ b' := by
    have := (abs_le.1 hb').1
    linarith
  have hpos : 0 < (1 - t) * b := mul_pos (by linarith) hb
  have hb'pos : 0 < b' := lt_of_lt_of_le hpos hlow
  have hsplit : a' / b' - a / b = ((a' - a) * b - a * (b' - b)) / (b * b') := by
    field_simp
    ring
  have hnum : |(a' - a) * b - a * (b' - b)| ≤ (s * a + h) * b + a * (t * b) := by
    refine (abs_sub _ _).trans ?_
    rw [abs_mul, abs_mul, abs_of_pos hb, abs_of_nonneg ha]
    gcongr
  have hnum_nonneg : 0 ≤ (s * a + h) * b + a * (t * b) := (abs_nonneg _).trans hnum
  rw [hsplit, abs_div, abs_of_pos (mul_pos hb hb'pos)]
  calc |(a' - a) * b - a * (b' - b)| / (b * b')
      ≤ ((s * a + h) * b + a * (t * b)) / (b * ((1 - t) * b)) := by gcongr
    _ = ((s + t) * (a / b) + h / b) / (1 - t) := by
      have : (1 - t) ≠ 0 := by linarith
      field_simp
      ring

/-- A rounding of a number that has errors already. -/
theorem abs_round_sub_le {r q q' k h : ℚ} (hr : |r - q'| ≤ roundoff * q' + halfUnit)
    (hq : |q' - q| ≤ k * q + h) :
    |r - q| ≤ (k + roundoff * (1 + k)) * q + (h * (1 + roundoff) + halfUnit) := by
  have hroundoff : 0 < roundoff := by
    unfold roundoff
    positivity
  have hle : q' ≤ (1 + k) * q + h := by
    have := (abs_le.1 hq).2
    linarith
  calc |r - q| ≤ |r - q'| + |q' - q| := abs_sub_le _ _ _
    _ ≤ roundoff * ((1 + k) * q + h) + halfUnit + (k * q + h) := by
      gcongr
      exact hr.trans (by gcongr)
    _ = (k + roundoff * (1 + k)) * q + (h * (1 + roundoff) + halfUnit) := by ring

end

/-! ## Powers of ten -/

/-- The bound of all roundings of a scaled word. -/
def Within (y : Binary64) (q : ℚ) : Prop := |y.toRat - q| ≤ 6 * roundoff * q + 3 * halfUnit

theorem isFinite_div_ofNat {x : Binary64} {n k : Nat} (hx : x.scaled < 2 ^ k) (hn : 1 ≤ n)
    (hk : 53 ≤ k) (hk' : k < 2098) : (x.div (ofNat n)).isFinite = true :=
  isFinite_ofRatio (quotient_ofNat_lt hx hn) hk hk'

theorem isFinite_ofNat {n m : Nat} (hn : n ≤ 10 ^ m) (hm : m < 309) :
    (ofNat n).isFinite = true := by
  obtain ⟨k, hk, hlargest⟩ : ∃ k, k = 308 ∧ (ofNat (10 ^ k)).word < 2047 * 2 ^ 52 :=
    ⟨308, rfl, by decide +kernel⟩
  have hpow : n ≤ 10 ^ k := hn.trans (Nat.pow_le_pow_right (by decide) (by omega))
  have hle : (ofNat n).word ≤ (ofNat (10 ^ k)).word := word_ofRatio_mono hpow
  exact (isFinite_iff_word_lt (word_ofNat_lt _)).2 (Nat.lt_of_le_of_lt hle hlargest)

theorem isFinite_ofNat_of_lt {n : Nat} (hn : n < 2 ^ 64) : (ofNat n).isFinite = true := by
  have hpow : n ≤ 10 ^ 20 := by omega
  exact isFinite_ofNat hpow (by decide)

theorem halfUnit_pos : 0 < halfUnit := by
  have := unitScale_pos_rat
  unfold halfUnit
  positivity

/-- The relative error of a whole number. -/
def wholeError : ℚ := 101 / 100 * roundoff

section

variable {s n m : Nat}

theorem abs_toRat_ofNat_pow_sub_le (hn : n < 309) :
    |(ofNat (10 ^ n)).toRat - 10 ^ n| ≤ wholeError * 10 ^ n := by
  have h := abs_toRat_ofNat_sub_le (Nat.one_le_pow n 10 (by decide)) (isFinite_ofNat le_rfl hn)
  push_cast at h
  exact h

theorem scaled_ofNat_pos (hs : 1 ≤ s) : 0 < (ofNat s).scaled :=
  Nat.lt_of_lt_of_le unitScale_pos (unitScale_le_scaled_ofNat hs)

theorem within_mul_pow (hs : 1 ≤ s) (hs' : s < 2 ^ 64) (hn : n < 309)
    (hfinite : ((ofNat s).mul (ofNat (10 ^ n))).isFinite = true) :
    Within ((ofNat s).mul (ofNat (10 ^ n))) (s * 10 ^ n) := by
  have hproduct := abs_mul_sub_mul_le (by positivity) (by positivity)
    (abs_toRat_ofNat_sub_le hs (isFinite_ofNat_of_lt hs')) (abs_toRat_ofNat_pow_sub_le hn)
  rw [← add_zero (_ * (_ * _ : ℚ))] at hproduct
  refine (abs_round_sub_le (abs_toRat_mul_sub_le hfinite) hproduct).trans ?_
  have hhalf := halfUnit_pos
  gcongr
  · unfold wholeError roundoff
    norm_num
  · linarith

theorem isFinite_div_pow (hs' : s < 2 ^ 64) (n : Nat) :
    ((ofNat s).div (ofNat (10 ^ n))).isFinite = true :=
  isFinite_div_ofNat (scaled_ofNat_lt hs' (by decide)) (Nat.one_le_pow n 10 (by decide))
    (by decide) (by decide)

theorem isFinite_div_div_pow (hs' : s < 2 ^ 64) (n m : Nat) :
    (((ofNat s).div (ofNat (10 ^ n))).div (ofNat (10 ^ m))).isFinite = true :=
  isFinite_div_ofNat (scaled_div_ofNat_lt (scaled_ofNat_lt hs' (by decide))
    (Nat.one_le_pow n 10 (by decide)) (by decide) (by decide))
    (Nat.one_le_pow m 10 (by decide)) (by decide) (by decide)

theorem abs_toRat_div_pow_sub_le (hs : 1 ≤ s) (hs' : s < 2 ^ 64) (hn : n < 309) :
    |((ofNat s).div (ofNat (10 ^ n))).toRat - s / 10 ^ n| ≤
      61 / 20 * roundoff * (s / 10 ^ n) + halfUnit := by
  have hstart := abs_toRat_ofNat_sub_le hs (isFinite_ofNat_of_lt hs')
  rw [← add_zero (_ * (s : ℚ))] at hstart
  have hquotient := abs_div_sub_div_le (by positivity) (by positivity)
    (by unfold wholeError roundoff; norm_num) hstart (abs_toRat_ofNat_pow_sub_le hn)
  rw [zero_div, add_zero, mul_div_right_comm, ← add_zero (_ * (_ / _ : ℚ))] at hquotient
  have hpower := scaled_ofNat_pos (Nat.one_le_pow n 10 (by decide))
  refine (abs_round_sub_le (abs_toRat_div_sub_le hpower (isFinite_div_pow hs' n))
    hquotient).trans ?_
  gcongr
  · unfold wholeError roundoff
    norm_num
  · linarith

/-- Division in two steps. The first one may be off by half of the least double, which the second
one divides too. -/
theorem within_div_div (hs : 1 ≤ s) (hs' : s < 2 ^ 64) (hn : n < 309) (hm : m < 309) :
    Within (((ofNat s).div (ofNat (10 ^ n))).div (ofNat (10 ^ m))) (s / 10 ^ (n + m)) := by
  have hhalf := halfUnit_pos
  -- The exact quotient of the two operands of the second step, before it is rounded.
  have hquotient : |((ofNat s).div (ofNat (10 ^ n))).toRat / (ofNat (10 ^ m)).toRat -
      s / 10 ^ n / 10 ^ m| ≤ 41 / 10 * roundoff * (s / 10 ^ n / 10 ^ m) + 101 / 100 * halfUnit := by
    refine (abs_div_sub_div_le (by positivity) (by positivity)
      (by unfold wholeError roundoff; norm_num) (abs_toRat_div_pow_sub_le hs hs' hn)
      (abs_toRat_ofNat_pow_sub_le hm)).trans ?_
    have hrelative : 61 / 20 * roundoff + wholeError ≤ 41 / 10 * roundoff * (1 - wholeError) := by
      unfold wholeError roundoff
      norm_num
    have habsolute : halfUnit / 10 ^ m ≤ 101 / 100 * halfUnit * (1 - wholeError) := by
      refine (div_le_self hhalf.le (one_le_pow₀ (by norm_num))).trans ?_
      unfold wholeError roundoff
      linarith
    rw [div_le_iff₀ (by unfold wholeError roundoff; norm_num)]
    calc (61 / 20 * roundoff + wholeError) * (s / 10 ^ n / 10 ^ m : ℚ) + halfUnit / 10 ^ m
        ≤ 41 / 10 * roundoff * (1 - wholeError) * (s / 10 ^ n / 10 ^ m : ℚ) +
          101 / 100 * halfUnit * (1 - wholeError) :=
          add_le_add (mul_le_mul_of_nonneg_right hrelative (by positivity)) habsolute
      _ = (41 / 10 * roundoff * (s / 10 ^ n / 10 ^ m) + 101 / 100 * halfUnit) *
          (1 - wholeError) := by ring
  refine le_trans ?_ (?_ : (41 / 10 * roundoff + roundoff * (1 + 41 / 10 * roundoff)) *
    ((s : ℚ) / 10 ^ (n + m)) + (101 / 100 * halfUnit * (1 + roundoff) + halfUnit) ≤ _)
  · rw [pow_add, ← div_div]
    exact abs_round_sub_le (abs_toRat_div_sub_le
      (scaled_ofNat_pos (Nat.one_le_pow m 10 (by decide))) (isFinite_div_div_pow hs' n m)) hquotient
  · gcongr
    · unfold roundoff
      norm_num
    · unfold roundoff
      linarith

theorem within_div (hs : 1 ≤ s) (hs' : s < 2 ^ 64) (hn : n < 309) :
    Within ((ofNat s).div (ofNat (10 ^ n))) (s / 10 ^ n) := by
  have hhalf := halfUnit_pos
  have hrelative : 61 / 20 * roundoff ≤ 6 * roundoff := by
    unfold roundoff
    norm_num
  exact (abs_toRat_div_pow_sub_le hs hs' hn).trans
    (add_le_add (mul_le_mul_of_nonneg_right hrelative (by positivity)) (by linarith))

theorem word_lt_of_isFinite_div {x y : Binary64} (h : (x.div y).isFinite = true) :
    (x.div y).word < 2047 * 2 ^ 52 := by
  have hle : (x.div y).word ≤ 2047 * 2 ^ 52 := word_ofRatio_le _ _
  exact (isFinite_iff_word_lt (by omega)).1 h

/-- **The error of a scaled word.** -/
theorem within_scalePowerOfTen? {e : Int} {y : Binary64} (hs : 1 ≤ s) (hs' : s < 2 ^ 64)
    (he : -616 ≤ e) (h : scalePowerOfTen? s e = some y) :
    y.word < 2047 * 2 ^ 52 ∧ Within y (s * (10 : ℚ) ^ e) := by
  unfold scalePowerOfTen? at h
  split at h
  · rename_i hnonneg
    obtain ⟨n, rfl⟩ := Int.eq_ofNat_of_zero_le hnonneg
    rw [if_neg (by omega : s ≠ 0)] at h
    split at h
    · cases h
    rename_i hn
    simp only [Int.toNat_natCast] at h
    split at h
    · rename_i hfinite
      obtain rfl := Option.some.inj h
      rw [zpow_natCast]
      exact ⟨(isFinite_iff_word_lt (word_mul_lt _ _)).1 hfinite,
        within_mul_pow hs hs' (by omega) hfinite⟩
    · cases h
  · rename_i hneg
    obtain ⟨n, hn⟩ := Int.eq_ofNat_of_zero_le (by omega : 0 ≤ -e)
    obtain rfl : e = -n := by omega
    obtain rfl := Option.some.inj h
    rw [zpow_neg, zpow_natCast, ← div_eq_mul_inv, neg_neg, Int.toNat_natCast,
      scalePowerOfTen?.shrink]
    split
    · exact ⟨word_lt_of_isFinite_div (isFinite_div_pow hs' n), within_div hs hs' (by omega)⟩
    -- The power is beyond the largest double, so the division is made in two steps.
    have hnonzero : ofNat s ≠ zero := by
      intro hzero
      have hpos := scaled_ofNat_pos hs
      rw [hzero] at hpos
      cases hpos
    obtain ⟨m, rfl⟩ := Nat.exists_eq_add_of_le (by omega : 308 ≤ n)
    rw [if_neg hnonzero, Nat.add_sub_cancel_left, scalePowerOfTen?.shrink, if_pos (by omega)]
    exact ⟨word_lt_of_isFinite_div (isFinite_div_div_pow hs' 308 m),
      within_div_div hs hs' (by omega) (by omega)⟩

end

end KernelTuning.Binary64
