import KernelTuning.Proofs.JsonLiterals
import KernelTuning.Proofs.Rounding

/-!
# Texts of doubles

The text of a finite double is a number that reads back as some double. The reader keeps the
leading digits in a word and applies a power of ten with roundings on the way, so it need not give
the same double, and it refuses what comes out as infinity; the point is that this happens to no
text that was written.

**Literals.** `Decimal.literal` is the literal behind the layouts of `toFraction`. Its digits and
its exponent denote the decimal itself (`magnitude_literal`).

**Bounds.** The shortest decimal lies in the rounding interval of its double. Unless the double is
the largest one, the decimal is within `safeBound`, where no rounding leads to infinity; the
largest double is settled by evaluation.

**Theorem (`bytesOf_toFraction`, `isSome_double?_literal`).** The text of a finite double is that of
its literal, and the literal has a double.
-/

namespace KernelTuning

open Json

/-! ## Digits that are kept -/

namespace Json.NumberLiteral

theorem value_append_singleton (ds : List Nat) (d : Nat) :
    value (ds ++ [d]) = value ds * 10 + d := by
  unfold value
  rw [List.foldl_append]
  rfl

theorem value_append (ds es : List Nat) :
    value (ds ++ es) = value ds * 10 ^ es.length + value es := by
  induction es using List.reverseRecOn with
  | nil => simp [value]
  | append_singleton es e ih =>
    rw [← List.append_assoc, value_append_singleton, ih, value_append_singleton,
      List.length_append, List.length_singleton, pow_succ]
    ring

theorem value_replicate_zero (n : Nat) : value (List.replicate n 0) = 0 := by
  induction n with
  | zero => rfl
  | succ n ih => rw [List.replicate_succ', value_append_singleton, ih]

theorem value_cons (d : Nat) (ds : List Nat) :
    value (d :: ds) = d * 10 ^ ds.length + value ds := by
  simpa [value] using value_append [d] ds

theorem value_lt {ds : List Nat} (h : ∀ d ∈ ds, d < 10) : value ds < 10 ^ ds.length := by
  induction ds using List.reverseRecOn with
  | nil => simp [value]
  | append_singleton ds d ih =>
    have ih := ih fun d' h' => h d' (by simp [h'])
    have hd := h d (by simp)
    rw [value_append_singleton, List.length_append, List.length_singleton, pow_succ]
    omega

/-- The digits that do not fit any more are dropped. -/
theorem extend_le (s : Nat) (ds : List Nat) :
    (extend s ds).2 ≤ ds.length ∧
      (extend s ds).1 * 10 ^ (ds.length - (extend s ds).2) ≤ s * 10 ^ ds.length + value ds := by
  induction ds generalizing s with
  | nil => simp [extend, value]
  | cons d ds ih =>
    unfold extend
    split
    · obtain ⟨hle, hbound⟩ := ih (s * 10 + d)
      refine ⟨by simp only [List.length_cons]; omega, ?_⟩
      simp only [List.length_cons, Nat.add_sub_add_right, value_cons]
      calc (extend (s * 10 + d) ds).1 * 10 ^ (ds.length - (extend (s * 10 + d) ds).2)
          ≤ (s * 10 + d) * 10 ^ ds.length + value ds := hbound
        _ = s * 10 ^ (ds.length + 1) + (d * 10 ^ ds.length + value ds) := by ring
    · exact ⟨Nat.zero_le _, Nat.le_add_right _ _⟩

theorem extend_lt {s : Nat} (ds : List Nat) (h : s < 2 ^ 64) : (extend s ds).1 < 2 ^ 64 := by
  induction ds generalizing s with
  | nil => exact h
  | cons d ds ih =>
    unfold extend
    split
    · rename_i hfits
      exact ih hfits
    · exact h

/-- Digits that fit together are all kept. -/
theorem extend_of_fits {s : Nat} {ds : List Nat} (h : s * 10 ^ ds.length + value ds < 2 ^ 64) :
    extend s ds = (s * 10 ^ ds.length + value ds, ds.length) := by
  induction ds generalizing s with
  | nil => simp [extend, value]
  | cons d ds ih =>
    have hsum : s * 10 ^ (ds.length + 1) + value (d :: ds) =
        (s * 10 + d) * 10 ^ ds.length + value ds := by
      rw [value_cons]
      ring
    rw [List.length_cons, hsum] at h
    have hfits : s * 10 + d < 2 ^ 64 :=
      lt_of_le_of_lt (le_trans (Nat.le_mul_of_pos_right _ (by positivity))
        (Nat.le_add_right _ _)) h
    unfold extend
    rw [if_pos hfits, ih h, List.length_cons, hsum]

/-! ## The number that a literal denotes -/

/-- The exponent of a literal. -/
def scale (n : NumberLiteral) : Int :=
  match n.exponent with
  | none => 0
  | some (minus, digits) => if minus then -(value digits : Int) else value digits

/-- The number that a literal without its sign denotes. -/
def magnitude (n : NumberLiteral) : ℚ :=
  value (n.whole ++ n.fraction) * (10 : ℚ) ^ (n.scale - n.fraction.length)

end Json.NumberLiteral

/-! ## Literals within the bound -/

open Binary64 (safeBound)

theorem Binary64.isSome_scalePowerOfTen? {s : Nat} {e : Int} (hs : s < 2 ^ 64)
    (h : (s : ℚ) * (10 : ℚ) ^ e ≤ safeBound) : (scalePowerOfTen? s e).isSome = true := by
  unfold scalePowerOfTen?
  by_cases he : 0 ≤ e
  · obtain ⟨n, rfl⟩ := Int.eq_ofNat_of_zero_le he
    have hnat : s * 10 ^ n ≤ safeBound := by
      rw [zpow_natCast] at h
      exact_mod_cast h
    rw [if_pos he]
    by_cases hzero : s = 0
    · rw [if_pos hzero]
      rfl
    · have hn : n < 309 := by
        have hmul : 10 ^ n ≤ s * 10 ^ n := Nat.le_mul_of_pos_left _ (Nat.pos_of_ne_zero hzero)
        exact lt_of_pow_le_safeBound (hmul.trans hnat) safeBound_between.2
      rw [if_neg hzero, if_neg (by omega)]
      simp only [Int.toNat_natCast]
      rw [if_pos (isFinite_mul_pow hs (by omega) hnat)]
      rfl
  · rw [if_neg he]
    rfl

namespace Json.NumberLiteral

/-- **A literal within the bound has a double.** -/
theorem isSome_double? {n : NumberLiteral} (hwhole : value n.whole < 2 ^ 64)
    (hscale : n.scale < 2 ^ 31) (hbound : n.magnitude ≤ safeBound) :
    n.double?.isSome = true := by
  have hext : extend 0 n.whole = (value n.whole, n.whole.length) := by
    simpa using @extend_of_fits 0 n.whole (by simpa using hwhole)
  have hlt := extend_lt n.fraction hwhole
  obtain ⟨hle, hkept⟩ := extend_le (value n.whole) n.fraction
  rw [← value_append] at hkept
  rcases hfraction : extend (value n.whole) n.fraction with ⟨s, places⟩
  rw [hfraction] at hlt hle hkept
  simp only at hlt hle hkept
  -- The digits that fit in a word are at most the number, so the bound holds of them as well.
  have hread : (s : ℚ) * (10 : ℚ) ^ (n.scale - places) ≤ safeBound := by
    refine le_trans ?_ hbound
    have hsplit : n.scale - (places : ℤ) =
        ((n.fraction.length - places : ℕ) : ℤ) + (n.scale - n.fraction.length) := by
      rw [Nat.cast_sub hle]
      ring
    unfold magnitude
    rw [hsplit, zpow_add₀ (by norm_num), zpow_natCast, ← mul_assoc]
    exact mul_le_mul_of_nonneg_right (by exact_mod_cast hkept) (by positivity)
  unfold scale at hscale hread
  unfold double?
  simp only [hext, hfraction, Nat.sub_self, Option.isSome_map]
  rcases hexponent : n.exponent with _ | ⟨minus, digits⟩
  · exact Binary64.isSome_scalePowerOfTen? hlt (by simpa [hexponent] using hread)
  · simp only [hexponent] at hscale hread ⊢
    rcases minus with _ | _
    · rw [if_neg (by simpa using hscale)]
      refine Binary64.isSome_scalePowerOfTen? hlt ?_
      rw [show ((0 : ℕ) : ℤ) - places + (value digits : ℤ) = value digits - places by omega]
      simpa using hread
    · -- A huge negative exponent gives zero, which is no error.
      split
      · simp
      · refine Binary64.isSome_scalePowerOfTen? hlt ?_
        rw [show ((0 : ℕ) : ℤ) - places - (value digits : ℤ) = -value digits - places by omega]
        simpa using hread

end Json.NumberLiteral

/-! ## The literal of a decimal -/

namespace Decimal

/-- The number that a decimal denotes. -/
def magnitude (d : Decimal) : ℚ := d.coefficient * (10 : ℚ) ^ d.exponent

/-- Zero is written with a single digit. -/
def ZeroIsPlain (d : Decimal) : Prop := d.coefficient = 0 → d.exponent = 0

/-- The digits of the coefficient. -/
def digitList (d : Decimal) : List Nat := digitsOf (Nat.toDigits 10 d.coefficient)

/-- The literal of a decimal: its digits around the point if this is near, and otherwise one digit
before the point and an exponent. -/
def literal (minus : Bool) (d : Decimal) : NumberLiteral :=
  if -5 < d.point ∧ d.point ≤ 16 then
    if 0 ≤ d.exponent then ⟨minus, d.digitList ++ List.replicate d.exponent.toNat 0, [0], none⟩
    else if 0 < d.point then
      ⟨minus, d.digitList.take d.point.toNat, d.digitList.drop d.point.toNat, none⟩
    else ⟨minus, [0], List.replicate (-d.point).toNat 0 ++ d.digitList, none⟩
  else
    ⟨minus, d.digitList.take 1, d.digitList.drop 1,
      some (decide (d.point ≤ 0), digitsOf (Nat.toDigits 10 (d.point - 1).natAbs))⟩

theorem digitList_lt (d : Decimal) : ∀ m ∈ d.digitList, m < 10 :=
  lt_ten_of_mem_digitsOf (NumberLiteral.isDigit_toDigits d.coefficient)

theorem digitList_ne_nil (d : Decimal) : d.digitList ≠ [] := by
  simp [digitList, digitsOf]

theorem length_digitList_pos (d : Decimal) : 0 < d.digitList.length :=
  List.length_pos_iff.2 d.digitList_ne_nil

theorem value_digitList (d : Decimal) : NumberLiteral.value d.digitList = d.coefficient :=
  NumberLiteral.value_toDigits d.coefficient

theorem toList_digits (d : Decimal) : d.digits.toList = Nat.toDigits 10 d.coefficient := by
  unfold digits
  rw [Nat.toString_eq_ofList_toDigits, String.toList_ofList]

theorem point_eq (d : Decimal) : d.point = d.digitList.length + d.exponent := by
  unfold point digitList digitsOf
  rw [← String.length_toList, toList_digits, List.length_map]

theorem head?_digitList {d : Decimal} (h : d.coefficient ≠ 0) : d.digitList.head? ≠ some 0 := by
  obtain ⟨c, hc, hzero⟩ := NumberLiteral.head?_toDigits h
  rw [digitList, digitsOf, List.head?_map, hc]
  simpa using hzero

theorem wellFormed_literal (minus : Bool) {d : Decimal} (h : d.ZeroIsPlain) :
    (d.literal minus).WellFormed := by
  have hdigits := d.digitList_lt
  have hlength := d.length_digitList_pos
  have hpoint := d.point_eq
  have hexponent := lt_ten_of_mem_digitsOf (NumberLiteral.isDigit_toDigits (d.point - 1).natAbs)
  unfold literal
  -- Four layouts: zeros after the digits, a point inside them, zeros before them, an exponent.
  split
  · split
    · refine ⟨?_, by simp [digitList_ne_nil], ?_, by simp, by simp⟩
      · simp only [List.mem_append, List.mem_replicate]
        rintro m (hm | ⟨-, rfl⟩)
        · exact hdigits m hm
        · decide
      · intro hlong
        -- Zero is written as one digit, and any other coefficient starts with a digit above zero.
        by_cases hzero : d.coefficient = 0
        · simp [digitList, digitsOf, hzero, h hzero] at hlong
        · simpa [List.head?_append, digitList_ne_nil] using head?_digitList hzero
    split
    · rename_i hexp hpos
      refine ⟨fun m hm => hdigits m (List.mem_of_mem_take hm), ?_, ?_,
        fun m hm => hdigits m (List.mem_of_mem_drop hm), by simp⟩
      · rw [ne_eq, List.take_eq_nil_iff]
        rintro (hnil | hnil)
        · omega
        · exact d.digitList_ne_nil hnil
      · intro _
        have hzero : d.coefficient ≠ 0 := fun hzero => by
          have := h hzero
          omega
        rw [List.head?_take, if_neg (by omega)]
        exact head?_digitList hzero
    · refine ⟨by simp, by simp, by simp, ?_, by simp⟩
      simp only [List.mem_append, List.mem_replicate]
      rintro m (⟨-, rfl⟩ | hm)
      · decide
      · exact hdigits m hm
  · refine ⟨fun m hm => hdigits m (List.mem_of_mem_take hm), ?_, ?_,
      fun m hm => hdigits m (List.mem_of_mem_drop hm), ?_⟩
    · simp [List.take_eq_nil_iff, digitList_ne_nil]
    · intro hlong
      simp only [List.length_take] at hlong
      omega
    · rintro e ⟨⟩
      exact ⟨by simp [digitsOf], hexponent⟩

theorem scale_literal_of_far (minus : Bool) {d : Decimal} (h : ¬(-5 < d.point ∧ d.point ≤ 16)) :
    (d.literal minus).scale = d.point - 1 := by
  unfold literal
  rw [if_neg h]
  simp only [NumberLiteral.scale, NumberLiteral.value_toDigits, decide_eq_true_eq]
  split <;> omega

/-- The literal denotes the decimal. -/
theorem magnitude_literal (minus : Bool) (d : Decimal) :
    (d.literal minus).magnitude = d.magnitude := by
  have hlength := d.length_digitList_pos
  have hpoint := d.point_eq
  -- Near the point the layout says how many digits are a fraction, else the exponent does.
  by_cases hnear : -5 < d.point ∧ d.point ≤ 16
  · unfold literal NumberLiteral.magnitude magnitude
    rw [if_pos hnear]
    split
    · rename_i hexp
      simp only [NumberLiteral.scale, NumberLiteral.value_append,
        NumberLiteral.value_replicate_zero, value_digitList, List.length_replicate,
        List.length_singleton]
      obtain ⟨k, hk⟩ := Int.eq_ofNat_of_zero_le hexp
      rw [hk, zpow_natCast, show (0 : ℤ) - (1 : ℕ) = -1 by rfl, zpow_neg_one]
      simp only [Int.toNat_natCast, NumberLiteral.value, List.foldl_cons, List.foldl_nil]
      push_cast
      ring
    split
    · rename_i hexp hpos
      simp only [NumberLiteral.scale, List.take_append_drop, value_digitList, List.length_drop]
      congr 2
      omega
    · simp only [NumberLiteral.scale, NumberLiteral.value_append,
        NumberLiteral.value_replicate_zero, value_digitList, List.length_append,
        List.length_replicate]
      rw [show NumberLiteral.value [0] = 0 from rfl]
      simp only [Nat.zero_mul, Nat.zero_add]
      congr 2
      omega
  · have hscale := scale_literal_of_far minus hnear
    unfold NumberLiteral.magnitude magnitude
    rw [hscale]
    unfold literal
    rw [if_neg hnear]
    simp only [List.take_append_drop, value_digitList, List.length_drop]
    congr 2
    omega

/-! ## Layouts -/

theorem bytesOf_digits (d : Decimal) : bytesOf d.digits = digitBytes d.digitList :=
  NumberLiteral.bytesOf_toString_nat d.coefficient

theorem bytesOf_zeros (n : Nat) : bytesOf (zeros n) = digitBytes (List.replicate n 0) := by
  have hzeros : ∀ c ∈ List.replicate n '0', c.isDigit := by
    intro c hc
    rw [List.eq_of_mem_replicate hc]
    decide
  unfold zeros
  rw [bytesOf_ofList, charBytes_of_isDigit hzeros, digitsOf, List.map_replicate]
  rfl

theorem bytesOf_splitAt (d : Decimal) (n : Nat) :
    bytesOf (splitAt d.digits n) =
      digitBytes (d.digitList.take n) ++ 46 :: digitBytes (d.digitList.drop n) := by
  have hdigits := NumberLiteral.isDigit_toDigits d.coefficient
  have htake := charBytes_of_isDigit fun c hc => hdigits c (List.mem_of_mem_take (i := n) hc)
  have hdrop := charBytes_of_isDigit fun c hc => hdigits c (List.mem_of_mem_drop (i := n) hc)
  unfold splitAt digitList
  rw [bytesOf_append, bytesOf_append, bytesOf_ofList, bytesOf_eq ".", bytesOf_ofList,
    toList_digits, htake, hdrop]
  unfold digitsOf
  rw [List.map_take, List.map_drop, List.append_assoc]
  rfl

theorem digitBytes_append (ds es : List Nat) :
    digitBytes (ds ++ es) = digitBytes ds ++ digitBytes es := List.map_append

theorem bytesOf_positional {d : Decimal} (h : -5 < d.point ∧ d.point ≤ 16) :
    bytesOf (d.positional ".0") = (d.literal false).toBytes := by
  have hpoint := d.point_eq
  unfold positional literal NumberLiteral.toBytes
  rw [if_pos h]
  split
  · rw [bytesOf_append, bytesOf_append, bytesOf_digits, bytesOf_zeros, bytesOf_eq ".0"]
    simp only [digitBytes_append, List.append_assoc]
    rfl
  split
  · rename_i hexp hpos
    rw [bytesOf_splitAt]
    have hfraction : d.digitList.drop d.point.toNat ≠ [] := by
      rw [ne_eq, List.drop_eq_nil_iff]
      omega
    simp [NumberLiteral.fractionBytes, NumberLiteral.exponentBytes, hfraction]
  · rw [bytesOf_append, bytesOf_append, bytesOf_digits, bytesOf_zeros, bytesOf_eq "0."]
    simp [NumberLiteral.fractionBytes, NumberLiteral.exponentBytes, digitBytes_append,
      digitList_ne_nil]
    rfl

/-- The digits of a number with an exponent. -/
theorem bytesOf_mantissa (d : Decimal) :
    bytesOf (if d.digits.length = 1 then d.digits else splitAt d.digits 1) =
      digitBytes (d.digitList.take 1) ++ NumberLiteral.fractionBytes (d.digitList.drop 1) := by
  have hlength := d.length_digitList_pos
  have hdigits : d.digits.length = d.digitList.length := by
    rw [← String.length_toList, toList_digits, digitList, digitsOf, List.length_map]
  unfold NumberLiteral.fractionBytes
  rw [hdigits]
  by_cases hone : d.digitList.length = 1
  · rw [if_pos hone, if_pos (List.drop_eq_nil_iff.2 (by omega)), bytesOf_digits,
      List.take_of_length_le (by omega), List.append_nil]
  · rw [if_neg hone, if_neg (by rw [List.drop_eq_nil_iff]; omega), bytesOf_splitAt]

/-- The exponent of a number, with its sign. -/
theorem bytesOf_exponent (e : Int) :
    bytesOf ((if 0 < e then "+" else "") ++ toString (e - 1)) =
      (if e ≤ 0 then 45 else 43) :: digitBytes (digitsOf (Nat.toDigits 10 (e - 1).natAbs)) := by
  rw [bytesOf_append, NumberLiteral.bytesOf_toString_int]
  unfold NumberLiteral.toBytes NumberLiteral.ofInt
  by_cases hpos : 0 < e
  · rw [if_pos hpos, if_neg (by omega : ¬e ≤ 0), bytesOf_eq,
      decide_eq_false (by omega : ¬e - 1 < 0)]
    simp [NumberLiteral.fractionBytes, NumberLiteral.exponentBytes]
    rfl
  · rw [if_neg hpos, if_pos (by omega : e ≤ 0), bytesOf_eq, decide_eq_true (by omega : e - 1 < 0)]
    simp [NumberLiteral.fractionBytes, NumberLiteral.exponentBytes]
    rfl

theorem bytesOf_scientific {d : Decimal} (h : ¬(-5 < d.point ∧ d.point ≤ 16)) :
    bytesOf d.scientific = (d.literal false).toBytes := by
  have hexponent := bytesOf_exponent d.point
  rw [bytesOf_append] at hexponent
  unfold scientific literal NumberLiteral.toBytes
  rw [if_neg h]
  simp only [bytesOf_append, bytesOf_mantissa, List.append_assoc, hexponent]
  rw [bytesOf_eq "e"]
  simp [NumberLiteral.exponentBytes]
  rfl

theorem toBytes_literal (minus : Bool) (d : Decimal) :
    (d.literal minus).toBytes =
      (if minus then [45] else []) ++ (d.literal false).toBytes := by
  unfold literal NumberLiteral.toBytes
  split_ifs <;> simp_all

/-! ## Shortest decimals -/

theorem ofDigits_spec (c : Nat) (e : Int) :
    (ofDigits c e).magnitude = c * (10 : ℚ) ^ e ∧ ((ofDigits c e).coefficient = 0 → c = 0) := by
  induction c using Nat.strong_induction_on generalizing e with
  | _ c ih =>
    rw [ofDigits]
    split
    · rename_i h
      obtain ⟨hmagnitude, hzero⟩ := ih (c / 10) (by omega) (e + 1)
      refine ⟨?_, fun h' => by have := hzero h'; omega⟩
      have hc : (c : ℚ) = (c / 10 : ℕ) * 10 := by
        exact_mod_cast (Nat.div_mul_cancel (Nat.dvd_of_mod_eq_zero h.2)).symm
      rw [hmagnitude, zpow_add₀ (by norm_num), zpow_one, hc]
      ring
    · exact ⟨rfl, fun h => h⟩

end Decimal

namespace Binary64

/-- A decimal on a grid lies in the interval, and not at its ends unless these belong to it. -/
theorem exists_inside_of_onGrid {tie : Tie} {low value high den : Nat} {closed : Bool} {e : Int}
    {d : Decimal} (h : onGrid tie low value high den closed e = some d) :
    ∃ c : Nat, d = .ofDigits c e ∧
      (low * 10 ^ (-e).toNat ≤ c * 10 ^ e.toNat * den ∧
        c * 10 ^ e.toNat * den ≤ high * 10 ^ (-e).toNat) ∧
      (closed = false → low * 10 ^ (-e).toNat < c * 10 ^ e.toNat * den ∧
        c * 10 ^ e.toNat * den < high * 10 ^ (-e).toNat) := by
  unfold onGrid at h
  extract_lets gridNum gridDen lower position inside fromBelow fromAbove takesLower at h
  have hinside : ∀ c, inside c = true →
      (low * gridDen ≤ position c ∧ position c ≤ high * gridDen) ∧
        (closed = false → low * gridDen < position c ∧ position c < high * gridDen) := by
    intro c hc
    simp only [inside] at hc
    split at hc
    · rename_i hclosed
      exact ⟨of_decide_eq_true hc, fun hopen => absurd (hclosed.symm.trans hopen) nofun⟩
    · obtain ⟨hlow, hhigh⟩ := of_decide_eq_true hc
      exact ⟨⟨hlow.le, hhigh.le⟩, fun _ => ⟨hlow, hhigh⟩⟩
  -- Both neighbours are inside, the lower one or the upper one. One that is inside is taken.
  split at h
  · rename_i hlower hupper
    obtain rfl := Option.some.inj h
    split
    · exact ⟨_, rfl, hinside _ hlower⟩
    · exact ⟨_, rfl, hinside _ hupper⟩
  · rename_i hlower hupper
    obtain rfl := Option.some.inj h
    exact ⟨_, rfl, hinside _ hlower⟩
  · rename_i hlower hupper
    obtain rfl := Option.some.inj h
    exact ⟨_, rfl, hinside _ hupper⟩
  · cases h

theorem zpow_ten (e : Int) : (10 : ℚ) ^ e * 10 ^ (-e).toNat = 10 ^ e.toNat := by
  rw [← zpow_natCast, ← zpow_natCast, ← zpow_add₀ (by norm_num)]
  congr 1
  omega

/-- A point of a grid, in units of its denominators. -/
theorem mul_zpow_ten (c den : Nat) (e : Int) :
    (c : ℚ) * 10 ^ e * den * 10 ^ (-e).toNat = (c * 10 ^ e.toNat * den : ℕ) := by
  push_cast
  rw [← zpow_ten e]
  ring

theorem onGrid_spec {tie : Tie} {low value high den : Nat} {closed : Bool} {e : Int} {d : Decimal}
    (h : onGrid tie low value high den closed e = some d) (hlow : 0 < low) :
    d.coefficient ≠ 0 ∧ d.magnitude * den ≤ high := by
  obtain ⟨c, rfl, ⟨hbelow, habove⟩, -⟩ := exists_inside_of_onGrid h
  obtain ⟨hmagnitude, hzero⟩ := Decimal.ofDigits_spec c e
  refine ⟨fun hcoefficient => ?_, ?_⟩
  · rw [hzero hcoefficient, Nat.zero_mul, Nat.zero_mul] at hbelow
    have : 0 < low * 10 ^ (-e).toNat := by positivity
    omega
  · have hpow : (0 : ℚ) < 10 ^ (-e).toNat := by positivity
    rw [hmagnitude]
    refine le_of_mul_le_mul_right ?_ hpow
    rw [mul_zpow_ten]
    exact_mod_cast habove

/-- The lower end of the interval of the numbers that round to a double. -/
def roundingFloor (x : Binary64) : Nat :=
  4 * x.scaled -
    (if x.fractionField = 0 ∧ 1 < x.exponentField then 2 ^ x.shift else 2 * 2 ^ x.shift)

/-- The upper end of the interval of the numbers that round to a double. -/
def roundingCeiling (x : Binary64) : Nat := 4 * x.scaled + 2 * 2 ^ x.shift

theorem shortest_eq {x : Binary64} (tie : Tie) (h : x.significand ≠ 0) :
    x.shortest tie =
      ((List.range 17).findSome? fun n : ℕ =>
        onGrid tie x.roundingFloor (4 * x.scaled) x.roundingCeiling (4 * unitScale)
          (x.significand % 2 == 0) (leadingExponent (4 * x.scaled) (4 * unitScale) - n)).getD
        (.ofDigits (4 * x.scaled / (4 * unitScale)) 0) := by
  unfold shortest
  rw [if_neg h]
  rfl

theorem roundingFloor_pos {x : Binary64} (h : x.significand ≠ 0) : 0 < x.roundingFloor := by
  have hunit : 0 < 2 ^ x.shift := by positivity
  have hscaled : 2 ^ x.shift ≤ x.scaled := Nat.le_mul_of_pos_left _ (Nat.pos_of_ne_zero h)
  unfold roundingFloor
  split <;> omega

/-- The shortest decimal is at most the upper end of the interval. -/
theorem shortest_spec (x : Binary64) (tie : Tie) :
    (x.shortest tie).ZeroIsPlain ∧
      (x.shortest tie).magnitude * (4 * unitScale : ℕ) ≤ x.roundingCeiling := by
  by_cases hzero : x.significand = 0
  · unfold shortest
    rw [if_pos hzero]
    have hnothing : (⟨0, 0⟩ : Decimal).magnitude = 0 := by simp [Decimal.magnitude]
    rw [hnothing, zero_mul]
    exact ⟨fun _ => rfl, Nat.cast_nonneg _⟩
  · rw [shortest_eq tie hzero]
    rcases hfind : (List.range 17).findSome? (fun n : ℕ =>
        onGrid tie x.roundingFloor (4 * x.scaled) x.roundingCeiling (4 * unitScale)
          (x.significand % 2 == 0) (leadingExponent (4 * x.scaled) (4 * unitScale) - n)) with _ | d
    · rw [Option.getD_none]
      obtain ⟨hmagnitude, hcoefficient⟩ :=
        Decimal.ofDigits_spec (4 * x.scaled / (4 * unitScale)) 0
      refine ⟨fun h => ?_, ?_⟩
      · rw [hcoefficient h, Decimal.ofDigits]
        rfl
      · rw [hmagnitude, zpow_zero, mul_one]
        have hfloor := Nat.div_mul_le_self (4 * x.scaled) (4 * unitScale)
        have hceiling : 4 * x.scaled ≤ x.roundingCeiling := Nat.le_add_right _ _
        exact_mod_cast hfloor.trans hceiling
    · rw [Option.getD_some]
      obtain ⟨n, -, hgrid⟩ := List.exists_of_findSome?_eq_some hfind
      obtain ⟨hcoefficient, hbound⟩ := onGrid_spec hgrid (roundingFloor_pos hzero)
      exact ⟨fun h => absurd h hcoefficient, hbound⟩

/-! ## The bound -/

theorem significand_lt (x : Binary64) : x.significand < 2 ^ 53 := by
  have : x.fractionField < 2 ^ 52 := Nat.mod_lt _ (by positivity)
  unfold significand
  split <;> omega

/-- Whether the magnitude is that of the largest double. -/
def IsLargest (x : Binary64) : Prop := x.exponentField = 2046 ∧ x.fractionField = 2 ^ 52 - 1

theorem safeBound_eq : safeBound * (4 * unitScale) = (2 ^ 55 - 6) * 2 ^ 2045 := by
  -- The exponents are named, so that the powers are not computed.
  obtain ⟨n, hn⟩ : ∃ n, n = 970 := ⟨970, rfl⟩
  have hbound : safeBound = 2 ^ n * (2 ^ 54 - 3) := by
    unfold safeBound
    rw [show 1024 = n + 54 by omega, ← hn, Nat.pow_add, Nat.mul_sub, Nat.mul_comm 3]
  have hscale : unitScale = 2 ^ n * 2 ^ 104 := by
    unfold unitScale
    rw [show 1074 = n + 104 by omega, Nat.pow_add]
  rw [hbound, hscale, show 2045 = n + n + 105 by omega, Nat.pow_add, Nat.pow_add]
  generalize 2 ^ n = a
  ring

theorem roundingCeiling_le {x : Binary64} (hfinite : x.isFinite = true) (h : ¬x.IsLargest) :
    x.roundingCeiling ≤ safeBound * (4 * unitScale) := by
  have hsignificand := x.significand_lt
  have hfraction : x.fractionField < 2 ^ 52 := Nat.mod_lt _ (by positivity)
  have hexponent : x.exponentField ≤ 2046 := by
    have hlt : x.exponentField < 2048 := Nat.mod_lt _ (by decide)
    have hne : x.exponentField ≠ 2047 := by simpa [isFinite] using hfinite
    omega
  have hceiling : x.roundingCeiling = (4 * x.significand + 2) * 2 ^ x.shift := by
    unfold roundingCeiling scaled
    ring
  rw [hceiling, safeBound_eq]
  -- The power of two is never computed, only compared by its exponent.
  generalize hm : 2045 = m
  by_cases htop : x.exponentField = 2046
  · have hshift : x.shift = m := by
      unfold shift
      omega
    have hbelow : x.fractionField ≠ 2 ^ 52 - 1 := fun hf => h ⟨htop, hf⟩
    have hnormal : x.significand = 2 ^ 52 + x.fractionField := by
      unfold significand
      rw [if_neg (by omega)]
    rw [hshift]
    exact Nat.mul_le_mul_right _ (by omega)
  · have hshift : x.shift + 1 ≤ m := by
      unfold shift
      omega
    calc (4 * x.significand + 2) * 2 ^ x.shift
        ≤ ((2 ^ 55 - 6) * 2) * 2 ^ x.shift := Nat.mul_le_mul_right _ (by omega)
      _ = (2 ^ 55 - 6) * 2 ^ (x.shift + 1) := by rw [pow_succ']; ring
      _ ≤ (2 ^ 55 - 6) * 2 ^ m :=
        Nat.mul_le_mul_left _ (Nat.pow_le_pow_right (by decide) hshift)

theorem magnitude_shortest_le {x : Binary64} (tie : Tie) (hfinite : x.isFinite = true)
    (h : ¬x.IsLargest) : (x.shortest tie).magnitude ≤ safeBound := by
  have hden : (0 : ℚ) < (4 * unitScale : ℕ) := by
    exact_mod_cast Nat.mul_pos (by decide) unitScale_pos
  refine le_of_mul_le_mul_right ?_ hden
  exact le_trans (x.shortest_spec tie).2 (by exact_mod_cast roundingCeiling_le hfinite h)

/-! ## The largest double -/

theorem leadingExponent_of_lt {num den k : Nat} (h : den ≤ num) (hlow : 10 ^ k ≤ num / den)
    (hhigh : num / den < 10 ^ (k + 1)) : leadingExponent num den = k := by
  have hlength : (toString (num / den)).length = (Nat.toDigits 10 (num / den)).length := by
    rw [Nat.toString_eq_ofList_toDigits, String.length_ofList]
  have hle := (Nat.length_toDigits_le_iff (by decide) (Nat.succ_pos k)).2 hhigh
  have hge : k < (Nat.toDigits 10 (num / den)).length := by
    by_contra hshort
    rcases Nat.eq_zero_or_pos k with rfl | hk
    · exact hshort Nat.length_toDigits_pos
    · have := (Nat.length_toDigits_le_iff (by decide) hk).1 (not_lt.1 hshort)
      omega
  unfold leadingExponent
  rw [if_pos h, hlength]
  omega

/-- The largest double. -/
def largest : Binary64 := ⟨UInt64.ofNat (2047 * 2 ^ 52 - 1)⟩

theorem shortest_largest : largest.shortest .even = ⟨17976931348623157, 292⟩ := by
  have hleading : leadingExponent (4 * largest.scaled) (4 * unitScale) = (308 : ℕ) :=
    leadingExponent_of_lt (by decide +kernel) (by decide +kernel) (by decide +kernel)
  rw [shortest_eq .even (by decide +kernel), hleading]
  decide +kernel

theorem IsLargest.shortest {x : Binary64} (h : x.IsLargest) :
    x.shortest .even = ⟨17976931348623157, 292⟩ := by
  obtain ⟨hexponent, hfraction⟩ := h
  have he : x.exponentField = largest.exponentField := by rw [hexponent]; decide
  have hf : x.fractionField = largest.fractionField := by rw [hfraction]; decide
  rw [← shortest_largest]
  unfold Binary64.shortest scaled significand shift
  rw [he, hf]

end Binary64

/-! ## Reading back -/

namespace Decimal

theorem pow_le_coefficient {d : Decimal} (h : d.coefficient ≠ 0) :
    10 ^ (d.digitList.length - 1) ≤ d.coefficient := by
  rcases Nat.eq_zero_or_pos (d.digitList.length - 1) with hone | hmany
  · rw [hone]
    exact Nat.one_le_iff_ne_zero.2 h
  · by_contra hlt
    have hshort := (Nat.length_toDigits_le_iff (by decide) hmany).2 (not_le.1 hlt)
    have hlength : d.digitList.length = (Nat.toDigits 10 d.coefficient).length := by
      simp [digitList, digitsOf]
    omega

/-- The leading digit of a decimal within the bound is not far up. -/
theorem point_le {d : Decimal} (hzero : d.coefficient ≠ 0) (hbound : d.magnitude ≤ safeBound) :
    d.point ≤ 309 := by
  have hlength := d.length_digitList_pos
  have hpoint := d.point_eq
  by_contra hlarge
  obtain ⟨k, hk⟩ := Int.eq_ofNat_of_zero_le (by omega : 0 ≤ d.point - 1)
  have hpow : (10 : ℚ) ^ k ≤ d.magnitude := by
    have hsplit : (k : ℤ) = (d.digitList.length - 1 : ℕ) + d.exponent := by omega
    rw [← zpow_natCast, hsplit, zpow_add₀ (by norm_num), zpow_natCast]
    refine mul_le_mul_of_nonneg_right ?_ (by positivity)
    exact_mod_cast pow_le_coefficient hzero
  have hnat : 10 ^ k ≤ safeBound := by exact_mod_cast hpow.trans hbound
  have := Binary64.lt_of_pow_le_safeBound hnat Binary64.safeBound_between.2
  omega

theorem length_whole_literal_le (minus : Bool) (d : Decimal) :
    (d.literal minus).whole.length ≤ 16 := by
  have hpoint := d.point_eq
  unfold literal
  split
  · split
    · simp only [List.length_append, List.length_replicate]
      omega
    split
    · simp only [List.length_take]
      omega
    · simp
  · simp only [List.length_take]
    omega

theorem scale_literal_lt (minus : Bool) {d : Decimal} (hzero : d.ZeroIsPlain)
    (hbound : d.magnitude ≤ safeBound) : (d.literal minus).scale < 2 ^ 31 := by
  by_cases hnear : -5 < d.point ∧ d.point ≤ 16
  · have hscale : (d.literal minus).scale = 0 := by
      unfold literal
      rw [if_pos hnear]
      split_ifs <;> rfl
    rw [hscale]
    decide
  · rw [scale_literal_of_far minus hnear]
    by_cases hcoefficient : d.coefficient = 0
    · have hpoint := d.point_eq
      have hlength : d.digitList.length = 1 := by simp [digitList, digitsOf, hcoefficient]
      have := hzero hcoefficient
      omega
    · have := point_le hcoefficient hbound
      omega

theorem isSome_double?_literal (minus : Bool) {d : Decimal} (hzero : d.ZeroIsPlain)
    (hbound : d.magnitude ≤ safeBound) : (d.literal minus).double?.isSome = true := by
  have hwhole := NumberLiteral.value_lt (wellFormed_literal minus hzero).whole
  have hlength := length_whole_literal_le minus d
  have hfits : 10 ^ (d.literal minus).whole.length ≤ 10 ^ 16 :=
    Nat.pow_le_pow_right (by decide) hlength
  refine NumberLiteral.isSome_double? (by omega) (scale_literal_lt minus hzero hbound) ?_
  rw [magnitude_literal]
  exact hbound

end Decimal

namespace Binary64

/-- The literal of a finite double. -/
def literal (x : Binary64) : NumberLiteral := (x.shortest .even).literal x.isNegative

theorem wellFormed_literal (x : Binary64) : x.literal.WellFormed :=
  Decimal.wellFormed_literal x.isNegative (x.shortest_spec .even).1

theorem bytesOf_toFraction {x : Binary64} (h : x.isFinite = true) :
    bytesOf x.toFraction = x.literal.toBytes := by
  have hnumber : x.isNaN = false := by
    have hne : x.exponentField ≠ 2047 := by simpa [isFinite] using h
    simp [isNaN, hne]
  have hlayout : bytesOf (if -5 < (x.shortest .even).point ∧ (x.shortest .even).point ≤ 16 then
      (x.shortest .even).positional ".0" else (x.shortest .even).scientific) =
      ((x.shortest .even).literal false).toBytes := by
    split
    · rename_i hnear
      exact Decimal.bytesOf_positional hnear
    · rename_i hfar
      exact Decimal.bytesOf_scientific hfar
  rw [literal, Decimal.toBytes_literal, ← hlayout]
  unfold toFraction withSign
  simp only [hnumber, h, Bool.false_eq_true, if_false, if_true]
  cases x.isNegative
  · rfl
  · simp only [if_true, bytesOf_append]
    rw [bytesOf_eq "-"]
    rfl

/-- **The text of a finite double reads back as some double.** -/
theorem isSome_double?_literal {x : Binary64} (h : x.isFinite = true) :
    x.literal.double?.isSome = true := by
  by_cases hlargest : x.IsLargest
  · rw [literal, hlargest.shortest]
    cases x.isNegative <;> decide +kernel
  · exact Decimal.isSome_double?_literal x.isNegative (x.shortest_spec .even).1
      (magnitude_shortest_le .even h hlargest)

end Binary64

end KernelTuning
