import KernelTuning.Proofs.JsonLiterals

/-!
# Names in the order of their bytes

Names are compared character by character, and their texts byte by byte. These are the same order,
since the encoding of a character keeps its number (`leadByte`, `trailingBytes`): the first byte has
the highest bits, above a mark that grows with the number of bytes, and the others go on with six
bits each.

**Theorem (`bytesOf_lt_iff`).** A text is below another if and only if its bytes come first in
lexicographic order.
-/

namespace KernelTuning

/-! ## The parts of a character -/

/-- The number of bytes after the first one of a character. -/
def trailingCount (v : Nat) : Nat :=
  if v ≤ 0x7F then 0 else if v ≤ 0x7FF then 1 else if v ≤ 0xFFFF then 2 else 3

/-- The first byte of a character: a mark for the number of the others, and the highest bits. -/
def leadByte (v : Nat) : Nat :=
  if v ≤ 0x7F then v
  else if v ≤ 0x7FF then v / 64 + 0xC0
  else if v ≤ 0xFFFF then v / 64 ^ 2 + 0xE0
  else v / 64 ^ 3 + 0xF0

/-- The last `count` groups of six bits, one in each byte. -/
def trailingBytes : Nat → Nat → List UInt8
  | 0, _ => []
  | count + 1, v => trailingBytes count (v / 64) ++ [UInt8.ofNat (v % 64 + 128)]

theorem toNat_val_lt (c : Char) : c.val.toNat < 0x110000 := by
  have hvalid := c.valid
  unfold UInt32.isValidChar Nat.isValidChar at hvalid
  omega

theorem utf8EncodeChar_eq (c : Char) :
    String.utf8EncodeChar c = UInt8.ofNat (leadByte c.val.toNat) ::
      trailingBytes (trailingCount c.val.toNat) c.val.toNat := by
  have hc := toNat_val_lt c
  unfold String.utf8EncodeChar leadByte trailingCount
  dsimp only
  generalize c.val.toNat = v at *
  split
  · rfl
  split
  · rw [show v / 64 % 32 = v / 64 by omega]
    rfl
  split
  · rw [show v / 4096 % 16 = v / 4096 by omega]
    rfl
  · rw [show v / 262144 % 8 = v / 262144 by omega]
    simp only [trailingBytes, Nat.div_div_eq_div_mul]
    rfl

/-- Characters that do not differ in the first byte have as many bytes, and differ after it. -/
theorem leadByte_lt_or_eq {v w : Nat} (h : v < w) (hw : w < 0x110000) :
    leadByte v < leadByte w ∨ leadByte v = leadByte w ∧ trailingCount v = trailingCount w ∧
      v / 64 ^ trailingCount v = w / 64 ^ trailingCount v := by
  unfold leadByte trailingCount
  repeat' split
  all_goals omega

theorem leadByte_lt {v : Nat} (hv : v < 0x110000) : leadByte v < 256 := by
  unfold leadByte
  repeat' split
  all_goals omega

/-! ## Comparing -/

theorem ofNat_cons_lt_iff {x y : Nat} {l m : List UInt8} (hx : x < 256) (hy : y < 256) :
    UInt8.ofNat x :: l < UInt8.ofNat y :: m ↔ x < y ∨ x = y ∧ l < m := by
  rw [List.cons_lt_cons_iff, UInt8.lt_iff_toNat_lt, ← UInt8.toNat_inj, UInt8.toNat_ofNat',
    UInt8.toNat_ofNat', Nat.mod_eq_of_lt hx, Nat.mod_eq_of_lt hy]

/-- Where the numbers agree above the groups of six bits, these groups compare in turn. -/
theorem trailingBytes_lt {count v w : Nat} (h : v < w) (heq : v / 64 ^ count = w / 64 ^ count)
    (l m : List UInt8) : trailingBytes count v ++ l < trailingBytes count w ++ m := by
  induction count generalizing v w l m with
  | zero =>
    rw [Nat.pow_zero, Nat.div_one, Nat.div_one] at heq
    exact absurd heq (Nat.ne_of_lt h)
  | succ count ih =>
    rw [trailingBytes, trailingBytes, List.append_assoc, List.append_assoc]
    -- Either the higher digits decide already, or they agree and the last byte decides.
    have hsplit : v / 64 < w / 64 ∨ v / 64 = w / 64 ∧ v % 64 < w % 64 := by omega
    rcases hsplit with hlt | ⟨hhigh, hlow⟩
    · rw [Nat.pow_succ', ← Nat.div_div_eq_div_mul, ← Nat.div_div_eq_div_mul] at heq
      exact ih hlt heq _ _
    · rw [hhigh]
      exact List.append_left_lt ((ofNat_cons_lt_iff (by omega) (by omega)).2 (.inl (by omega)))

/-- A smaller character comes first, whatever follows the two. -/
theorem utf8EncodeChar_lt {c d : Char} (h : c < d) (l m : List UInt8) :
    String.utf8EncodeChar c ++ l < String.utf8EncodeChar d ++ m := by
  have hlt : c.val.toNat < d.val.toNat := UInt32.lt_iff_toNat_lt.1 (Char.lt_def.1 h)
  rw [utf8EncodeChar_eq, utf8EncodeChar_eq, List.cons_append, List.cons_append,
    ofNat_cons_lt_iff (leadByte_lt (toNat_val_lt c)) (leadByte_lt (toNat_val_lt d))]
  exact (leadByte_lt_or_eq hlt (toNat_val_lt d)).imp_right fun ⟨hlead, hcount, heq⟩ =>
    ⟨hlead, hcount ▸ trailingBytes_lt hlt heq l m⟩

theorem charBytes_lt {cs ds : List Char} (h : cs < ds) : charBytes cs < charBytes ds := by
  induction ds generalizing cs with
  | nil => exact absurd h (List.not_lt_nil cs)
  | cons d ds ih =>
    cases cs with
    | nil =>
      rw [charBytes, charBytes, List.flatMap_nil, List.flatMap_cons, utf8EncodeChar_eq]
      exact List.nil_lt_cons _ _
    | cons c cs =>
      rw [charBytes, charBytes, List.flatMap_cons, List.flatMap_cons]
      rcases List.cons_lt_cons_iff.1 h with hlt | ⟨rfl, hlt⟩
      · exact utf8EncodeChar_lt hlt _ _
      · exact List.append_left_lt (ih hlt)

/-- **Texts compare as their bytes.** -/
theorem bytesOf_lt_iff {s t : String} : bytesOf s < bytesOf t ↔ s < t := by
  have hlt {s t : String} (h : s < t) : bytesOf s < bytesOf t := by
    rw [bytesOf_eq, bytesOf_eq]
    exact charBytes_lt (String.lt_iff.1 h)
  refine ⟨fun h => Decidable.byContradiction fun hnot => ?_, hlt⟩
  rcases Decidable.em (t < s) with hts | hts
  · exact List.lt_irrefl _ (List.lt_trans h (hlt hts))
  · obtain rfl := String.le_antisymm (String.not_lt.1 hts) (String.not_lt.1 hnot)
    exact List.lt_irrefl _ h

end KernelTuning
