import KernelTuning.Proofs.JsonLiterals

/-!
# Texts that can be taken apart

Digests are taken of texts that are put together from parts. Two such texts are equal only if their
parts are, as long as it is clear where each part ends. There are three ways to make it clear.

* **Separators** (`append_cons_inj`, `append_flatMap_inj`, `intercalate_inj`). A part ends at a
  character that is not in it, and the next part starts there.
* **Terminators** (`zero_notMem_bytesOf`). The bytes of a text without the null character have no
  zero byte, so a zero byte ends them.
* **Widths** (`littleEndian_inj`). Numbers within a width take that many bytes.

Decimal numbers are different if their digits are (`toDigits_inj`).
-/

namespace KernelTuning

/-! ## Separators -/

section

variable {α : Type} {a : α} {sep x y z w : List α} {xs ys : List (List α)}

/-- What comes before the first separator, and what comes after it. -/
theorem append_cons_inj (hx : a ∉ x) (hy : a ∉ y) (h : x ++ a :: z = y ++ a :: w) :
    x = y ∧ z = w := by
  rcases List.append_eq_append_iff.1 h with ⟨l, rfl, hz⟩ | ⟨l, rfl, hw⟩
  · cases l with
    | nil => exact ⟨by rw [List.append_nil], (List.cons.inj hz).2⟩
    | cons b l =>
      obtain ⟨rfl, -⟩ := List.cons.inj hz
      exact absurd (by simp) hy
  · cases l with
    | nil => exact ⟨by rw [List.append_nil], (List.cons.inj hw).2.symm⟩
    | cons b l =>
      obtain ⟨rfl, -⟩ := List.cons.inj hw
      exact absurd (by simp) hx

/-- Parts of which each but the first one has a separator before it. -/
theorem append_flatMap_inj (hx : ∀ l ∈ x :: xs, a ∉ l) (hy : ∀ l ∈ y :: ys, a ∉ l)
    (h : x ++ xs.flatMap (a :: sep ++ ·) = y ++ ys.flatMap (a :: sep ++ ·)) :
    x = y ∧ xs = ys := by
  induction xs generalizing x y ys with
  | nil =>
    cases ys with
    | nil => exact ⟨by simpa using h, rfl⟩
    | cons l ys =>
      refine absurd ?_ (hx x List.mem_cons_self)
      rw [List.flatMap_nil, List.append_nil] at h
      simp [h]
  | cons k xs ih =>
    obtain ⟨hx₀, hxs⟩ := List.forall_mem_cons.1 hx
    obtain ⟨hy₀, hys⟩ := List.forall_mem_cons.1 hy
    cases ys with
    | nil =>
      refine absurd ?_ hy₀
      rw [List.flatMap_nil, List.append_nil] at h
      simp [← h]
    | cons l ys =>
      simp only [List.flatMap_cons, List.cons_append, List.append_assoc] at h
      -- The first separator ends the first part on both sides, as neither part holds one.
      obtain ⟨rfl, hrest⟩ := append_cons_inj hx₀ hy₀ h
      obtain ⟨rfl, rfl⟩ := ih hxs hys (List.append_cancel_left hrest)
      exact ⟨rfl, rfl⟩

theorem intercalate_cons_eq (sep x : List α) (xs : List (List α)) :
    sep.intercalate (x :: xs) = x ++ xs.flatMap (sep ++ ·) := by
  induction xs generalizing x with
  | nil => simp
  | cons y xs ih =>
    rw [List.intercalate_cons_cons, ih, List.flatMap_cons, List.append_assoc, List.append_assoc]

/-- Parts between separators. A single empty part would look like none. -/
theorem intercalate_inj (hx : ∀ l ∈ xs, a ∉ l ∧ l ≠ []) (hy : ∀ l ∈ ys, a ∉ l ∧ l ≠ [])
    (h : (a :: sep).intercalate xs = (a :: sep).intercalate ys) : xs = ys := by
  rcases xs with _ | ⟨x, xs⟩ <;> rcases ys with _ | ⟨y, ys⟩
  · rfl
  · rw [intercalate_cons_eq, List.intercalate_nil, eq_comm, List.append_eq_nil_iff] at h
    exact absurd h.1 (hy y List.mem_cons_self).2
  · rw [intercalate_cons_eq, List.intercalate_nil, List.append_eq_nil_iff] at h
    exact absurd h.1 (hx x List.mem_cons_self).2
  · rw [intercalate_cons_eq, intercalate_cons_eq] at h
    obtain ⟨rfl, rfl⟩ := append_flatMap_inj (fun l hl => (hx l hl).1) (fun l hl => (hy l hl).1) h
    rfl

/-- Lists with the same texts are equal if the texts tell their members apart. -/
theorem eq_of_map_eq {β : Type} {f : α → β} {l m : List α}
    (hf : ∀ b ∈ l, ∀ c ∈ m, f b = f c → b = c) (h : l.map f = m.map f) : l = m := by
  induction l generalizing m with
  | nil => exact (List.map_eq_nil_iff.1 h.symm).symm
  | cons b l ih =>
    cases m with
    | nil => cases h
    | cons c m =>
      obtain ⟨hhead, htail⟩ := List.cons.inj h
      obtain rfl := hf b List.mem_cons_self c List.mem_cons_self hhead
      obtain rfl := ih (fun b hb c hc => hf b (List.mem_cons_of_mem _ hb) c
        (List.mem_cons_of_mem _ hc)) htail
      rfl

end

/-! ## Texts and their bytes -/

theorem bytesOf_injective {s t : String} (h : bytesOf s = bytesOf t) : s = t := by
  have hread := fromUTF8?_bytesOf s
  rw [h, fromUTF8?_bytesOf] at hread
  exact (Option.some.inj hread).symm

/-- Only the null character is encoded with a zero byte. -/
theorem eq_null_of_zero_mem {c : Char} (h : 0 ∈ String.utf8EncodeChar c) : c = Char.ofNat 0 := by
  have high {n : Nat} (hlow : 0 < n) (hhigh : n < 256) : (0 : UInt8) ≠ UInt8.ofNat n := by
    intro heq
    have hnat := congrArg UInt8.toNat heq
    rw [UInt8.toNat_ofNat', Nat.mod_eq_of_lt hhigh] at hnat
    exact Nat.ne_of_lt hlow hnat
  have hval : c.val.toNat = c.toNat := rfl
  unfold String.utf8EncodeChar at h
  simp only [hval] at h
  split at h
  · rcases Nat.eq_zero_or_pos c.toNat with hzero | hpos
    · exact Char.toNat_inj.1 hzero
    · exact absurd (List.mem_singleton.1 h) (high hpos (by omega))
  split at h
  · simp only [List.mem_cons, List.not_mem_nil, or_false] at h
    rcases h with h | h <;> exact absurd h (high (by omega) (by omega))
  split at h
  · simp only [List.mem_cons, List.not_mem_nil, or_false] at h
    rcases h with h | h | h <;> exact absurd h (high (by omega) (by omega))
  · simp only [List.mem_cons, List.not_mem_nil, or_false] at h
    rcases h with h | h | h | h <;> exact absurd h (high (by omega) (by omega))

theorem zero_notMem_bytesOf {s : String} (h : Char.ofNat 0 ∉ s.toList) : 0 ∉ bytesOf s := by
  rw [bytesOf_eq, charBytes, List.mem_flatMap]
  rintro ⟨c, hc, hzero⟩
  exact h (eq_null_of_zero_mem hzero ▸ hc)

/-! ## Numbers -/

theorem toDigits_inj {m n : Nat} (h : Nat.toDigits 10 m = Nat.toDigits 10 n) : m = n := by
  have hvalue := congrArg (Nat.ofDigitChars 10 · 0) h
  simpa only [Nat.ofDigitChars_ten_toDigits] using hvalue

/-- Numbers within a width are told apart by their bytes. -/
theorem Digest.littleEndian_inj {n a b : Nat} (ha : a < 256 ^ n) (hb : b < 256 ^ n)
    (h : littleEndian n a = littleEndian n b) : a = b := by
  induction n generalizing a b with
  | zero =>
    rw [Nat.pow_zero] at ha hb
    omega
  | succ n ih =>
    rw [Nat.pow_succ] at ha hb
    rw [littleEndian, littleEndian, List.cons.injEq] at h
    have hlow : a % 256 = b % 256 := by simpa using congrArg UInt8.toNat h.1
    have hhigh : a / 256 = b / 256 :=
      ih (Nat.div_lt_of_lt_mul (by omega)) (Nat.div_lt_of_lt_mul (by omega)) h.2
    omega

end KernelTuning
