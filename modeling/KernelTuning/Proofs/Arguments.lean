import KernelTuning.Proofs.SortingPasses

/-!
# Valid arguments

What an execution may be asked for, said by sizes and counts as numbers, with the element types of
the problem. The checks of a primitive test this and nothing else (`checkArgs_eq_ok`,
`checkInput_eq_ok` and `checkOutput_eq_ok`), although they multiply and add words: the checked
operations refuse what does not fit in a word, and no buffer is that large.

The counts and indices that become arguments of kernels are below `2^32`.
-/

namespace KernelTuning

/-- What fits in an argument of a kernel. -/
def FitsArgument (n : Nat) : Prop := n < 2 ^ 32

instance (n : Nat) : Decidable (FitsArgument n) := inferInstanceAs (Decidable (n < 2 ^ 32))

/-- A buffer has room for a number of elements of some size. -/
def Buffer.Holds (b : Buffer) (elements : Nat) (elem : ElemType) : Prop :=
  elements * elem.storageSize.toNat ≤ b.size.toNat

instance (b : Buffer) (elements : Nat) (elem : ElemType) : Decidable (b.Holds elements elem) :=
  inferInstanceAs (Decidable (_ ≤ _))

/-! ## Checks on words -/

namespace Word

theorem checkedMul_any_iff {x y size : Word} :
    (checkedMul x y).any (· ≤ size) = true ↔ x.toNat * y.toNat ≤ size.toNat := by
  unfold checkedMul ofNat?
  split
  · rename_i hlt
    rw [Option.any_some, decide_eq_true_eq, UInt64.le_iff_toNat_le, UInt64.toNat_ofNat_of_lt' hlt]
  · rename_i hge
    have hsize : size.toNat < modulus := size.toNat_lt
    rw [Option.any_none]
    constructor
    · rintro ⟨⟩
    · intro h
      omega

theorem checkedAdd_any_iff {x y limit : Word} :
    (checkedAdd x y).any (· ≤ limit) = true ↔ x.toNat + y.toNat ≤ limit.toNat := by
  unfold checkedAdd ofNat?
  split
  · rename_i hlt
    rw [Option.any_some, decide_eq_true_eq, UInt64.le_iff_toNat_le, UInt64.toNat_ofNat_of_lt' hlt]
  · rename_i hge
    have hlimit : limit.toNat < modulus := limit.toNat_lt
    rw [Option.any_none]
    constructor
    · rintro ⟨⟩
    · intro h
      omega

end Word

theorem Attempt.unit_bind_eq_ok {β : Type} {x : Attempt Unit} {f : Unit → Attempt β} {b : β} :
    (x >>= f) = .ok b ↔ x = .ok () ∧ f () = .ok b := by
  rw [Attempt.bind_eq_ok]
  exact ⟨fun ⟨_, hx, hf⟩ => ⟨hx, hf⟩, fun ⟨hx, hf⟩ => ⟨(), hx, hf⟩⟩

theorem KernelArg.fit_eq_ok {what : String} {w : Word} {n : UInt32} :
    fit what w = .ok n ↔ FitsArgument w.toNat ∧ n = UInt32.ofNat w.toNat := by
  unfold fit FitsArgument
  split
  · rename_i hlt
    exact ⟨fun h => ⟨hlt, (Except.ok.inj h).symm⟩, fun h => congrArg Except.ok h.2.symm⟩
  · rename_i hge
    exact ⟨fun h => (by cases h), fun h => absurd h.1 hge⟩

theorem KernelArg.fit_bind_eq_ok {β : Type} {what : String} {w : Word} {f : UInt32 → Attempt β}
    {b : β} :
    (fit what w >>= f) = .ok b ↔ FitsArgument w.toNat ∧ f (UInt32.ofNat w.toNat) = .ok b := by
  simp only [Attempt.bind_eq_ok, fit_eq_ok, and_assoc, exists_and_left, exists_eq_left]

/-! ## Scans -/

namespace Scan

/-- An offset that is one element: given by its bytes, or readable in a buffer. -/
def ValidOffset (elem : ElemType) : ScanOffset → Prop
  | .zero => True
  | .host bytes => bytes.length = elem.storageSize.toNat
  | .device buffer index =>
    FitsArgument index.toNat ∧ buffer.Holds (index.toNat + 1) elem ∧ buffer.access.isReadable

structure ValidArgs (elem : ElemType) (args : ScanArgs) : Prop where
  pos : 1 ≤ args.elements.toNat
  fits : FitsArgument args.elements.toNat
  holds : args.buffer.Holds args.elements.toNat elem
  access : args.buffer.access = .readWrite
  offset : ValidOffset elem args.offset

variable {plan : ScanPlan}

theorem checkOffset_eq_ok {offset : ScanOffset} :
    checkOffset plan offset = .ok () ↔ ValidOffset plan.elem offset := by
  cases offset with
  | zero => exact iff_of_true rfl trivial
  | host bytes => simp only [checkOffset, ValidOffset, Attempt.ensure_eq_ok, decide_eq_true_eq]
  | device buffer index =>
    simp only [checkOffset, ValidOffset, KernelArg.fit_bind_eq_ok, Attempt.ensure_bind_eq_ok,
      Attempt.ensure_eq_ok]
    refine and_congr_right fun hindex => and_congr_left fun _ => ?_
    -- An index that fits in an argument has a successor.
    have hnext : (index.toNat + 1) < 2 ^ 64 := by
      unfold FitsArgument at hindex
      omega
    have hadd : Word.checkedAdd index 1 = some (index + 1) := by
      unfold Word.checkedAdd Word.ofNat?
      rw [UInt64.toNat_one, Word.modulus, if_pos hnext, UInt64.ofNat_add, UInt64.ofNat_toNat]
      rfl
    rw [hadd, Option.bind_some, Word.checkedMul_any_iff, UInt64.toNat_add, UInt64.toNat_one,
      Nat.mod_eq_of_lt hnext]
    rfl

theorem checkArgs_eq_ok {args : ScanArgs} :
    checkArgs plan args = .ok () ↔ ValidArgs plan.elem args := by
  simp only [checkArgs, Attempt.unit_bind_eq_ok, Attempt.ensure_eq_ok, Word.checkedMul_any_iff,
    decide_eq_true_eq, checkOffset_eq_ok, KernelArg.fit_bind_eq_ok, bne_iff_ne, Word.ne_zero_iff]
  constructor
  · rintro ⟨hholds, haccess, hoffset, hfits, hpos⟩
    exact ⟨hpos, hfits, hholds, haccess, hoffset⟩
  · rintro ⟨hpos, hfits, hholds, haccess, hoffset⟩
    exact ⟨hholds, haccess, hoffset, hfits, hpos⟩

end Scan

/-! ## Reductions -/

namespace Reduce

/-- An output that takes the sum: a writable element of a buffer, or the bytes of one element. -/
def ValidOutput (elem : ElemType) : ReduceOutput → Prop
  | .buffer buffer position =>
    FitsArgument position.toNat ∧ buffer.Holds (position.toNat + 1) elem ∧
      buffer.access.isWritable
  | .host size => size = elem.storageSize.toNat

structure ValidArgs (elem : ElemType) (args : ReduceArgs) : Prop where
  pos : 1 ≤ args.elements.toNat
  fits : FitsArgument (args.first.toNat + args.elements.toNat)
  holds : args.input.Holds (args.first.toNat + args.elements.toNat) elem
  access : args.input.access.isReadable
  output : ValidOutput elem args.output

variable {plan : ReducePlan}

theorem checkInput_eq_ok (hsize : 0 < plan.elem.storageSize.toNat) {input : Buffer}
    {first elements : Word} :
    checkInput plan input first elements = .ok () ↔
      1 ≤ elements.toNat ∧ FitsArgument (first.toNat + elements.toNat) ∧
        input.Holds (first.toNat + elements.toNat) plan.elem ∧ input.access.isReadable := by
  simp only [checkInput, Attempt.unit_bind_eq_ok, Attempt.ensure_eq_ok, Word.checkedAdd_any_iff,
    UInt64.toNat_div, Nat.le_div_iff_mul_le hsize, KernelArg.fit_bind_eq_ok, bne_iff_ne,
    Word.ne_zero_iff]
  change input.Holds (first.toNat + elements.toNat) plan.elem ∧ _ ↔ _
  constructor
  · rintro ⟨hholds, hfits, haccess, hpos⟩
    have hsum : (first + elements).toNat = first.toNat + elements.toNat := by
      have hle := Nat.le_mul_of_pos_right (first.toNat + elements.toNat) hsize
      rw [UInt64.toNat_add]
      exact Nat.mod_eq_of_lt (Nat.lt_of_le_of_lt (Nat.le_trans hle hholds) input.size.toNat_lt)
    exact ⟨hpos, hsum ▸ hfits, hholds, haccess⟩
  · rintro ⟨hpos, hfits, hholds, haccess⟩
    have hsum : (first + elements).toNat = first.toNat + elements.toNat := by
      rw [UInt64.toNat_add]
      exact Nat.mod_eq_of_lt (Nat.lt_of_lt_of_le hfits (by decide))
    exact ⟨hholds, hsum ▸ hfits, haccess, hpos⟩

theorem checkOutput_eq_ok (hsize : 0 < plan.elem.storageSize.toNat) {output : ReduceOutput} :
    checkOutput plan output = .ok () ↔ ValidOutput plan.elem output := by
  cases output with
  | buffer buffer position =>
    have hposition : position < buffer.size / plan.elem.storageSize ↔
        buffer.Holds (position.toNat + 1) plan.elem := by
      rw [UInt64.lt_iff_toNat_lt, UInt64.toNat_div]
      exact Nat.le_div_iff_mul_le hsize
    simp only [checkOutput, ValidOutput, Attempt.unit_bind_eq_ok, Attempt.ensure_eq_ok,
      KernelArg.fit_bind_eq_ok, gt_iff_lt, decide_eq_true_eq, hposition]
    constructor
    · rintro ⟨hholds, haccess, hfits, -⟩
      exact ⟨hfits, hholds, haccess⟩
    · rintro ⟨hfits, hholds, haccess⟩
      exact ⟨hholds, haccess, hfits, rfl⟩
  | host size => simp only [checkOutput, ValidOutput, Attempt.ensure_eq_ok, decide_eq_true_eq]

end Reduce

/-! ## Radix sorts -/

theorem ElemType.storageSize_eq_zero_iff {t : ElemType} :
    t.storageSize = 0 ↔ t.isVoid = true := by
  constructor
  · intro h
    rcases hvoid : t.isVoid with _ | _
    · exact absurd (t.storageSize_bounds hvoid).1 (h ▸ Nat.lt_irrefl 0)
    · rfl
  · intro h
    obtain ⟨base, length, valid⟩ := t
    obtain rfl : base = .void := of_decide_eq_true h
    obtain rfl : length = 0 := by simpa using valid
    rfl

namespace Radixsort

/-- A buffer that can be sorted in place. -/
def Sortable (buffer : Buffer) (elements : Nat) (elem : ElemType) : Prop :=
  buffer.Holds elements elem ∧ buffer.access = .readWrite

structure ValidArgs (problem : RadixsortProblem) (args : RadixsortArgs) : Prop where
  pos : 1 ≤ args.elements.toNat
  fits : FitsArgument args.elements.toNat
  keys : Sortable args.buffers.keys args.elements.toNat problem.key
  /-- There are values exactly if they have a type. -/
  typed : args.buffers.values.isSome = !problem.value.isVoid
  values : ∀ buffer, args.buffers.values = some buffer →
    Sortable buffer args.elements.toNat problem.value
  bits : args.maxBits.toNat ≤ 8 * problem.key.storageSize.toNat

variable {plan : RadixsortPlan}

theorem checkBuffer_eq_ok {what verb : String} {buffer : Buffer} {elements : Word}
    {elem : ElemType} :
    checkBuffer what verb buffer elements elem.storageSize = .ok () ↔
      Sortable buffer elements.toNat elem := by
  simp only [checkBuffer, Attempt.unit_bind_eq_ok, Attempt.ensure_eq_ok, Word.checkedMul_any_iff,
    decide_eq_true_eq]
  rfl

theorem checkValues_eq_ok {problem : RadixsortProblem}
    (hvalue : plan.valueSize = problem.value.storageSize) {values : Option Buffer}
    {elements : Word} :
    checkValues plan values elements = .ok () ↔ values.isSome = !problem.value.isVoid ∧
      ∀ buffer, values = some buffer → Sortable buffer elements.toNat problem.value := by
  cases values with
  | none =>
    simp [checkValues, Attempt.ensure_eq_ok, hvalue, ElemType.storageSize_eq_zero_iff]
  | some buffer =>
    unfold checkValues
    simp only [hvalue, ElemType.storageSize_eq_zero_iff]
    split
    · rename_i hvoid
      simp [hvoid, Attempt.fail]
    · rename_i hvoid
      rw [checkBuffer_eq_ok]
      simp [hvoid]

/-- A key of at most eight bytes. -/
theorem effectiveBits_eq_ok {maxBits : UInt32} (hsize : plan.keySize.toNat ≤ 8) :
    (∃ bits, effectiveBits plan maxBits = .ok bits) ↔
      maxBits.toNat ≤ 8 * plan.keySize.toNat := by
  have hbits : (keyBits plan).toNat = 8 * plan.keySize.toNat :=
    Word.toNat_mul_of_lt (show 8 * plan.keySize.toNat < 2 ^ 64 by omega)
  unfold effectiveBits
  split
  · rename_i hzero
    simp [hzero]
  · have hgt : maxBits.toUInt64 > keyBits plan ↔ 8 * plan.keySize.toNat < maxBits.toNat := by
      rw [gt_iff_lt, UInt64.lt_iff_toNat_lt, hbits, UInt32.toNat_toUInt64]
    split <;> rename_i h <;> rw [hgt] at h
    · simp [Attempt.fail, h]
    · simpa using h

theorem checkArgs_eq_ok {problem : RadixsortProblem} {args : RadixsortArgs}
    (hkey : plan.keySize = problem.key.storageSize) (hsize : problem.key.storageSize.toNat ≤ 8)
    (hvalue : plan.valueSize = problem.value.storageSize) :
    (∃ bits, checkArgs plan args = .ok bits) ↔ ValidArgs problem args := by
  simp only [checkArgs, hkey, Attempt.unit_bind_eq_ok, checkBuffer_eq_ok, checkValues_eq_ok hvalue,
    Attempt.ensure_eq_ok, KernelArg.fit_bind_eq_ok, bne_iff_ne, Word.ne_zero_iff,
    exists_and_left, effectiveBits_eq_ok (hkey ▸ hsize)]
  constructor
  · rintro ⟨hkeys, ⟨htyped, hvalues⟩, hpos, hfits, hbits⟩
    exact ⟨hpos, hfits, hkeys, htyped, hvalues, hbits⟩
  · rintro ⟨hpos, hfits, hkeys, htyped, hvalues, hbits⟩
    exact ⟨hkeys, ⟨htyped, hvalues⟩, hpos, hfits, hbits⟩

end Radixsort

end KernelTuning
