import KernelTuning.Proofs.BlockCover
import KernelTuning.Proofs.BufferRoles
import KernelTuning.Proofs.CrashFree

/-!
# Overflow in the sizes of a radix sort

The size and the number of the blocks of a radix sort are products and quotients of words. The work
scale of the scatter is bounded by nothing but its type, so the products can exceed a word.

* `sizes?`: the sizes as an execution computes them.
* `Arithmetic`: where there are none, and what they are elsewhere.

**Theorem (`orderly_execute_iff`).** For every plan that is built and every count of elements, the
sizes are computed if and only if the tiles of all blocks together fit in a word, and then they are
those of the numbers. An execution of a ready algorithm crashes if and only if its arguments are
valid and these tiles exceed a word.

The tiles of all blocks are the first product. It is a divisor of the elements, and the size of a
block, which is the second divisor, is one tile for each unit of that quotient. So neither divisor
is zero, and no later product is too large: the elements rounded up to a multiple of the first
divisor are the divisor itself, or less than twice as many as there are elements.
-/

namespace KernelTuning

namespace Word

/-- Less than `2^32` elements, rounded up to a multiple of a number that fits in a word, fit as
well. -/
theorem roundedUp_lt {elements n : Nat} (hn : 0 < n) (hlt : n < 2 ^ 64)
    (h : elements < 2 ^ 32) : (elements ⌈/⌉ n) * n < 2 ^ 64 := by
  rcases Nat.lt_or_ge n elements with hless | hge
  · have hround := ceilDiv_mul_lt elements hn
    omega
  · have hone : elements ⌈/⌉ n ≤ 1 := by
      rw [ceilDiv_le_iff_le_mul hn, Nat.mul_one]
      exact hge
    have hle := Nat.mul_le_mul_right n hone
    omega

end Word

/-! ## Sizes -/

namespace RadixsortGeometry

variable {g : RadixsortGeometry} {d : DeviceProperties} {elements : Word}

/-- The size and the number of the blocks of an execution. -/
def sizes? (g : RadixsortGeometry) (elements : Word) : Except Word.Fault (Word × Word) := do
  let size ← g.blockSize? elements
  let blocks ← g.blocks? elements size
  return (size, blocks)

/-- Where the tiles of all blocks exceed a word, it is a product that has no result. -/
theorem blockSize?_of_ge (h : 2 ^ 64 ≤ g.tileLength * g.scanBlocks.toNat) :
    g.blockSize? elements = .error .multiplicationOverflow := by
  rcases Nat.lt_or_ge g.tileLength (2 ^ 64) with hlt | hge
  · obtain ⟨tile, htile⟩ := Word.exists_toNat_eq hlt
    rw [blockSize?, tile?_eq_ok.2 htile, except_ok_bind, Word.mul?_of_ge (htile ▸ h)]
    rfl
  · have hscattered : 2 ^ 64 ≤ g.scatterWorkScale.toNat * g.scatterWorkGroupSize.toNat := by
      have hreduce := g.reduceWorkGroupSize.toNat_lt
      rw [tileLength] at hge
      omega
    rw [blockSize?, tile?, Word.mul?_of_ge hscattered]
    rfl

/-- Where the tiles of all blocks fit in a word, so do all other products. -/
theorem exists_sizes? (fits : g.Fits d) (slices_dvd : g.slices.toNat ∣ g.scanBlocks.toNat)
    (hpos : 1 ≤ elements.toNat) (hlt : elements.toNat < 2 ^ 32)
    (room : g.tileLength * g.scanBlocks.toNat < 2 ^ 64) :
    ∃ size blocks, g.blockSize? elements = .ok size ∧ g.blocks? elements size = .ok blocks := by
  obtain ⟨hblocks, -⟩ := fits.scanBlocks_lt
  have hproduct_pos := Nat.mul_pos fits.tile_pos hblocks
  -- One tile for each of the blocks is not more than all of them.
  have hsize_lt : blockLength g.tileLength g.scanBlocks.toNat elements.toNat < 2 ^ 64 := by
    have hrounded := Word.roundedUp_lt hproduct_pos room hlt
    rw [← Nat.mul_assoc] at hrounded
    exact Nat.lt_of_le_of_lt (Nat.le_mul_of_pos_right _ hblocks) hrounded
  obtain ⟨size, hsize⟩ := Word.exists_toNat_eq hsize_lt
  obtain ⟨blocks, hcount, -⟩ := blocks?_eq fits slices_dvd hpos hsize
  exact ⟨size, blocks, blockSize?_eq_ok.2 ⟨hproduct_pos, room, hsize⟩, hcount⟩

/-- How the sizes are computed. -/
structure Arithmetic (g : RadixsortGeometry) (elements : Word) : Prop where
  /-- There are sizes exactly if the tiles of all blocks together fit in a word. -/
  ok_iff : (∃ s, g.sizes? elements = .ok s) ↔ g.tileLength * g.scanBlocks.toNat < 2 ^ 64
  /-- The sizes are those of the numbers. -/
  exact : ∀ size blocks, g.sizes? elements = .ok (size, blocks) →
    size.toNat = blockLength g.tileLength g.scanBlocks.toNat elements.toNat ∧
      blocks.toNat = (elements.toNat ⌈/⌉ size.toNat) ⌈/⌉ g.slices.toNat * g.slices.toNat
  /-- Where there are none, a product is too large. No division is by zero. -/
  overflow : ∀ fault, g.sizes? elements = .error fault → fault = .multiplicationOverflow

theorem sizes?_eq_ok {size blocks : Word} :
    g.sizes? elements = .ok (size, blocks) ↔
      g.blockSize? elements = .ok size ∧ g.blocks? elements size = .ok blocks := by
  simp only [sizes?, except_bind_eq_ok]
  constructor
  · rintro ⟨size', hsize, blocks', hblocks, h⟩
    cases h
    exact ⟨hsize, hblocks⟩
  · rintro ⟨hsize, hblocks⟩
    exact ⟨size, hsize, blocks, hblocks, rfl⟩

theorem arithmetic (fits : g.Fits d) (slices_dvd : g.slices.toNat ∣ g.scanBlocks.toNat)
    (hpos : 1 ≤ elements.toNat) (hlt : elements.toNat < 2 ^ 32) : g.Arithmetic elements := by
  have exists_of_lt (room : g.tileLength * g.scanBlocks.toNat < 2 ^ 64) :
      ∃ s, g.sizes? elements = .ok s := by
    obtain ⟨size, blocks, h⟩ := exists_sizes? fits slices_dvd hpos hlt room
    exact ⟨(size, blocks), sizes?_eq_ok.2 h⟩
  refine ⟨⟨?_, exists_of_lt⟩, ?_, ?_⟩
  · rintro ⟨⟨size, blocks⟩, h⟩
    exact (blockSize?_eq_ok.1 (sizes?_eq_ok.1 h).1).2.1
  · intro size blocks h
    obtain ⟨hsize, hblocks⟩ := sizes?_eq_ok.1 h
    obtain ⟨covering, hcovering, hround⟩ := except_bind_eq_ok.1 hblocks
    refine ⟨(blockSize?_eq_ok.1 hsize).2.2, ?_⟩
    rw [(Word.roundUp?_eq_ok.1 hround).2, (Word.ceilDiv?_eq_ok.1 hcovering).2]
  · intro fault h
    rcases Nat.lt_or_ge (g.tileLength * g.scanBlocks.toNat) (2 ^ 64) with room | hge
    · obtain ⟨s, hs⟩ := exists_of_lt room
      rw [hs] at h
      cases h
    · rw [sizes?, blockSize?_of_ge hge] at h
      cases h
      rfl

end RadixsortGeometry

/-! ## Executions -/

namespace Radixsort

variable {b : Backend} {plan : RadixsortPlan} {args : RadixsortArgs} {problem : RadixsortProblem}

theorem shapeOf_eq_error (elements : Word)
    (h : 2 ^ 64 ≤ plan.geometry.tileLength * plan.geometry.scanBlocks.toNat) :
    shapeOf plan elements = .error (.ofFault .multiplicationOverflow) := by
  rw [shapeOf, RadixsortGeometry.blockSize?_of_ge h]
  rfl

/-- The sizes are all that can be missing for a shape. -/
theorem orderly_shapeOf_iff {d : DeviceProperties} {elements : Word} (fits : PlanFits d plan)
    (hpos : 1 ≤ elements.toNat) (helements : FitsArgument elements.toNat) :
    Orderly (shapeOf plan elements) ↔
      ¬ 2 ^ 64 ≤ plan.geometry.tileLength * plan.geometry.scanBlocks.toNat := by
  constructor
  · intro orderly h
    rw [shapeOf_eq_error elements h] at orderly
    exact orderly _ rfl
  · intro h
    obtain ⟨size, blocks, hsize, hblocks⟩ := RadixsortGeometry.exists_sizes? fits.geometry
      fits.slices_dvd hpos helements (Nat.not_le.1 h)
    unfold shapeOf
    simp only [hsize, Attempt.ofArithmetic_ok, except_ok_bind, hblocks]
    exact .bind (.ensure _ _) fun _ => .bind (.fit _ _) fun _ => .bind (.fit _ _) fun _ =>
      .bind (.fit _ _) fun _ => .ok _

section

variable (costs : ∀ calls launch, Orderly (b.cost calls launch))

include costs

theorem crashFree_enqueuePass (shape : Shape) (source target : SortBuffers) (firstBit : UInt32)
    (waitFor : List Event) : CrashFree (enqueuePass b plan shape source target firstBit waitFor) :=
  .ofQueue (.bind (.dispatch costs _ _) fun _ => .bind (.dispatch costs _ _) fun _ =>
    .bind (.dispatch costs _ _) fun _ => .pure _)

theorem crashFree_enqueuePasses (shape : Shape) (source target : SortBuffers)
    (waitFor : List Event) (passes : List UInt32) :
    CrashFree (enqueuePasses b plan shape source target waitFor passes) := by
  induction passes generalizing source target waitFor with
  | nil => exact .pure []
  | cons firstBit rest ih =>
    exact .bind (crashFree_enqueuePass costs shape source target firstBit waitFor) fun _ =>
      .bind (ih _ _ _) fun _ => .pure _

end

theorem crashFree_enqueueCopies (source target : SortBuffers) (elements : Word) :
    CrashFree (enqueueCopies b plan source target elements) := by
  refine .ofQueue (.bind (.copy b _ _ _) fun _ => ?_)
  split
  · exact .bind (.copy b _ _ _) fun _ => .pure _
  · exact .pure _

theorem orderly_enqueue_iff (costs : ∀ calls launch, Orderly (b.cost calls launch))
    (fits : PlanFits b.properties plan) (sorts : PlanSorts problem plan) (waitFor : List Event)
    (r : Recorder) :
    Orderly (exec (enqueue b plan args waitFor) r).1 ↔ ¬ (ValidArgs problem args ∧
      2 ^ 64 ≤ plan.geometry.tileLength * plan.geometry.scanBlocks.toNat) := by
  unfold enqueue
  rcases hargs : checkArgs plan args with f | bits
  · -- Arguments that are refused never come to the sizes.
    have invalid : ¬ ValidArgs problem args := fun valid => by
      obtain ⟨bits, h⟩ := sorts.checkArgs_eq_ok.2 valid
      rw [hargs] at h
      cases h
    obtain ⟨message, rfl⟩ := refuses_checkArgs f hargs
    exact iff_of_true (.error _) fun h => invalid h.1
  · have valid := sorts.checkArgs_eq_ok.1 ⟨bits, hargs⟩
    obtain ⟨temp, r₁, htemp, -⟩ := @exists_temporaries b _ _ _ sorts valid r
    rw [exec_attempt_bind_of_ok rfl, exec_bind_of_ok htemp, CrashFree.orderly_exec_bind,
      exec_attempt, orderly_shapeOf_iff fits valid.pos valid.fits]
    · exact not_congr ⟨fun h => ⟨valid, h⟩, And.right⟩
    · -- Once there are sizes, commands are enqueued, and nothing is computed any more.
      intro shape
      refine .bind (crashFree_enqueuePasses costs shape _ _ _ _) fun sorted => ?_
      split
      · exact .pure _
      · exact .bind (crashFree_enqueueCopies _ _ _) fun _ => .pure _

/-- With valid arguments an execution comes to the sizes. -/
theorem exec_enqueue_of_ge (sorts : PlanSorts problem plan) (valid : ValidArgs problem args)
    (h : 2 ^ 64 ≤ plan.geometry.tileLength * plan.geometry.scanBlocks.toNat)
    (waitFor : List Event) (r : Recorder) :
    ∃ r', exec (enqueue b plan args waitFor) r =
      (.error (.ofFault .multiplicationOverflow), r') := by
  obtain ⟨bits, hargs⟩ := sorts.checkArgs_eq_ok.2 valid
  obtain ⟨temp, r₁, htemp, -⟩ := @exists_temporaries b _ _ _ sorts valid r
  have hshape : exec (Device.attempt (shapeOf plan args.elements)) r₁ =
      (.error (.ofFault .multiplicationOverflow), r₁) := by
    rw [exec_attempt, shapeOf_eq_error _ h]
  refine ⟨r₁, ?_⟩
  unfold enqueue
  rw [exec_attempt_bind_of_ok hargs, exec_bind_of_ok htemp, exec_bind_of_error hshape]

/-- **Crashes of radix sorts.** Every plan computes its sizes by the arithmetic above, and an
execution crashes just where the arguments are valid and the tiles of all blocks together exceed a
word. -/
theorem orderly_execute_iff (costs : ∀ calls launch, Orderly (b.cost calls launch)) :
    (∀ problem p plan r r', exec (build b problem p) r = (.ok plan, r') →
      ∀ elements : Word, 1 ≤ elements.toNat → FitsArgument elements.toNat →
        plan.geometry.Arithmetic elements) ∧
    ∀ problem plan keys values, Algorithm.Constructs (primitive b) problem plan →
      ∀ (β : Type) (a : ReadyAlgorithm RadixsortProblem RadixsortPlan β),
        a.plan = setTemporaries keys values plan → ∀ args waitFor r,
          (Orderly (exec (Algorithm.execute (primitive b) args waitFor (.ready a)) r).1 ↔
            ¬ (ValidArgs problem args ∧
              2 ^ 64 ≤ plan.geometry.tileLength * plan.geometry.scanBlocks.toNat)) := by
  constructor
  · intro problem p plan r r' built elements hpos helements
    have fits := planFits_of_build built
    exact RadixsortGeometry.arithmetic fits.geometry fits.slices_dvd hpos helements
  · intro problem plan keys values constructs β a ha args waitFor r
    obtain ⟨valid, p, d, d', built⟩ := Algorithm.built_of_constructs constructs
    have fits := (planFits_of_build built).setTemporaries keys values
    have sorts := (planSorts_of_build valid built).setTemporaries keys values
    unfold Algorithm.execute
    rw [exec_bind_of_ok (Algorithm.exec_get_ready a _ r), CrashFree.orderly_exec_bind, ha]
    · show Orderly (exec (enqueue b _ args waitFor >>= fun events => pure (events, ())) r).1 ↔ _
      rw [CrashFree.orderly_exec_bind fun _ => .pure _]
      exact orderly_enqueue_iff costs fits sorts waitFor r
    · rintro ⟨events, output⟩
      dsimp only
      split
      · exact .pure _
      · exact fun _ => .error _

/-- On a small graphics device a sort of pairs with ordinary sizes is exact and never crashes. -/
theorem orderly_execute_small :
    let b := Backend.steady Backend.gpuProperties
    let uint : ElemType := ⟨.uint, 1, by decide⟩
    (∀ calls launch, Orderly (b.cost calls launch)) ∧
    Algorithm.Constructs (primitive b) ⟨uint, uint⟩ smallPlan ∧
    smallPlan.geometry.Arithmetic 1024 ∧ smallPlan.geometry.sizes? 1024 = .ok (128, 8) ∧
    ∀ (β : Type) (a : ReadyAlgorithm RadixsortProblem RadixsortPlan β), a.plan = smallPlan →
      ∀ args waitFor r,
        Orderly (exec (Algorithm.execute (primitive b) args waitFor (.ready a)) r).1 := by
  intro b uint
  have costs (calls : Nat) (launch : LaunchRecord) : Orderly (b.cost calls launch) := .ok _
  obtain ⟨arithmetic, executes⟩ := orderly_execute_iff costs
  refine ⟨costs, constructs_small, arithmetic _ _ _ _ _ build_steady 1024 (by decide) (by decide),
    by decide, fun β a ha args waitFor r => ?_⟩
  refine (executes _ smallPlan none none constructs_small β a ha args waitFor r).2 fun h => ?_
  exact absurd h.2 (by decide)

/-- The sizes of a small geometry, with a work scale that makes a tile of `2^63` elements. -/
def oversizedGeometry : RadixsortGeometry :=
  { smallGeometry with scatterWorkScale := 0x400000000000000 }

/-- A plan with such tiles is built. The tiles of its eight blocks exceed a word, and sorting a
thousand pairs crashes. -/
theorem crashes_oversized :
    let b := Backend.ofProperties Backend.gpuProperties
    let uint : ElemType := ⟨.uint, 1, by decide⟩
    ∃ plan, Algorithm.Constructs (primitive b) ⟨uint, uint⟩ plan ∧
      plan.geometry = oversizedGeometry ∧ ValidArgs ⟨uint, uint⟩ smallArgs ∧
      ∀ (β : Type) (a : ReadyAlgorithm RadixsortProblem RadixsortPlan β), a.plan = plan →
        ∀ waitFor r, ∃ r', exec (Algorithm.execute (primitive b) smallArgs waitFor (.ready a)) r =
          (.error (.ofFault .multiplicationOverflow), r') := by
  intro b uint
  let p := Parameter.withWarpSizes oversizedGeometry.toParameters Backend.gpuProperties
  have warps : p.HasWarpSizes b.properties := Parameter.checkWarpSizes_eq_ok.1 (by decide +kernel)
  have accepted : RadixsortGeometry.ofParameters b.properties p = .ok oversizedGeometry := by
    decide +kernel
  have fits : Fits b.properties ⟨uint, uint⟩ p :=
    ⟨warps, oversizedGeometry, RadixsortGeometry.ofParameters_eq_ok.1 accepted⟩
  -- Only the geometry is evaluated. The plan with its buffers exists because it fits.
  obtain ⟨plan, r₀, built⟩ := exists_build_of_fits (b := b) (fun _ _ => rfl) fits .start
  have geometry : plan.geometry = oversizedGeometry :=
    Except.ok.inj ((builtFrom_of_build built).geometry.symm.trans accepted)
  have sorts := planSorts_of_build validate_small built
  have args : ValidArgs ⟨uint, uint⟩ smallArgs := by
    refine ⟨by decide, by decide, ⟨by decide, rfl⟩, rfl, ?_, by decide⟩
    intro buffer h
    cases h
    exact ⟨by decide, rfl⟩
  have exceeds : 2 ^ 64 ≤ plan.geometry.tileLength * plan.geometry.scanBlocks.toNat :=
    geometry ▸ by decide
  have constructs : Algorithm.Constructs (primitive b) ⟨uint, uint⟩ plan :=
    Algorithm.constructs_of_built validate_small (isEmpty_candidates validate_small) built
  refine ⟨plan, constructs, geometry, args, ?_⟩
  rintro β a rfl waitFor r
  obtain ⟨r', run⟩ := exec_enqueue_of_ge (b := b) sorts args exceeds waitFor r
  exact ⟨r', Algorithm.exec_execute_of_error (exec_bind_of_error run)⟩

end Radixsort

end KernelTuning
