import KernelTuning.Batch
import KernelTuning.Proofs.CrashFree
import Mathlib.Data.List.Nodup

/-!
# The targets of a device

`Target.all` lists what a device supports, and each canonical form once.

**Support.** A target is supported if the check of its own primitive succeeds. The check crashes
only for scans, on devices so large that twice their work group exceeds a word
(`orderly_validate_iff`); an unsupported target is otherwise one that is refused.

**Order.** Of the supported targets with one canonical form the first is listed. The others need
not be supported alike: values of one storage size are tuned alike, and a device may be able to
store some of them only. So targets are checked before those of one form are left out, and the
form of every supported target remains.

**Theorem** (`lists_supported`). On every device that has limits, each listed target is supported,
no two have one canonical form, and every supported target over any element types has the form of
exactly one. On any other device there is no list, because scans of integers are among the targets
that are checked.
-/

namespace KernelTuning

/-! ## Element types -/

/-- Every type but the sentinel is listed. -/
theorem ElemType.mem_all {t : ElemType} (h : t.isVoid = false) : t ∈ all := by
  obtain ⟨base, length, valid⟩ := t
  have hbase : base ≠ .void := by simpa [isVoid] using h
  rw [if_neg hbase] at valid
  refine List.mem_flatMap.2 ⟨base, ?_, List.mem_filterMap.2 ⟨length, valid, ?_⟩⟩
  · cases base <;> first | exact absurd rfl hbase | decide
  · simp [vector, hbase, valid, Except.toOption]

theorem ElemType.eq_void {t : ElemType} (h : t.isVoid = true) : t = void := by
  obtain ⟨base, length, valid⟩ := t
  have hbase : base = .void := by simpa [isVoid] using h
  subst hbase
  rw [if_pos rfl] at valid
  subst valid
  rfl

namespace Target

variable {d : DeviceProperties}

/-! ## Support -/

/-- The check of a target comes to the limits of a scan. -/
def NeedsLimits (d : DeviceProperties) : Target → Prop
  | scan problem => (problem.elem.isIntegral && problem.elem.isComputable d
      && problem.elem.isStorable d) = true
  | reduce _ | radixsort _ => False

/-- **The check of a target crashes** if it needs limits that the device does not have. -/
theorem orderly_validate_iff {t : Target} :
    Orderly (t.validate d) ↔ (t.NeedsLimits d → d.HasLimits) := by
  cases t with
  | scan problem => exact Scan.orderly_validate_iff
  | reduce problem => exact iff_of_true (Reduce.orderly_validate d problem) nofun
  | radixsort problem => exact iff_of_true (Radixsort.orderly_validate d problem) nofun

theorem validate_of_not_hasLimits {t : Target} (h : ¬ d.HasLimits) (needs : t.NeedsLimits d) :
    t.validate d = .error (.ofFault .multiplicationOverflow) := by
  cases t with
  | scan problem =>
    show (Attempt.ensure _ _ >>= fun _ => ScanGeometry.default d problem.elem >>= fun _ => _) = _
    rw [Attempt.ensure_eq_ok.2 needs, ScanGeometry.default, ScanGeometry.limits?_of_not_hasLimits h]
    rfl
  | reduce problem | radixsort problem => cases needs

theorem isSupported_of_orderly {t : Target} (h : Orderly (t.validate d)) :
    isSupported d t = .ok (decide (t.validate d = .ok ())) := by
  unfold isSupported
  rcases h.ok_or_error with ⟨⟨⟩, hvalid⟩ | ⟨e, hinvalid⟩
  · rw [hvalid]
    rfl
  · rw [hinvalid]
    rfl

theorem isSupported_of_not_hasLimits {t : Target} (h : ¬ d.HasLimits) (needs : t.NeedsLimits d) :
    isSupported d t = .error (.ofFault .multiplicationOverflow) := by
  rw [isSupported, validate_of_not_hasLimits h needs]
  rfl

/-! ## Everything that a device may support -/

theorem scan_mem_everything {problem : ScanProblem} (h : problem.elem.isVoid = false) :
    scan problem ∈ everything :=
  List.mem_append_left _ (List.mem_append_left _
    (List.mem_map.2 ⟨problem.elem, ElemType.mem_all h, rfl⟩))

theorem reduce_mem_everything {problem : ReduceProblem} (h : problem.elem.isVoid = false) :
    reduce problem ∈ everything :=
  List.mem_append_left _ (List.mem_append_right _
    (List.mem_map.2 ⟨problem.elem, ElemType.mem_all h, rfl⟩))

theorem radixsort_mem_everything {problem : RadixsortProblem} (hkey : problem.key ∈ keyTypes) :
    radixsort problem ∈ everything := by
  refine List.mem_append_right _ (List.mem_flatMap.2 ⟨problem.value, ?_,
    List.mem_map.2 ⟨problem.key, hkey, rfl⟩⟩)
  cases hvalue : problem.value.isVoid
  · exact List.mem_cons_of_mem _ (ElemType.mem_all hvalue)
  · rw [ElemType.eq_void hvalue]
    exact List.mem_cons_self

/-- The unsigned scalar integer types are those of keys. -/
theorem mem_keyTypes {key : ElemType} (integral : key.isIntegral = true)
    (unsigned : key.isSigned = false) (scalar : key.length = 1) : key ∈ keyTypes := by
  obtain ⟨base, length, valid⟩ := key
  have hbase : base.isIntegral = true → base.isSigned = false →
      base ∈ [BaseType.uchar, .ushort, .uint, .ulong] := by
    cases base <;> decide
  have hscalar : (ElemType.scalar base).toOption = some ⟨base, length, valid⟩ := by
    have hne : base ≠ .void := by
      rintro rfl
      cases integral
    subst scalar
    simp [ElemType.scalar, ElemType.vector, hne, vectorLengths, Except.toOption]
  exact List.mem_filterMap.2 ⟨base, hbase integral unsigned, hscalar⟩

theorem key_mem_of_validate {problem : RadixsortProblem}
    (h : Radixsort.validate d problem = .ok ()) : problem.key ∈ keyTypes := by
  simp only [Radixsort.validate, Attempt.ensure_bind_eq_ok, Bool.and_eq_true, Bool.not_eq_true',
    decide_eq_true_eq] at h
  obtain ⟨⟨⟨⟨⟨integral, unsigned⟩, scalar⟩, -⟩, -⟩, -⟩ := h
  exact mem_keyTypes integral unsigned scalar

theorem mem_everything {t : Target} (h : t.validate d = .ok ()) : t ∈ everything := by
  cases t with
  | scan problem => exact scan_mem_everything (Scan.not_isVoid_of_validate h)
  | reduce problem => exact reduce_mem_everything (Reduce.not_isVoid_of_validate h)
  | radixsort problem => exact radixsort_mem_everything (key_mem_of_validate h)

/-! ## One target for each canonical form -/

/-- Adds a target unless an earlier one stands for it. -/
def keepFirst (acc : List Target × List Target) (t : Target) : List Target × List Target :=
  if t.canonical ∈ acc.2 then acc else (t :: acc.1, t.canonical :: acc.2)

theorem distinct_eq (l : List Target) : distinct l = (l.foldl keepFirst ([], [])).1.reverse := rfl

/-- The targets kept of a list so far, and their canonical forms. -/
structure Keeps (l : List Target) (acc : List Target × List Target) : Prop where
  forms : acc.2 = acc.1.map canonical
  subset : acc.1 ⊆ l
  distinct : acc.2.Nodup
  covers : ∀ t ∈ l, t.canonical ∈ acc.2

theorem Keeps.step {l : List Target} {acc : List Target × List Target} (h : Keeps l acc)
    (t : Target) : Keeps (l ++ [t]) (keepFirst acc t) := by
  unfold keepFirst
  split
  · rename_i hseen
    refine ⟨h.forms, fun x hx => List.mem_append_left _ (h.subset hx), h.distinct, ?_⟩
    intro x hx
    rcases List.mem_append.1 hx with hx | hx
    · exact h.covers x hx
    · rw [List.mem_singleton.1 hx]
      exact hseen
  · rename_i hnew
    refine ⟨by rw [h.forms, List.map_cons], ?_, List.nodup_cons.2 ⟨hnew, h.distinct⟩, ?_⟩
    · intro x hx
      rcases List.mem_cons.1 hx with rfl | hx
      · exact List.mem_append_right _ (List.mem_singleton_self x)
      · exact List.mem_append_left _ (h.subset hx)
    · intro x hx
      rcases List.mem_append.1 hx with hx | hx
      · exact List.mem_cons_of_mem _ (h.covers x hx)
      · rw [List.mem_singleton.1 hx]
        exact List.mem_cons_self

theorem Keeps.run {l : List Target} {acc : List Target × List Target} (h : Keeps l acc)
    (rest : List Target) : Keeps (l ++ rest) (rest.foldl keepFirst acc) := by
  induction rest generalizing l acc with
  | nil => rwa [List.append_nil]
  | cons t rest ih =>
    rw [List.foldl_cons, List.append_cons]
    exact ih (h.step t)

theorem keeps_distinct (l : List Target) : Keeps l (l.foldl keepFirst ([], [])) := by
  have start : Keeps [] ([], []) := ⟨rfl, List.nil_subset _, List.nodup_nil, nofun⟩
  exact start.run l

theorem mem_of_mem_distinct {l : List Target} {t : Target} (h : t ∈ distinct l) : t ∈ l := by
  rw [distinct_eq, List.mem_reverse] at h
  exact (keeps_distinct l).subset h

theorem nodup_canonical_distinct (l : List Target) : ((distinct l).map canonical).Nodup := by
  have h := keeps_distinct l
  rw [distinct_eq, List.map_reverse, List.nodup_reverse, ← h.forms]
  exact h.distinct

theorem canonical_mem_distinct {l : List Target} {t : Target} (h : t ∈ l) :
    t.canonical ∈ (distinct l).map canonical := by
  have hk := keeps_distinct l
  rw [distinct_eq, List.map_reverse, List.mem_reverse, ← hk.forms]
  exact hk.covers t h

/-! ## The list of a device -/

/-- What is checked without a crash is filtered. -/
theorem filterM_of_ok {α ε : Type} {p : α → Except ε Bool} {q : α → Bool} {l : List α}
    (h : ∀ a ∈ l, p a = .ok (q a)) : l.filterM p = .ok (l.filter q) := by
  -- The filter collects what it keeps in reverse, so the induction is over all that it may hold.
  suffices haux : ∀ acc, l.filterAuxM p acc = .ok ((l.filter q).reverse ++ acc) by
    rw [List.filterM, haux, except_ok_bind, List.append_nil, List.reverse_reverse]
    rfl
  induction l with
  | nil => exact fun _ => rfl
  | cons a l ih =>
    intro acc
    obtain ⟨ha, hl⟩ := List.forall_mem_cons.1 h
    rw [List.filterAuxM, ha, except_ok_bind, ih hl]
    cases hq : q a
    · rw [List.filter_cons_of_neg (by simp [hq])]
      rfl
    · rw [List.filter_cons_of_pos hq, List.reverse_cons, List.append_assoc]
      rfl

/-- A single way to fail is how the filter fails. -/
theorem filterM_of_error {α ε : Type} {p : α → Except ε Bool} {e : ε} {l : List α}
    (single : ∀ a ∈ l, p a = .error e ∨ ∃ keep, p a = .ok keep)
    (failing : ∃ a ∈ l, p a = .error e) :
    l.filterM p = .error e := by
  suffices haux : ∀ acc, l.filterAuxM p acc = .error e by
    rw [List.filterM, haux]
    rfl
  induction l with
  | nil =>
    obtain ⟨_, hmem, _⟩ := failing
    cases hmem
  | cons a l ih =>
    intro acc
    obtain ⟨ha, hl⟩ := List.forall_mem_cons.1 single
    rcases ha with ha | ⟨keep, ha⟩
    · rw [List.filterAuxM, ha]
      rfl
    · rw [List.filterAuxM, ha, except_ok_bind]
      refine ih hl ?_ _
      obtain ⟨a', hmem, ha'⟩ := failing
      rcases List.mem_cons.1 hmem with rfl | hmem
      · rw [ha] at ha'
        cases ha'
      · exact ⟨a', hmem, ha'⟩

/-- The supported targets, where they are listed. -/
def supported (d : DeviceProperties) : List Target :=
  distinct (everything.filter fun t => t.validate d = .ok ())

theorem all_of_hasLimits (h : d.HasLimits) : all d = .ok (supported d) := by
  rw [all, filterM_of_ok fun t _ => isSupported_of_orderly (orderly_validate_iff.2 fun _ => h)]
  rfl

/-- Integers can be computed with and stored on every device. -/
theorem needsLimits_uint (d : DeviceProperties) :
    (scan ⟨⟨.uint, 1, by decide⟩⟩).NeedsLimits d := by
  rfl

theorem all_of_not_hasLimits (h : ¬ d.HasLimits) :
    all d = .error (.ofFault .multiplicationOverflow) := by
  have hcrash : everything.filterM (isSupported d) = .error (.ofFault .multiplicationOverflow) := by
    refine filterM_of_error (fun t _ => ?_)
      ⟨_, scan_mem_everything rfl, isSupported_of_not_hasLimits h (needsLimits_uint d)⟩
    by_cases needs : t.NeedsLimits d
    · exact .inl (isSupported_of_not_hasLimits h needs)
    · exact .inr ⟨_, isSupported_of_orderly (orderly_validate_iff.2 fun h => absurd h needs)⟩
  rw [all, hcrash]
  rfl

theorem validate_of_mem_supported {t : Target} (h : t ∈ supported d) : t.validate d = .ok () :=
  of_decide_eq_true (List.mem_filter.1 (mem_of_mem_distinct h)).2

theorem nodup_canonical_supported (d : DeviceProperties) : ((supported d).map canonical).Nodup :=
  nodup_canonical_distinct _

/-- Each supported target has its form in the list. -/
theorem canonical_mem_supported {t : Target} (h : t.validate d = .ok ()) :
    t.canonical ∈ (supported d).map canonical :=
  canonical_mem_distinct (List.mem_filter.2 ⟨mem_everything h, decide_eq_true h⟩)

/-- A list holds what a device supports, each canonical form once. -/
structure ListsSupported (d : DeviceProperties) (l : List Target) : Prop where
  /-- The check of every listed target succeeds. -/
  supported : ∀ t ∈ l, t.validate d = .ok ()
  /-- No two targets of the list have one canonical form. -/
  distinct : l.Pairwise fun t t' => t.canonical ≠ t'.canonical
  /-- A target that the device supports has the form of exactly one listed target. -/
  complete : ∀ t : Target, t.validate d = .ok () →
    ∃! t', t' ∈ l ∧ t'.canonical = t.canonical

theorem listsSupported_supported (d : DeviceProperties) : ListsSupported d (supported d) := by
  refine ⟨fun t ht => validate_of_mem_supported ht,
    List.pairwise_map.1 (nodup_canonical_supported d), fun t ht => ?_⟩
  obtain ⟨t', ht', hform⟩ := List.mem_map.1 (canonical_mem_supported ht)
  refine ⟨t', ⟨ht', hform⟩, ?_⟩
  rintro t'' ⟨ht'', hform''⟩
  exact List.inj_on_of_nodup_map (nodup_canonical_supported d) ht'' ht' (hform''.trans hform.symm)

/-- **The targets of a device** are those that it supports, one for every canonical form, and what
is not among them is refused by an error. They are listed unless twice the work group of the device
exceeds a word. -/
theorem lists_supported (d : DeviceProperties) :
    (d.HasLimits → (∃ l, all d = .ok l ∧ ListsSupported d l) ∧
      ∀ t : Target, Orderly (t.validate d)) ∧
    (¬ d.HasLimits → all d = .error (.ofFault .multiplicationOverflow)) :=
  ⟨fun h => ⟨⟨_, all_of_hasLimits h, listsSupported_supported d⟩,
    fun _ => orderly_validate_iff.2 fun _ => h⟩, all_of_not_hasLimits⟩

/-- The targets of a small graphics device, and of one with the largest work groups that have a
list. -/
theorem lists_supported_gpu :
    let largest := { Backend.gpuProperties with maxWorkGroupSize := 9223372036854775807 }
    (∃ l, all Backend.gpuProperties = .ok l ∧ ListsSupported Backend.gpuProperties l) ∧
      ∃ l, all largest = .ok l ∧ ListsSupported largest l :=
  ⟨((lists_supported Backend.gpuProperties).1 (by decide)).1,
    ((lists_supported _).1 (by decide)).1⟩

/-- A work group of `2^63` items is a word, and twice as many are not. -/
theorem crashes_unlimited :
    let unlimited := { Backend.gpuProperties with maxWorkGroupSize := 9223372036854775808 }
    ¬ ∃ l, all unlimited = .ok l ∧ ListsSupported unlimited l := by
  intro unlimited
  rintro ⟨l, hl, -⟩
  rw [all_of_not_hasLimits (by decide)] at hl
  cases hl

end Target

end KernelTuning
