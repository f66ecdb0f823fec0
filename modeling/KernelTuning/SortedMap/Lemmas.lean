import KernelTuning.SortedMap

/-!
# Looking up keys of sorted maps

What `insert` and `erase` do to the values that `get?` sees, and which keys a map has. A map is the
list of its own bindings (`ofList_toList`).
-/

namespace KernelTuning.SortedMap

variable {κ β : Type} [LT κ] [DecidableEq κ]

@[simp] theorem get?_empty (key : κ) : (empty : SortedMap κ β).get? key = none := rfl

omit [LT κ] in
theorem lookup_cons (key k : κ) (v : β) (l : List (κ × β)) :
    ((k, v) :: l).lookup key = if key = k then some v else l.lookup key := by
  rw [List.lookup_cons]
  by_cases h : key = k
  · simp [h]
  · simp [h, beq_eq_false_iff_ne.2 h]

omit [LT κ] in
theorem mem_of_lookup {key : κ} {v : β} {l : List (κ × β)} (h : l.lookup key = some v) :
    (key, v) ∈ l := by
  induction l with
  | nil => simp at h
  | cons b rest ih =>
    obtain ⟨k, w⟩ := b
    rw [lookup_cons] at h
    split at h
    · obtain rfl := Option.some.inj h
      simp_all
    · exact List.mem_cons_of_mem _ (ih h)

omit [LT κ] in
theorem lookup_filter_ne (key key' : κ) (l : List (κ × β)) :
    (l.filter (fun b => b.1 ≠ key)).lookup key' = if key' = key then none else l.lookup key' := by
  induction l with
  | nil => simp
  | cons b rest ih =>
    obtain ⟨k, v⟩ := b
    by_cases hk : k = key
    · rw [List.filter_cons_of_neg (by simp [hk]), ih, lookup_cons]
      grind
    · rw [List.filter_cons_of_pos (by simp [hk]), lookup_cons, lookup_cons, ih]
      grind

theorem get?_erase (m : SortedMap κ β) (key key' : κ) :
    (m.erase key).get? key' = if key' = key then none else m.get? key' :=
  lookup_filter_ne key key' m.entries

variable [DecidableLT κ]

theorem lookup_put (key key' : κ) (value : β) (l : List (κ × β)) :
    (put key value l).lookup key' = if key' = key then some value else l.lookup key' := by
  induction l with
  | nil => exact lookup_cons key' key value []
  | cons b rest ih =>
    obtain ⟨k, v⟩ := b
    unfold put
    split
    · rw [lookup_cons]
    · split <;> simp only [lookup_cons, ih] <;> grind

variable [StrictTotal κ]

theorem get?_insert (m : SortedMap κ β) (key key' : κ) (value : β) :
    (m.insert key value).get? key' = if key' = key then some value else m.get? key' :=
  lookup_put key key' value m.entries

@[simp] theorem get?_insert_self (m : SortedMap κ β) (key : κ) (value : β) :
    (m.insert key value).get? key = some value := by simp [get?_insert]

theorem get?_insert_of_ne (m : SortedMap κ β) {key key' : κ} (value : β) (h : key' ≠ key) :
    (m.insert key value).get? key' = m.get? key' := by simp [get?_insert, h]

/-- Keys that are not bound by a list keep their values. -/
theorem get?_insertMany_of_not_mem {key : κ} {l : List (κ × β)} (h : key ∉ l.map (·.1)) :
    ∀ m : SortedMap κ β, (m.insertMany l).get? key = m.get? key := by
  induction l with
  | nil => exact fun _ => rfl
  | cons b l ih =>
    intro m
    rw [List.map_cons, List.mem_cons, not_or] at h
    show ((m.insert b.1 b.2).insertMany l).get? key = _
    rw [ih h.2, get?_insert_of_ne m b.2 h.1]

/-- A list that binds no key twice gives its values. -/
theorem get?_insertMany_of_mem {key : κ} {value : β} {l : List (κ × β)}
    (nodup : (l.map (·.1)).Nodup) (h : (key, value) ∈ l) :
    ∀ m : SortedMap κ β, (m.insertMany l).get? key = some value := by
  induction l with
  | nil => cases h
  | cons b l ih =>
    intro m
    rw [List.map_cons, List.nodup_cons] at nodup
    show ((m.insert b.1 b.2).insertMany l).get? key = _
    rcases List.mem_cons.1 h with rfl | h
    · rw [get?_insertMany_of_not_mem nodup.1, get?_insert_self]
    · exact ih nodup.2 h _

/-! ## Bindings in order -/

omit [DecidableEq κ] [DecidableLT κ] in
theorem lt_asymm {a b : κ} (h : a < b) : ¬ b < a :=
  fun h' => StrictTotal.irrefl a (StrictTotal.trans h h')

/-- A key above all others goes to the end. -/
theorem put_of_forall_lt {key : κ} {value : β} {l : List (κ × β)} (h : ∀ b ∈ l, b.1 < key) :
    put key value l = l ++ [(key, value)] := by
  induction l with
  | nil => rfl
  | cons b rest ih =>
    obtain ⟨k, v⟩ := b
    have hk : k < key := h (k, v) (by simp)
    have hne : key ≠ k := by
      rintro rfl
      exact StrictTotal.irrefl key hk
    unfold put
    rw [if_neg (lt_asymm hk), if_neg hne, ih fun b hb => h b (by simp [hb])]
    rfl

/-- Binding a key to its own value changes nothing. -/
theorem put_of_lookup {key : κ} {value : β} {l : List (κ × β)} (ordered : Ordered l)
    (h : l.lookup key = some value) : put key value l = l := by
  induction l with
  | nil => cases h
  | cons b rest ih =>
    obtain ⟨k, v⟩ := b
    obtain ⟨hk, hrest⟩ := List.pairwise_cons.1 ordered
    rw [lookup_cons] at h
    unfold put
    by_cases heq : key = k
    · rw [if_pos heq] at h
      obtain rfl := Option.some.inj h
      rw [if_neg (heq ▸ StrictTotal.irrefl key), if_pos heq, heq]
    · rw [if_neg heq] at h
      have hlt : k < key := hk _ (mem_of_lookup h)
      rw [if_neg (lt_asymm hlt), if_neg heq, ih hrest h]

theorem insert_of_get? {m : SortedMap κ β} {key : κ} {value : β}
    (h : m.get? key = some value) : m.insert key value = m := by
  obtain ⟨entries, ordered⟩ := m
  unfold insert
  congr 1
  exact put_of_lookup ordered h

theorem entries_insertMany {l : List (κ × β)} :
    ∀ {m : SortedMap κ β}, Ordered (m.entries ++ l) →
      (m.insertMany l).entries = m.entries ++ l := by
  induction l with
  | nil =>
    intro m _
    simp [insertMany]
  | cons b rest ih =>
    intro m h
    have hbelow : ∀ c ∈ m.entries, c.1 < b.1 :=
      fun c hc => (List.pairwise_append.1 h).2.2 c hc b (by simp)
    have hentries : (m.insert b.1 b.2).entries = m.entries ++ [b] := put_of_forall_lt hbelow
    have hrest : Ordered ((m.insert b.1 b.2).entries ++ rest) := by
      rw [hentries, List.append_assoc]
      exact h
    show ((m.insert b.1 b.2).insertMany rest).entries = _
    rw [ih hrest, hentries, List.append_assoc]
    rfl

/-! ## Keys -/

omit [DecidableLT κ] in
theorem get?_eq_some {m : SortedMap κ β} {key : κ} {value : β} :
    m.get? key = some value ↔ (key, value) ∈ m.entries := by
  refine ⟨mem_of_lookup, fun h => ?_⟩
  obtain ⟨entries, ordered⟩ := m
  show entries.lookup key = some value
  induction entries with
  | nil => cases h
  | cons b rest ih =>
    obtain ⟨hb, hrest⟩ := List.pairwise_cons.1 ordered
    obtain ⟨k, v⟩ := b
    rw [lookup_cons]
    rcases List.mem_cons.1 h with h | h
    · cases h
      exact if_pos rfl
    · have hlt : k < key := hb _ h
      have hne : key ≠ k := by
        rintro rfl
        exact StrictTotal.irrefl key hlt
      rw [if_neg hne]
      exact ih hrest h

omit [DecidableLT κ] in
theorem mem_keys {m : SortedMap κ β} {key : κ} : key ∈ m.keys ↔ ∃ v, m.get? key = some v := by
  simp only [keys, List.mem_map, get?_eq_some, Prod.exists, exists_and_right, exists_eq_right]

omit [DecidableEq κ] [DecidableLT κ] [StrictTotal κ] in
theorem pairwise_keys (m : SortedMap κ β) : m.keys.Pairwise (· < ·) :=
  List.pairwise_map.2 m.ordered

omit [DecidableEq κ] [DecidableLT κ] in
theorem not_lt_trans {a b c : κ} (h : ¬ b < a) (h' : ¬ c < b) : ¬ c < a := by
  intro hca
  by_cases hab : a < b
  · exact h' (StrictTotal.trans hca hab)
  · obtain rfl := StrictTotal.eq_of_not_lt hab h
    exact h' hca

omit [DecidableEq κ] in
theorem pairwise_mergeSort (l : List κ) :
    (l.mergeSort fun a b => !decide (b < a)).Pairwise fun a b => ¬ b < a := by
  refine (List.pairwise_mergeSort (fun a b c h₁ h₂ => ?_) (fun a b => ?_) l).imp fun h => ?_
  · simp only [Bool.not_eq_true', decide_eq_false_iff_not] at h₁ h₂ ⊢
    exact not_lt_trans h₁ h₂
  · by_cases hlt : b < a
    · simp [hlt, lt_asymm hlt]
    · simp [hlt]
  · simpa using h

omit [DecidableEq κ] in
/-- A list without repetitions is sorted into strictly increasing order. -/
theorem pairwise_lt_mergeSort {l : List κ} (h : l.Nodup) :
    (l.mergeSort fun a b => !decide (b < a)).Pairwise (· < ·) := by
  refine (pairwise_mergeSort l).imp₂ (fun a b hle hne => ?_)
    ((List.mergeSort_perm l _).nodup_iff.2 h)
  exact Decidable.not_not.1 fun hlt => hne (StrictTotal.eq_of_not_lt hlt hle)

omit [DecidableEq κ] in
/-- The keys in any order are sorted into increasing order. -/
theorem mergeSort_eq_keys {m : SortedMap κ β} {l : List κ} (h : l.Perm m.keys) :
    l.mergeSort (fun a b => !decide (b < a)) = m.keys :=
  ((List.mergeSort_perm l _).trans h).eq_of_pairwise
    (fun _ _ _ _ h₁ h₂ => (StrictTotal.eq_of_not_lt h₁ h₂).symm)
    (pairwise_mergeSort l) (m.pairwise_keys.imp lt_asymm)

omit [DecidableLT κ] in
theorem eq_empty_of_get? {m : SortedMap κ β} (h : ∀ key, m.get? key = none) : m = ∅ := by
  obtain ⟨entries, ordered⟩ := m
  cases entries with
  | nil => rfl
  | cons b rest =>
    have hb := get?_eq_some.2 (show b ∈ (⟨b :: rest, ordered⟩ : SortedMap κ β).entries from
      List.mem_cons_self)
    rw [h] at hb
    cases hb

omit [DecidableLT κ] in
/-- A key that is not bound cannot be left out. -/
theorem erase_of_get? {m : SortedMap κ β} {key : κ} (h : m.get? key = none) : m.erase key = m := by
  obtain ⟨entries, ordered⟩ := m
  unfold erase
  congr 1
  refine List.filter_eq_self.2 fun b hb => decide_eq_true ?_
  rintro rfl
  rw [get?_eq_some.2 hb] at h
  cases h

omit [DecidableLT κ] [StrictTotal κ] in
theorem get?_foldl_erase (m : SortedMap κ β) (keys : List κ) (key : κ) :
    (keys.foldl erase m).get? key = if key ∈ keys then none else m.get? key := by
  induction keys generalizing m with
  | nil => rw [if_neg List.not_mem_nil, List.foldl_nil]
  | cons first rest ih =>
    rw [List.foldl_cons, ih, get?_erase]
    by_cases hfirst : key = first <;> by_cases hrest : key ∈ rest <;> simp [hfirst, hrest]

omit [DecidableLT κ] in
/-- Nothing is left without the keys. -/
theorem foldl_erase_eq_empty {m : SortedMap κ β} {keys : List κ}
    (h : ∀ key ∈ m.keys, key ∈ keys) : keys.foldl erase m = ∅ := by
  refine eq_empty_of_get? fun key => ?_
  rw [get?_foldl_erase]
  split
  · rfl
  · rename_i hkey
    rw [Option.eq_none_iff_forall_ne_some]
    exact fun value hvalue => hkey (h key (mem_keys.2 ⟨value, hvalue⟩))

/-! ## Lists of bindings -/

theorem ofList_toList (m : SortedMap κ β) : ofList m.toList = m := by
  obtain ⟨entries, ordered⟩ := m
  have h : (ofList entries).entries = entries := entries_insertMany (m := empty) ordered
  unfold toList
  rcases hm : ofList entries with ⟨entries', _⟩
  rw [hm] at h
  obtain rfl : entries' = entries := h
  rfl

end KernelTuning.SortedMap
