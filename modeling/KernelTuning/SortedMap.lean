/-!
# Sorted maps

A `SortedMap` holds each key once, in increasing order, so that two maps with the same bindings
are equal, print alike and are listed alike.

The order is a field of the type. `insert` keeps it because inserting into an ordered list puts
nothing before a smaller key (`Ordered.put`), and `erase` because it only leaves keys out.

**Names.** A `NameMap` has strings as keys. They compare character by character on code points,
which is the order of their UTF-8 bytes.
-/

namespace KernelTuning

/-- A strict order in which any two different values compare. -/
class StrictTotal (κ : Type) [LT κ] : Prop where
  trans : ∀ {a b c : κ}, a < b → b < c → a < c
  irrefl : ∀ a : κ, ¬ a < a
  eq_of_not_lt : ∀ {a b : κ}, ¬ a < b → ¬ b < a → a = b

instance : StrictTotal String where
  trans := String.lt_trans
  irrefl := String.lt_irrefl
  eq_of_not_lt h₁ h₂ := String.le_antisymm (String.not_lt.1 h₂) (String.not_lt.1 h₁)

instance : StrictTotal (List String) where
  trans := List.lt_trans
  irrefl := List.lt_irrefl
  eq_of_not_lt h₁ h₂ := List.le_antisymm (List.not_lt.1 h₂) (List.not_lt.1 h₁)

namespace SortedMap

variable {κ β : Type} [LT κ]

/-- The keys of a list of bindings strictly increase. -/
def Ordered (l : List (κ × β)) : Prop := l.Pairwise (·.1 < ·.1)

variable [DecidableLT κ] [DecidableEq κ]

/-- Binds a key in an ordered list, in its place or over its former value. -/
def put (key : κ) (value : β) : List (κ × β) → List (κ × β)
  | [] => [(key, value)]
  | (k, v) :: rest =>
    if key < k then (key, value) :: (k, v) :: rest
    else if key = k then (key, value) :: rest
    else (k, v) :: put key value rest

theorem mem_put {key : κ} {value : β} {b : κ × β} :
    ∀ {l : List (κ × β)}, b ∈ put key value l → b = (key, value) ∨ b ∈ l
  | [], h => by simpa [put] using h
  | (k, v) :: rest, h => by
    unfold put at h
    split at h
    · simpa using h
    · split at h
      · rcases List.mem_cons.1 h with h | h
        · exact .inl h
        · exact .inr (List.mem_cons_of_mem _ h)
      · rcases List.mem_cons.1 h with h | h
        · exact .inr (h ▸ List.mem_cons_self)
        · exact (mem_put h).imp_right (List.mem_cons_of_mem _)

theorem Ordered.put [StrictTotal κ] {key : κ} {value : β} :
    ∀ {l : List (κ × β)}, Ordered l → Ordered (put key value l)
  | [], _ => by simp [SortedMap.put, Ordered]
  | (k, v) :: rest, h => by
    have hrest : Ordered rest := (List.pairwise_cons.1 h).2
    have hk := (List.pairwise_cons.1 h).1
    unfold SortedMap.put
    split
    · rename_i hlt
      refine List.pairwise_cons.2 ⟨fun b hb => ?_, h⟩
      rcases List.mem_cons.1 hb with hb | hb
      · exact hb ▸ hlt
      · exact StrictTotal.trans hlt (hk b hb)
    · split
      · rename_i heq
        exact List.pairwise_cons.2 ⟨fun b hb => heq ▸ hk b hb, hrest⟩
      · rename_i hlt hne
        refine List.pairwise_cons.2 ⟨fun b hb => ?_, Ordered.put hrest⟩
        rcases mem_put hb with rfl | hb
        · exact Classical.byContradiction fun h => hne (StrictTotal.eq_of_not_lt hlt h)
        · exact hk b hb

end SortedMap

/-- A finite map with its keys in increasing order. -/
structure SortedMap (κ β : Type) [LT κ] where
  entries : List (κ × β)
  ordered : SortedMap.Ordered entries

/-- A finite map from names to values. -/
abbrev NameMap (β : Type) := SortedMap String β

namespace SortedMap

variable {κ β : Type} [LT κ]

def empty : SortedMap κ β := ⟨[], List.Pairwise.nil⟩

instance : EmptyCollection (SortedMap κ β) := ⟨empty⟩

instance : Inhabited (SortedMap κ β) := ⟨empty⟩

/-- The bindings in increasing order of their keys. -/
def toList (m : SortedMap κ β) : List (κ × β) := m.entries

/-- The keys in increasing order. -/
def keys (m : SortedMap κ β) : List κ := m.entries.map (·.1)

def size (m : SortedMap κ β) : Nat := m.entries.length

def isEmpty (m : SortedMap κ β) : Bool := m.entries.isEmpty

variable [DecidableEq κ]

instance [DecidableEq β] : DecidableEq (SortedMap κ β) := fun a b =>
  decidable_of_iff (a.entries = b.entries) (by cases a; cases b; simp)

/-- The value of a key. -/
def get? (m : SortedMap κ β) (key : κ) : Option β := m.entries.lookup key

/-- The map without a key. -/
def erase (m : SortedMap κ β) (key : κ) : SortedMap κ β :=
  ⟨m.entries.filter (fun b => b.1 ≠ key), m.ordered.filter _⟩

variable [DecidableLT κ] [StrictTotal κ]

/-- Binds a key, over its former value if there is one. -/
def insert (m : SortedMap κ β) (key : κ) (value : β) : SortedMap κ β :=
  ⟨put key value m.entries, m.ordered.put⟩

/-- Binds the keys of a list in turn, so that a later binding replaces an earlier one. -/
def insertMany (m : SortedMap κ β) (bindings : List (κ × β)) : SortedMap κ β :=
  bindings.foldl (fun m b => m.insert b.1 b.2) m

def ofList (bindings : List (κ × β)) : SortedMap κ β := empty.insertMany bindings

end SortedMap

end KernelTuning
