import Mathlib.Data.List.Sort
import KernelTuning.Proofs.ByteOrder
import KernelTuning.Proofs.Codecs

/-!
# Canonical sets of parameters

However a set of parameters is made, it depends only on the value that each name is given last. A
`Construction` says how: by setting values, by merging, and by reading JSON texts, in which a name
can be repeated.

* `given?`: the bindings of a construction in the order in which they are given.
* `lastGiven`: the value that bindings give a name last.
* `IsCanonical`: a set holds each name once, in the order of the bytes, with the value given last.

**Theorem (`isCanonical_build`).** Every set that a construction makes is the canonical one of its
bindings. Two constructions make the same set if and only if they give each name the same value
last, and also if and only if the JSON texts are the same; then the printed texts are the same as
well. Merging is associative, and takes a value from the first set only where the second has none.
-/

namespace KernelTuning

/-! ## Maps by their values -/

namespace SortedMap

variable {κ β : Type} [LT κ] [DecidableLT κ] [DecidableEq κ] [StrictTotal κ]

/-- After binding a list, a key has the value that the list binds it to last. -/
theorem get?_insertMany (m : SortedMap κ β) (l : List (κ × β)) (key : κ) :
    (m.insertMany l).get? key = (l.reverse.lookup key).or (m.get? key) := by
  induction l generalizing m with
  | nil => rfl
  | cons b l ih =>
    show ((m.insert b.1 b.2).insertMany l).get? key = _
    rw [ih, get?_insert, List.reverse_cons, List.lookup_append, lookup_cons, Option.or_assoc]
    split <;> rfl

omit [DecidableLT κ] in
/-- Maps with the same values are equal. -/
theorem ext_get? {m m' : SortedMap κ β} (h : ∀ key, m.get? key = m'.get? key) : m = m' := by
  have hirrefl : Std.Irrefl fun a b : κ × β => a.1 < b.1 := ⟨fun a => StrictTotal.irrefl a.1⟩
  have hantisymm : Std.Antisymm fun a b : κ × β => a.1 < b.1 :=
    ⟨fun _ _ hab hba => absurd hba (lt_asymm hab)⟩
  have hentries : m.entries = m'.entries :=
    m.ordered.eq_of_mem_iff m'.ordered fun b => by rw [← get?_eq_some, ← get?_eq_some, h]
  cases m
  cases m'
  congr

end SortedMap

namespace TuningParameters

variable {p q r : TuningParameters} {l m : List (String × ParamValue)}

/-! ## Bindings -/

/-- The value that bindings give a name last. -/
def lastGiven (l : List (String × ParamValue)) (name : String) : Option ParamValue :=
  l.reverse.lookup name

theorem lastGiven_append (l m : List (String × ParamValue)) (name : String) :
    lastGiven (l ++ m) name = (lastGiven m name).or (lastGiven l name) := by
  rw [lastGiven, List.reverse_append, List.lookup_append]
  rfl

theorem ext_get? (h : ∀ name, p.get? name = q.get? name) : p = q :=
  congrArg TuningParameters.mk (SortedMap.ext_get? h)

@[simp] theorem get?_ofList (l : List (String × ParamValue)) (name : String) :
    (ofList l).get? name = lastGiven l name :=
  (SortedMap.get?_insertMany _ l name).trans (Option.or_none)

@[simp] theorem ofList_toList (p : TuningParameters) : ofList p.toList = p :=
  congrArg TuningParameters.mk (SortedMap.ofList_toList p.values)

/-- A set gives its own values. -/
theorem lastGiven_toList (p : TuningParameters) (name : String) :
    lastGiven p.toList name = p.get? name := by
  rw [← get?_ofList, ofList_toList]

theorem get?_merged (p q : TuningParameters) (name : String) :
    (p.merged q).get? name = (q.get? name).or (p.get? name) := by
  rw [← lastGiven_toList q]
  exact SortedMap.get?_insertMany p.values q.toList name

theorem merged_assoc (p q r : TuningParameters) :
    (p.merged q).merged r = p.merged (q.merged r) := by
  refine ext_get? fun name => ?_
  rw [get?_merged, get?_merged, get?_merged, get?_merged, Option.or_assoc]

theorem ofList_append (l m : List (String × ParamValue)) :
    ofList (l ++ m) = (ofList l).merged (ofList m) := by
  refine ext_get? fun name => ?_
  rw [get?_merged, get?_ofList, get?_ofList, get?_ofList, lastGiven_append]

theorem ofList_concat (l : List (String × ParamValue)) (name : String) (value : ParamValue) :
    ofList (l ++ [(name, value)]) = (ofList l).set name value := by
  unfold ofList set SortedMap.ofList SortedMap.insertMany
  rw [List.foldl_concat]

/-! ## JSON texts -/

/-- The bindings of a JSON object in the order of its text, with every repetition. -/
def givenIn? (text : String) : Option (List (String × ParamValue)) := do
  let node ← Json.Node.ofBytes? (bytesOf text)
  let members ← node.members?
  members.mapM fun (name, value) => (Json.decode? value).map (name, ·)

/-- A JSON object with the bindings in their order. -/
def object (l : List (String × ParamValue)) : Json :=
  .obj (l.map fun (name, value) => (name, Json.encode value))

theorem parseText?_eq (text : String) :
    (Json.parseText? text : Option TuningParameters) = (givenIn? text).map ofList := by
  unfold givenIn?
  simp only [Option.bind_eq_bind, Option.map_bind]
  refine congrArg (Option.bind _) (funext fun node => ?_)
  refine Eq.trans ?_ (Option.map_bind ..).symm
  exact congrArg (Option.bind _) (funext fun members => Option.map_eq_bind.symm)

theorem givenIn?_of_ofBytes? {text : String}
    (h : Json.Node.ofBytes? (bytesOf text) = some (Json.node (object l))) :
    givenIn? text = some l := by
  unfold givenIn?
  rw [h, object]
  simp only [Option.bind_eq_bind, Option.bind_some, Json.members?_node, List.map_map]
  refine (Json.mapM_map_eq_some (h := id) ?_).trans (congrArg some l.map_id)
  rintro ⟨name, value⟩ -
  simp

/-- An object gives all its bindings, whichever way it is written. -/
theorem givenIn?_object (l : List (String × ParamValue)) :
    givenIn? (object l).compact = some l ∧ givenIn? (object l).pretty = some l :=
  ⟨givenIn?_of_ofBytes? (Json.Node.ofBytes?_compact _),
    givenIn?_of_ofBytes? (Json.Node.ofBytes?_pretty _)⟩

/-! ## Constructions -/

/-- A way to make a set of parameters. -/
inductive Construction where
  | empty
  | set (base : Construction) (name : String) (value : ParamValue)
  | merged (base overrides : Construction)
  | parsed (text : String)

namespace Construction

/-- The set that a construction makes, unless one of its texts is refused. -/
def build? : Construction → Option TuningParameters
  | empty => some TuningParameters.empty
  | set base name value => base.build?.map (·.set name value)
  | merged base overrides => do
    let p ← base.build?
    return p.merged (← overrides.build?)
  | parsed text => Json.parseText? text

/-- The bindings of a construction in the order in which they are given. -/
def given? : Construction → Option (List (String × ParamValue))
  | empty => some []
  | set base name value => base.given?.map (· ++ [(name, value)])
  | merged base overrides => do
    let l ← base.given?
    return l ++ (← overrides.given?)
  | parsed text => givenIn? text

/-- A construction sets its bindings in turn. -/
theorem build?_eq (c : Construction) : c.build? = c.given?.map ofList := by
  induction c with
  | empty => rfl
  | set base name value ih =>
    rw [build?, given?, ih, Option.map_map, Option.map_map]
    congr 1
    funext l
    exact (ofList_concat l name value).symm
  | merged base overrides ihBase ihOverrides =>
    rw [build?, given?, ihBase, ihOverrides]
    rcases base.given? with _ | l <;> rcases overrides.given? with _ | m <;> try rfl
    exact congrArg some (ofList_append l m).symm
  | parsed text => exact parseText?_eq text

theorem build?_parsed (l : List (String × ParamValue)) :
    (parsed (object l).compact).build? = some (ofList l) := by
  rw [build?_eq, given?, (givenIn?_object l).1, Option.map_some]

end Construction

/-! ## Canonical sets -/

/-- A set holds each name once, in the order of the bytes, with the value that it is given last. -/
structure IsCanonical (p : TuningParameters) (given : List (String × ParamValue)) : Prop where
  increasing : (p.toList.map fun b => bytesOf b.1).Pairwise (· < ·)
  mem_iff : ∀ name value, (name, value) ∈ p.toList ↔ lastGiven given name = some value

theorem isCanonical_ofList (l : List (String × ParamValue)) : IsCanonical (ofList l) l where
  increasing :=
    List.pairwise_map.2 ((ofList l).values.ordered.imp bytesOf_lt_iff.2)
  mem_iff name value := by
    rw [← get?_ofList]
    exact SortedMap.get?_eq_some.symm

/-- Bindings that give each name the same value last. -/
def SameValues (l m : List (String × ParamValue)) : Prop :=
  ∀ name, lastGiven l name = lastGiven m name

theorem sameValues_iff : SameValues l m ↔ ofList l = ofList m := by
  refine ⟨fun h => ext_get? fun name => ?_, fun h name => ?_⟩
  · rw [get?_ofList, get?_ofList, h name]
  · rw [← get?_ofList, h, get?_ofList]

/-- Texts that sets are read back from are as different as the sets. -/
theorem text_eq_iff {text : TuningParameters → String}
    (read : ∀ p, Json.parseText? (text p) = some p) : text p = text q ↔ p = q := by
  refine ⟨fun h => ?_, congrArg text⟩
  have hp := read p
  rw [h, read q] at hp
  exact (Option.some.inj hp).symm

/-- A set is read back from both of its JSON texts. -/
theorem parseText?_encode (p : TuningParameters) :
    Json.parseText? (Json.encode p).compact = some p ∧
      Json.parseText? (Json.encode p).pretty = some p := by
  have hencode : Json.encode p = object p.toList := rfl
  obtain ⟨hcompact, hpretty⟩ := givenIn?_object p.toList
  rw [parseText?_eq, parseText?_eq, hencode, hcompact, hpretty, Option.map_some, ofList_toList]
  exact ⟨rfl, rfl⟩

/-- **However they are made, sets of parameters are canonical.** Each is the canonical set of the
bindings that it is given, and sets with the same values are equal, printed alike and written alike.
The values of a merged set are those of the second set, and of the first for all other names. -/
theorem isCanonical_build {c c' : Construction} (built : c.build? = some p)
    (built' : c'.build? = some q) :
    ∃ given given', c.given? = some given ∧ c'.given? = some given' ∧
      IsCanonical p given ∧ IsCanonical q given' ∧ IsCanonical (p.merged q) (given ++ given') ∧
      (SameValues given given' ↔ p = q) ∧
      (SameValues given given' ↔ (Json.encode p).compact = (Json.encode q).compact) ∧
      (SameValues given given' ↔ (Json.encode p).pretty = (Json.encode q).pretty) ∧
      (SameValues given given' → p.toText = q.toText) ∧
      (∀ name, (p.merged q).get? name = (q.get? name).or (p.get? name)) ∧
      (∀ r, (p.merged q).merged r = p.merged (q.merged r)) ∧
      ∀ l, givenIn? (object l).compact = some l ∧ givenIn? (object l).pretty = some l := by
  -- Both sets are those of the values given, whatever the way they were built.
  rw [Construction.build?_eq, Option.map_eq_some_iff] at built built'
  obtain ⟨given, hgiven, rfl⟩ := built
  obtain ⟨given', hgiven', rfl⟩ := built'
  have hcompact := text_eq_iff (p := ofList given) (q := ofList given')
    fun p => (parseText?_encode p).1
  have hpretty := text_eq_iff (p := ofList given) (q := ofList given')
    fun p => (parseText?_encode p).2
  exact ⟨given, given', hgiven, hgiven', isCanonical_ofList _, isCanonical_ofList _,
    ofList_append given given' ▸ isCanonical_ofList _, sameValues_iff,
    sameValues_iff.trans hcompact.symm, sameValues_iff.trans hpretty.symm,
    fun h => congrArg toText (sameValues_iff.1 h), get?_merged _ _, merged_assoc _ _,
    givenIn?_object⟩

/-- Bindings that give one name twice. -/
def repeated : List (String × ParamValue) := [("b", .int 1), ("a", .choice "x"), ("b", .int 2)]

/-- A JSON text with these bindings, and the same values set one by one in another order. -/
theorem isCanonical_build_repeated :
    ∃ p given given', (Construction.parsed (object repeated).compact).given? = some given ∧
      ((Construction.empty.set "b" (.int 2)).set "a" (.choice "x")).given? = some given' ∧
      IsCanonical p given ∧ IsCanonical p given' ∧ SameValues given given' ∧
      p.toText = "a=x, b=2" := by
  have hparsed := Construction.build?_parsed repeated
  have hset : ((Construction.empty.set "b" (.int 2)).set "a" (.choice "x")).build? =
      some (ofList repeated) := by decide +kernel
  obtain ⟨given, given', hgiven, hgiven', hp, hq, -, hsame, -⟩ := isCanonical_build hparsed hset
  exact ⟨_, given, given', hgiven, hgiven', hp, hq, hsame.2 rfl, by decide +kernel⟩

end TuningParameters

end KernelTuning
