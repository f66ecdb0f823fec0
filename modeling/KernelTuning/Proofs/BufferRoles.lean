import KernelTuning.Proofs.Acceptance
import KernelTuning.Proofs.SortedBits

/-!
# Roles of buffers in a radix sort

Which buffers the kernels and copies of an execution read and write, whatever temporary buffers
the caller has set.

**Roles** (`Request.reads`, `Request.writes`). Kernels use their arguments by position: the
reduction counts keys, the scan works on the counts in place, and the scatter goes from one set of
buffers into another.

**Temporary buffers** (`taken`). One that is large enough is taken as it is. In place of the others
buffers are allocated, which are new, just large enough and read-write (`IsNew`). Buffers are not
compared, so whether two of them are the same is left to the caller.

**Induction.** The passes exchange the two sets of buffers, so every launch is one of a pass
between them, in one of the two directions (`mem_passRequests`).

**Theorem (`keepsRoles_execute`).** Every buffer of an execution is the histogram, one of the
arguments, a temporary buffer that is large enough, or a new one. If those that are taken are
read-write, no kernel or copy writes a buffer that is not writable or reads one that is not
readable. A scatter has a buffer on both sides exactly if one that is taken is among the arguments,
and keys and values share a buffer exactly if those of the caller do.
-/

namespace KernelTuning

/-! ## What requests read and write -/

/-- The buffer that an argument is, if it is one. -/
def KernelArg.buffer? {β : Type} : KernelArg β → Option β
  | .buffer b => some b
  | _ => none

namespace KernelLaunch

/-- The buffers at some positions of the arguments. -/
def buffersAt (launch : KernelLaunch) (positions : List Nat) : List Buffer :=
  positions.filterMap fun i => launch.args[i]?.bind KernelArg.buffer?

/-- The positions of the buffers that a kernel of a radix sort reads. -/
def readPositions (kernel : String) : List Nat :=
  if kernel = "radixsortReduce" then [1]
  else if kernel = "radixsortScan" then [0]
  else if kernel = "radixsortScatter" then [1, 2, 7]
  else []

/-- The positions of the buffers that a kernel of a radix sort writes. -/
def writtenPositions (kernel : String) : List Nat :=
  if kernel = "radixsortReduce" then [0]
  else if kernel = "radixsortScan" then [0]
  else if kernel = "radixsortScatter" then [0, 6]
  else []

def reads (launch : KernelLaunch) : List Buffer := launch.buffersAt (readPositions launch.kernel)

def writes (launch : KernelLaunch) : List Buffer :=
  launch.buffersAt (writtenPositions launch.kernel)

/-- The buffers of keys of a scatter, on both sides. -/
def scatteredKeys (launch : KernelLaunch) : List Buffer := launch.buffersAt [0, 1]

/-- The buffers of values of a scatter, on both sides. -/
def scatteredValues (launch : KernelLaunch) : List Buffer := launch.buffersAt [6, 7]

end KernelLaunch

namespace Request

/-- The buffers that a request reads. -/
def reads : Request → List Buffer
  | .launch kernel => kernel.reads
  | .copy source _ _ => [source]
  | .read source _ _ => [source]

/-- The buffers that a request writes. -/
def writes : Request → List Buffer
  | .launch kernel => kernel.writes
  | .copy _ target _ => [target]
  | .read _ _ _ => []

/-- The request writes and reads what kernels may write and read. -/
structure Permitted (request : Request) : Prop where
  writable : ∀ buffer ∈ request.writes, buffer.access.isWritable = true
  readable : ∀ buffer ∈ request.reads, buffer.access.isReadable = true

theorem permitted_of_readWrite {request : Request}
    (h : ∀ buffer ∈ request.reads ++ request.writes, buffer.access = .readWrite) :
    request.Permitted where
  writable buffer hbuffer := by rw [h buffer (List.mem_append_right _ hbuffer)]; rfl
  readable buffer hbuffer := by rw [h buffer (List.mem_append_left _ hbuffer)]; rfl

end Request

namespace Radixsort

variable {b : Backend} {plan : RadixsortPlan} {shape : Shape} {source target : SortBuffers}
  {args : RadixsortArgs} {problem : RadixsortProblem} {r r' : Recorder}

section

variable (plan shape) (firstBit : UInt32)

theorem reads_reduceLaunch (keys : Buffer) :
    (reduceLaunch plan shape keys firstBit).reads = [keys] := rfl

theorem writes_reduceLaunch (keys : Buffer) :
    (reduceLaunch plan shape keys firstBit).writes = [plan.histogram] := rfl

theorem reads_scanLaunch : (scanLaunch plan shape).reads = [plan.histogram] := rfl

theorem writes_scanLaunch : (scanLaunch plan shape).writes = [plan.histogram] := rfl

theorem scatteredKeys_scatterLaunch :
    (scatterLaunch plan shape source target firstBit).scatteredKeys =
      [target.keys, source.keys] := rfl

variable (values : source.values.isSome = target.values.isSome)

include values

theorem reads_scatterLaunch : (scatterLaunch plan shape source target firstBit).reads =
    source.keys :: plan.histogram :: source.values.toList := by
  obtain ⟨keys, _ | input⟩ := source <;> obtain ⟨keysOut, _ | out⟩ := target <;>
    first | rfl | cases values

theorem writes_scatterLaunch : (scatterLaunch plan shape source target firstBit).writes =
    target.toList := by
  obtain ⟨keys, _ | input⟩ := source <;> obtain ⟨keysOut, _ | out⟩ := target <;>
    first | rfl | cases values

theorem scatteredValues_scatterLaunch :
    (scatterLaunch plan shape source target firstBit).scatteredValues =
      target.values.toList ++ source.values.toList := by
  obtain ⟨keys, _ | input⟩ := source <;> obtain ⟨keysOut, _ | out⟩ := target <;>
    first | rfl | cases values

end

/-! ## The passes -/

/-- A launch of a pass between two sets of buffers, in either direction, is one of three kernels. -/
inductive PassLaunch (plan : RadixsortPlan) (source target : SortBuffers) : KernelLaunch → Prop
  | reduce (shape : Shape) (firstBit : UInt32) :
    PassLaunch plan source target (reduceLaunch plan shape source.keys firstBit)
  | scan (shape : Shape) : PassLaunch plan source target (scanLaunch plan shape)
  | scatter (shape : Shape) (firstBit : UInt32) :
    PassLaunch plan source target (scatterLaunch plan shape source target firstBit)

/-- The launches of all passes go in one of the two directions. -/
theorem mem_passRequests {firstBits : List UInt32} {request : Request}
    (h : request ∈ passRequests plan shape source target firstBits) :
    ∃ launch, request = .launch launch ∧
      (PassLaunch plan source target launch ∨ PassLaunch plan target source launch) := by
  induction firstBits generalizing source target with
  | nil => cases h
  | cons firstBit rest ih =>
    rcases List.mem_append.1 h with h | h
    · simp only [List.mem_cons, List.not_mem_nil, or_false] at h
      rcases h with rfl | rfl | rfl
      · exact ⟨_, rfl, .inl (.reduce shape firstBit)⟩
      · exact ⟨_, rfl, .inl (.scan shape)⟩
      · exact ⟨_, rfl, .inl (.scatter shape firstBit)⟩
    · obtain ⟨launch, rfl, hlaunch⟩ := ih h
      exact ⟨launch, rfl, hlaunch.symm⟩

/-- The first pass scatters from the buffers of the caller. -/
theorem scatterLaunch_mem_passRequests {firstBits : List UInt32} (h : firstBits ≠ []) :
    ∃ firstBit, .launch (scatterLaunch plan shape source target firstBit) ∈
      passRequests plan shape source target firstBits := by
  cases firstBits with
  | nil => exact absurd rfl h
  | cons firstBit rest => exact ⟨firstBit, by simp [passRequests]⟩

/-- A pass uses the histogram and the two sets of buffers only. -/
theorem PassLaunch.mem_of_used {launch : KernelLaunch} {buffer : Buffer}
    (h : PassLaunch plan source target launch)
    (values : source.values.isSome = target.values.isSome)
    (hbuffer : buffer ∈ launch.reads ++ launch.writes) :
    buffer = plan.histogram ∨ buffer ∈ source.toList ∨ buffer ∈ target.toList := by
  cases h with
  | reduce shape firstBit =>
    simp only [reads_reduceLaunch, writes_reduceLaunch, List.mem_append, List.mem_singleton]
      at hbuffer
    rcases hbuffer with rfl | rfl
    · exact .inr (.inl List.mem_cons_self)
    · exact .inl rfl
  | scan shape =>
    simp only [reads_scanLaunch, writes_scanLaunch, List.mem_append, List.mem_singleton, or_self]
      at hbuffer
    exact .inl hbuffer
  | scatter shape firstBit =>
    simp only [reads_scatterLaunch plan shape firstBit values,
      writes_scatterLaunch plan shape firstBit values, List.mem_append, List.mem_cons] at hbuffer
    rcases hbuffer with (rfl | rfl | h) | h
    · exact .inr (.inl List.mem_cons_self)
    · exact .inl rfl
    · exact .inr (.inl (List.mem_cons_of_mem _ h))
    · exact .inr (.inr h)

theorem mem_of_used_copyRequests {request : Request} {buffer : Buffer} {elements : Word}
    (h : request ∈ copyRequests plan source target elements)
    (hbuffer : buffer ∈ request.reads ++ request.writes) :
    buffer ∈ source.toList ∨ buffer ∈ target.toList := by
  unfold copyRequests at h
  have hused {input out : Buffer} {size : Word}
      (h : buffer ∈ (Request.copy input out size).reads ++ (Request.copy input out size).writes) :
      buffer = input ∨ buffer = out := by
    simpa [Request.reads, Request.writes] using h
  rcases List.mem_cons.1 h with rfl | h
  · refine (hused hbuffer).imp (fun h => ?_) (fun h => ?_)
    · exact h ▸ List.mem_cons_self
    · exact h ▸ List.mem_cons_self
  · split at h
    · rename_i input out hinput hout
      obtain rfl := List.mem_singleton.1 h
      refine (hused hbuffer).imp (fun h => ?_) (fun h => ?_)
      · simp [SortBuffers.toList, hinput, h]
      · simp [SortBuffers.toList, hout, h]
    · cases h

/-- The requests are those of passes between two sets of buffers, from the first one on, and of
copies back into it. -/
structure Alternates (plan : RadixsortPlan) (source target : SortBuffers) (elements : Word)
    (requests : List Request) : Prop where
  mem : ∀ request ∈ requests,
    (∃ launch, request = .launch launch ∧
      (PassLaunch plan source target launch ∨ PassLaunch plan target source launch)) ∨
    request ∈ copyRequests plan target source elements
  first : ∃ shape firstBit,
    .launch (scatterLaunch plan shape source target firstBit) ∈ requests

namespace Alternates

variable {elements : Word} {requests : List Request}
  (h : Alternates plan source target elements requests)
  (values : source.values.isSome = target.values.isSome)

include h values

theorem mem_of_used {request : Request} (hrequest : request ∈ requests) {buffer : Buffer}
    (hbuffer : buffer ∈ request.reads ++ request.writes) :
    buffer = plan.histogram ∨ buffer ∈ source.toList ∨ buffer ∈ target.toList := by
  rcases h.mem request hrequest with ⟨launch, rfl, hlaunch | hlaunch⟩ | hcopy
  · exact hlaunch.mem_of_used values hbuffer
  · exact (hlaunch.mem_of_used values.symm hbuffer).imp_right Or.symm
  · exact .inr (mem_of_used_copyRequests hcopy hbuffer).symm

omit values in
/-- A scatter goes in one of the two directions. -/
theorem scatter_of_mem {launch : KernelLaunch} (hlaunch : .launch launch ∈ requests)
    (hkernel : launch.kernel = "radixsortScatter") : ∃ shape firstBit,
    launch = scatterLaunch plan shape source target firstBit ∨
      launch = scatterLaunch plan shape target source firstBit := by
  rcases h.mem _ hlaunch with ⟨_, heq, hpass⟩ | hcopy
  · cases heq
    rcases hpass with hpass | hpass <;> cases hpass with
    | reduce => exact absurd hkernel (show ¬ "radixsortReduce" = "radixsortScatter" by decide)
    | scan => exact absurd hkernel (show ¬ "radixsortScan" = "radixsortScatter" by decide)
    | scatter shape firstBit => exact ⟨shape, firstBit, by simp⟩
  · unfold copyRequests at hcopy
    split at hcopy <;> simp at hcopy

/-- No scatter has a buffer on both sides exactly if the two sets share none, as the histogram is
in neither. -/
theorem sides_iff (own : ∀ buffer ∈ source.toList ++ target.toList,
      buffer.id ≠ plan.histogram.id) :
    (∀ launch, .launch launch ∈ requests → launch.kernel = "radixsortScatter" →
      ∀ out ∈ launch.writes, ∀ input ∈ launch.reads, out.id ≠ input.id) ↔
    ∀ t ∈ target.toList, ∀ buffer ∈ source.toList, t.id ≠ buffer.id := by
  constructor
  · intro hsides t ht buffer hbuffer
    obtain ⟨shape, firstBit, hfirst⟩ := h.first
    refine hsides _ hfirst rfl t ?_ buffer ?_
    · rwa [writes_scatterLaunch plan shape firstBit values]
    · rw [reads_scatterLaunch plan shape firstBit values]
      exact List.mem_cons.2 ((List.mem_cons.1 hbuffer).imp_right (List.mem_cons_of_mem _))
  · intro hne launch hlaunch hkernel out hout input hinput
    have hread {s : SortBuffers} (hinput : input ∈ s.keys :: plan.histogram :: s.values.toList) :
        input = plan.histogram ∨ input ∈ s.toList := by
      simp only [SortBuffers.toList, List.mem_cons] at hinput ⊢
      tauto
    obtain ⟨shape, firstBit, rfl | rfl⟩ := h.scatter_of_mem hlaunch hkernel
    · rw [writes_scatterLaunch plan shape firstBit values] at hout
      rw [reads_scatterLaunch plan shape firstBit values] at hinput
      rcases hread hinput with rfl | hinput
      · exact own out (List.mem_append_right _ hout)
      · exact hne out hout input hinput
    · rw [writes_scatterLaunch plan shape firstBit values.symm] at hout
      rw [reads_scatterLaunch plan shape firstBit values.symm] at hinput
      rcases hread hinput with rfl | hinput
      · exact own out (List.mem_append_left _ hout)
      · exact Ne.symm (hne input hinput out hout)

theorem separate_iff :
    (∀ launch, .launch launch ∈ requests → launch.kernel = "radixsortScatter" →
      ∀ k ∈ launch.scatteredKeys, ∀ v ∈ launch.scatteredValues, k.id ≠ v.id) ↔
    ∀ k ∈ [target.keys, source.keys], ∀ v ∈ target.values.toList ++ source.values.toList,
      k.id ≠ v.id := by
  constructor
  · intro hseparate k hk v hv
    obtain ⟨shape, firstBit, hfirst⟩ := h.first
    refine hseparate _ hfirst rfl k hk v ?_
    rwa [scatteredValues_scatterLaunch plan shape firstBit values]
  · intro hne launch hlaunch hkernel k hk v hv
    obtain ⟨shape, firstBit, rfl | rfl⟩ := h.scatter_of_mem hlaunch hkernel
    · rw [scatteredValues_scatterLaunch plan shape firstBit values] at hv
      exact hne k hk v hv
    · -- The other direction lists the same buffers in the other order.
      rw [scatteredValues_scatterLaunch plan shape firstBit values.symm] at hv
      rw [scatteredKeys_scatterLaunch] at hk
      exact hne k ((List.Perm.swap _ _ _).mem_iff.1 hk) v (List.perm_append_comm.mem_iff.1 hv)

end Alternates

/-! ## Temporary buffers -/

/-- The temporary buffer for the keys, if it is large enough. -/
def takenKeys (plan : RadixsortPlan) (args : RadixsortArgs) : Option Buffer :=
  plan.temporaryKeys.filter fun b => args.elements.toNat * plan.keySize.toNat ≤ b.size.toNat

/-- The temporary buffer for the values, if it is large enough and there are values. -/
def takenValues (plan : RadixsortPlan) (args : RadixsortArgs) : Option Buffer :=
  args.buffers.values.bind fun _ =>
    plan.temporaryValues.filter fun b => args.elements.toNat * plan.valueSize.toNat ≤ b.size.toNat

/-- The temporary buffers that an execution takes from the caller. -/
def taken (plan : RadixsortPlan) (args : RadixsortArgs) : List Buffer :=
  (takenKeys plan args).toList ++ (takenValues plan args).toList

/-- The buffer was allocated after a state, for some bytes. -/
structure IsNew (r : Recorder) (bytes : Nat) (buffer : Buffer) : Prop where
  id : r.lastId < buffer.id
  size : buffer.size.toNat = bytes
  access : buffer.access = .readWrite

/-- The buffer is the one that is provided, if there is one, and else a new one. -/
def Chosen (r : Recorder) (provided : Option Buffer) (bytes : Nat) (buffer : Buffer) : Prop :=
  provided = some buffer ∨ provided = none ∧ IsNew r bytes buffer

/-- A new buffer is none that was known before. -/
theorem Chosen.ne_iff {provided : Option Buffer} {bytes : Nat} {buffer known : Buffer}
    (h : Chosen r provided bytes buffer) (hknown : known.id ≤ r.lastId) :
    buffer.id ≠ known.id ↔ ∀ t ∈ provided, t.id ≠ known.id := by
  rcases h with rfl | ⟨rfl, new⟩
  · simp
  · have hid := new.id
    exact iff_of_true (by omega) (by simp)

theorem Chosen.mono {r₁ : Recorder} {provided : Option Buffer} {bytes : Nat} {buffer : Buffer}
    (h : Chosen r₁ provided bytes buffer) (hle : r.lastId ≤ r₁.lastId) :
    Chosen r provided bytes buffer :=
  h.imp_right fun ⟨hnone, new⟩ => ⟨hnone, Nat.lt_of_le_of_lt hle new.id, new.size, new.access⟩

theorem exec_temporary_eq_chosen {provided : Option Buffer} {size : Word} {buffer : Buffer}
    (known : ∀ t ∈ provided, t.id ≤ r.lastId)
    (h : exec (temporary b provided size) r = (.ok buffer, r')) :
    Chosen r (provided.filter (size ≤ ·.size)) size.toNat buffer ∧
      r.lastId ≤ r'.lastId ∧ buffer.id ≤ r'.lastId := by
  unfold temporary at h
  split at h
  · rename_i chosen hchosen
    cases h
    exact ⟨.inl hchosen, Nat.le_refl _, known _ (Option.filter_eq_some_iff.1 hchosen).1⟩
  · rename_i hnone
    obtain ⟨rfl, hid, -⟩ := exec_createBuffer_eq_ok (exec_ofQueue_eq_ok h)
    exact ⟨.inr ⟨hnone, Nat.lt_succ_self _, rfl, rfl⟩, hid ▸ Nat.le_succ _, hid ▸ Nat.le_refl _⟩

/-- The buffers of the caller. -/
def given (plan : RadixsortPlan) (args : RadixsortArgs) : List Buffer :=
  args.buffers.toList ++ plan.temporaryKeys.toList ++ plan.temporaryValues.toList

theorem mem_given_of_mem_taken {t : Buffer} (h : t ∈ taken plan args) : t ∈ given plan args := by
  rcases List.mem_append.1 h with h | h
  · have ht := (Option.filter_eq_some_iff.1 (Option.mem_toList.1 h)).1
    simp [given, ht]
  · obtain ⟨-, -, ht⟩ := Option.bind_eq_some_iff.1 (Option.mem_toList.1 h)
    have ht := (Option.filter_eq_some_iff.1 ht).1
    simp [given, ht]

/-- The buffers of the caller and the histogram exist, and the caller does not have the
histogram. -/
structure GivenBuffers (r : Recorder) (plan : RadixsortPlan) (args : RadixsortArgs) : Prop where
  known : ∀ buffer ∈ plan.histogram :: given plan args, buffer.id ≤ r.lastId
  own : ∀ buffer ∈ given plan args, buffer.id ≠ plan.histogram.id

/-- The temporary set of buffers of an execution. -/
structure ChosenBuffers (r : Recorder) (plan : RadixsortPlan) (args : RadixsortArgs)
    (temp : SortBuffers) : Prop where
  keys : Chosen r (takenKeys plan args) (args.elements.toNat * plan.keySize.toNat) temp.keys
  typed : args.buffers.values.isSome = temp.values.isSome
  /-- The buffer for the values is chosen after that for the keys. -/
  values : ∀ v ∈ temp.values, ∃ r₁ : Recorder, r.lastId ≤ r₁.lastId ∧ temp.keys.id ≤ r₁.lastId ∧
    Chosen r₁ (takenValues plan args) (args.elements.toNat * plan.valueSize.toNat) v

theorem filter_size_eq {provided : Option Buffer} {x y : Word}
    (h : (x * y).toNat = x.toNat * y.toNat) :
    provided.filter (fun b => x * y ≤ b.size) =
      provided.filter fun b => x.toNat * y.toNat ≤ b.size.toNat := by
  simp only [UInt64.le_iff_toNat_le, h]

theorem exec_temporaries_eq_chosen {bits : Word} {temp : SortBuffers}
    (accepted : Accepted plan args bits) (buffers : GivenBuffers r plan args)
    (h : exec (temporaries b plan args) r = (.ok temp, r')) : ChosenBuffers r plan args temp := by
  have hknown {provided : Option Buffer} (hsub : ∀ t ∈ provided, t ∈ given plan args) (t : Buffer)
      (ht : t ∈ provided) : t.id ≤ r.lastId :=
    buffers.known t (List.mem_cons_of_mem _ (hsub t ht))
  unfold temporaries at h
  obtain ⟨keys, r₁, hkeys, h⟩ := exec_bind_eq_ok h
  obtain ⟨chosenKeys, hle, hkeys_le⟩ := exec_temporary_eq_chosen
    (hknown fun t ht => by simp [given, Option.mem_def.1 ht]) hkeys
  rw [filter_size_eq accepted.keyBytes, accepted.keyBytes] at chosenKeys
  split at h
  · rename_i hnone
    cases h
    exact ⟨chosenKeys, by rw [hnone], fun v hv => by cases hv⟩
  · -- The recorder has moved on since the keys, and what it knew then it still knows.
    rename_i values hsome
    obtain ⟨v, r₂, hvalues, h⟩ := exec_bind_eq_ok h
    cases h
    have hbytes := accepted.valueBytes (by rw [hsome]; exact Option.some_ne_none _)
    obtain ⟨chosenValues, -, -⟩ := exec_temporary_eq_chosen (fun t ht => Nat.le_trans
      (hknown (fun t ht => by simp [given, Option.mem_def.1 ht]) t ht) hle) hvalues
    rw [filter_size_eq hbytes, hbytes] at chosenValues
    refine ⟨chosenKeys, by rw [hsome]; rfl, fun v' hv => ?_⟩
    obtain rfl := Option.some.inj hv
    refine ⟨r₁, hle, hkeys_le, ?_⟩
    rwa [takenValues, hsome]

namespace ChosenBuffers

variable {temp : SortBuffers}

/-- What the caller has set is taken, or a new buffer is there in its place. -/
theorem taken_or_new (h : ChosenBuffers r plan args temp) {buffer : Buffer}
    (hbuffer : buffer ∈ temp.toList) : buffer ∈ taken plan args ∨
      IsNew r (args.elements.toNat * plan.keySize.toNat) buffer ∨
      IsNew r (args.elements.toNat * plan.valueSize.toNat) buffer := by
  rcases List.mem_cons.1 hbuffer with rfl | hbuffer
  · rcases h.keys with hkeys | ⟨-, new⟩
    · exact .inl (by simp [taken, hkeys])
    · exact .inr (.inl new)
  · obtain ⟨r₁, hle, -, hvalues⟩ := h.values buffer (Option.mem_toList.1 hbuffer)
    rcases hvalues.mono hle with hvalues | ⟨-, new⟩
    · exact .inl (by simp [taken, hvalues])
    · exact .inr (.inr new)

/-- A temporary buffer for the values is only taken if there are values. -/
theorem exists_of_mem_takenValues (h : ChosenBuffers r plan args temp) {t : Buffer}
    (ht : t ∈ takenValues plan args) : ∃ v, temp.values = some v := by
  have hsome : args.buffers.values.isSome = true := by
    unfold takenValues at ht
    cases hvalues : args.buffers.values with
    | none => simp [hvalues] at ht
    | some _ => rfl
  exact Option.isSome_iff_exists.1 (h.typed ▸ hsome)

/-- A known buffer is in the temporary set exactly if it is taken. -/
theorem forall_ne_iff (h : ChosenBuffers r plan args temp) {known : Buffer}
    (hknown : known.id ≤ r.lastId) :
    (∀ t ∈ temp.toList, t.id ≠ known.id) ↔ ∀ t ∈ taken plan args, t.id ≠ known.id := by
  have hvalues {v : Buffer} (hv : temp.values = some v) :
      v.id ≠ known.id ↔ ∀ t ∈ takenValues plan args, t.id ≠ known.id := by
    obtain ⟨r₁, hle, -, chosen⟩ := h.values v hv
    exact chosen.ne_iff (Nat.le_trans hknown hle)
  constructor
  · intro hne t ht
    rcases List.mem_append.1 ht with ht | ht
    · exact (h.keys.ne_iff hknown).1 (hne _ List.mem_cons_self) t (Option.mem_toList.1 ht)
    · obtain ⟨v, hv⟩ := h.exists_of_mem_takenValues (Option.mem_toList.1 ht)
      exact (hvalues hv).1 (hne v (by simp [SortBuffers.toList, hv])) t (Option.mem_toList.1 ht)
  · intro hne t ht
    rcases List.mem_cons.1 ht with rfl | ht
    · exact (h.keys.ne_iff hknown).2 fun t ht => hne t (by simp [taken, Option.mem_def.1 ht])
    · exact (hvalues (Option.mem_toList.1 ht)).2 fun t ht =>
        hne t (by simp [taken, Option.mem_def.1 ht])

/-- Keys and values are in different buffers exactly if those of the caller are. -/
theorem separate_iff (h : ChosenBuffers r plan args temp) (buffers : GivenBuffers r plan args) :
    (∀ k ∈ [temp.keys, args.buffers.keys], ∀ v ∈ temp.values.toList ++ args.buffers.values.toList,
      k.id ≠ v.id) ↔
    ∀ k ∈ args.buffers.keys :: (takenKeys plan args).toList,
      ∀ v ∈ args.buffers.values.toList ++ (takenValues plan args).toList, k.id ≠ v.id := by
  have known {buffer : Buffer} (hbuffer : buffer ∈ given plan args) : buffer.id ≤ r.lastId :=
    buffers.known buffer (List.mem_cons_of_mem _ hbuffer)
  rcases hargs : args.buffers.values with _ | w
  · have htemp : temp.values = none := by simpa [hargs] using h.typed
    simp [htemp, takenValues, hargs]
  · obtain ⟨v, hv⟩ : ∃ v, temp.values = some v :=
      Option.isSome_iff_exists.1 (by rw [← h.typed, hargs]; rfl)
    obtain ⟨r₁, hle, hkeys_le, chosen⟩ := h.values v hv
    have hkeys := h.keys.ne_iff (known (show w ∈ _ by simp [given, SortBuffers.toList, hargs]))
    have hvalues := chosen.ne_iff (Nat.le_trans
      (known (show args.buffers.keys ∈ _ by simp [given, SortBuffers.toList])) hle)
    have hboth : v.id ≠ temp.keys.id ↔
        ∀ t ∈ takenValues plan args, ∀ k ∈ takenKeys plan args, k.id ≠ t.id := by
      refine (chosen.ne_iff hkeys_le).trans (forall₂_congr fun t ht => ne_comm.trans ?_)
      have htaken : t ∈ taken plan args := List.mem_append_right _ (Option.mem_toList.2 ht)
      exact h.keys.ne_iff (known (mem_given_of_mem_taken htaken))
    simp only [hv, Option.toList_some, List.mem_cons, List.mem_append, List.not_mem_nil, or_false,
      forall_eq_or_imp, forall_eq, Option.mem_toList]
    constructor
    · rintro ⟨⟨htv, htw⟩, hkv, hkw⟩
      exact ⟨⟨hkw, fun t ht => Ne.symm (hvalues.1 (Ne.symm hkv) t ht)⟩,
        fun k hk => ⟨hkeys.1 htw k hk, fun t ht => hboth.1 (Ne.symm htv) t ht k hk⟩⟩
    · rintro ⟨⟨hkw, hkv⟩, htaken⟩
      exact ⟨⟨Ne.symm (hboth.2 fun t ht k hk => (htaken k hk).2 t ht),
          hkeys.2 fun k hk => (htaken k hk).1⟩,
        Ne.symm (hvalues.2 fun t ht => Ne.symm (hkv t ht)), hkw⟩

end ChosenBuffers

/-! ## Executions -/

/-- What an execution makes of the buffers of the caller. -/
structure KeepsRoles (r : Recorder) (plan : RadixsortPlan) (args : RadixsortArgs)
    (requests : List Request) : Prop where
  /-- Temporary buffers that are not taken are not used, but new ones in their place. -/
  used : ∀ request ∈ requests, ∀ buffer ∈ request.reads ++ request.writes,
    buffer = plan.histogram ∨ buffer ∈ args.buffers.toList ∨ buffer ∈ taken plan args ∨
      IsNew r (args.elements.toNat * plan.keySize.toNat) buffer ∨
      IsNew r (args.elements.toNat * plan.valueSize.toNat) buffer
  permitted : (∀ buffer ∈ taken plan args, buffer.access = .readWrite) →
    ∀ request ∈ requests, request.Permitted
  /-- A scatter shares a buffer between its sides only where the caller does. -/
  sides : (∀ launch, .launch launch ∈ requests → launch.kernel = "radixsortScatter" →
      ∀ out ∈ launch.writes, ∀ input ∈ launch.reads, out.id ≠ input.id) ↔
    ∀ t ∈ taken plan args, ∀ buffer ∈ args.buffers.toList, t.id ≠ buffer.id
  /-- A scatter shares a buffer between keys and values only where the caller does. -/
  separate : (∀ launch, .launch launch ∈ requests → launch.kernel = "radixsortScatter" →
      ∀ k ∈ launch.scatteredKeys, ∀ v ∈ launch.scatteredValues, k.id ≠ v.id) ↔
    ∀ k ∈ args.buffers.keys :: (takenKeys plan args).toList,
      ∀ v ∈ args.buffers.values.toList ++ (takenValues plan args).toList, k.id ≠ v.id

theorem alternates_of_prepare {rs : List Request} (sorts : PlanSorts problem plan)
    (h : exec (prepare b plan args) r = (.ok rs, r')) :
    ∃ bits temp r₁, checkArgs plan args = .ok bits ∧
      exec (temporaries b plan args) r = (.ok temp, r₁) ∧
      Alternates plan args.buffers temp args.elements rs := by
  unfold prepare at h
  obtain ⟨bits, hargs, h⟩ := exec_attempt_bind_eq_ok.1 h
  obtain ⟨temp, r₁, htemp, h⟩ := exec_bind_eq_ok h
  obtain ⟨shape, -, h⟩ := exec_attempt_bind_eq_ok.1 h
  have hpasses : firstBits plan bits ≠ [] := by
    refine (firstBits_of_effectiveBits sorts.one_le_bits ?_ ?_ (accepted_of_checkArgs hargs).bits).2
    · exact sorts.keySize ▸ sorts.key_pos
    · exact sorts.keySize ▸ sorts.key_le
  obtain ⟨firstBit, hfirst⟩ :=
    @scatterLaunch_mem_passRequests plan shape args.buffers temp _ hpasses
  refine ⟨bits, temp, r₁, hargs, htemp, ?_⟩
  dsimp only at h
  split at h
  · cases h
    exact ⟨fun request hrequest => .inl (mem_passRequests hrequest), shape, firstBit, hfirst⟩
  · cases h
    exact ⟨fun request hrequest => (List.mem_append.1 hrequest).imp_left mem_passRequests, shape,
      firstBit, List.mem_append_left _ hfirst⟩

theorem keepsRoles_of_prepare {rs : List Request} (sorts : PlanSorts problem plan)
    (histogram : plan.histogram.access = .readWrite) (buffers : GivenBuffers r plan args)
    (h : exec (prepare b plan args) r = (.ok rs, r')) : KeepsRoles r plan args rs := by
  obtain ⟨bits, temp, r₁, hargs, htemp, alternates⟩ := alternates_of_prepare sorts h
  have chosen := exec_temporaries_eq_chosen (accepted_of_checkArgs hargs) buffers htemp
  have valid := sorts.checkArgs_eq_ok.1 ⟨bits, hargs⟩
  have hgiven {buffer : Buffer} (h : buffer ∈ args.buffers.toList) : buffer ∈ given plan args :=
    List.mem_append_left _ (List.mem_append_left _ h)
  -- A buffer in use is the histogram, an argument, a temporary of the caller, or a new one.
  have used (request : Request) (hrequest : request ∈ rs) (buffer : Buffer)
      (hbuffer : buffer ∈ request.reads ++ request.writes) :=
    (alternates.mem_of_used chosen.typed hrequest hbuffer).imp_right
      (Or.imp_right chosen.taken_or_new)
  refine ⟨used, fun htaken request hrequest => ?_, ?_, ?_⟩
  · refine Request.permitted_of_readWrite fun buffer hbuffer => ?_
    rcases used request hrequest buffer hbuffer with rfl | hargument | ht | new | new
    · exact histogram
    · rcases List.mem_cons.1 hargument with rfl | hvalues
      · exact valid.keys.2
      · exact (valid.values buffer (Option.mem_toList.1 hvalues)).2
    · exact htaken buffer ht
    · exact new.access
    · exact new.access
  · have own (buffer : Buffer) (hbuffer : buffer ∈ args.buffers.toList ++ temp.toList) :
        buffer.id ≠ plan.histogram.id := by
      rcases List.mem_append.1 hbuffer with hbuffer | hbuffer
      · exact buffers.own buffer (hgiven hbuffer)
      · exact (chosen.forall_ne_iff (buffers.known _ List.mem_cons_self)).2
          (fun t ht => buffers.own t (mem_given_of_mem_taken ht)) buffer hbuffer
    rw [alternates.sides_iff chosen.typed own]
    have hcomm (l : List Buffer) : (∀ t ∈ l, ∀ buffer ∈ args.buffers.toList, t.id ≠ buffer.id) ↔
        ∀ buffer ∈ args.buffers.toList, ∀ t ∈ l, t.id ≠ buffer.id :=
      ⟨fun h buffer hbuffer t ht => h t ht buffer hbuffer,
        fun h t ht buffer hbuffer => h buffer hbuffer t ht⟩
    rw [hcomm, hcomm]
    exact forall₂_congr fun buffer hbuffer =>
      chosen.forall_ne_iff (buffers.known buffer (List.mem_cons_of_mem _ (hgiven hbuffer)))
  · rw [alternates.separate_iff chosen.typed]
    exact chosen.separate_iff buffers

theorem access_histogram_of_build {p : TuningParameters}
    (h : exec (build b problem p) r = (.ok plan, r')) : plan.histogram.access = .readWrite := by
  unfold build at h
  obtain ⟨_, -, h⟩ := exec_attempt_bind_eq_ok.1 h
  obtain ⟨g, -, h⟩ := exec_attempt_bind_eq_ok.1 h
  obtain ⟨built, r₁, -, h⟩ := exec_bind_eq_ok h
  obtain ⟨histogram, r₂, hcreate, h⟩ := exec_bind_eq_ok h
  cases h
  obtain ⟨rfl, -, -⟩ := exec_createBuffer_eq_ok (exec_ofQueue_eq_ok hcreate)
  rfl

/-- An execution that succeeds has sent its requests, one after the other. -/
theorem exec_enqueue_of_execute {β : Type} {a : ReadyAlgorithm RadixsortProblem RadixsortPlan β}
    {waitFor : List Event} {x : Event × Unit × List (Notice β)}
    (run : exec (Algorithm.execute (primitive b) args waitFor (.ready a)) r = (.ok x, r')) :
    ∃ requests events r₁, exec (prepare b a.plan args) r = (.ok requests, r₁) ∧
      exec (Device.ofQueue (chain b.send waitFor requests)) r₁ = (.ok events, r') := by
  unfold Algorithm.execute at run
  rw [exec_bind_of_ok (Algorithm.exec_get_ready a _ r)] at run
  obtain ⟨⟨events, output⟩, r₂, henqueue, hlast⟩ := exec_bind_eq_ok run
  have hr : r₂ = r' := by
    dsimp only at hlast
    split at hlast <;> cases hlast
    rfl
  subst hr
  obtain ⟨events', r₃, hrun, hpair⟩ := exec_bind_eq_ok (show exec (enqueue b a.plan args waitFor >>=
    fun events => pure (events, ())) r = (.ok (events, output), r₂) from henqueue)
  cases hpair
  rw [enqueue_eq] at hrun
  obtain ⟨requests, r₁, hprepare, hsend⟩ := exec_bind_eq_ok hrun
  exact ⟨requests, _, r₁, hprepare, hsend⟩

/-- **Executions keep to the roles of buffers**, as far as the caller does. -/
theorem keepsRoles_execute {plan : RadixsortPlan} {keys values : Option Buffer} {β : Type}
    {a : ReadyAlgorithm RadixsortProblem RadixsortPlan β} {waitFor : List Event}
    {x : Event × Unit × List (Notice β)}
    (constructs : Algorithm.Constructs (primitive b) problem plan)
    (plan_eq : a.plan = setTemporaries keys values plan) (buffers : GivenBuffers r a.plan args)
    (run : exec (Algorithm.execute (primitive b) args waitFor (.ready a)) r = (.ok x, r')) :
    ∃ requests events r₁, exec (prepare b a.plan args) r = (.ok requests, r₁) ∧
      exec (Device.ofQueue (chain b.send waitFor requests)) r₁ = (.ok events, r') ∧
      KeepsRoles r a.plan args requests := by
  obtain ⟨valid, p, d, d', built⟩ := Algorithm.built_of_constructs constructs
  have sorts := (planSorts_of_build valid built).setTemporaries keys values
  have histogram : a.plan.histogram.access = .readWrite := by
    rw [plan_eq]
    show plan.histogram.access = .readWrite
    exact access_histogram_of_build built
  rw [← plan_eq] at sorts
  obtain ⟨requests, events, r₁, hprepare, hsend⟩ := exec_enqueue_of_execute run
  exact ⟨requests, events, r₁, hprepare, hsend,
    keepsRoles_of_prepare sorts histogram buffers hprepare⟩

theorem build_steady : exec (build (.steady Backend.gpuProperties)
    ⟨⟨.uint, 1, by decide⟩, ⟨.uint, 1, by decide⟩⟩
    (Parameter.withWarpSizes smallGeometry.toParameters Backend.gpuProperties)) .start =
    (.ok smallPlan, ⟨1, [], 1, 1, [], 0, 1⟩) := by rfl

theorem constructs_small : Algorithm.Constructs (primitive (.steady Backend.gpuProperties))
    ⟨⟨.uint, 1, by decide⟩, ⟨.uint, 1, by decide⟩⟩ smallPlan :=
  Algorithm.constructs_of_built validate_small (isEmpty_candidates validate_small) build_steady

/-- A sort of pairs on a small graphics device, with some temporary buffers. -/
def readySmall (problem : RadixsortProblem) (keys values : Option Buffer) :
    ReadyAlgorithm RadixsortProblem RadixsortPlan Unit where
  problem := problem
  parameters := Parameter.withWarpSizes smallGeometry.toParameters Backend.gpuProperties
  plan := setTemporaries keys values smallPlan
  resolution := .tuned 1 .zero
  details := ∅
  persistError := none
  callback := none

/-- It sorts whatever the temporary buffers are. -/
theorem exists_execute_small (problem : RadixsortProblem) (keys values : Option Buffer)
    (r : Recorder) :
    ∃ x r', exec (Algorithm.execute (primitive (.steady Backend.gpuProperties)) smallArgs []
      (.ready (readySmall problem keys values))) r = (.ok x, r') := by
  have valid : ValidArgs ⟨⟨.uint, 1, by decide⟩, ⟨.uint, 1, by decide⟩⟩ smallArgs := by
    refine ⟨by decide, by decide, ⟨by decide, rfl⟩, rfl, ?_, by decide⟩
    intro buffer h
    cases h
    exact ⟨by decide, rfl⟩
  have succeeds := succeedsIff (b := .steady Backend.gpuProperties) ⟨by decide, by decide⟩
    (Backend.runs_steady _)
    ((planFits_of_build build_steady).setTemporaries keys values) (show 1 ≤ 65536 by decide)
    ((planSorts_of_build validate_small build_steady).setTemporaries keys values) smallArgs
  exact (succeeds Unit (readySmall problem keys values) [] r rfl).1.2
    ⟨valid, 128, show smallPlan.geometry.blockSize? 1024 = _ by decide, by decide⟩

/-- Of two temporary buffers the one for the keys is taken, and the one for the values, which is
too small and read-only, is not used. -/
theorem keepsRoles_execute_small :
    let b := Backend.steady Backend.gpuProperties
    let uint : ElemType := ⟨.uint, 1, by decide⟩
    let keys : Buffer := ⟨4, 4096, .readWrite⟩
    let values : Buffer := ⟨5, 8, .readOnly⟩
    let a := readySmall ⟨uint, uint⟩ (some keys) (some values)
    let r : Recorder := { Recorder.start with lastId := 5 }
    GivenBuffers r a.plan smallArgs ∧ taken a.plan smallArgs = [keys] ∧
    ∃ x r' requests r₁,
      exec (Algorithm.execute (primitive b) smallArgs [] (.ready a)) r = (.ok x, r') ∧
      exec (prepare b a.plan smallArgs) r = (.ok requests, r₁) ∧
      KeepsRoles r a.plan smallArgs requests ∧ (∀ request ∈ requests, request.Permitted) ∧
      ∀ launch, .launch launch ∈ requests → launch.kernel = "radixsortScatter" →
        ∀ out ∈ launch.writes, ∀ input ∈ launch.reads, out.id ≠ input.id := by
  intro b uint keys values a r
  have taken_eq : taken a.plan smallArgs = [keys] := by decide
  have buffers : GivenBuffers r a.plan smallArgs := ⟨by decide, by decide⟩
  obtain ⟨x, r', run⟩ := exists_execute_small ⟨uint, uint⟩ (some keys) (some values) r
  obtain ⟨requests, events, r₁, prepared, -, roles⟩ :=
    keepsRoles_execute constructs_small rfl buffers run
  exact ⟨buffers, taken_eq, x, r', requests, r₁, run, prepared, roles,
    roles.permitted (taken_eq ▸ by decide), roles.sides.2 (taken_eq ▸ by decide)⟩

/-- With the buffers to sort as temporary buffers, a scatter goes from a buffer into itself. -/
theorem scatters_in_place :
    let b := Backend.steady Backend.gpuProperties
    let uint : ElemType := ⟨.uint, 1, by decide⟩
    let a := readySmall ⟨uint, uint⟩ (some smallArgs.buffers.keys) smallArgs.buffers.values
    let r : Recorder := { Recorder.start with lastId := 3 }
    Algorithm.Constructs (primitive b) ⟨uint, uint⟩ smallPlan ∧
    GivenBuffers r a.plan smallArgs ∧
    ∃ x r' requests r₁,
      exec (Algorithm.execute (primitive b) smallArgs [] (.ready a)) r = (.ok x, r') ∧
      exec (prepare b a.plan smallArgs) r = (.ok requests, r₁) ∧
      ∃ launch, .launch launch ∈ requests ∧ launch.kernel = "radixsortScatter" ∧
        ∃ out ∈ launch.writes, ∃ input ∈ launch.reads, out.id = input.id := by
  intro b uint a r
  have buffers : GivenBuffers r a.plan smallArgs := ⟨by decide, by decide⟩
  obtain ⟨x, r', run⟩ := exists_execute_small ⟨uint, uint⟩ (some smallArgs.buffers.keys)
    smallArgs.buffers.values r
  obtain ⟨requests, events, r₁, prepared, -⟩ := exec_enqueue_of_execute run
  have sorts := (planSorts_of_build validate_small build_steady).setTemporaries
    (some smallArgs.buffers.keys) smallArgs.buffers.values
  have roles : KeepsRoles r a.plan smallArgs requests :=
    keepsRoles_of_prepare sorts rfl buffers prepared
  refine ⟨constructs_small, buffers, x, r', requests, r₁, run, prepared, ?_⟩
  by_contra hnone
  have apart := roles.sides.1 fun launch hlaunch hkernel out hout input hinput hid =>
    hnone ⟨launch, hlaunch, hkernel, out, hout, input, hinput, hid⟩
  exact absurd apart (by decide)

end Radixsort

end KernelTuning
