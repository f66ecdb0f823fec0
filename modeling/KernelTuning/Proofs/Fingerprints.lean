import KernelTuning.Proofs.Builds
import KernelTuning.Proofs.RoundTrip
import KernelTuning.Proofs.Unambiguous

/-!
# Fingerprints tell devices apart

The digest of a device is taken of bytes in a row: four texts, each ended by a zero byte, numbers of
fixed widths, one byte for the kind, and one byte for each feature.

**Texts.** A zero byte ends a text only if the text has none itself, which is so without the null
character (`IsNullFree`). The parts are then read off one after the other: texts by their ends, and
numbers by their widths. Whatever remains are the features, so these need no end.

**Theorem (`identity_eq_iff`).** Fingerprints without null characters have the same bytes if and
only if they are equal, and the fingerprints of two devices are equal if and only if the devices are
but for their warp sizes.
-/

namespace KernelTuning

/-! ## Parts -/

theorem DeviceKind.code_injective {k l : DeviceKind} (h : k.code = l.code) : k = l := by
  cases k <;> cases l <;> first | rfl | exact absurd h (by decide)

theorem DeviceFeature.code_injective {f g : DeviceFeature} (h : f.code = g.code) : f = g := by
  cases f <;> cases g <;> first | rfl | exact absurd h (by decide)

theorem FeatureSet.toList_injective {s t : FeatureSet} (h : s.toList = t.toList) : s = t := by
  rw [← Json.ofList_toList s, h, Json.ofList_toList]

section

variable {a b : Nat} {z w : List UInt8}

theorem littleEndian_append_inj {n : Nat} (ha : a < 256 ^ n) (hb : b < 256 ^ n)
    (h : Digest.littleEndian n a ++ z = Digest.littleEndian n b ++ w) : a = b ∧ z = w := by
  obtain ⟨hvalue, hrest⟩ := List.append_inj h
    ((Digest.length_littleEndian n a).trans (Digest.length_littleEndian n b).symm)
  exact ⟨Digest.littleEndian_inj ha hb hvalue, hrest⟩

theorem word32_append_inj {a b : UInt32}
    (h : Digest.littleEndian 4 a.toNat ++ z = Digest.littleEndian 4 b.toNat ++ w) :
    a = b ∧ z = w := by
  obtain ⟨hvalue, hrest⟩ := littleEndian_append_inj a.toNat_lt b.toNat_lt h
  exact ⟨UInt32.toNat_inj.1 hvalue, hrest⟩

theorem word64_append_inj {a b : UInt64}
    (h : Digest.littleEndian 8 a.toNat ++ z = Digest.littleEndian 8 b.toNat ++ w) :
    a = b ∧ z = w := by
  obtain ⟨hvalue, hrest⟩ := littleEndian_append_inj a.toNat_lt b.toNat_lt h
  exact ⟨UInt64.toNat_inj.1 hvalue, hrest⟩

end

/-! ## Fingerprints -/

namespace DeviceFingerprint

/-- No text of the fingerprint has the null character. -/
structure IsNullFree (f : DeviceFingerprint) : Prop where
  name : Char.ofNat 0 ∉ f.name.toList
  vendor : Char.ofNat 0 ∉ f.vendor.toList
  platformName : Char.ofNat 0 ∉ f.platformName.toList
  driverVersion : Char.ofNat 0 ∉ f.driverVersion.toList

/-- A text ends at its terminator, whatever follows. -/
theorem terminated_append_inj {s t : String} {z w : List UInt8} (hs : Char.ofNat 0 ∉ s.toList)
    (ht : Char.ofNat 0 ∉ t.toList) (h : terminated s ++ z = terminated t ++ w) :
    s = t ∧ z = w := by
  have hcons : bytesOf s ++ 0 :: z = bytesOf t ++ 0 :: w := by
    simpa only [terminated, bytesOf, List.append_assoc, List.singleton_append] using h
  obtain ⟨hbytes, hrest⟩ :=
    append_cons_inj (zero_notMem_bytesOf hs) (zero_notMem_bytesOf ht) hcons
  exact ⟨bytesOf_injective hbytes, hrest⟩

theorem identity_injective {f g : DeviceFingerprint} (hf : f.IsNullFree) (hg : g.IsNullFree)
    (h : f.identity = g.identity) : f = g := by
  simp only [identity, List.append_assoc] at h
  -- Texts end at their terminator, numbers by their width, and the features take the rest.
  obtain ⟨hname, h⟩ := terminated_append_inj hf.name hg.name h
  obtain ⟨hvendor, h⟩ := terminated_append_inj hf.vendor hg.vendor h
  obtain ⟨hplatform, h⟩ := terminated_append_inj hf.platformName hg.platformName h
  obtain ⟨hdriver, h⟩ := terminated_append_inj hf.driverVersion hg.driverVersion h
  obtain ⟨hvendorId, h⟩ := word32_append_inj h
  rw [List.singleton_append, List.singleton_append, List.cons.injEq] at h
  obtain ⟨hkind, h⟩ := h
  obtain ⟨hunits, h⟩ := word32_append_inj h
  obtain ⟨hgroup, h⟩ := word64_append_inj h
  obtain ⟨hmemory, h⟩ := word64_append_inj h
  have hfeatures := List.map_injective_iff.2 (fun _ _ => DeviceFeature.code_injective) h
  have hkind := DeviceKind.code_injective hkind
  cases f
  cases g
  simp_all only

end DeviceFingerprint

/-- Nothing but the warp sizes is left out of a fingerprint. -/
theorem DeviceProperties.fingerprint_eq_iff {d e : DeviceProperties} :
    d.fingerprint = e.fingerprint ↔
      { d with warpSizeMem := e.warpSizeMem, warpSizeSchedule := e.warpSizeSchedule } = e := by
  constructor
  · intro h
    cases d
    cases e
    simp only [fingerprint, DeviceFingerprint.mk.injEq] at h
    obtain ⟨rfl, rfl, rfl, rfl, rfl, rfl, rfl, rfl, rfl, hfeatures⟩ := h
    rw [FeatureSet.toList_injective hfeatures]
  · intro h
    rw [← h]
    rfl

/-- **Different devices have different bytes to digest**, unless a text has null characters or they
differ in their warp sizes only. -/
theorem DeviceFingerprint.identity_eq_iff :
    (∀ f g : DeviceFingerprint, f.IsNullFree → g.IsNullFree →
      (f.identity = g.identity ↔ f = g)) ∧
    ∀ d e : DeviceProperties, d.fingerprint = e.fingerprint ↔
      { d with warpSizeMem := e.warpSizeMem, warpSizeSchedule := e.warpSizeSchedule } = e :=
  ⟨fun _ _ hf hg => ⟨identity_injective hf hg, congrArg identity⟩,
    fun _ _ => DeviceProperties.fingerprint_eq_iff⟩

/-- The small devices have no null characters. One with other warp sizes has the same bytes, and the
processor has others. -/
theorem DeviceFingerprint.identity_eq_iff_small :
    let wide := { Backend.gpuProperties with warpSizeMem := 64, warpSizeSchedule := 16 }
    wide.fingerprint.identity = Backend.gpuProperties.fingerprint.identity ∧
      Backend.gpuProperties.fingerprint.identity ≠ Backend.cpuProperties.fingerprint.identity := by
  intro wide
  obtain ⟨identities, fingerprints⟩ := identity_eq_iff
  have gpu : Backend.gpuProperties.fingerprint.IsNullFree :=
    ⟨by decide, by decide, by decide, by decide⟩
  have cpu : Backend.cpuProperties.fingerprint.IsNullFree :=
    ⟨by decide, by decide, by decide, by decide⟩
  have same : wide.fingerprint = Backend.gpuProperties.fingerprint :=
    (fingerprints wide Backend.gpuProperties).2 rfl
  refine ⟨(identities _ _ (same ▸ gpu) gpu).2 same, fun h => ?_⟩
  exact absurd ((fingerprints _ _).1 ((identities _ _ gpu cpu).1 h)) (by decide)

/-- A null character moves the end of a text. -/
example : (DeviceFingerprint.mk "a\x00" "b" 1 "p" "1" .gpu 4 256 1024 []).identity =
    (DeviceFingerprint.mk "a" "\x00b" 1 "p" "1" .gpu 4 256 1024 []).identity := by
  decide +kernel

end KernelTuning
