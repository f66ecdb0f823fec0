import KernelTuning.Proofs.SingleRecords
import KernelTuning.Proofs.Builds
import KernelTuning.Proofs.Unambiguous

/-!
# Record paths of tuning keys

The path of a key is built from texts, each of which is made a segment. Only the first one, the name
of the algorithm, is any text.

**Portable texts** (`isPortable`). Versions and digests are written with digits and lower-case
letters, and the name of the record adds dots and its extension. Sanitising leaves such texts alone
unless they are dots only or too long (`sanitize_eq_self`). A version has eleven characters at most,
a digest has 32, and the name of a record 37 (`sanitize_version`, `sanitize_digest`,
`sanitize_recordName`).

**Theorem (`recordPath_served`).** Whatever the algorithm, the device, the problem and the version
of a key are, its path has `recordDepth` segments, the last three as they were written, and a
storage of this depth accepts it for all operations. Keys with different versions have different
paths: the second segment alone tells them apart.
-/

namespace KernelTuning

open DirectoryStorage (Accepts Serves IsWriter)
open RecordPath (sanitize nameLimit isReserved isControl IsClean)

/-! ## Portable texts -/

/-- Whether a character is a digit or a lower-case letter of ASCII, or a dot. -/
def isPortable (c : Char) : Bool := c.isDigit || c.isLower || c = '.'

theorem toNat_of_isPortable {c : Char} (h : isPortable c = true) :
    0x20 ≤ c.toNat ∧ c.toNat < 0x80 := by
  have h₀ : '0'.val.toNat = 48 := rfl
  have h₉ : '9'.val.toNat = 57 := rfl
  have ha : 'a'.val.toNat = 97 := rfl
  have hz : 'z'.val.toNat = 122 := rfl
  have hc : c.toNat = c.val.toNat := rfl
  have hlower : c.isLower = (decide (c.val ≥ 'a'.val) && decide (c.val ≤ 'z'.val)) := rfl
  simp only [isPortable, Char.isDigit, hlower, Bool.or_eq_true, Bool.and_eq_true,
    decide_eq_true_eq, ge_iff_le, UInt32.le_iff_toNat_le] at h
  rcases h with (h | h) | rfl
  · omega
  · omega
  · decide

theorem allowed_of_isPortable {c : Char} (h : isPortable c = true) :
    isReserved c = false ∧ isControl c = false ∧ c.utf8Size = 1 := by
  obtain ⟨hlow, hhigh⟩ := toNat_of_isPortable h
  have hall : "/?<>\\:*|\"".toList.all (!isPortable ·) = true := by decide
  have hreserved (hc : c ∈ "/?<>\\:*|\"".toList) : isPortable c = false := by
    simpa using List.all_eq_true.1 hall c hc
  refine ⟨?_, ?_, ?_⟩
  · refine Bool.eq_false_iff.2 fun hc => ?_
    rw [hreserved (List.contains_iff_mem.1 hc)] at h
    cases h
  · simp only [isControl, Bool.or_eq_false_iff, Bool.and_eq_false_iff, decide_eq_false_iff_not]
    exact ⟨by omega, .inl (by omega)⟩
  · exact Char.utf8Size_eq_one_iff.2 (by rw [UInt32.le_iff_toNat_le]; exact Nat.le_of_lt_succ hhigh)

/-- Portable characters take one byte each. -/
theorem utf8ByteSize_of_isPortable {l : List Char} (h : ∀ c ∈ l, isPortable c = true) :
    (String.ofList l).utf8ByteSize = l.length := by
  induction l with
  | nil => rfl
  | cons c l ih =>
    obtain ⟨hc, hl⟩ := List.forall_mem_cons.1 h
    rw [String.ofList_cons, String.utf8ByteSize_append, String.utf8ByteSize_singleton, ih hl,
      (allowed_of_isPortable hc).2.2, List.length_cons, Nat.add_comm]

/-- Portable texts are left alone by sanitising. -/
theorem sanitize_eq_self {text : String} (h : ∀ c ∈ text.toList, isPortable c = true)
    (hdots : ∃ c ∈ text.toList, c ≠ '.') (hsize : text.toList.length ≤ nameLimit) :
    sanitize text = text := by
  have hbytes := utf8ByteSize_of_isPortable h
  rw [String.ofList_toList] at hbytes
  refine RecordPath.sanitize_eq_self_iff.2 ⟨⟨fun c hc => ?_, hdots⟩, hbytes.trans_le hsize⟩
  obtain ⟨hreserved, hcontrol, -⟩ := allowed_of_isPortable (h c hc)
  exact ⟨hreserved, hcontrol⟩

/-! ## Digests -/

namespace Digest

theorem isPortable_hexDigit {n : Nat} (h : n < 16) :
    isPortable (hexDigit n) = true ∧ hexDigit n ≠ '.' := by
  have hall : ∀ n : Fin 16, isPortable (hexDigit n) = true ∧ hexDigit n ≠ '.' := by decide
  exact hall ⟨n, h⟩

theorem of_mem_hexText {bytes : List UInt8} {c : Char} (h : c ∈ (hexText bytes).toList) :
    isPortable c = true ∧ c ≠ '.' := by
  rw [hexText, String.toList_ofList, List.mem_flatMap] at h
  obtain ⟨b, -, hc⟩ := h
  have hb := b.toNat_lt
  rw [hexByte, List.mem_cons, List.mem_singleton] at hc
  rcases hc with rfl | rfl
  · exact isPortable_hexDigit (by omega)
  · exact isPortable_hexDigit (by omega)

theorem length_hexText (bytes : List UInt8) :
    (hexText bytes).toList.length = 2 * bytes.length := by
  rw [hexText, String.toList_ofList]
  induction bytes with
  | nil => rfl
  | cons b bytes ih =>
    rw [List.flatMap_cons, List.length_append, ih, List.length_cons, hexByte]
    simp only [List.length_cons, List.length_nil]
    omega

theorem length_hexDigest (input : ByteArray) : (Xxh3.hexDigest input).toList.length = 32 := by
  rw [Xxh3.hexDigest, Hash128.toHex, length_hexText, List.length_append, List.length_reverse,
    List.length_reverse, length_littleEndian, length_littleEndian]

theorem of_mem_hexDigest {input : ByteArray} {c : Char}
    (h : c ∈ (Xxh3.hexDigest input).toList) : isPortable c = true ∧ c ≠ '.' :=
  of_mem_hexText h

end Digest

/-! ## The segments of a key -/

namespace TuningKey

variable {P Q : Type} [Problem P] [Problem Q]

theorem toList_version (n : UInt32) :
    ("v" ++ toString n).toList = 'v' :: Nat.toDigits 10 n.toNat := by
  show ("v" ++ toString n.toNat).toList = _
  rw [Nat.toString_eq_ofList_toDigits, String.toList_append]
  exact congrArg ('v' :: ·) String.toList_ofList

theorem sanitize_version (n : UInt32) : sanitize ("v" ++ toString n) = "v" ++ toString n := by
  have hlength : (Nat.toDigits 10 n.toNat).length ≤ 10 :=
    (Nat.length_toDigits_le_iff (by decide) (by decide)).2 (n.toNat_lt.trans (by decide))
  refine sanitize_eq_self ?_ ?_ ?_ <;> rw [toList_version]
  · intro c hc
    rcases List.mem_cons.1 hc with rfl | hc
    · decide
    · simp [isPortable, Nat.isDigit_of_mem_toDigits (by decide) (by decide) hc]
  · exact ⟨'v', List.mem_cons_self, by decide⟩
  · rw [List.length_cons, nameLimit]
    omega

theorem sanitize_digest (f : DeviceFingerprint) : sanitize f.digest = f.digest := by
  have hlength : f.digest.toList.length = 32 := Digest.length_hexDigest _
  obtain ⟨c, hc⟩ := List.exists_mem_of_length_pos (hlength ▸ (by decide : 0 < 32))
  refine sanitize_eq_self (fun c hc => (Digest.of_mem_hexDigest hc).1)
    ⟨c, hc, (Digest.of_mem_hexDigest hc).2⟩ ?_
  rw [hlength]
  decide

variable (k : TuningKey P)

theorem toList_recordName :
    k.recordName.toList =
      (Digest.Xxh3.hexDigest (Json.compactText k).toUTF8).toList ++ ".json".toList :=
  String.toList_append

theorem isPortable_of_mem_recordName {c : Char} (h : c ∈ k.recordName.toList) :
    isPortable c = true := by
  have hextension : ".json".toList.all isPortable = true := by decide
  rw [toList_recordName] at h
  rcases List.mem_append.1 h with hc | hc
  · exact (Digest.of_mem_hexDigest hc).1
  · exact List.all_eq_true.1 hextension c hc

theorem length_recordName : k.recordName.toList.length = 37 := by
  rw [toList_recordName, List.length_append, Digest.length_hexDigest]
  rfl

theorem utf8ByteSize_recordName : k.recordName.utf8ByteSize = 37 := by
  have hbytes := utf8ByteSize_of_isPortable fun _ => k.isPortable_of_mem_recordName
  rwa [String.ofList_toList, length_recordName] at hbytes

theorem sanitize_recordName : sanitize k.recordName = k.recordName := by
  refine sanitize_eq_self (fun _ => k.isPortable_of_mem_recordName) ⟨'j', ?_, by decide⟩ ?_
  · rw [toList_recordName]
    exact List.mem_append_right _ (by decide)
  · rw [length_recordName]
    decide

/-- The name does not start with a dot, since the digest comes first. -/
theorem isRecordName_recordName : DirectoryStorage.isRecordName k.recordName = true := by
  have hlength := Digest.length_hexDigest (Json.compactText k).toUTF8
  refine DirectoryStorage.isRecordName_iff.2 ?_
  rw [toList_recordName]
  refine ⟨fun hdot => ?_, List.suffix_append _ _⟩
  rcases hdigest : (Digest.Xxh3.hexDigest (Json.compactText k).toUTF8).toList with _ | ⟨c, rest⟩
  · rw [hdigest] at hlength
    cases hlength
  · rw [hdigest, List.cons_append, List.cons_prefix_cons] at hdot
    have hmem : c ∈ (Digest.Xxh3.hexDigest (Json.compactText k).toUTF8).toList := by
      rw [hdigest]
      exact List.mem_cons_self
    exact (Digest.of_mem_hexDigest hmem).2 hdot.1.symm

theorem segments_recordPath :
    k.recordPath.segments =
      [sanitize k.algorithm, "v" ++ toString k.formatVersion, k.device.digest, k.recordName] := by
  show [_, _, _, _] = _
  rw [sanitize_version, sanitize_digest, sanitize_recordName]

/-! ## Paths of keys -/

theorem accepts_recordPath {s : DirectoryStorage} (hdepth : s.depth = recordDepth)
    (hwriter : IsWriter s.writer) : s.Accepts k.recordPath := by
  have hlast : [k.algorithm, "v" ++ toString k.formatVersion, k.device.digest,
      k.recordName].getLast? = some k.recordName := rfl
  refine .of_sanitized hwriter hdepth.symm hlast ?_ ?_
  · rw [sanitize_recordName]
    exact k.isRecordName_recordName
  · rw [sanitize_recordName, utf8ByteSize_recordName]
    decide

/-- The second segment tells versions apart. -/
theorem formatVersion_eq {k : TuningKey P} {k' : TuningKey Q} (h : k.recordPath = k'.recordPath) :
    k.formatVersion = k'.formatVersion := by
  have hsegments := congrArg RecordPath.segments h
  rw [segments_recordPath, segments_recordPath] at hsegments
  simp only [List.cons.injEq] at hsegments
  have hdigits := congrArg String.toList hsegments.2.1
  rw [toList_version, toList_version, List.cons.injEq] at hdigits
  exact UInt32.toNat_inj.1 (toDigits_inj hdigits.2)

/-- **The path of every key is that of a record**: it has `recordDepth` segments, of which only the
algorithm's differs from its text, every storage of this depth serves it, and keys with different
versions have different paths. -/
theorem recordPath_served :
    k.recordPath.segments.length = recordDepth ∧
      k.recordPath.segments =
        [sanitize k.algorithm, "v" ++ toString k.formatVersion, k.device.digest, k.recordName] ∧
      (∀ segment ∈ k.recordPath.segments.drop 1, sanitize segment = segment) ∧
      (∀ s : DirectoryStorage, s.depth = recordDepth → IsWriter s.writer →
        s.Serves k.recordPath) ∧
      ∀ k' : TuningKey Q, k.formatVersion ≠ k'.formatVersion → k.recordPath ≠ k'.recordPath := by
  refine ⟨rfl, k.segments_recordPath, fun segment hsegment => ?_,
    fun s hdepth hwriter => (k.accepts_recordPath hdepth hwriter).serves,
    fun k' hversions heq => hversions (formatVersion_eq heq)⟩
  -- Only the name of the algorithm is free text. The other segments are clean as they are.
  rw [segments_recordPath] at hsegment
  simp only [List.drop_succ_cons, List.drop_zero, List.mem_cons, List.not_mem_nil,
    or_false] at hsegment
  rcases hsegment with rfl | rfl | rfl
  · exact sanitize_version k.formatVersion
  · exact sanitize_digest k.device
  · exact k.sanitize_recordName

/-- The records of two versions of an algorithm whose name is no file name. -/
theorem recordPath_served_versions :
    let key (version : UInt32) : TuningKey String :=
      ⟨"scan/../sum", Backend.gpuProperties.fingerprint, "int", version⟩
    let s : DirectoryStorage := ⟨(FilePath.ofPlace []).below ["cache"], recordDepth, "7-a"⟩
    s.Serves (key 1).recordPath ∧ s.Serves (key 2).recordPath ∧
      (key 1).recordPath ≠ (key 2).recordPath ∧ sanitize "v1" = "v1" := by
  intro key s
  have writer : IsWriter "7-a" := ⟨by decide, by decide⟩
  obtain ⟨-, hsegments, kept, served, apart⟩ := recordPath_served (key 1) (Q := String)
  obtain ⟨-, -, -, served', -⟩ := recordPath_served (key 2) (Q := String)
  refine ⟨served s rfl writer, served' s rfl writer, apart (key 2) (by decide), ?_⟩
  exact kept "v1" (by rw [hsegments]; exact List.mem_cons.2 (.inl (by decide)))

end TuningKey

end KernelTuning
