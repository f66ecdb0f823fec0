import KernelTuning.Json.Value
import KernelTuning.Json.Token

/-!
# Literals in JSON texts

The bytes of a text are the encodings of its characters, one after the other (`bytesOf_eq`). On
this level numbers and strings are read back as they are written.

**Numbers.** A `WellFormed` literal is written digit by digit (`NumberLiteral.toBytes`), and
`next?` reads the same literal from these bytes, whatever follows, unless it would continue the
number (`EndsNumber`).

**Strings.** `escapeChar` is undone by `resolve?` one character at a time, so a string between
quotes is read back, with its text, whatever follows.
-/

namespace KernelTuning

/-! ## Bytes of texts -/

theorem ByteArray.toList_loop (b : ByteArray) (i : Nat) (r : List UInt8) :
    ByteArray.toList.loop b i r = r.reverse ++ b.data.toList.drop i := by
  fun_induction ByteArray.toList.loop b i r with
  | case1 i r h ih =>
    have hi : i < b.data.toList.length := h
    rw [ih, List.reverse_cons, List.append_assoc, List.drop_eq_getElem_cons hi]
    simp [ByteArray.get!, h]
  | case2 i r h => rw [List.drop_eq_nil_of_le (by simpa using h), List.append_nil]

theorem ByteArray.toList_eq (b : ByteArray) : b.toList = b.data.toList := by
  unfold ByteArray.toList
  rw [ByteArray.toList_loop]
  rfl

/-- The bytes of a list of characters. -/
def charBytes (cs : List Char) : List UInt8 := cs.flatMap String.utf8EncodeChar

/-- The bytes of a text. -/
def bytesOf (s : String) : List UInt8 := s.toUTF8.toList

theorem bytesOf_eq (s : String) : bytesOf s = charBytes s.toList := by
  unfold bytesOf charBytes
  rw [ByteArray.toList_eq, String.toUTF8_eq_toByteArray, ← String.utf8Encode_toList]
  simp [List.utf8Encode]

@[simp] theorem charBytes_append (l r : List Char) :
    charBytes (l ++ r) = charBytes l ++ charBytes r := List.flatMap_append

@[simp] theorem bytesOf_append (s t : String) : bytesOf (s ++ t) = bytesOf s ++ bytesOf t := by
  simp [bytesOf_eq]

@[simp] theorem bytesOf_ofList (cs : List Char) : bytesOf (String.ofList cs) = charBytes cs := by
  rw [bytesOf_eq, String.toList_ofList]

/-- The bytes of a text are those that it is read from. -/
theorem fromUTF8?_bytesOf (s : String) : String.fromUTF8? ⟨(bytesOf s).toArray⟩ = some s := by
  have h : (⟨(bytesOf s).toArray⟩ : ByteArray) = s.toByteArray := by
    unfold bytesOf
    rw [ByteArray.toList_eq, String.toUTF8_eq_toByteArray]
  rw [h]
  unfold String.fromUTF8?
  rw [dif_pos s.isValidUTF8]
  rfl

namespace Json

/-! ## Digits -/

/-- Digits as they are written. -/
def digitBytes (digits : List Nat) : List UInt8 := digits.map fun d => UInt8.ofNat (48 + d)

/-- The values of the characters of a number. -/
def digitsOf (cs : List Char) : List Nat := cs.map fun c => c.toNat - 48

theorem toNat_digitByte {d : Nat} (h : d < 10) : (UInt8.ofNat (48 + d)).toNat = 48 + d := by
  rw [UInt8.toNat_ofNat']
  omega

theorem isDigitByte_digitByte {d : Nat} (h : d < 10) :
    isDigitByte (UInt8.ofNat (48 + d)) = true := by
  unfold isDigitByte
  rw [toNat_digitByte h]
  simp
  omega

theorem lt_ten_of_mem_digitsOf {cs : List Char} (h : ∀ c ∈ cs, c.isDigit) :
    ∀ d ∈ digitsOf cs, d < 10 := by
  intro d hd
  obtain ⟨c, hc, rfl⟩ := List.mem_map.1 hd
  have := h c hc
  simp [Char.isDigit, UInt32.le_iff_toNat_le] at this
  omega

theorem charBytes_of_isDigit {cs : List Char} (h : ∀ c ∈ cs, c.isDigit) :
    charBytes cs = digitBytes (digitsOf cs) := by
  induction cs with
  | nil => rfl
  | cons c cs ih =>
    have hc := h c (by simp)
    simp [Char.isDigit, UInt32.le_iff_toNat_le] at hc
    have hval : c.val.toNat = c.toNat := rfl
    have hsize : c.utf8Size = 1 := by
      rw [Char.utf8Size_eq_one_iff, UInt32.le_iff_toNat_le]
      simp
      omega
    have hbyte : c.val.toUInt8 = UInt8.ofNat (48 + (c.toNat - 48)) := by
      rw [show 48 + (c.toNat - 48) = c.toNat by omega]
      rfl
    have ih := ih fun c' h' => h c' (by simp [h'])
    unfold charBytes digitBytes digitsOf at ih ⊢
    rw [List.flatMap_cons, ih, String.utf8EncodeChar_eq_singleton hsize, hbyte]
    rfl

/-- The digits at the start of a text end where another character follows. -/
theorem spanDigits_digitBytes {ds : List Nat} {rest : List UInt8} (h : ∀ d ∈ ds, d < 10)
    (hrest : ∀ b ∈ rest.head?, isDigitByte b = false) :
    Token.spanDigits (digitBytes ds ++ rest) = (ds, rest) := by
  have hall : ∀ b ∈ digitBytes ds, isDigitByte b = true := by
    intro b hb
    obtain ⟨d, hd, rfl⟩ := List.mem_map.1 hb
    exact isDigitByte_digitByte (h d hd)
  have htake : rest.takeWhile isDigitByte = [] := by
    cases rest with
    | nil => rfl
    | cons b rest => rw [List.takeWhile_cons_of_neg (by simp [hrest b rfl])]
  have hdrop : rest.dropWhile isDigitByte = rest := by
    cases rest with
    | nil => rfl
    | cons b rest => rw [List.dropWhile_cons_of_neg (by simp [hrest b rfl])]
  unfold Token.spanDigits
  rw [List.takeWhile_append_of_pos hall, List.dropWhile_append_of_pos hall, htake, hdrop,
    List.append_nil]
  congr 1
  rw [digitBytes, List.map_map]
  conv => rhs; rw [← List.map_id ds]
  apply List.map_congr_left
  intro d hd
  show (UInt8.ofNat (48 + d)).toNat - 48 = d
  rw [toNat_digitByte (h d hd)]
  omega

/-! ## Numbers -/

/-- What follows a number: nothing, or a byte that cannot continue it. -/
def EndsNumber (rest : List UInt8) : Prop :=
  ∀ b ∈ rest.head?, isDigitByte b = false ∧ b ≠ 46 ∧ b ≠ 101 ∧ b ≠ 69

theorem EndsNumber.nil : EndsNumber [] := by
  intro b h
  cases h

namespace NumberLiteral

/-- The fraction of a literal as it is written. -/
def fractionBytes (fraction : List Nat) : List UInt8 :=
  if fraction = [] then [] else 46 :: digitBytes fraction

/-- The exponent of a literal as it is written, always with its sign. -/
def exponentBytes : Option (Bool × List Nat) → List UInt8
  | none => []
  | some (minus, digits) => 101 :: (if minus then 45 else 43) :: digitBytes digits

/-- A literal as it is written. -/
def toBytes (n : NumberLiteral) : List UInt8 :=
  (if n.isNegative then [45] else []) ++
    (digitBytes n.whole ++ (fractionBytes n.fraction ++ exponentBytes n.exponent))

/-- What the grammar asks of a literal. -/
structure WellFormed (n : NumberLiteral) : Prop where
  whole : ∀ d ∈ n.whole, d < 10
  whole_ne_nil : n.whole ≠ []
  leading : 1 < n.whole.length → n.whole.head? ≠ some 0
  fraction : ∀ d ∈ n.fraction, d < 10
  exponent : ∀ e ∈ n.exponent, e.2 ≠ [] ∧ ∀ d ∈ e.2, d < 10

theorem exponent?_exponentBytes {e : Option (Bool × List Nat)} {rest : List UInt8}
    (he : ∀ e' ∈ e, e'.2 ≠ [] ∧ ∀ d ∈ e'.2, d < 10) (hrest : EndsNumber rest) :
    Token.exponent? (exponentBytes e ++ rest) = some (e, rest) := by
  rcases e with _ | ⟨minus, digits⟩
  · cases rest with
    | nil => rfl
    | cons b rest =>
      obtain ⟨-, -, he, hE⟩ := hrest b rfl
      simp [exponentBytes, Token.exponent?, he, hE]
  · obtain ⟨hne, hlt⟩ := he _ rfl
    have hspan : Token.spanDigits (digitBytes digits ++ rest) = (digits, rest) :=
      spanDigits_digitBytes hlt fun b hb => (hrest b hb).1
    cases minus <;> simp [exponentBytes, Token.exponent?, Token.exponentSign, hspan, hne]

theorem fraction?_fractionBytes {f : List Nat} {rest : List UInt8} (hf : ∀ d ∈ f, d < 10)
    (hrest : ∀ b ∈ rest.head?, isDigitByte b = false ∧ b ≠ 46) :
    Token.fraction? (fractionBytes f ++ rest) = some (f, rest) := by
  unfold fractionBytes
  split
  · rename_i hnil
    subst hnil
    cases rest with
    | nil => rfl
    | cons b rest =>
      obtain ⟨-, hpoint⟩ := hrest b rfl
      unfold Token.fraction?
      split
      · rename_i heq
        cases heq
        exact absurd rfl hpoint
      · rfl
  · rename_i hne
    have hspan : Token.spanDigits (digitBytes f ++ rest) = (f, rest) :=
      spanDigits_digitBytes hf fun b hb => (hrest b hb).1
    simp [Token.fraction?, hspan, hne]

/-- The exponent does not continue the digits before it. -/
theorem head?_exponentBytes {e : Option (Bool × List Nat)} {rest : List UInt8}
    (hrest : EndsNumber rest) :
    ∀ b ∈ (exponentBytes e ++ rest).head?, isDigitByte b = false ∧ b ≠ 46 := by
  rcases e with _ | ⟨minus, digits⟩
  · intro b hb
    exact ⟨(hrest b hb).1, (hrest b hb).2.1⟩
  · intro b hb
    cases hb
    decide

/-- The fraction does not continue the digits before it. -/
theorem head?_fractionBytes {f : List Nat} {rest : List UInt8}
    (hrest : ∀ b ∈ rest.head?, isDigitByte b = false ∧ b ≠ 46) :
    ∀ b ∈ (fractionBytes f ++ rest).head?, isDigitByte b = false := by
  unfold fractionBytes
  split
  · intro b hb
    exact (hrest b hb).1
  · intro b hb
    cases hb
    decide

variable {n : NumberLiteral} {rest : List UInt8}

theorem number?_toBytes (h : n.WellFormed) (hrest : EndsNumber rest) :
    Token.number? n.isNegative
      (digitBytes n.whole ++ (fractionBytes n.fraction ++ (exponentBytes n.exponent ++ rest))) =
      some (n, rest) := by
  have hexponent := head?_exponentBytes (e := n.exponent) hrest
  have hspan := spanDigits_digitBytes h.whole (head?_fractionBytes (f := n.fraction) hexponent)
  unfold Token.number?
  simp only [hspan, fraction?_fractionBytes h.fraction hexponent,
    exponent?_exponentBytes h.exponent hrest, Option.bind_some, Option.map_some]
  rw [if_neg]
  rintro (hnil | ⟨hlength, hzero⟩)
  · exact h.whole_ne_nil (List.isEmpty_iff.1 hnil)
  · exact h.leading hlength hzero

/-- A digit starts no other token than a number. -/
theorem next?_of_isDigitByte {b : UInt8} {l : List UInt8} (h : isDigitByte b = true) :
    Token.next? (b :: l) = (Token.number? false (b :: l)).map fun n => (.number n.1, n.2) := by
  unfold Token.next?
  split
  case h_13 => rfl
  case h_1 heq => cases heq
  all_goals
    rename_i heq
    cases heq
    exact absurd h (by decide)

/-- **A literal is read back.** -/
theorem next?_toBytes (h : n.WellFormed) (hrest : EndsNumber rest) :
    Token.next? (n.toBytes ++ rest) = some (.number n, rest) := by
  have hnumber := number?_toBytes h hrest
  unfold toBytes
  simp only [List.append_assoc]
  rcases hminus : n.isNegative with _ | _ <;> rw [hminus] at hnumber
  · obtain ⟨d, ds, hwhole⟩ := List.exists_cons_of_ne_nil h.whole_ne_nil
    have hd := isDigitByte_digitByte (h.whole d (by simp [hwhole]))
    simp only [hwhole, digitBytes, List.map_cons, List.cons_append, List.nil_append,
      Bool.false_eq_true, if_false] at hnumber ⊢
    rw [next?_of_isDigitByte hd, hnumber]
    rfl
  · simp only [if_true, List.cons_append, List.nil_append]
    unfold Token.next?
    simp [hnumber]

/-! ## Whole numbers -/

/-- The literal of a whole number. -/
def ofInt (i : Int) : NumberLiteral :=
  ⟨decide (i < 0), digitsOf (Nat.toDigits 10 i.natAbs), [], none⟩

theorem isDigit_toDigits (m : Nat) : ∀ c ∈ Nat.toDigits 10 m, c.isDigit :=
  fun _ h => Nat.isDigit_of_mem_toDigits (by decide) (by decide) h

/-- The first digit of a number with several digits is not zero. -/
theorem head?_toDigits {m : Nat} (h : m ≠ 0) :
    ∃ c, (Nat.toDigits 10 m).head? = some c ∧ c.toNat - 48 ≠ 0 := by
  by_cases hm : m < 10
  · refine ⟨m.digitChar, by rw [Nat.toDigits_of_lt_base hm]; rfl, ?_⟩
    rw [Nat.toNat_digitChar_sub_48_of_lt_ten hm]
    exact h
  · obtain ⟨c, hc, hzero⟩ := head?_toDigits (m := m / 10) (by omega)
    refine ⟨c, ?_, hzero⟩
    rw [Nat.toDigits_of_base_le (by decide) (by omega), List.head?_append, hc]
    rfl

theorem leading_toDigits (m : Nat) :
    1 < (digitsOf (Nat.toDigits 10 m)).length → (digitsOf (Nat.toDigits 10 m)).head? ≠ some 0 := by
  intro hlength
  by_cases h : m = 0
  · subst h
    simp [digitsOf] at hlength
  · obtain ⟨c, hc, hzero⟩ := head?_toDigits h
    rw [digitsOf, List.head?_map, hc]
    simpa using hzero

theorem value_digitsOf (cs : List Char) : value (digitsOf cs) = Nat.ofDigitChars 10 cs 0 := by
  unfold value digitsOf Nat.ofDigitChars
  rw [List.foldl_map]
  congr 1
  funext n c
  rw [Nat.mul_comm]
  rfl

theorem value_toDigits (m : Nat) : value (digitsOf (Nat.toDigits 10 m)) = m := by
  rw [value_digitsOf, Nat.ofDigitChars_ten_toDigits]

theorem wellFormed_ofInt (i : Int) : (ofInt i).WellFormed where
  whole := lt_ten_of_mem_digitsOf (isDigit_toDigits i.natAbs)
  whole_ne_nil := by simp [ofInt, digitsOf]
  leading := leading_toDigits i.natAbs
  fraction := by
    rintro d ⟨⟩
  exponent := by
    rintro e ⟨⟩

theorem bytesOf_toString_nat (m : Nat) :
    bytesOf (toString m) = digitBytes (digitsOf (Nat.toDigits 10 m)) := by
  rw [Nat.toString_eq_ofList_toDigits, bytesOf_ofList, charBytes_of_isDigit (isDigit_toDigits m)]

theorem bytesOf_toString_int (i : Int) : bytesOf (toString i) = (ofInt i).toBytes := by
  rcases i with m | m
  · rw [show toString (Int.ofNat m) = toString m from rfl, bytesOf_toString_nat]
    simp [toBytes, ofInt, fractionBytes, exponentBytes]
  · rw [show toString (Int.negSucc m) = "-" ++ toString (m + 1) from rfl, bytesOf_append,
      bytesOf_toString_nat, bytesOf_eq]
    simp [toBytes, ofInt, fractionBytes, exponentBytes, Int.negSucc_lt_zero]
    rfl

theorem word?_ofInt {m : Nat} (h : m < 2 ^ 64) : (ofInt m).word? = some m := by
  unfold word? ofInt
  simp only [Int.natAbs_natCast, value_toDigits]
  rw [if_pos]
  exact ⟨by simp, trivial, trivial, h⟩

end NumberLiteral

/-! ## Strings -/

/-- A string between its quotes, as it is written. -/
def literalOf (s : String) : StringLiteral := charBytes (s.toList.flatMap escapeChar)

/-- The bytes that stand for themselves in a string. -/
def IsPlain (b : UInt8) : Prop := 32 ≤ b.toNat ∧ b ≠ 34 ∧ b ≠ 92

theorem isPlain_ofNat {k : Nat} (h : 32 ≤ k) (hbyte : k < 256) (hquote : k ≠ 34)
    (hslash : k ≠ 92) : IsPlain (UInt8.ofNat k) := by
  have hk : (UInt8.ofNat k).toNat = k := by
    rw [UInt8.toNat_ofNat']
    omega
  refine ⟨by omega, ?_, ?_⟩
  · intro h
    rw [h] at hk
    exact hquote hk.symm
  · intro h
    rw [h] at hk
    exact hslash hk.symm

theorem isPlain_utf8EncodeChar {c : Char} (hc : 0x20 ≤ c.toNat) (hquote : c ≠ '"')
    (hslash : c ≠ '\\') : ∀ b ∈ String.utf8EncodeChar c, IsPlain b := by
  have hval : c.val.toNat = c.toNat := rfl
  have hquote : c.toNat ≠ 34 := fun h => hquote (Char.toNat_inj.1 h)
  have hslash : c.toNat ≠ 92 := fun h => hslash (Char.toNat_inj.1 h)
  intro b hb
  unfold String.utf8EncodeChar at hb
  simp only [hval] at hb
  split at hb
  · obtain rfl := List.mem_singleton.1 hb
    exact isPlain_ofNat hc (by omega) hquote hslash
  split at hb
  · simp only [List.mem_cons, List.not_mem_nil, or_false] at hb
    rcases hb with rfl | rfl <;> exact isPlain_ofNat (by omega) (by omega) (by omega) (by omega)
  split at hb
  · simp only [List.mem_cons, List.not_mem_nil, or_false] at hb
    rcases hb with rfl | rfl | rfl <;>
      exact isPlain_ofNat (by omega) (by omega) (by omega) (by omega)
  · simp only [List.mem_cons, List.not_mem_nil, or_false] at hb
    rcases hb with rfl | rfl | rfl | rfl <;>
      exact isPlain_ofNat (by omega) (by omega) (by omega) (by omega)

/-- The forms in which a character is written. -/
inductive Escape (c : Char) : List UInt8 → Prop where
  | plain (h : ∀ b ∈ String.utf8EncodeChar c, IsPlain b) : Escape c (String.utf8EncodeChar c)
  | letter {e b : UInt8} (he : e ≠ 117) (h : StringLiteral.escaped? e = some b)
      (hc : String.utf8EncodeChar c = [b]) : Escape c [92, e]
  | code {a b : UInt8} (h : hexQuad? 48 48 a b = some c.toNat) (hc : c.toNat < 32) :
      Escape c [92, 117, 48, 48, a, b]

theorem escape_of_code : ∀ n < 32, ∃ a b : UInt8,
    charBytes (Digest.hexByte (UInt8.ofNat n)) = [a, b] ∧ hexQuad? 48 48 a b = some n := by
  intro n hn
  have h : ∀ n < 32, charBytes (Digest.hexByte (UInt8.ofNat n)) =
      [UInt8.ofNat (48 + n / 16), UInt8.ofNat (if n % 16 < 10 then 48 + n % 16 else 87 + n % 16)]
        ∧ hexQuad? 48 48 (UInt8.ofNat (48 + n / 16))
          (UInt8.ofNat (if n % 16 < 10 then 48 + n % 16 else 87 + n % 16)) = some n := by decide
  exact ⟨_, _, h n hn⟩

theorem escape_escapeChar (c : Char) : Escape c (charBytes (escapeChar c)) := by
  unfold escapeChar
  split
  · rename_i h
    subst h
    exact .letter (e := 34) (b := 34) (by decide) rfl rfl
  split
  · rename_i h
    subst h
    exact .letter (e := 92) (b := 92) (by decide) rfl rfl
  split
  · rename_i hquote hslash h
    rw [charBytes, List.flatMap_singleton]
    exact .plain (isPlain_utf8EncodeChar h hquote hslash)
  split
  · rename_i h
    subst h
    exact .letter (e := 110) (b := 10) (by decide) rfl rfl
  split
  · rename_i h
    subst h
    exact .letter (e := 114) (b := 13) (by decide) rfl rfl
  split
  · rename_i h
    subst h
    exact .letter (e := 116) (b := 9) (by decide) rfl rfl
  split
  · rename_i h
    obtain rfl : c = Char.ofNat 8 := Char.toNat_inj.1 h
    exact .letter (e := 98) (b := 8) (by decide) rfl rfl
  split
  · rename_i h
    obtain rfl : c = Char.ofNat 12 := Char.toNat_inj.1 h
    exact .letter (e := 102) (b := 12) (by decide) rfl rfl
  · -- What is left are control characters without a letter, which are written by their code.
    rename_i h _ _ _ _ _
    have hc : c.toNat < 32 := by omega
    obtain ⟨a, b, hbytes, hcode⟩ := escape_of_code c.toNat hc
    rw [charBytes_append, hbytes]
    exact .code hcode hc

theorem string?_plain {bs l : List UInt8} (h : ∀ b ∈ bs, IsPlain b) :
    Token.string? (bs ++ l) = (Token.string? l).map fun s => (bs ++ s.1, s.2) := by
  induction bs with
  | nil => simp
  | cons b bs ih =>
    obtain ⟨hcontrol, hquote, hslash⟩ := h b (by simp)
    have ih := ih fun b' h' => h b' (by simp [h'])
    rw [List.cons_append, Token.string?]
    · rw [if_neg (by simp [hslash]; omega), ih, Option.map_map]
      rfl
    · simp [hquote]
    · simp [hslash]
    · simp [hslash]

theorem resolve?_plain {bs l : List UInt8} (h : ∀ b ∈ bs, IsPlain b) :
    StringLiteral.resolve? (bs ++ l) = (StringLiteral.resolve? l).map (bs ++ ·) := by
  induction bs with
  | nil => simp
  | cons b bs ih =>
    obtain ⟨-, -, hslash⟩ := h b (by simp)
    have ih := ih fun b' h' => h b' (by simp [h'])
    rw [List.cons_append, StringLiteral.resolve?]
    · rw [ih]
      cases StringLiteral.resolve? l <;> rfl
    · simp [hslash]
    · simp [hslash]

/-- A character goes into a string as it is written. -/
theorem string?_escape {c : Char} {bs : List UInt8} (h : Escape c bs) (l : List UInt8) :
    Token.string? (bs ++ l) = (Token.string? l).map fun s => (bs ++ s.1, s.2) := by
  cases h with
  | plain h => exact string?_plain h
  | @letter e b he h hc =>
    show Token.string? (92 :: e :: l) = _
    rw [Token.string?]
    · rw [h]
      rfl
    · simp [he]
  | code h hc => simp [Token.string?, h]

/-- A character is read back from the way it is written. -/
theorem resolve?_escape {c : Char} {bs : List UInt8} (h : Escape c bs) (l : List UInt8) :
    StringLiteral.resolve? (bs ++ l) =
      (StringLiteral.resolve? l).map (String.utf8EncodeChar c ++ ·) := by
  cases h with
  | plain h => exact resolve?_plain h
  | @letter e b he h hc =>
    show StringLiteral.resolve? (92 :: e :: l) = _
    rw [StringLiteral.resolve?, h, hc]
    · cases StringLiteral.resolve? l <;> rfl
    · simp [he]
  | @code a b h hc =>
    show StringLiteral.resolve? (92 :: 117 :: 48 :: 48 :: a :: b :: l) = _
    have hlow : ¬(0xDC00 ≤ c.toNat ∧ c.toNat ≤ 0xDFFF) := by omega
    have hhigh : ¬(0xD800 ≤ c.toNat ∧ c.toNat ≤ 0xDBFF) := by omega
    simp only [StringLiteral.resolve?, h, Option.bind_eq_bind, Option.bind_some, if_neg hlow,
      if_neg hhigh, Char.ofNat_toNat]
    cases StringLiteral.resolve? l <;> rfl

theorem string?_literal (cs : List Char) (rest : List UInt8) :
    Token.string? (charBytes (cs.flatMap escapeChar) ++ 34 :: rest) =
      some (charBytes (cs.flatMap escapeChar), rest) := by
  induction cs with
  | nil => rfl
  | cons c cs ih =>
    rw [List.flatMap_cons, charBytes_append, List.append_assoc,
      string?_escape (escape_escapeChar c), ih]
    rfl

theorem resolve?_literal (cs : List Char) :
    StringLiteral.resolve? (charBytes (cs.flatMap escapeChar)) = some (charBytes cs) := by
  induction cs with
  | nil => rfl
  | cons c cs ih =>
    rw [List.flatMap_cons, charBytes_append, resolve?_escape (escape_escapeChar c), ih]
    rfl

/-- **A string is read back.** -/
@[simp] theorem text?_literalOf (s : String) : (literalOf s).text? = some s := by
  unfold StringLiteral.text? literalOf
  rw [resolve?_literal, ← bytesOf_eq]
  exact fromUTF8?_bytesOf s

theorem bytesOf_quote (s : String) : bytesOf (quote s) = 34 :: (literalOf s ++ [34]) := by
  unfold quote literalOf
  rw [bytesOf_ofList]
  simp only [charBytes, List.flatMap_cons, List.flatMap_append]
  rfl

theorem next?_quote (s : String) (rest : List UInt8) :
    Token.next? (bytesOf (quote s) ++ rest) = some (.string (literalOf s), rest) := by
  rw [bytesOf_quote, List.cons_append, List.append_assoc]
  unfold Token.next? literalOf
  simp [string?_literal]

end Json

end KernelTuning
