import KernelTuning.Json.Codec
import KernelTuning.Proofs.DecimalText

/-!
# Reading what was written

A written value is read back as its `node`, from the compact text and from the indented one.

**Tokens.** Both texts of a value split into its `tokens`. Most texts do so whatever follows
(`LexesAnywhere`); a number must not be continued by what follows (`Lexes`), and in both layouts
a comma, a blank or a bracket follows.

**Machine.** From any stack the machine reads the tokens of a value and then waits for a separator,
with the node of the value at hand.

**Theorem (`ofBytes?_pretty`, `ofBytes?_compact`).** Reading a text of a value gives its node.
-/

namespace KernelTuning

namespace Json

/-! ## Tokens and nodes of a value -/

/-- The token of a double. -/
def floatToken (x : Binary64) : Token := if x.isFinite then .number x.literal else .null

mutual

/-- The tokens of a value. -/
def tokens : Json → List Token
  | .null => [.null]
  | .bool b => [.bool b]
  | .int i => [.number (.ofInt i)]
  | .float x => [floatToken x]
  | .str s => [.string (literalOf s)]
  | .arr items => .openBracket :: ([Token.comma].intercalate (itemTokens items) ++ [.closeBracket])
  | .obj fields => .openBrace :: ([Token.comma].intercalate (fieldTokens fields) ++ [.closeBrace])

def itemTokens : List Json → List (List Token)
  | [] => []
  | v :: rest => tokens v :: itemTokens rest

def fieldTokens : List (String × Json) → List (List Token)
  | [] => []
  | (name, v) :: rest => (.string (literalOf name) :: .colon :: tokens v) :: fieldTokens rest

end

mutual

/-- What a value is read back as. -/
def node : Json → Node
  | .null => .null
  | .bool b => .bool b
  | .int i => .number (.ofInt i)
  | .float x => if x.isFinite then .number x.literal else .null
  | .str s => .string (literalOf s)
  | .arr items => .array (itemNodes items)
  | .obj fields => .object (fieldNodes fields)

def itemNodes : List Json → List Node
  | [] => []
  | v :: rest => node v :: itemNodes rest

def fieldNodes : List (String × Json) → List (StringLiteral × Node)
  | [] => []
  | (name, v) :: rest => (literalOf name, node v) :: fieldNodes rest

end

/-! ## Splitting a text -/

theorem ofBytes?_eq (l : List UInt8) :
    Token.ofBytes? l =
      match l.dropWhile isBlankByte with
      | [] => some []
      | b :: rest =>
        match Token.next? (b :: rest) with
        | none => none
        | some t => (Token.ofBytes? t.2).map (t.1 :: ·) := by
  rw [Token.ofBytes?]
  split
  · rename_i h
    rw [h]
  · rename_i h
    rw [h]
    dsimp only
    split
    · rename_i hnext
      rw [hnext]
    · rename_i hnext
      rw [hnext]

theorem ofBytes?_nil : Token.ofBytes? [] = some [] := by
  rw [ofBytes?_eq]
  rfl

theorem ofBytes?_blank {b : UInt8} (h : isBlankByte b = true) (l : List UInt8) :
    Token.ofBytes? (b :: l) = Token.ofBytes? l := by
  rw [ofBytes?_eq, ofBytes?_eq l, List.dropWhile_cons_of_pos h]

theorem next?_blank {b : UInt8} (h : isBlankByte b = true) (l : List UInt8) :
    Token.next? (b :: l) = none := by
  have hb : b = 32 ∨ b = 9 ∨ b = 10 ∨ b = 13 := by
    simpa [isBlankByte, or_assoc] using h
  rcases hb with rfl | rfl | rfl | rfl <;> rfl

theorem ofBytes?_of_next? {l rest : List UInt8} {t : Token} (h : Token.next? l = some (t, rest)) :
    Token.ofBytes? l = (Token.ofBytes? rest).map (t :: ·) := by
  rcases l with _ | ⟨b, l⟩
  · cases h
  · rcases hb : isBlankByte b with _ | _
    · rw [ofBytes?_eq, List.dropWhile_cons_of_neg (by simp [hb])]
      simp only [h]
    · rw [next?_blank hb] at h
      cases h

/-- A text that splits into these tokens before what follows, if this is as it should be. -/
def LexesBefore (follows : List UInt8 → Prop) (text : List UInt8) (ts : List Token) : Prop :=
  ∀ rest, follows rest → Token.ofBytes? (text ++ rest) = (Token.ofBytes? rest).map (ts ++ ·)

/-- A text that splits into these tokens, whatever follows it. -/
def LexesAnywhere : List UInt8 → List Token → Prop := LexesBefore fun _ => True

/-- A text that splits into these tokens, if what follows does not continue a number. -/
def Lexes : List UInt8 → List Token → Prop := LexesBefore EndsNumber

/-- A text that ends a number before it. -/
def StartsApart : List UInt8 → Prop
  | [] => False
  | b :: _ => isDigitByte b = false ∧ b ≠ 46 ∧ b ≠ 101 ∧ b ≠ 69

variable {text text' : List UInt8} {ts ts' : List Token}

theorem StartsApart.endsNumber (h : StartsApart text) (rest : List UInt8) :
    EndsNumber (text ++ rest) := by
  rcases text with _ | ⟨b, text⟩
  · cases h
  · rintro b' ⟨⟩
    exact h

theorem StartsApart.append (h : StartsApart text) (text' : List UInt8) :
    StartsApart (text ++ text') := by
  rcases text with _ | ⟨b, text⟩
  · cases h
  · exact h

theorem LexesBefore.append {follows follows' : List UInt8 → Prop}
    (h : LexesBefore follows text ts) (h' : LexesBefore follows' text' ts')
    (hfollows : ∀ rest, follows' rest → follows (text' ++ rest)) :
    LexesBefore follows' (text ++ text') (ts ++ ts') := by
  intro rest hrest
  rw [List.append_assoc, h _ (hfollows rest hrest), h' rest hrest, Option.map_map]
  congr 1
  funext us
  exact (List.append_assoc ts ts' us).symm

theorem LexesAnywhere.lexes (h : LexesAnywhere text ts) : Lexes text ts :=
  fun rest _ => h rest trivial

theorem LexesAnywhere.append (h : LexesAnywhere text ts) (h' : LexesAnywhere text' ts') :
    LexesAnywhere (text ++ text') (ts ++ ts') :=
  LexesBefore.append h h' fun _ _ => trivial

theorem LexesAnywhere.append_lexes (h : LexesAnywhere text ts) (h' : Lexes text' ts') :
    Lexes (text ++ text') (ts ++ ts') :=
  LexesBefore.append h h' fun _ _ => trivial

theorem Lexes.append (h : Lexes text ts) (h' : LexesAnywhere text' ts')
    (apart : StartsApart text') : LexesAnywhere (text ++ text') (ts ++ ts') :=
  LexesBefore.append h h' fun rest _ => apart.endsNumber rest

/-! ## Pieces of texts -/

theorem lexesAnywhere_nil : LexesAnywhere [] [] := by
  intro rest _
  simp

theorem lexesAnywhere_of_next? {t : Token}
    (h : ∀ rest, Token.next? (text ++ rest) = some (t, rest)) : LexesAnywhere text [t] :=
  fun rest _ => ofBytes?_of_next? (h rest)

theorem lexesAnywhere_text {s : String} {bytes : List UInt8} {t : Token}
    (hs : charBytes s.toList = bytes) (h : ∀ rest, Token.next? (bytes ++ rest) = some (t, rest)) :
    LexesAnywhere (bytesOf s) [t] := by
  rw [bytesOf_eq, hs]
  exact lexesAnywhere_of_next? h

theorem startsApart_text {s : String} {b : UInt8} {bytes : List UInt8}
    (hs : charBytes s.toList = b :: bytes)
    (h : isDigitByte b = false ∧ b ≠ 46 ∧ b ≠ 101 ∧ b ≠ 69) : StartsApart (bytesOf s) := by
  rw [bytesOf_eq, hs]
  exact h

theorem lexesAnywhere_blank {b : UInt8} (h : isBlankByte b = true) : LexesAnywhere [b] [] := by
  intro rest _
  rw [List.singleton_append, ofBytes?_blank h]
  simp

theorem lexesAnywhere_spaces (n : Nat) : LexesAnywhere (charBytes (List.replicate n ' ')) [] := by
  induction n with
  | zero => exact lexesAnywhere_nil
  | succ n ih => exact (lexesAnywhere_blank (b := 32) rfl).append ih

theorem bytesOf_newline (level : Nat) :
    bytesOf (newline level) = 10 :: charBytes (List.replicate (2 * level) ' ') := by
  unfold newline
  rw [bytesOf_append, bytesOf_eq "\n", bytesOf_ofList]
  rfl

theorem lexesAnywhere_newline (level : Nat) : LexesAnywhere (bytesOf (newline level)) [] := by
  rw [bytesOf_newline]
  exact (lexesAnywhere_blank (b := 10) rfl).append (lexesAnywhere_spaces (2 * level))

theorem startsApart_newline (level : Nat) : StartsApart (bytesOf (newline level)) := by
  rw [bytesOf_newline]
  exact ⟨rfl, by decide, by decide, by decide⟩

theorem lexesAnywhere_quote (s : String) :
    LexesAnywhere (bytesOf (quote s)) [.string (literalOf s)] :=
  lexesAnywhere_of_next? (next?_quote s)

theorem lexes_literal {n : NumberLiteral} (h : n.WellFormed) : Lexes n.toBytes [.number n] :=
  fun _ hrest => ofBytes?_of_next? (NumberLiteral.next?_toBytes h hrest)

theorem lexesAnywhere_null : LexesAnywhere (bytesOf "null") [.null] :=
  lexesAnywhere_text rfl fun _ => rfl

theorem lexesAnywhere_bool (b : Bool) :
    LexesAnywhere (bytesOf (if b then "true" else "false")) [.bool b] := by
  cases b
  · exact lexesAnywhere_text rfl fun _ => rfl
  · exact lexesAnywhere_text rfl fun _ => rfl

theorem lexesAnywhere_comma : LexesAnywhere (bytesOf ",") [.comma] :=
  lexesAnywhere_text rfl fun _ => rfl

theorem lexesAnywhere_colon : LexesAnywhere (bytesOf ":") [.colon] :=
  lexesAnywhere_text rfl fun _ => rfl

theorem lexes_floatText (x : Binary64) : Lexes (bytesOf (floatText x)) [floatToken x] := by
  unfold floatText floatToken
  split
  · rename_i hfinite
    rw [Binary64.bytesOf_toFraction hfinite]
    exact lexes_literal x.wellFormed_literal
  · exact lexesAnywhere_null.lexes

/-! ## Both layouts -/

/-- Values between separators. -/
theorem lexes_intercalate {separator : String} {parts : List String} {tss : List (List Token)}
    (hseparator : LexesAnywhere (bytesOf separator) [.comma])
    (apart : StartsApart (bytesOf separator))
    (h : List.Forall₂ (fun part ts => Lexes (bytesOf part) ts) parts tss) :
    Lexes (bytesOf (separator.intercalate parts)) ([Token.comma].intercalate tss) := by
  induction h with
  | nil =>
    rw [String.intercalate_nil, bytesOf_eq]
    exact lexesAnywhere_nil.lexes
  | @cons part ts parts tss hpart hparts ih =>
    cases hparts with
    | nil => simpa using hpart
    | @cons part' ts' parts tss hpart' hparts =>
      rw [String.intercalate_cons_cons, List.intercalate_cons_cons, bytesOf_append, bytesOf_append]
      exact (hpart.append hseparator apart).append_lexes ih

/-- The separator of the items on lines of their own. -/
theorem lexesAnywhere_commaNewline (level : Nat) :
    LexesAnywhere (bytesOf ("," ++ newline level)) [.comma] := by
  rw [bytesOf_append]
  exact lexesAnywhere_comma.append (lexesAnywhere_newline level)

theorem startsApart_comma (s : String) : StartsApart (bytesOf ("," ++ s)) := by
  rw [bytesOf_append, bytesOf_eq ","]
  exact ⟨rfl, by decide, by decide, by decide⟩

/-- Parts between brackets, on lines of their own. -/
theorem lexesAnywhere_block {left right : String} {opening closing : Token} {parts : List String}
    {tss : List (List Token)} (level : Nat) (hleft : LexesAnywhere (bytesOf left) [opening])
    (hright : LexesAnywhere (bytesOf right) [closing])
    (h : List.Forall₂ (fun part ts => Lexes (bytesOf part) ts) parts tss) :
    LexesAnywhere (bytesOf (block left right level parts))
      (opening :: ([Token.comma].intercalate tss ++ [closing])) := by
  unfold block
  split
  · rename_i hnone
    rw [List.isEmpty_iff.1 hnone] at h
    cases h
    rw [bytesOf_append]
    exact hleft.append hright
  · simp only [bytesOf_append, List.append_assoc]
    have hparts := lexes_intercalate (lexesAnywhere_commaNewline (level + 1))
      (startsApart_comma (newline (level + 1))) h
    have hend : LexesAnywhere (bytesOf (newline level) ++ bytesOf right) [closing] :=
      (lexesAnywhere_newline level).append hright
    have hbody := hparts.append hend ((startsApart_newline level).append (bytesOf right))
    exact hleft.append ((lexesAnywhere_newline (level + 1)).append hbody)

/-- The name of a field, with a colon. -/
theorem lexesAnywhere_fieldName (name : String) :
    LexesAnywhere (bytesOf (quote name ++ ":")) [.string (literalOf name), .colon] := by
  rw [bytesOf_append]
  exact (lexesAnywhere_quote name).append lexesAnywhere_colon

theorem lexesAnywhere_fieldName_blank (name : String) :
    LexesAnywhere (bytesOf (quote name ++ ": ")) [.string (literalOf name), .colon] := by
  rw [show ": " = ":" ++ " " from rfl, ← String.append_assoc, bytesOf_append, bytesOf_eq " "]
  exact (lexesAnywhere_fieldName name).append (lexesAnywhere_blank (b := 32) rfl)

mutual

/-- The indented text of a value splits into its tokens. -/
theorem lexes_prettyAt (level : Nat) : ∀ v : Json, Lexes (bytesOf (prettyAt level v)) (tokens v)
  | .null => lexesAnywhere_null.lexes
  | .bool b => (lexesAnywhere_bool b).lexes
  | .int i => by
    unfold prettyAt tokens
    rw [NumberLiteral.bytesOf_toString_int]
    exact lexes_literal (NumberLiteral.wellFormed_ofInt i)
  | .float x => lexes_floatText x
  | .str s => (lexesAnywhere_quote s).lexes
  | .arr items => by
    unfold prettyAt tokens
    exact (lexesAnywhere_block level (lexesAnywhere_text rfl fun _ => rfl)
      (lexesAnywhere_text rfl fun _ => rfl) (lexes_prettyItems level items)).lexes
  | .obj fields => by
    unfold prettyAt tokens
    exact (lexesAnywhere_block level (lexesAnywhere_text rfl fun _ => rfl)
      (lexesAnywhere_text rfl fun _ => rfl) (lexes_prettyFields level fields)).lexes

theorem lexes_prettyItems (level : Nat) : ∀ items : List Json,
    List.Forall₂ (fun part ts => Lexes (bytesOf part) ts) (prettyItems level items)
      (itemTokens items)
  | [] => .nil
  | v :: rest => .cons (lexes_prettyAt (level + 1) v) (lexes_prettyItems level rest)

theorem lexes_prettyFields (level : Nat) : ∀ fields : List (String × Json),
    List.Forall₂ (fun part ts => Lexes (bytesOf part) ts) (prettyFields level fields)
      (fieldTokens fields)
  | [] => .nil
  | (name, v) :: rest => by
    refine .cons ?_ (lexes_prettyFields level rest)
    rw [bytesOf_append]
    exact (lexesAnywhere_fieldName_blank name).append_lexes (lexes_prettyAt (level + 1) v)

end

/-- Parts between brackets on one line. -/
theorem lexesAnywhere_line {left right : String} {opening closing : Token} {parts : List String}
    {tss : List (List Token)} (hleft : LexesAnywhere (bytesOf left) [opening])
    (hright : LexesAnywhere (bytesOf right) [closing]) (apart : StartsApart (bytesOf right))
    (h : List.Forall₂ (fun part ts => Lexes (bytesOf part) ts) parts tss) :
    LexesAnywhere (bytesOf (left ++ ",".intercalate parts ++ right))
      (opening :: ([Token.comma].intercalate tss ++ [closing])) := by
  simp only [bytesOf_append, List.append_assoc]
  have hparts := lexes_intercalate lexesAnywhere_comma (startsApart_comma "") h
  exact hleft.append (hparts.append hright apart)

mutual

/-- The compact text of a value splits into its tokens. -/
theorem lexes_compact : ∀ v : Json, Lexes (bytesOf (compact v)) (tokens v)
  | .null => lexesAnywhere_null.lexes
  | .bool b => (lexesAnywhere_bool b).lexes
  | .int i => by
    unfold compact tokens
    rw [NumberLiteral.bytesOf_toString_int]
    exact lexes_literal (NumberLiteral.wellFormed_ofInt i)
  | .float x => lexes_floatText x
  | .str s => (lexesAnywhere_quote s).lexes
  | .arr items => by
    unfold compact tokens
    exact (lexesAnywhere_line (lexesAnywhere_text rfl fun _ => rfl)
      (lexesAnywhere_text rfl fun _ => rfl) (startsApart_text rfl (by decide))
      (lexes_compactItems items)).lexes
  | .obj fields => by
    unfold compact tokens
    exact (lexesAnywhere_line (lexesAnywhere_text rfl fun _ => rfl)
      (lexesAnywhere_text rfl fun _ => rfl) (startsApart_text rfl (by decide))
      (lexes_compactFields fields)).lexes

theorem lexes_compactItems : ∀ items : List Json,
    List.Forall₂ (fun part ts => Lexes (bytesOf part) ts) (compactItems items) (itemTokens items)
  | [] => .nil
  | v :: rest => .cons (lexes_compact v) (lexes_compactItems rest)

theorem lexes_compactFields : ∀ fields : List (String × Json),
    List.Forall₂ (fun part ts => Lexes (bytesOf part) ts) (compactFields fields)
      (fieldTokens fields)
  | [] => .nil
  | (name, v) :: rest => by
    refine .cons ?_ (lexes_compactFields rest)
    rw [bytesOf_append]
    exact (lexesAnywhere_fieldName name).append_lexes (lexes_compact v)

end

/-! ## The machine -/

namespace Node

/-- The machine waits for a value. -/
def AwaitsValue : Expectation → Prop
  | .value | .firstItem => True
  | _ => False

theorem run_cons {s s' : List Frame × Expectation} {t : Token} (h : step s t = some s')
    (ts : List Token) : run s (t :: ts) = run s' ts := by
  rw [run, h]
  rfl

theorem step_of_awaitsValue {stack : List Frame} {e : Expectation} {t : Token}
    (h : AwaitsValue e) (ht : t ≠ .closeBracket) : step (stack, e) t = startValue stack t := by
  cases e with
  | value => rfl
  | firstItem =>
    unfold step
    split <;> simp_all
  | firstMember | memberName | colon | separator => cases h

mutual

/-- The machine reads a value. -/
theorem run_tokens : ∀ (v : Json) (stack : List Frame) (e : Expectation) (rest : List Token),
    AwaitsValue e → run (stack, e) (tokens v ++ rest) = run (stack, .separator (node v)) rest
  | .null, stack, e, rest, he => run_cons (by rw [step_of_awaitsValue he (by simp)]; rfl) rest
  | .bool b, stack, e, rest, he => run_cons (by rw [step_of_awaitsValue he (by simp)]; rfl) rest
  | .int i, stack, e, rest, he => run_cons (by rw [step_of_awaitsValue he (by simp)]; rfl) rest
  | .float x, stack, e, rest, he => by
    unfold tokens node floatToken
    split <;> exact run_cons (by rw [step_of_awaitsValue he (by simp)]; rfl) rest
  | .str s, stack, e, rest, he => run_cons (by rw [step_of_awaitsValue he (by simp)]; rfl) rest
  | .arr items, stack, e, rest, he => by
    -- The opening bracket puts a frame on the stack, which the closing one takes off again as a
    -- finished value.
    unfold tokens node
    have hopen : step (stack, e) .openBracket = some (.array [] :: stack, .firstItem) := by
      rw [step_of_awaitsValue he (by simp)]
      rfl
    rw [List.cons_append, run_cons hopen, List.append_assoc]
    cases items with
    | nil => exact run_cons rfl rest
    | cons v items => exact run_itemTokens (v :: items) (by simp) stack [] .firstItem rest trivial
  | .obj fields, stack, e, rest, he => by
    unfold tokens node
    have hopen : step (stack, e) .openBrace = some (stack, .firstMember) := by
      rw [step_of_awaitsValue he (by simp)]
      rfl
    rw [List.cons_append, run_cons hopen, List.append_assoc]
    cases fields with
    | nil => exact run_cons rfl rest
    | cons field fields =>
      obtain ⟨name, v⟩ := field
      have hfields := run_fieldTokens ((name, v) :: fields) (by simp) stack [] rest
      unfold fieldTokens at hfields ⊢
      rw [List.intercalate_cons_cons_left, List.cons_append, run_cons rfl] at hfields ⊢
      exact hfields

/-- The machine reads the items of an array up to its end. -/
theorem run_itemTokens : ∀ (items : List Json), items ≠ [] → ∀ (stack : List Frame)
    (done : List Node) (e : Expectation) (rest : List Token), AwaitsValue e →
    run (.array done :: stack, e)
        ([Token.comma].intercalate (itemTokens items) ++ ([.closeBracket] ++ rest)) =
      run (stack, .separator (.array (done.reverse ++ itemNodes items))) rest
  | [], hne, _, _, _, _, _ => absurd rfl hne
  | [v], _, stack, done, e, rest, he => by
    simp only [itemTokens, itemNodes, List.intercalate_singleton]
    rw [run_tokens v _ e _ he]
    have hclose : step (.array done :: stack, .separator (node v)) .closeBracket =
        some (stack, .separator (.array (done.reverse ++ [node v]))) := by
      simp [step]
    exact run_cons hclose rest
  | v :: w :: items, _, stack, done, e, rest, he => by
    have ih := run_itemTokens (w :: items) (by simp) stack (node v :: done) .value rest trivial
    simp only [itemTokens, itemNodes, List.intercalate_cons_cons, List.append_assoc,
      List.reverse_cons, List.cons_append, List.nil_append] at ih ⊢
    rw [run_tokens v _ e _ he, run_cons rfl, ih]

/-- The machine reads the fields of an object up to its end. -/
theorem run_fieldTokens : ∀ (fields : List (String × Json)), fields ≠ [] → ∀ (stack : List Frame)
    (done : List (StringLiteral × Node)) (rest : List Token),
    run (stack, .memberName done)
        ([Token.comma].intercalate (fieldTokens fields) ++ ([.closeBrace] ++ rest)) =
      run (stack, .separator (.object (done.reverse ++ fieldNodes fields))) rest
  | [], hne, _, _, _ => absurd rfl hne
  | [(name, v)], _, stack, done, rest => by
    simp only [fieldTokens, fieldNodes, List.intercalate_singleton, List.cons_append]
    rw [run_cons rfl, run_cons rfl, run_tokens v _ .value _ trivial]
    have hclose : step (.member done (literalOf name) :: stack, .separator (node v)) .closeBrace =
        some (stack, .separator (.object (done.reverse ++ [(literalOf name, node v)]))) := by
      simp [step]
    exact run_cons hclose rest
  | (name, v) :: field :: fields, _, stack, done, rest => by
    have ih := run_fieldTokens (field :: fields) (by simp) stack ((literalOf name, node v) :: done)
      rest
    simp only [fieldTokens, fieldNodes, List.intercalate_cons_cons, List.append_assoc,
      List.reverse_cons, List.cons_append, List.nil_append] at ih ⊢
    rw [run_cons rfl, run_cons rfl, run_tokens v _ .value _ trivial, run_cons rfl, ih]

end

theorem ofBytes?_of_lexes {text : List UInt8} {v : Json} (h : Lexes text (tokens v)) :
    ofBytes? text = some (node v) := by
  have hsplit := h [] EndsNumber.nil
  have hrun := run_tokens v [] .value [] trivial
  rw [List.append_nil, ofBytes?_nil, Option.map_some] at hsplit
  unfold ofBytes? ofTokens?
  rw [hsplit, Option.bind_some, hrun]
  rfl

/-- **The indented text of a value is read back.** -/
theorem ofBytes?_pretty (v : Json) : ofBytes? (bytesOf v.pretty) = some (node v) :=
  ofBytes?_of_lexes (lexes_prettyAt 0 v)

/-- **The compact text of a value is read back.** -/
theorem ofBytes?_compact (v : Json) : ofBytes? (bytesOf v.compact) = some (node v) :=
  ofBytes?_of_lexes (lexes_compact v)

end Node

end Json

end KernelTuning
