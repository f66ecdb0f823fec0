import KernelTuning.SortedMap

/-!
# Record paths

A record is addressed by a list of segments, each of which can serve as a file name. Any text
becomes a segment by `sanitize`: characters with a meaning in paths and control characters are
left out, a text of dots only becomes empty, and what remains is cut to 255 bytes at a character.
A result that still cannot name a file is replaced by an underscore.
-/

namespace KernelTuning

/-- The location of a record in a storage. -/
structure RecordPath where
  segments : List String
deriving DecidableEq

namespace RecordPath

/-! ## Segments -/

/-- Characters with a meaning in paths or shells. -/
def isReserved (c : Char) : Bool := "/?<>\\:*|\"".toList.contains c

/-- The control characters U+0000–U+001F and U+0080–U+009F. -/
def isControl (c : Char) : Bool := c.toNat < 0x20 || (0x80 ≤ c.toNat && c.toNat < 0xA0)

/-- The number of bytes of a file name. -/
def nameLimit : Nat := 255

/-- The longest start of a text that has at most `limit` bytes. -/
def truncate : Nat → List Char → List Char
  | _, [] => []
  | limit, c :: rest =>
    if c.utf8Size ≤ limit then c :: truncate (limit - c.utf8Size) rest else []

/-- The text without characters that have no place in a file name, at most 255 bytes of it. -/
def clean (text : List Char) : List Char :=
  let kept := (text.filter (!isReserved ·)).filter (!isControl ·)
  truncate nameLimit (if kept.all (· = '.') then [] else kept)

/-- The file name that stands for a text. -/
def sanitize (text : String) : String :=
  let cleaned := clean text.toList
  if cleaned = [] ∨ cleaned = ['.'] ∨ cleaned = ['.', '.'] then "_" else String.ofList cleaned

/-! ## Paths -/

/-- The path of a list of texts, each made a segment. -/
def ofTexts (texts : List String) : RecordPath := ⟨texts.map sanitize⟩

/-- The last segment, the name of the record. -/
def name? (p : RecordPath) : Option String := p.segments.getLast?

/-- Whether the segments of `start` are the first segments of the path. -/
def startsWith (p start : RecordPath) : Bool := start.segments.isPrefixOf p.segments

def toText (p : RecordPath) : String := "/".intercalate p.segments

/-! ## Order -/

instance : LT RecordPath := ⟨fun a b => a.segments < b.segments⟩

instance : DecidableLT RecordPath := fun a b => inferInstanceAs (Decidable (a.segments < b.segments))

instance : StrictTotal RecordPath where
  trans := StrictTotal.trans (κ := List String)
  irrefl a := StrictTotal.irrefl a.segments
  eq_of_not_lt h₁ h₂ := by
    obtain ⟨a⟩ := ‹RecordPath›
    obtain ⟨b⟩ := ‹RecordPath›
    exact congrArg RecordPath.mk (StrictTotal.eq_of_not_lt h₁ h₂)

end RecordPath

end KernelTuning
