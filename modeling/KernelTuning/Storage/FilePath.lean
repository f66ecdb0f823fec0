import KernelTuning.Storage.FileTree

/-!
# File paths

A `FilePath` is a path as it is written: whether it starts with a slash, and the names between
its slashes, where empty names, `.` and `..` are kept. What a path leads to depends on the files,
so nothing is resolved here.

`ofText` and `toText` convert from and to text without a loss. `parent?` drops the last name that
leads somewhere; the parent has fewer names, and so the paths above a path come to an end.
-/

namespace KernelTuning

/-- A path as it is written. -/
structure FilePath where
  isAbsolute : Bool
  /-- The names between the slashes, after the one at the start of an absolute path. -/
  names : List String
deriving DecidableEq

namespace FilePath

/-! ## Text -/

/-- The texts between slashes. -/
def betweenSlashes (text : List Char) : List (List Char) :=
  text.foldr
    (fun c parts =>
      if c = '/' then [] :: parts
      else
        match parts with
        | part :: rest => (c :: part) :: rest
        | [] => [[c]])
    [[]]

/-- The names of a text, none if it is empty. -/
def namesOf (text : List Char) : List String :=
  if text.isEmpty then [] else (betweenSlashes text).map String.ofList

def ofText (text : String) : FilePath :=
  match text.toList with
  | '/' :: rest => ⟨true, namesOf rest⟩
  | characters => ⟨false, namesOf characters⟩

def toText (p : FilePath) : String :=
  (if p.isAbsolute then "/" else "") ++ "/".intercalate p.names

/-- The absolute path of a place. -/
def ofPlace (place : Place) : FilePath := ⟨true, place⟩

/-- Whether the text of the path is empty. -/
def isEmpty (p : FilePath) : Bool := !p.isAbsolute && p.names.isEmpty

/-! ## Longer and shorter paths -/

/-- A path followed by names. -/
def below (p : FilePath) (names : List String) : FilePath :=
  let start := if p.names.getLast? = some "" then p.names.dropLast else p.names
  { p with names := start ++ names }

/-- A path that starts where another one leads to, unless it is absolute. -/
def join (p q : FilePath) : FilePath := if q.isAbsolute then q else p.below q.names

/-- The path with another last name. -/
def withName (p : FilePath) (name : String) : FilePath :=
  { p with names := p.names.dropLast ++ [name] }

/-- Whether a name leads nowhere else. -/
def isIdle (name : String) : Bool := name = "" || name = "."

/-- Names without the idle ones at their end, but for a dot at the start of a relative path. -/
def trim (isAbsolute : Bool) (names : List String) : List String :=
  let kept := (names.reverse.dropWhile isIdle).reverse
  if kept.isEmpty && !isAbsolute && names.head? = some "." then ["."] else kept

theorem length_trim (isAbsolute : Bool) (names : List String) :
    (trim isAbsolute names).length ≤ names.length := by
  have hkept : ((names.reverse.dropWhile isIdle).reverse).length ≤ names.length := by
    have := (List.dropWhile_sublist isIdle (l := names.reverse)).length_le
    simpa using this
  simp only [trim]
  split
  · cases names <;> simp_all
  · exact hkept

/-- The path without its last name. The root and the empty path have none. -/
def parent? (p : FilePath) : Option FilePath :=
  match trim p.isAbsolute p.names with
  | [] => none
  | names => some { p with names := trim p.isAbsolute names.dropLast }

theorem length_parent? {p q : FilePath} (h : p.parent? = some q) :
    q.names.length < p.names.length := by
  unfold parent? at h
  split at h
  · cases h
  · rename_i hne
    cases h
    have htrim := length_trim p.isAbsolute p.names
    have hdrop := length_trim p.isAbsolute (trim p.isAbsolute p.names).dropLast
    have hpos := List.length_pos_iff.2 hne
    rw [List.length_dropLast] at hdrop
    simp only
    omega

end FilePath

end KernelTuning
