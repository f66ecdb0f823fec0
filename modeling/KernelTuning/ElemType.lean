import KernelTuning.Json.Codec

/-!
# Element types

An element type is a scalar base type with a vector length. The only type over `void` is the
sentinel with length zero, which stands for "no type"; every other type has one of the six
vector lengths. Both are the field `valid`.

**Memory.** Vectors of three are stored like vectors of four (`storageSize`).
-/

namespace KernelTuning

/-! ## Base types -/

/-- Scalar types, in their order. -/
inductive BaseType where
  | void | uchar | char | ushort | short | uint | int | ulong | long | half | float | double
deriving DecidableEq

namespace BaseType

def name : BaseType → String
  | void => "void"
  | uchar => "uchar"
  | char => "char"
  | ushort => "ushort"
  | short => "short"
  | uint => "uint"
  | int => "int"
  | ulong => "ulong"
  | long => "long"
  | half => "half"
  | float => "float"
  | double => "double"

/-- Every base type but `void`. -/
def all : List BaseType :=
  [uchar, char, ushort, short, uint, int, ulong, long, half, float, double]

def ofName? (name : String) : Option BaseType := (void :: all).find? (·.name = name)

/-- The place of a type in the order. -/
def rank (b : BaseType) : Nat := (void :: all).idxOf b

/-- The size of a scalar in bytes. -/
def size : BaseType → UInt64
  | void => 0
  | uchar | char => 1
  | ushort | short | half => 2
  | uint | int | float => 4
  | ulong | long | double => 8

def isIntegral : BaseType → Bool
  | void | half | float | double => false
  | _ => true

/-- Whether the type has negative values. -/
def isSigned : BaseType → Bool
  | void | uchar | ushort | uint | ulong => false
  | _ => true

/-- The signed integer type of the same width; other types are their own. -/
def toSigned : BaseType → BaseType
  | uchar => char
  | ushort => short
  | uint => int
  | ulong => long
  | b => b

end BaseType

/-! ## Element types -/

/-- The lengths of vectors. -/
def vectorLengths : List UInt32 := [1, 2, 3, 4, 8, 16]

/-- A base type with a vector length. -/
structure ElemType where
  base : BaseType
  length : UInt32
  valid : if base = .void then length = 0 else length ∈ vectorLengths
deriving DecidableEq

/-- Why a base type and a length make no element type. -/
inductive ElemTypeError where
  | void
  | length (base : BaseType) (length : UInt32)
deriving DecidableEq

def ElemTypeError.message : ElemTypeError → String
  | void => "Void is not a valid element type, use ElemType::void for the sentinel"
  | length base n =>
    "Invalid vector length " ++ toString n ++ " for " ++ base.name ++ ", expected one of ["
      ++ ", ".intercalate (vectorLengths.map fun l => toString l) ++ "]"

namespace ElemType

/-- The sentinel for "no type". -/
def void : ElemType := ⟨.void, 0, rfl⟩

instance : Inhabited ElemType := ⟨void⟩

/-- The vector type of a base type and a length. -/
def vector (base : BaseType) (length : UInt32) : Except ElemTypeError ElemType :=
  if hb : base = .void then .error .void
  else if h : length ∈ vectorLengths then .ok ⟨base, length, by simp [hb, h]⟩
  else .error (.length base length)

def scalar (base : BaseType) : Except ElemTypeError ElemType := vector base 1

/-- Every type but the sentinel, by base type and then by length. -/
def all : List ElemType :=
  BaseType.all.flatMap fun base =>
    vectorLengths.filterMap fun length => (vector base length).toOption

def isVoid (t : ElemType) : Bool := t.base = .void

/-- The size of an element in bytes. -/
def size (t : ElemType) : UInt64 := t.length.toUInt64 * t.base.size

/-- The bytes that an element takes in memory. -/
def storageSize (t : ElemType) : UInt64 :=
  (if t.length = 3 then 4 else t.length.toUInt64) * t.base.size

def name (t : ElemType) : String :=
  if t.length = 0 ∨ t.length = 1 then t.base.name
  else t.base.name ++ toString t.length

def isIntegral (t : ElemType) : Bool := t.base.isIntegral

def isSigned (t : ElemType) : Bool := t.base.isSigned

/-- The same vector of the signed type of equal width. -/
def toSigned (t : ElemType) : ElemType :=
  ⟨t.base.toSigned, t.length, by
    obtain ⟨base, length, valid⟩ := t
    cases base <;> simpa [BaseType.toSigned] using valid⟩

/-- Whether `a` comes before `b`: by base type, then by length. -/
def order (a b : ElemType) : Ordering :=
  (compare a.base.rank b.base.rank).then (compare a.length b.length)

/-! ## JSON -/

/-- The type of a base type and a length, where void with length zero is the sentinel. -/
def ofParts? (base : BaseType) (length : UInt32) : Option ElemType :=
  if base = .void ∧ length = 0 then some void else (vector base length).toOption

instance : Json.Codec BaseType where
  encode b := .str b.name
  decode? n := n.name?.bind BaseType.ofName?

instance : Json.Codec ElemType where
  encode t := .obj [("base", Json.encode t.base), ("length", .nat t.length.toNat)]
  decode? n := do
    match ← n.fields? ["base", "length"] with
    | [some base, some length] => ofParts? (← Json.decode? base) (← length.word32?)
    | _ => none

end ElemType

end KernelTuning
