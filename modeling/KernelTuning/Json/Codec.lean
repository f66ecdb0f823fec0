import KernelTuning.Json.Node
import KernelTuning.Json.Value

/-!
# Types with a JSON form

A `Codec` writes a value as `Json` and reads it back from a `Node`. Reading accepts more than
writing produces (blanks, other orders, unknown fields) and refuses what it cannot represent.
-/

namespace KernelTuning.Json

/-- Types with a JSON form. -/
class Codec (α : Type) where
  encode : α → Json
  decode? : Node → Option α

export Codec (encode decode?)

variable {α : Type} [Codec α]

/-- The JSON text of a value without blanks. -/
def compactText (a : α) : String := (encode a).compact

/-- Reads a value from the bytes of its JSON form. -/
def parse? (bytes : ByteArray) : Option α := (Node.ofBytes? bytes.toList).bind decode?

/-- Reads a value from its JSON text. -/
def parseText? (text : String) : Option α := parse? text.toUTF8

instance : Codec String where
  encode := .str
  decode? := Node.string?

end KernelTuning.Json
