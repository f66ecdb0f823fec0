import KernelTuning.Device
import KernelTuning.Error
import KernelTuning.SortedMap
import KernelTuning.Word

/-!
# Device commands

Buffers, programs, kernel launches, and the commands that a device carries out.
-/

namespace KernelTuning

/-! ## Buffers -/

/-- What kernels may do with a buffer. -/
inductive BufferAccess where
  | readOnly
  | writeOnly
  | readWrite
deriving DecidableEq

namespace BufferAccess

def isReadable : BufferAccess → Bool
  | writeOnly => false
  | _ => true

def isWritable : BufferAccess → Bool
  | readOnly => false
  | _ => true

end BufferAccess

/-- A buffer in device memory. -/
structure Buffer where
  id : Nat
  /-- The size in bytes. -/
  size : Word
  access : BufferAccess
deriving DecidableEq

/-! ## Programs -/

/-- A program with its constants. -/
structure Program where
  name : String
  defines : NameMap Int
  /-- Constants that are names of types. -/
  types : NameMap String
deriving DecidableEq

namespace Program

def named (name : String) : Program := ⟨name, ∅, ∅⟩

/-- Adds a constant, as a signed 64-bit number. -/
def define (p : Program) (name : String) (value : Word) : Program :=
  { p with defines := p.defines.insert name value.toInt64.toInt }

/-- Adds constants in turn. -/
def defineAll (p : Program) (constants : List (String × Word)) : Program :=
  constants.foldl (fun p c => p.define c.1 c.2) p

def defineType (p : Program) (name type : String) : Program :=
  { p with types := p.types.insert name type }

/-- Turns on the extensions that arithmetic on some types needs. -/
def withExtensions (p : Program) (types : List ElemType) : Program :=
  let enable (base : BaseType) (name : String) (p : Program) : Program :=
    if types.any (·.base = base) then p.define name 1 else p
  enable .double "ENABLE_KHR_FP64" (enable .half "ENABLE_KHR_FP16" p)

end Program

/-! ## Launches and commands -/

/-- An argument of a kernel, with buffers of type `β`. -/
inductive KernelArg (β : Type) where
  | buffer (b : β)
  | word32 (n : UInt32)
  | bytes (content : List UInt8)
deriving DecidableEq

def KernelArg.map {β γ : Type} (f : β → γ) : KernelArg β → KernelArg γ
  | buffer b => .buffer (f b)
  | word32 n => .word32 n
  | bytes content => .bytes content

/-- A word as a 32-bit argument, or an internal error that names it. -/
def KernelArg.fit (what : String) (value : Word) : Attempt UInt32 :=
  if value.toNat < 2 ^ 32 then .ok (UInt32.ofNat value.toNat)
  else .fail (what ++ " " ++ toString value ++ " doesn't fit in a 32-bit kernel argument")

/-- A kernel over a range of work items. -/
structure KernelLaunch where
  program : Program
  kernel : String
  /-- The number of work items. -/
  globalSize : Word
  /-- The number of work items of a group. -/
  localSize : Word
  args : List (KernelArg Buffer)
deriving DecidableEq

/-- A launch as it was enqueued. -/
structure LaunchRecord where
  program : String
  kernel : String
  defines : NameMap Int
  types : NameMap String
  globalSize : Word
  localSize : Word
  /-- The arguments, buffers by their identifiers. -/
  args : List (KernelArg Nat)
  /-- The events that the launch waits for. -/
  waitFor : List Nat
deriving DecidableEq

/-- A command of a queue. -/
inductive Command where
  | launch (launch : LaunchRecord)
  | copy (source target : Nat) (size : Word)
  | read (source : Nat) (offset size : Word)
  | write (target : Nat) (offset : Word) (content : List UInt8)
deriving DecidableEq

/-- The completion of a command. -/
structure Event where
  id : Nat
  /-- The name of the command, that of the kernel for a launch. -/
  command : String
deriving DecidableEq

/-- The events to wait for after some commands: the last one of them, or the given ones if there
is none. -/
def eventsAfter (done waitFor : List Event) : List Event :=
  match done.getLast? with
  | some last => [last]
  | none => waitFor

end KernelTuning
