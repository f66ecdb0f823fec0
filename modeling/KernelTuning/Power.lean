/-!
# Powers

A power with a natural exponent is the built-in one. The instance here comes before those of any
algebraic structure, so that `2 ^ 64` is one and the same term in every module.
-/

namespace KernelTuning

/-- The built-in power. -/
@[default_instance 20000]
instance (priority := 2000) builtinPow {α : Type} [NatPow α] : Pow α Nat := instPowNat

end KernelTuning
