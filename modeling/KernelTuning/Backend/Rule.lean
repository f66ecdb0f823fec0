import KernelTuning.Backend.Recorder

/-!
# Devices that follow rules

A rule says how a device behaves under a condition on the kernel or program, its constants, and
the number of earlier calls. The first rule that holds decides; where none does, a launch has the
usual duration and a program builds.
-/

namespace KernelTuning

/-- The nanoseconds of a launch, modulo `2^64`. -/
structure CostFormula where
  base : Word
  perItem : Word
  perGroup : Word
  /-- Constants with a target and a factor for the distance from it. A missing constant is zero. -/
  distances : List (String × Int × Word)
deriving DecidableEq

namespace CostFormula

/-- The part of a constant in the cost of a launch. -/
def distanceCost (launch : LaunchRecord) : String × Int × Word → Word
  | (name, target, factor) =>
    UInt64.ofNat (((launch.defines.get? name).getD 0) - target).natAbs * factor

def nanoseconds (c : CostFormula) (launch : LaunchRecord) : Nat :=
  let groups := launch.globalSize / max launch.localSize 1
  ((c.distances.map (distanceCost launch)).foldl (· + ·)
    (c.base + c.perItem * launch.globalSize + c.perGroup * groups)).toNat

end CostFormula

/-- How a device behaves under a condition. -/
structure DeviceRule where
  /-- The kernel of a launch, or the program of a build. -/
  name : Option String
  /-- The least number of earlier calls. -/
  after : Nat
  /-- A constant, and how it compares with a number. -/
  constant : Option (String × Ordering × Int)
  /-- What happens. A program that builds has no cost. -/
  effect : Except (Failure LaunchError) CostFormula

namespace DeviceRule

def holds (r : DeviceRule) (name : String) (defines : NameMap Int) (calls : Nat) : Bool :=
  r.name.all (· = name) && r.after ≤ calls &&
    r.constant.all fun (constant, order, bound) =>
      (defines.get? constant).any fun value => compare value bound = order

/-- The rule that decides. -/
def first? (rules : List DeviceRule) (name : String) (defines : NameMap Int) (calls : Nat) :
    Option DeviceRule :=
  rules.find? fun r => r.holds name defines calls

end DeviceRule

/-- A device that follows rules for the costs of launches and for builds. -/
def Backend.ofRules (properties : DeviceProperties) (costs builds : List DeviceRule) : Backend where
  properties
  cost calls launch :=
    match DeviceRule.first? costs launch.kernel launch.defines calls with
    | some rule => rule.effect.map (·.nanoseconds launch)
    | none => Backend.usualCost launch
  build calls program :=
    match DeviceRule.first? builds program.name program.defines calls with
    | some rule => rule.effect.map fun _ => ()
    | none => .ok ()

end KernelTuning
