import KernelTuning.Device
import KernelTuning.Tuning.Parameters

/-!
# Parameters of the primitives

The names of the parameters, and the warp sizes among them. A fingerprint leaves the warp sizes
out, so parameters carry those they were tuned for, and are refused on a device with others.
-/

namespace KernelTuning.Parameter

def reduceWorkGroupSize : String := "reduce_work_group_size"
def reduceBlocks : String := "reduce_blocks"
def scanWorkGroupSize : String := "scan_work_group_size"
def scanWorkScale : String := "scan_work_scale"
def scanBlocks : String := "scan_blocks"
def radixBits : String := "radix_bits"
def scatterWorkGroupSize : String := "scatter_work_group_size"
def scatterWorkScale : String := "scatter_work_scale"
def scatterSlice : String := "scatter_slice"
def warpSizeMem : String := "warp_size_mem"
def warpSizeSchedule : String := "warp_size_schedule"

/-- The parameters with the warp sizes of a device. -/
def withWarpSizes (p : TuningParameters) (d : DeviceProperties) : TuningParameters :=
  (p.set warpSizeMem (.int d.warpSizeMem)).set warpSizeSchedule (.int d.warpSizeSchedule)

/-- Refuses parameters for other warp sizes than those of a device. -/
def checkWarpSizes (p : TuningParameters) (d : DeviceProperties) : Attempt Unit := do
  let mem ← p.word warpSizeMem
  let schedule ← p.word warpSizeSchedule
  let sizes (mem schedule : Word) := toString mem ++ "/" ++ toString schedule
  Attempt.ensure (mem = d.warpSizeMem && schedule = d.warpSizeSchedule)
    ("Parameters were tuned for warp sizes " ++ sizes mem schedule ++ ", the device has "
      ++ sizes d.warpSizeMem d.warpSizeSchedule)

end KernelTuning.Parameter
