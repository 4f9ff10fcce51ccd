-- SUMMARY: The instruction decoder of each architecture.
import MachInspect.Code.Arm
import MachInspect.Code.Arm64
import MachInspect.Code.PowerPc
import MachInspect.Code.X86

/-!
# Decoders by architecture
-/
namespace MachInspect.Code

/-- The decoder for the CPU of an image; other CPUs have none. -/
def decoder? (index : SymbolIndex) : Option Decoder :=
  match index.image.arch with
  | .x86 => some (X86.decode .bits32 index)
  | .x86_64 => some (X86.decode .bits64 index)
  | .arm => some (arm.decode index)
  | .arm64 => some (arm64.decode index)
  | .powerPc | .powerPc64 => some (powerPc.decode index)
  | .other _ => none

end MachInspect.Code
