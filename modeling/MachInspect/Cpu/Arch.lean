-- SUMMARY: CPU architectures of Mach-O files and what depends on them alone.
import MachInspect.Text.Hex
import MachInspect.Value.LongDouble

/-!
# CPU architectures
-/
namespace MachInspect

open Text

/-- The CPU a file is for. Types that are not decoded keep their number. -/
inductive Arch where
  | x86
  | x86_64
  | arm
  | arm64
  | powerPc
  | powerPc64
  | other (cpuType : UInt32)
  deriving DecidableEq, Repr

namespace Arch

def ofCpuType (cpuType : UInt32) : Arch :=
  if cpuType = 7 then x86
  else if cpuType = 0x01000007 then x86_64
  else if cpuType = 12 then arm
  else if cpuType = 0x0100000c then arm64
  else if cpuType = 18 then powerPc
  else if cpuType = 0x01000012 then powerPc64
  else other cpuType

/-- Bytes in a pointer. -/
def pointerSize : Arch → Nat
  | x86_64 | arm64 | powerPc64 => 8
  | x86 | arm | powerPc | other _ => 4

def is64Bit (arch : Arch) : Bool := arch.pointerSize == 8

def longDouble? : Arch → Option Value.LongDoubleLayout
  | x86 | x86_64 => some .x87
  | arm | arm64 => some .binary64
  | powerPc | powerPc64 => some .doubleDouble
  | other _ => none

/-- The name used in file summaries. -/
def machineName : Arch → String
  | x86 => "386"
  | x86_64 => "AMD64"
  | arm => "ARM"
  | arm64 => "ARM64"
  | powerPc => "PowerPC"
  | powerPc64 => "PowerPC64"
  | other _ => "Unknown"

def name : Arch → String
  | x86 => "i386"
  | x86_64 => "x86_64"
  | arm => "arm"
  | arm64 => "arm64"
  | powerPc => "ppc"
  | powerPc64 => "ppc64"
  | other cpuType => "unknown(" ++ hex cpuType.toNat ++ ")"

end Arch

end MachInspect
