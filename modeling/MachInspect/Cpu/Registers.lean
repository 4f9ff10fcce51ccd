-- SUMMARY: Names of the registers that debug and call-frame records number.
import MachInspect.Cpu.Arch

/-!
# Register names

Each CPU numbers its registers for debuggers and unwinders in its own way. A table lists runs of
consecutive numbers.
-/
namespace MachInspect.Arch

open Text

/-- A run of consecutive registers from `start` on, by name. -/
structure RegisterRun where
  start : Nat
  names : List String

/-- `stem` followed by each number from `first` on, `count` in all. -/
def numbered (stem : String) (first count : Nat) : List String :=
  (List.range' first count).map fun n => stem ++ decimal n

/-- The banked copies of the ARM registers from `R8` to `R14`. -/
def banked (bank : String) : List String := (numbered "R" 8 7).map (· ++ bank)

def segmentRegisters : List String := ["es", "cs", "ss", "ds", "fs", "gs"]

def x86Registers : List RegisterRun :=
  [⟨0, ["eax", "ecx", "edx", "ebx", "esp", "ebp", "esi", "edi", "RA"]⟩,
   ⟨11, numbered "st" 0 8⟩,
   ⟨21, numbered "xmm" 0 8⟩,
   ⟨29, numbered "mm" 0 8⟩,
   ⟨39, "mxcsr" :: segmentRegisters⟩,
   ⟨48, ["tr", "ldtr"]⟩,
   ⟨93, ["fs.base", "gs.base"]⟩]

def x86_64Registers : List RegisterRun :=
  [⟨0, ["rax", "rdx", "rcx", "rbx", "rsi", "rdi", "rbp", "rsp"]⟩,
   ⟨8, numbered "r" 8 8⟩,
   ⟨16, ["RA"]⟩,
   ⟨17, numbered "xmm" 0 16⟩,
   ⟨33, numbered "st" 0 8⟩,
   ⟨41, numbered "mm" 0 8⟩,
   ⟨49, "rFLAGS" :: segmentRegisters⟩,
   ⟨58, ["fs.base", "gs.base"]⟩,
   ⟨62, ["tr", "ldtr", "mxcsr", "fcw", "fsw"]⟩,
   ⟨67, numbered "xmm" 16 16⟩,
   ⟨118, numbered "k" 0 8⟩,
   ⟨130, numbered "r" 16 16⟩,
   ⟨146, numbered "tmm" 0 8⟩,
   ⟨154, ["tilecfg"]⟩]

def armRegisters : List RegisterRun :=
  [⟨0, numbered "R" 0 16⟩,
   ⟨104, numbered "wCGR" 0 8⟩,
   ⟨112, numbered "wR" 0 16⟩,
   ⟨128, ["SPSR", "SPSR_FIQ", "SPSR_IRQ", "SPSR_ABT", "SPSR_UND", "SPSR_SVC"]⟩,
   ⟨143, ["RA_AUTH_CODE"]⟩,
   ⟨144, banked "_USR"⟩,
   ⟨151, banked "_FIQ"⟩,
   ⟨158, ["R13_IRQ", "R14_IRQ", "R13_ABT", "R14_ABT", "R13_UND", "R14_UND", "R13_SVC", "R14_SVC"]⟩,
   ⟨192, numbered "wC" 0 8⟩,
   ⟨256, numbered "D" 0 32⟩,
   ⟨320, ["TPIDRURO", "TPIDRURW", "TPIDPR", "HTPIDPR"]⟩]

def arm64Registers : List RegisterRun :=
  [⟨0, numbered "X" 0 31⟩,
   ⟨31, ["SP", "PC", "ELR_mode", "RA_SIGN_STATE", "TPIDRRO_EL0"]⟩,
   ⟨36, numbered "TPIDR_EL" 0 4⟩,
   ⟨46, ["VG", "FFR"]⟩,
   ⟨48, numbered "P" 0 16⟩,
   ⟨64, numbered "V" 0 32⟩,
   ⟨96, numbered "Z" 0 32⟩]

def powerPcRegisters : List RegisterRun :=
  [⟨0, numbered "r" 0 32⟩,
   ⟨32, numbered "f" 0 32⟩,
   ⟨64, ["cr", "fpscr", "msr"]⟩,
   ⟨100, ["mq", "xer"]⟩,
   ⟨108, ["lr", "ctr"]⟩]

def registers : Arch → List RegisterRun
  | x86 => x86Registers
  | x86_64 => x86_64Registers
  | arm => armRegisters
  | arm64 => arm64Registers
  | powerPc | powerPc64 => powerPcRegisters
  | other _ => []

/-- The name of register `number`, if it has one. -/
def registerName? (arch : Arch) (number : Nat) : Option String :=
  arch.registers.findSome? fun run =>
    if run.start ≤ number then run.names[number - run.start]? else none

/-- `16 (RA)`, or just the number of a register without a name. -/
def registerText (arch : Arch) (number : UInt64) : String :=
  let digits := decimal number.toNat
  match arch.registerName? number.toNat with
  | some name => digits ++ " (" ++ name ++ ")"
  | none => digits

end MachInspect.Arch
