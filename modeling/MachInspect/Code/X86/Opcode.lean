-- SUMMARY: The opcodes of x86: their mnemonics and where their operands come from.
import MachInspect.Code.X86.Operand

/-!
# x86 opcodes

The opcodes are two lists of patterns, for instructions of one opcode byte and for those whose
opcode follows the byte `0f`. Operands are listed source first. Floating-point, vector and far
instructions are not in the lists.
-/
namespace MachInspect.Code.X86

/-- How the size of an operand is found. -/
inductive Extent where
  | byte
  | word
  | long
  /-- As the bytes before the opcode say; 32 bits if they say nothing. -/
  | operand
  /-- An address, unless a byte before the opcode asks for 16 bits. -/
  | stack
  deriving DecidableEq, Repr

/-- Where an operand comes from. -/
inductive Slot where
  /-- The register in the middle bits of the byte after the opcode. -/
  | register (extent : Extent)
  /-- The register or memory that the other bits of that byte give. -/
  | place (extent : Extent)
  /-- The same where only memory is allowed. -/
  | address
  /-- The same as the target of a call or a jump. -/
  | indirect
  /-- The register in the low bits of the opcode. -/
  | low (extent : Extent)
  | accumulator (extent : Extent)
  /-- The segment register in the middle bits of the opcode. -/
  | segment
  /-- A number of the operand's size, but four bytes at most. -/
  | immediate (extent : Extent)
  /-- A byte that is extended to the operand's size. -/
  | shortImmediate (extent : Extent)
  /-- A number of the operand's size, eight bytes too. -/
  | wholeImmediate
  /-- Memory given by its address alone. -/
  | offset
  /-- Memory that the source register of string instructions points to. -/
  | source (extent : Extent)
  /-- Memory that their destination register points to. -/
  | destination (extent : Extent)
  | one
  | count
  | port
  /-- A distance of `bytes` bytes to a branch target. -/
  | jump (bytes : Nat)
  deriving DecidableEq, Repr

namespace Slot

/-- Whether the slot takes bits from the byte after the opcode. -/
def usesModRm : Slot → Bool
  | register _ | place _ | address | indirect => true
  | _ => false

/-- Whether the slot is a register of the operand's size, so that the mnemonic needs no suffix. -/
def tellsWidth : Slot → Bool
  | register _ | low _ | accumulator _ => true
  | _ => false

/-- The extent of an operand that can be in memory. -/
def memoryExtent? : Slot → Option Extent
  | place e | source e | destination e => some e
  | indirect => some .stack
  | _ => none

end Slot

/-- How one of several mnemonics is chosen. -/
inductive Choice where
  | first
  /-- By the bits of the opcode from `low` on, as many as the list of mnemonics needs. -/
  | opcode (low : Nat)
  /-- By the middle bits of the byte after the opcode. -/
  | extension
  /-- By the operand size: 16, 32, 64 bits. -/
  | width
  deriving DecidableEq, Repr

/-- The opcodes that agree with `value` on `mask`. -/
structure Pattern where
  mask : UInt8
  value : UInt8
  /-- The mnemonics to choose from; an empty one stands for no instruction. -/
  names : List String
  choice : Choice
  slots : List Slot
  /-- The only mode that has the instruction; `none` if both have it. -/
  mode : Option Mode
  deriving DecidableEq, Repr

namespace Pattern

/-- A single opcode with one mnemonic. -/
def single (value : UInt8) (name : String) (slots : List Slot) : Pattern :=
  ⟨0xff, value, [name], .first, slots, none⟩

/-- Eight opcodes whose low bits give a register. -/
def row (value : UInt8) (name : String) (slots : List Slot) : Pattern :=
  ⟨0xf8, value, [name], .first, slots, none⟩

/-- A single opcode whose mnemonic the byte after it gives. -/
def group (value : UInt8) (names : List String) (slots : List Slot) : Pattern :=
  ⟨0xff, value, names, .extension, slots, none⟩

/-- Sixteen opcodes, one for each condition. -/
def conditional (value : UInt8) (names : List String) (slots : List Slot) : Pattern :=
  ⟨0xf0, value, names, .opcode 0, slots, none⟩

/-- A single opcode whose mnemonic tells the operand size. -/
def sized (value : UInt8) (names : List String) (slots : List Slot) : Pattern :=
  ⟨0xff, value, names, .width, slots, none⟩

/-- The same pattern in one mode only. -/
def only (mode : Mode) (p : Pattern) : Pattern := { p with mode := some mode }

def fits (mode : Mode) (opcode : UInt8) (p : Pattern) : Bool :=
  opcode &&& p.mask == p.value && p.mode.all (· == mode)

end Pattern

/-- Conditions by number. -/
def conditions : List String :=
  ["o", "no", "b", "ae", "e", "ne", "be", "a", "s", "ns", "p", "np", "l", "ge", "le", "g"]

def arithmetic : List String := ["add", "or", "adc", "sbb", "and", "sub", "xor", "cmp"]

def shifts : List String := ["rol", "ror", "rcl", "rcr", "shl", "shr", "sal", "sar"]

/-- Operations on one operand; the first two of their group take an immediate. -/
def unary : List String := ["", "", "not", "neg", "mul", "imul", "div", "idiv"]

/-- Arithmetic, comparisons and shifts. -/
def arithmeticPatterns : List Pattern :=
  [⟨0xc7, 0x00, arithmetic, .opcode 3, [.register .byte, .place .byte], none⟩,
   ⟨0xc7, 0x01, arithmetic, .opcode 3, [.register .operand, .place .operand], none⟩,
   ⟨0xc7, 0x02, arithmetic, .opcode 3, [.place .byte, .register .byte], none⟩,
   ⟨0xc7, 0x03, arithmetic, .opcode 3, [.place .operand, .register .operand], none⟩,
   ⟨0xc7, 0x04, arithmetic, .opcode 3, [.immediate .byte, .accumulator .byte], none⟩,
   ⟨0xc7, 0x05, arithmetic, .opcode 3, [.immediate .operand, .accumulator .operand], none⟩,
   .group 0x80 arithmetic [.immediate .byte, .place .byte],
   .group 0x81 arithmetic [.immediate .operand, .place .operand],
   .only .bits32 (.group 0x82 arithmetic [.immediate .byte, .place .byte]),
   .group 0x83 arithmetic [.shortImmediate .operand, .place .operand],
   .single 0x69 "imul" [.immediate .operand, .place .operand, .register .operand],
   .single 0x6b "imul" [.shortImmediate .operand, .place .operand, .register .operand],
   .group 0xc0 shifts [.immediate .byte, .place .byte],
   .group 0xc1 shifts [.immediate .byte, .place .operand],
   .group 0xd0 shifts [.one, .place .byte],
   .group 0xd1 shifts [.one, .place .operand],
   .group 0xd2 shifts [.count, .place .byte],
   .group 0xd3 shifts [.count, .place .operand],
   .group 0xf6 ["test", "test"] [.immediate .byte, .place .byte],
   .group 0xf7 ["test", "test"] [.immediate .operand, .place .operand],
   .group 0xf6 unary [.place .byte],
   .group 0xf7 unary [.place .operand],
   .group 0xfe ["inc", "dec"] [.place .byte],
   .group 0xff ["inc", "dec"] [.place .operand],
   .only .bits32 (.row 0x40 "inc" [.low .operand]),
   .only .bits32 (.row 0x48 "dec" [.low .operand]),
   .single 0x84 "test" [.register .byte, .place .byte],
   .single 0x85 "test" [.register .operand, .place .operand],
   .single 0xa8 "test" [.immediate .byte, .accumulator .byte],
   .single 0xa9 "test" [.immediate .operand, .accumulator .operand],
   .sized 0x98 ["cbtw", "cwtl", "cltq"] [],
   .sized 0x99 ["cwtd", "cltd", "cqto"] [],
   .only .bits32 (.single 0x27 "daa" []),
   .only .bits32 (.single 0x2f "das" []),
   .only .bits32 (.single 0x37 "aaa" []),
   .only .bits32 (.single 0x3f "aas" []),
   .only .bits32 (.single 0xd4 "aam" [.immediate .byte]),
   .only .bits32 (.single 0xd5 "aad" [.immediate .byte])]

/-- Moves and exchanges, those of string instructions too. -/
def movePatterns : List Pattern :=
  [.single 0x88 "mov" [.register .byte, .place .byte],
   .single 0x89 "mov" [.register .operand, .place .operand],
   .single 0x8a "mov" [.place .byte, .register .byte],
   .single 0x8b "mov" [.place .operand, .register .operand],
   .single 0x8d "lea" [.address, .register .operand],
   .row 0xb0 "mov" [.immediate .byte, .low .byte],
   ⟨0xf8, 0xb8, ["mov", "mov", "movabs"], .width, [.wholeImmediate, .low .operand], none⟩,
   .group 0xc6 ["mov"] [.immediate .byte, .place .byte],
   .group 0xc7 ["mov"] [.immediate .operand, .place .operand],
   .only .bits32 (.single 0xa0 "mov" [.offset, .accumulator .byte]),
   .only .bits32 (.single 0xa1 "mov" [.offset, .accumulator .operand]),
   .only .bits32 (.single 0xa2 "mov" [.accumulator .byte, .offset]),
   .only .bits32 (.single 0xa3 "mov" [.accumulator .operand, .offset]),
   .only .bits64 (.single 0xa0 "movabs" [.offset, .accumulator .byte]),
   .only .bits64 (.single 0xa1 "movabs" [.offset, .accumulator .operand]),
   .only .bits64 (.single 0xa2 "movabs" [.accumulator .byte, .offset]),
   .only .bits64 (.single 0xa3 "movabs" [.accumulator .operand, .offset]),
   .single 0x86 "xchg" [.register .byte, .place .byte],
   .single 0x87 "xchg" [.register .operand, .place .operand],
   .sized 0x90 ["", "nop", "nop"] [],
   .row 0x90 "xchg" [.accumulator .operand, .low .operand],
   .only .bits32 (.single 0x63 "arpl" [.register .word, .place .word]),
   .only .bits64 (.sized 0x63 ["", "", "movslq"] [.place .long, .register .operand]),
   .single 0xa4 "movs" [.source .byte, .destination .byte],
   .single 0xa5 "movs" [.source .operand, .destination .operand],
   .single 0xa6 "cmps" [.destination .byte, .source .byte],
   .single 0xa7 "cmps" [.destination .operand, .source .operand],
   .single 0xaa "stos" [.accumulator .byte, .destination .byte],
   .single 0xab "stos" [.accumulator .operand, .destination .operand],
   .single 0xac "lods" [.source .byte, .accumulator .byte],
   .single 0xad "lods" [.source .operand, .accumulator .operand],
   .single 0xae "scas" [.destination .byte, .accumulator .byte],
   .single 0xaf "scas" [.destination .operand, .accumulator .operand]]

/-- The stack. -/
def stackPatterns : List Pattern :=
  [.row 0x50 "push" [.low .stack],
   .row 0x58 "pop" [.low .stack],
   .single 0x68 "push" [.immediate .stack],
   .single 0x6a "push" [.shortImmediate .stack],
   .group 0x8f ["pop"] [.place .stack],
   .group 0xff ["", "", "", "", "", "", "push"] [.place .stack],
   .only .bits32 ⟨0xe7, 0x06, ["push"], .first, [.segment], none⟩,
   .only .bits32 ⟨0xe7, 0x07, ["pop"], .first, [.segment], none⟩,
   .only .bits32 (.single 0x60 "pusha" []),
   .only .bits32 (.single 0x61 "popa" []),
   .single 0x9c "pushf" [],
   .single 0x9d "popf" [],
   .single 0x9e "sahf" [],
   .single 0x9f "lahf" [],
   .single 0xc8 "enter" [.immediate .word, .immediate .byte],
   .single 0xc9 "leave" []]

/-- Branches, returns and interrupts. -/
def controlPatterns : List Pattern :=
  [.conditional 0x70 (conditions.map ("j" ++ ·)) [.jump 1],
   .single 0xe0 "loopne" [.jump 1],
   .single 0xe1 "loope" [.jump 1],
   .single 0xe2 "loop" [.jump 1],
   .only .bits32 (.single 0xe3 "jecxz" [.jump 1]),
   .only .bits64 (.single 0xe3 "jrcxz" [.jump 1]),
   .single 0xe8 "call" [.jump 4],
   .single 0xe9 "jmp" [.jump 4],
   .single 0xeb "jmp" [.jump 1],
   .group 0xff ["", "", "call", "", "jmp"] [.indirect],
   .single 0xc2 "ret" [.immediate .word],
   .single 0xc3 "ret" [],
   .single 0xca "lret" [.immediate .word],
   .single 0xcb "lret" [],
   .single 0xcc "int3" [],
   .single 0xcd "int" [.immediate .byte],
   .only .bits32 (.single 0xce "into" []),
   .only .bits32 (.single 0xcf "iret" []),
   .only .bits64 (.sized 0xcf ["iretw", "iretl", "iretq"] []),
   .single 0xf1 "int1" [],
   .single 0xf4 "hlt" []]

/-- Input and output. -/
def portPatterns : List Pattern :=
  [.single 0x6c "ins" [.port, .destination .byte],
   .single 0x6d "ins" [.port, .destination .long],
   .single 0x6e "outs" [.source .byte, .port],
   .single 0x6f "outs" [.source .long, .port],
   .single 0xe4 "in" [.immediate .byte, .accumulator .byte],
   .single 0xe5 "in" [.immediate .byte, .accumulator .long],
   .single 0xe6 "out" [.accumulator .byte, .immediate .byte],
   .single 0xe7 "out" [.accumulator .long, .immediate .byte],
   .single 0xec "in" [.port, .accumulator .byte],
   .single 0xed "in" [.port, .accumulator .long],
   .single 0xee "out" [.accumulator .byte, .port],
   .single 0xef "out" [.accumulator .long, .port]]

/-- Single flags. -/
def flagPatterns : List Pattern :=
  [.single 0xf5 "cmc" [],
   .single 0xf8 "clc" [],
   .single 0xf9 "stc" [],
   .single 0xfa "cli" [],
   .single 0xfb "sti" [],
   .single 0xfc "cld" [],
   .single 0xfd "std" [],
   .only .bits32 (.single 0xd6 "salc" [])]

/-- Instructions of one opcode byte. The first pattern that fits and has a mnemonic counts. -/
def oneByte : List Pattern :=
  arithmeticPatterns ++ movePatterns ++ stackPatterns ++ controlPatterns
    ++ portPatterns ++ flagPatterns

/-- Instructions whose opcode follows the byte `0f`. -/
def twoByte : List Pattern :=
  [.single 0x0b "ud2" [],
   .only .bits64 (.single 0x05 "syscall" []),
   .group 0x1f ["nop"] [.place .operand],
   .single 0x31 "rdtsc" [],
   .single 0xa2 "cpuid" [],
   .single 0xaf "imul" [.place .operand, .register .operand],
   .conditional 0x40 (conditions.map ("cmov" ++ ·)) [.place .operand, .register .operand],
   .conditional 0x80 (conditions.map ("j" ++ ·)) [.jump 4]]

end MachInspect.Code.X86
