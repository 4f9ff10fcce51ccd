-- SUMMARY: Operands of x86 instructions and their AT&T text.
import MachInspect.Code.Basic

/-!
# x86 operands

Branch targets and memory operands are replaced by the names that cover them; immediates stay
numbers.
-/
namespace MachInspect.Code.X86

open Text

/-- Address size of the code. -/
inductive Mode where
  | bits32
  | bits64
  deriving DecidableEq, Repr

/-- Cuts an address to the address size. -/
def Mode.cut (mode : Mode) (address : UInt64) : UInt64 :=
  match mode with
  | .bits32 => address &&& 0xffffffff
  | .bits64 => address

/-- Digits of an address. -/
def Mode.targetDigits : Mode → Nat
  | .bits32 => 8
  | .bits64 => 16

/-- Size of an operand. -/
inductive Width where
  | byte
  | word
  | long
  | quad
  deriving DecidableEq, Repr

namespace Width

def bytes : Width → Nat
  | byte => 1
  | word => 2
  | long => 4
  | quad => 8

/-- Follows a mnemonic whose operands do not tell their size. -/
def suffix : Width → String
  | byte => "b"
  | word => "w"
  | long => "l"
  | quad => "q"

end Width

/-- Registers with a number below eight, without the letters that tell their width. -/
def coreNames : List String := ["ax", "cx", "dx", "bx", "sp", "bp", "si", "di"]

/-- Byte registers of instructions without an extension byte. -/
def oldByteNames : List String := ["al", "cl", "dl", "bl", "ah", "ch", "dh", "bh"]

/-- Byte registers of instructions with an extension byte. -/
def newByteNames : List String := ["al", "cl", "dl", "bl", "spl", "bpl", "sil", "dil"]

/-- The register of a number. Instructions with an extension byte reach other byte registers. -/
def registerText (extended : Bool) (width : Width) (number : Nat) : String :=
  let core (names : List String) := names.getD number ""
  let named := if number < 8 then
      match width with
      | .byte => core (if extended then newByteNames else oldByteNames)
      | .word => core coreNames
      | .long => "e" ++ core coreNames
      | .quad => "r" ++ core coreNames
    else
      let letter := match width with
        | .byte => "b"
        | .word => "w"
        | .long => "d"
        | .quad => ""
      "r" ++ decimal number ++ letter
  "%" ++ named

/-- A register that addresses are computed from. -/
def Mode.registerText (mode : Mode) (number : Nat) : String :=
  match mode with
  | .bits32 => X86.registerText false .long number
  | .bits64 => X86.registerText true .quad number

/-- What the displacement of a memory operand is added to. -/
inductive Base where
  | nothing
  | register (number : Nat)
  | nextInstruction
  deriving DecidableEq, Repr

/-- A memory operand. -/
structure Memory where
  /-- The segment, if it is not the usual one. -/
  segment : Option String
  base : Base
  /-- Number of the index register, and what it is multiplied by. -/
  scaled : Option (Nat × Nat)
  displacement : Int64
  deriving DecidableEq, Repr

inductive Operand where
  /-- A register, or what else always has the same text. -/
  | fixed (text : String)
  | immediate (value : Nat)
  | memory (place : Memory)
  /-- A call or a jump through a register or memory. -/
  | indirect (place : Operand)
  /-- Distance of a branch target from the next instruction. -/
  | branch (distance : Int64)
  deriving DecidableEq, Repr

/-- The names that cover `address`, or else `number`. -/
def nameOr (index : SymbolIndex) (address : UInt64) (number : String) : String :=
  match index.lookup address with
  | some hit => hit.names
  | none => number

/-- A branch target without a name: one digit, or all digits of the address size. -/
def Mode.targetText (mode : Mode) (address : UInt64) : String :=
  if address < 10 then decimal address.toNat else upperHexWide mode.targetDigits address.toNat

/-- A displacement from a register: `-8`, `0x7F`, nothing for zero. -/
def displacementText (d : Int64) : String :=
  if d = 0 then ""
  else if d < 0 then "-" ++ upperNumberText d.toInt.natAbs
  else upperNumberText d.toInt.natAbs

/-- The index register and its factor, which is left out if it is one. Without a base it is always
there. -/
def scaledText (mode : Mode) (hasBase : Bool) (number factor : Nat) : String :=
  "," ++ mode.registerText number
    ++ (if factor = 1 ∧ hasBase then "" else "," ++ decimal factor)

/-- Text of a memory operand. An operand relative to the next instruction, which stands at `next`,
shows the address it stands for. -/
def Memory.text (mode : Mode) (index : SymbolIndex) (next : UInt64) (m : Memory) : String :=
  let absolute (address : UInt64) := nameOr index address (upperNumberText address.toNat)
  let displacement :=
    nameOr index (mode.cut m.displacement.toUInt64) (displacementText m.displacement)
  let place := match m.base, m.scaled with
    | .nextInstruction, _ => absolute (mode.cut (displaced next m.displacement))
    | .nothing, none => absolute (mode.cut m.displacement.toUInt64)
    | .nothing, some (number, factor) =>
      displacement ++ "(" ++ scaledText mode false number factor ++ ")"
    | .register base, none => displacement ++ "(" ++ mode.registerText base ++ ")"
    | .register base, some (number, factor) =>
      displacement ++ "(" ++ mode.registerText base ++ scaledText mode true number factor ++ ")"
  match m.segment with
  | some segment => "%" ++ segment ++ ":" ++ place
  | none => place

/-- Text of an operand of the instruction before `next`. -/
def Operand.text (mode : Mode) (index : SymbolIndex) (next : UInt64) : Operand → String
  | .fixed text => text
  | .immediate value => "$" ++ upperNumberText value
  | .memory place => place.text mode index next
  | .indirect place => "*" ++ place.text mode index next
  | .branch distance =>
    let address := mode.cut (displaced next distance)
    nameOr index address (mode.targetText address)

def Operand.isMemory : Operand → Bool
  | .memory _ => true
  | .indirect place => place.isMemory
  | _ => false

end MachInspect.Code.X86
