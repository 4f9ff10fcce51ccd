-- SUMMARY: x86 and x86-64 instructions in AT&T syntax.
import MachInspect.Code.X86.Opcode

/-!
# x86 and x86-64

An instruction is some bytes that change its meaning, an opcode, the bytes that give its operands,
and its immediates. It has fifteen bytes at most.
-/
namespace MachInspect.Code.X86

/-- Reading that uses up bytes of an instruction. -/
abbrev Fetch (α : Type) := StateT Bytes Option α

/-- A number of `width` bytes. -/
def fetchNumber (width : Nat) : Fetch Nat := fun rest =>
  if width ≤ rest.length then some (ByteOrder.little.value (rest.take width), rest.drop width)
  else none

/-- A signed number of `width` bytes. -/
def fetchSigned (width : Nat) : Fetch Int64 := do
  return signExtend (UInt64.ofNat (← fetchNumber width)) (8 * width)

/-- What the bytes before an opcode say. -/
structure Context where
  mode : Mode
  /-- Operands have 16 bits. -/
  narrow : Bool := false
  segment : Option String := none
  /-- The extension byte of 64-bit code, which has to stand next to the opcode. -/
  extension : Option UInt8 := none
  deriving DecidableEq, Repr

/-- The segments that are named by a byte before the opcode. -/
def segmentOf? : UInt8 → Option String
  | 0x26 => some "es"
  | 0x2e => some "cs"
  | 0x36 => some "ss"
  | 0x3e => some "ds"
  | 0x64 => some "fs"
  | 0x65 => some "gs"
  | _ => none

namespace Context

/-- Takes in the bytes before the opcode. -/
def read (c : Context) : Bytes → Context × Bytes
  | [] => (c, [])
  | b :: rest =>
    if c.mode = .bits64 ∧ b &&& 0xf0 = 0x40 then { c with extension := some b }.read rest
    else if b = 0x66 then { c with narrow := true, extension := none }.read rest
    else
      match segmentOf? b with
      | some segment => { c with segment := some segment, extension := none }.read rest
      | none => (c, b :: rest)

/-- A bit of the extension byte. -/
def bit (c : Context) (n : Nat) : Bool := c.extension.any fun b => b.toNat.testBit n

/-- A register number of three bits, and the bit of the extension byte that is its fourth. -/
def number (c : Context) (low : Nat) (high : Nat) : Nat := if c.bit high then low + 8 else low

def operandWidth (c : Context) : Width :=
  if c.bit 3 then .quad else if c.narrow then .word else .long

def width (c : Context) : Extent → Width
  | .byte => .byte
  | .word => .word
  | .long => .long
  | .operand => c.operandWidth
  | .stack => if c.narrow then .word else match c.mode with
    | .bits32 => .long
    | .bits64 => .quad

/-- The segment to show for memory whose address starts from `base`. In 64-bit code only two
segments count. -/
def shownSegment? (c : Context) (base : Base) : Option String :=
  c.segment.filter fun segment =>
    match c.mode with
    | .bits64 => segment = "fs" ∨ segment = "gs"
    | .bits32 =>
      let usual := if base = .register 4 ∨ base = .register 5 then "ss" else "ds"
      segment ≠ usual

def memory (c : Context) (base : Base) (scaled : Option (Nat × Nat)) (displacement : Int64) :
    Memory :=
  ⟨c.shownSegment? base, base, scaled, displacement⟩

/-- Memory with a base, an index and a factor in one byte. `kind` is the kind of displacement. -/
def scaledMemory (c : Context) (kind : Nat) : Fetch Memory := do
  let b ← fetchNumber 1
  let number := c.number (b / 8 % 8) 1
  let scaled := if number = 4 then none else some (number, 2 ^ (b / 64))
  if kind = 0 ∧ b % 8 = 5 then
    return c.memory .nothing scaled (← fetchSigned 4)
  else
    let displacement ← if kind = 0 then pure 0 else fetchSigned (if kind = 1 then 1 else 4)
    return c.memory (.register (c.number (b % 8) 0)) scaled displacement

/-- Memory that the bits `low` and a kind of displacement stand for. -/
def simpleMemory (c : Context) (kind low : Nat) : Fetch Memory := do
  if low = 4 then c.scaledMemory kind
  else if kind = 0 ∧ low = 5 then
    let base := match c.mode with
      | .bits32 => .nothing
      | .bits64 => .nextInstruction
    return c.memory base none (← fetchSigned 4)
  else
    let displacement ← if kind = 0 then pure 0 else fetchSigned (if kind = 1 then 1 else 4)
    return c.memory (.register (c.number low 0)) none displacement

end Context

/-- A register number, or memory. -/
inductive Place where
  | register (number : Nat)
  | memory (place : Memory)
  deriving DecidableEq, Repr

/-- The operands in the byte after the opcode and the bytes that go with it. -/
structure ModRm where
  /-- The middle bits. -/
  middle : Nat
  place : Place
  deriving DecidableEq, Repr

def Context.modRm (c : Context) : Fetch ModRm := do
  let b ← fetchNumber 1
  if b / 64 = 3 then return ⟨b / 8 % 8, .register (c.number (b % 8) 0)⟩
  else return ⟨b / 8 % 8, .memory (← c.simpleMemory (b / 64) (b % 8))⟩

/-- An instruction before its text is known. -/
structure Operation where
  mnemonic : String
  operands : List Operand
  deriving DecidableEq, Repr

namespace Pattern

/-- The mnemonic of an opcode. -/
def name? (p : Pattern) (c : Context) (opcode : UInt8) (modRm : ModRm) : Option String :=
  let position := match p.choice with
    | .first => 0
    | .opcode low => opcode.toNat / 2 ^ low % p.names.length
    | .extension => modRm.middle
    | .width => match c.operandWidth with
      | .byte | .word => 0
      | .long => 1
      | .quad => 2
  (p.names[position]?).filter (· ≠ "")

/-- Whether the byte after the opcode gives operands. -/
def hasModRm (p : Pattern) : Bool := p.choice = .extension || p.slots.any Slot.usesModRm

end Pattern

namespace Context

def register (c : Context) (width : Width) (number : Nat) : Operand :=
  .fixed (registerText c.extension.isSome width number)

/-- The operand of a place. -/
def placeOperand (c : Context) (width : Width) : Place → Operand
  | .register number => c.register width number
  | .memory place => .memory place

/-- A number as an operand of a size, to which it is cut. -/
def immediate (width : Width) (value : Int64) : Operand :=
  .immediate (value.toUInt64.toNat % 2 ^ (8 * width.bytes))

/-- The operand of a slot. -/
def operand (c : Context) (opcode : UInt8) (modRm : ModRm) : Slot → Fetch Operand
  | .register e => return c.register (c.width e) (c.number modRm.middle 2)
  | .place e => return c.placeOperand (c.width e) modRm.place
  | .address =>
    match modRm.place with
    | .register _ => failure
    | .memory place => return .memory { place with segment := none }
  | .indirect => return .indirect (c.placeOperand (c.width .stack) modRm.place)
  | .low e => return c.register (c.width e) (c.number (opcode.toNat % 8) 0)
  | .accumulator e => return c.register (c.width e) 0
  | .segment => return .fixed (["%es", "%cs", "%ss", "%ds"].getD (opcode.toNat / 8 % 4) "")
  | .immediate e => do return immediate (c.width e) (← fetchSigned (min 4 (c.width e).bytes))
  | .shortImmediate e => do return immediate (c.width e) (← fetchSigned 1)
  | .wholeImmediate => do return immediate c.operandWidth (← fetchSigned c.operandWidth.bytes)
  | .offset => do
    let displacement ← fetchSigned (c.mode.targetDigits / 2)
    return .memory (c.memory .nothing none displacement)
  | .source _ => return .memory (c.memory (.register 6) none 0)
  | .destination _ => return .memory ⟨none, .register 7, none, 0⟩
  | .one => return .immediate 1
  | .count => return .fixed "%cl"
  | .port => return .fixed "(%dx)"
  | .jump bytes => do return .branch (← fetchSigned bytes)

/-- Memory operands do not tell their size: without a register that does, a suffix tells it. -/
def suffix (c : Context) (p : Pattern) (operands : List Operand) : String :=
  if operands.any Operand.isMemory ∧ ¬p.slots.any Slot.tellsWidth then
    match p.slots.findSome? Slot.memoryExtent? with
    | some extent => (c.width extent).suffix
    | none => ""
  else ""

/-- The instruction of an opcode that fits a pattern. -/
def operation (c : Context) (opcode : UInt8) (p : Pattern) : Fetch Operation := do
  let modRm ← if p.hasModRm then c.modRm else pure ⟨0, .register 0⟩
  match p.name? c opcode modRm with
  | none => failure
  | some name =>
    let operands ← p.slots.mapM (c.operand opcode modRm)
    return ⟨name ++ c.suffix p operands, operands⟩

/-- The instruction of the first of `patterns` that fits. -/
def operationOf? (c : Context) (patterns : List Pattern) (opcode : UInt8) (rest : Bytes) :
    Option (Operation × Bytes) :=
  (patterns.filter (Pattern.fits c.mode opcode)).findSome? fun p => (c.operation opcode p).run rest

/-- The instruction at the start of `code`, and the bytes after it. -/
def instruction? (c : Context) (code : Bytes) : Option (Operation × Bytes) :=
  match c.read code with
  | (_, []) | (_, [0x0f]) => none
  | (c, 0x0f :: opcode :: rest) => c.operationOf? twoByte opcode rest
  | (c, opcode :: rest) => c.operationOf? oneByte opcode rest

end Context

/-- The most bytes an instruction has. -/
def maxLength : Nat := 15

def Operation.text (mode : Mode) (index : SymbolIndex) (next : UInt64) (op : Operation) : String :=
  let operands := ",".intercalate (op.operands.map (Operand.text mode index next))
  if op.operands.isEmpty then op.mnemonic else op.mnemonic ++ " " ++ operands

/-- One instruction; bytes that are none count one each. -/
def decode (mode : Mode) (index : SymbolIndex) : Decoder := fun code pc =>
  match ({ mode } : Context).instruction? (code.take maxLength) with
  | none => (unknown, 1)
  | some (op, rest) =>
    let length := min maxLength code.length - rest.length
    (op.text mode index (pc + UInt64.ofNat length), length)

end MachInspect.Code.X86
