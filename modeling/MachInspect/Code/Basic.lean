-- SUMMARY: Sequences of instructions and the numbers in their operands.
import MachInspect.Symbols.Index

/-!
# Disassembly

A decoder looks at the bytes from one address on and gives the text of an instruction and its
length. `disassemble` applies it again and again; whatever length the decoder gives, each step
takes at least one byte and never goes past the end.
-/
namespace MachInspect.Code

open Text

structure Instruction where
  address : UInt64
  bytes : Bytes
  text : String
  deriving DecidableEq, Repr

/-- Text and length of the instruction at the start of some bytes, which stand at an address. -/
abbrev Decoder := Bytes → UInt64 → String × Nat

/-- Shown for bytes that are no known instruction. -/
def unknown : String := "?"

/-- Decodes all of `code`, which stands at `pc`. -/
def disassemble (decode : Decoder) (code : Bytes) (pc : UInt64) : List Instruction :=
  match code with
  | [] => []
  | b :: rest =>
    let (text, length) := decode (b :: rest) pc
    let length := max 1 (min length (rest.length + 1))
    { address := pc, bytes := (b :: rest).take length, text }
      :: disassemble decode (rest.drop (length - 1)) (pc + UInt64.ofNat length)
termination_by code.length
decreasing_by simp only [List.length_drop, List.length_cons]; omega

/-- Small numbers as one digit, others in hexadecimal. -/
def numberText (n : Nat) : String := if n < 10 then decimal n else hex n

/-- The same with upper-case digits. -/
def upperNumberText (n : Nat) : String := if n < 10 then decimal n else upperHexWide 1 n

/-- What follows the last `0x` of a text, and whether there is one. -/
def afterLastHexMark? : List Char → Option (List Char)
  | [] => none
  | c :: rest =>
    match afterLastHexMark? rest with
    | some digits => some digits
    | none =>
      match c, rest with
      | '0', 'x' :: digits => some digits
      | _, _ => none

def isHexDigit (c : Char) : Bool :=
  c.isDigit || ('a' ≤ c && c ≤ 'f') || ('A' ≤ c && c ≤ 'F')

def hexDigitValue (c : Char) : Nat :=
  if c.isDigit then c.toNat - '0'.toNat
  else if 'a' ≤ c then c.toNat - 'a'.toNat + 10
  else c.toNat - 'A'.toNat + 10

/-- The address that an instruction text ends in: its last hexadecimal number. -/
def lastAddress? (text : String) : Option UInt64 := do
  let digits := (← afterLastHexMark? text.toList).takeWhile isHexDigit
  let n := digits.foldl (fun acc c => acc * 16 + hexDigitValue c) 0
  if digits.isEmpty ∨ 2 ^ 64 ≤ n then none else some (UInt64.ofNat n)

/-- Adds the names that cover the address in an instruction text. -/
def withNames (index : SymbolIndex) (text : String) : String :=
  match (lastAddress? text).bind index.lookup with
  | some hit => text ++ " <" ++ hit.names ++ ">"
  | none => text

end MachInspect.Code
