-- SUMMARY: Instruction sets with words of four bytes.
import MachInspect.Code.Basic

/-!
# Instructions of one word

An instruction set is a list of patterns. A pattern fixes some bits of a word; the others are
operands. Operands that are addresses get the names that cover them.
-/
namespace MachInspect.Code

open Text

/-- The words that agree with `value` on `mask`. -/
structure Pattern where
  mask : UInt32
  value : UInt32
  /-- The last hexadecimal number in the text is an address. -/
  namesAddress : Bool
  /-- Text of a word at an address. -/
  text : UInt32 → UInt64 → String

namespace Pattern

/-- A single word. -/
def exact (value : UInt32) (text : String) : Pattern := ⟨0xffffffff, value, false, fun _ _ => text⟩

/-- Words whose text depends on nothing but the word. -/
def plain (mask value : UInt32) (text : UInt32 → String) : Pattern :=
  ⟨mask, value, false, fun word _ => text word⟩

/-- Words whose last operand is the address `target word pc`, written after `text word`. -/
def address (mask value : UInt32) (text : UInt32 → String) (target : UInt32 → UInt64 → UInt64) :
    Pattern :=
  ⟨mask, value, true, fun word pc => text word ++ numberText (target word pc).toNat⟩

def fits (p : Pattern) (word : UInt32) : Bool := word &&& p.mask == p.value

end Pattern

/-- An instruction set with words of four bytes. -/
structure WordSet where
  order : ByteOrder
  patterns : List Pattern
  /-- Bytes to skip when a word is unknown or cut off. -/
  skip : Nat

/-- One instruction. -/
def WordSet.decode (set : WordSet) (index : SymbolIndex) : Decoder := fun code pc =>
  match slice? code 0 4 with
  | none => (unknown, set.skip)
  | some bytes =>
    let word := UInt32.ofNat (set.order.value bytes)
    match set.patterns.find? fun p => p.fits word with
    | none => (unknown, set.skip)
    | some p =>
      let text := p.text word pc
      (if p.namesAddress then withNames index text else text, 4)

/-- The signed number in the `width` bits of a word from bit `low` on. -/
def signedField (word : UInt32) (low width : Nat) : Int64 :=
  signExtend (UInt64.ofNat (word.toNat / 2 ^ low)) width

/-- The number in the `width` bits of a word from bit `low` on. -/
def field (word : UInt32) (low width : Nat) : Nat := word.toNat / 2 ^ low % 2 ^ width

end MachInspect.Code
