-- SUMMARY: Variable-length integers of call-frame records.
import MachInspect.Binary.ByteOrder
import MachInspect.Error

/-!
# LEB128

Seven bits per byte, least significant first, the top bit marking that more bytes follow. Numbers of
more than eight bytes are refused.
-/
namespace MachInspect.Leb128

/-- Longest number accepted, in bytes. -/
def maxLength : Nat := 8

/-- What the bytes of a number hold. -/
structure Gathered where
  /-- Seven bits of each byte, those of the first byte lowest. -/
  word : UInt64
  /-- Bytes taken. -/
  length : Nat
  /-- The byte that ends the number. -/
  last : UInt8

/-- Takes in the number at `offset`, of which the first `taken` bytes are in `word` already. At most
`limit` more bytes are looked at. -/
def gather (item : Item) (data : Bytes) (offset : Nat) :
    (limit taken : Nat) → (word : UInt64) → Except Error Gathered
  | 0, _, _ => .error (.overflow item offset)
  | limit + 1, taken, word =>
    match data[offset + taken]? with
    | none => .error (.truncated item offset (taken + 1) (data.length - offset))
    | some b =>
      let word := word ||| (b &&& 0x7f).toUInt64 <<< UInt64.ofNat (7 * taken)
      if b &&& 0x80 = 0 then .ok ⟨word, taken + 1, b⟩
      else gather item data offset limit (taken + 1) word

/-- The word of a signed number: the sign, which is bit 6 of the last byte, fills the bits above. -/
def Gathered.signedWord (number : Gathered) : UInt64 :=
  if number.last &&& 0x40 = 0 then number.word
  else number.word ||| 0xffffffffffffffff <<< UInt64.ofNat (7 * number.length)

/-- The unsigned number at `offset` and its length. -/
def unsigned (data : Bytes) (offset : Nat) : Except Error (UInt64 × Nat) := do
  let number ← gather .uleb128 data offset maxLength 0 0
  return (number.word, number.length)

/-- The signed number at `offset` and its length. -/
def signed (data : Bytes) (offset : Nat) : Except Error (Int64 × Nat) := do
  let number ← gather .sleb128 data offset maxLength 0 0
  return (number.signedWord.toInt64, number.length)

end MachInspect.Leb128
