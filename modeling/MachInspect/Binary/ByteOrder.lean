-- SUMMARY: Words in either byte order, read and written.
import MachInspect.Text.Hex

/-!
# Words in either byte order

`ByteOrder.value` is the number that bytes stand for, `ByteOrder.encode` the bytes of a number.
-/
namespace MachInspect

inductive ByteOrder where
  | little
  | big
  deriving DecidableEq, Repr

namespace ByteOrder

/-- The number that bytes stand for, least significant byte first. -/
def valueLittle : Bytes → Nat
  | [] => 0
  | b :: rest => b.toNat + 256 * valueLittle rest

def value : ByteOrder → Bytes → Nat
  | little, data => valueLittle data
  | big, data => valueLittle data.reverse

/-- The low `width` bytes of `n`, least significant byte first. -/
def encodeLittle : Nat → Nat → Bytes
  | 0, _ => []
  | width + 1, n => UInt8.ofNat (n % 256) :: encodeLittle width (n / 256)

/-- The low `width` bytes of `n`. -/
def encode : ByteOrder → Nat → Nat → Bytes
  | little, width, n => encodeLittle width n
  | big, width, n => (encodeLittle width n).reverse

def word (order : ByteOrder) (data : Bytes) : UInt64 := UInt64.ofNat (order.value data)

end ByteOrder

/-- The low `bits` bits of `value` as a signed number, for `bits` from 1 to 64. -/
def signExtend (value : UInt64) (bits : Nat) : Int64 :=
  Int64.ofInt (Int.bmod value.toNat (2 ^ bits))

namespace ByteOrder

/-- An unsigned integer; only widths of 1, 2, 4 and 8 bytes are integers. -/
def unsigned? (order : ByteOrder) (data : Bytes) : Option UInt64 :=
  if data.length ∈ [1, 2, 4, 8] then some (order.word data) else none

/-- A two's complement integer; only widths of 1, 2, 4 and 8 bytes are integers. -/
def signed? (order : ByteOrder) (data : Bytes) : Option Int64 :=
  (order.unsigned? data).map fun v => signExtend v (8 * data.length)

end ByteOrder

/-- The `len` bytes at `start`, if they are all there. -/
def slice? (data : Bytes) (start len : Nat) : Option Bytes :=
  if start + len ≤ data.length then some ((data.drop start).take len) else none

end MachInspect
