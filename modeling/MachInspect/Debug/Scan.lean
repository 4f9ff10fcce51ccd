-- SUMMARY: Reading numbers and strings off the front of debug information.
import MachInspect.Binary.ByteOrder
import MachInspect.Error

/-!
# Scanning debug information

A scan takes bytes off the front of what is left and fails when they run out.
-/
namespace MachInspect.Debug

/-- Reading that uses up bytes. -/
abbrev Scan (α : Type) := StateT Bytes (Except DebugFault) α

namespace Scan

/-- The next `n` bytes. -/
def bytes (n : Nat) : Scan Bytes := fun rest =>
  if n ≤ rest.length then .ok (rest.take n, rest.drop n) else .error .unexpectedEnd

/-- An unsigned number of `width` bytes. -/
def number (order : ByteOrder) (width : Nat) : Scan Nat := do return order.value (← bytes width)

/-- The bytes up to a NUL, which is used up too. -/
def terminated : Scan Bytes := fun rest =>
  let text := rest.takeWhile (· ≠ 0)
  if text.length < rest.length then .ok (text, rest.drop (text.length + 1))
  else .error .unexpectedEnd

/-- Seven bits a byte, from `shift` on, added to `acc`. The tenth byte may only hold the last bit. -/
def ulebFrom (shift acc : Nat) : Bytes → Except DebugFault (Nat × Bytes)
  | [] => .error .unexpectedEnd
  | b :: rest =>
    if shift = 63 ∧ b ≠ 0 ∧ b ≠ 1 then .error .badUnsigned
    else
      let acc := acc + b.toNat % 128 * 2 ^ shift
      if b < 0x80 then .ok (acc, rest) else ulebFrom (shift + 7) acc rest

/-- An unsigned variable-length number of 64 bits. -/
def uleb : Scan Nat := ulebFrom 0 0

/-- The signed counterpart of `ulebFrom`. -/
def slebFrom (shift acc : Nat) : Bytes → Except DebugFault (Int64 × Bytes)
  | [] => .error .unexpectedEnd
  | b :: rest =>
    if shift = 63 ∧ b ≠ 0 ∧ b ≠ 0x7f then .error .badSigned
    else
      let acc := acc + b.toNat % 128 * 2 ^ shift
      if 0x80 ≤ b then slebFrom (shift + 7) acc rest
      else if shift + 7 < 64 ∧ b &&& 0x40 ≠ 0 then
        .ok (Int64.ofInt ((acc : Int) - 2 ^ (shift + 7)), rest)
      else .ok (Int64.ofNat acc, rest)

/-- A signed variable-length number of 64 bits. -/
def sleb : Scan Int64 := slebFrom 0 0

/-- An unsigned variable-length number of 16 bits. -/
def uleb16 : Scan Nat := fun rest =>
  match rest with
  | [] => .error .unexpectedEnd
  | b :: rest =>
    if b < 0x80 then .ok (b.toNat, rest)
    else
      match rest with
      | [] => .error .unexpectedEnd
      | c :: rest =>
        let low := b.toNat % 128 + c.toNat % 128 * 2 ^ 7
        if c < 0x80 then .ok (low, rest)
        else
          match rest with
          | [] => .error .unexpectedEnd
          | d :: rest =>
            if d ≤ 3 then .ok (low + d.toNat * 2 ^ 14, rest) else .error .badUnsigned

/-- Scans no further than the next `n` bytes, which are used up. -/
def limited (n : Nat) (scan : Scan α) : Scan α := do
  match scan.run' (← bytes n) with
  | .ok a => return a
  | .error fault => throw fault

/-- Scans `n` items in a row. -/
def times (scan : Scan α) : (n : Nat) → Scan (List α)
  | 0 => return []
  | n + 1 => do
    let a ← scan
    return a :: (← times scan n)

/-- A length and the size of the offsets that follow it. -/
def initialLength (order : ByteOrder) : Scan (Nat × Nat) := do
  let length ← number order 4
  if length < 0xfffffff0 then return (length, 4)
  else if length = 0xffffffff then return (← number order 8, 8)
  else throw .badUnitHeader

/-- A size of addresses. -/
def addressSize : Scan Nat := do
  let size ← number .little 1
  if [1, 2, 4, 8].contains size then return size else throw .badUnitHeader

end Scan

end MachInspect.Debug
