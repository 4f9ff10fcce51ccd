-- SUMMARY: Pointers of call-frame records and the bytes that say how they are stored.
import MachInspect.Binary.Leb128

/-!
# Encoded pointers

The low four bits of an encoding give the format of the stored number, the next three what it is
relative to, and the top bit says that it is the address of the pointer instead of the pointer. One
encoding is set apart for pointers that are left out.
-/
namespace MachInspect.Frame

open Text

/-- The encoding of a pointer that is left out. -/
def omitted : UInt8 := 0xff

namespace Encoding

/-- The bits that give the format. -/
def base (encoding : UInt8) : UInt8 := encoding &&& 0x0f

/-- The bits that say what the number is relative to. -/
def modifier (encoding : UInt8) : UInt8 := encoding &&& 0x70

def isIndirect (encoding : UInt8) : Bool := encoding &&& 0x80 ≠ 0

def baseNames : List (UInt8 × String) :=
  [(0x00, "DW_EH_PE_ptr"),
   (0x01, "DW_EH_PE_uleb128"),
   (0x02, "DW_EH_PE_udata2"),
   (0x03, "DW_EH_PE_udata4"),
   (0x04, "DW_EH_PE_udata8"),
   (0x08, "DW_EH_PE_signed"),
   (0x09, "DW_EH_PE_sleb128"),
   (0x0a, "DW_EH_PE_sdata2"),
   (0x0b, "DW_EH_PE_sdata4"),
   (0x0c, "DW_EH_PE_sdata8")]

def modifierNames : List (UInt8 × String) :=
  [(0x00, "DW_EH_PE_absptr"),
   (0x10, "DW_EH_PE_pcrel"),
   (0x20, "DW_EH_PE_textrel"),
   (0x30, "DW_EH_PE_datarel"),
   (0x40, "DW_EH_PE_funcrel"),
   (0x50, "DW_EH_PE_aligned")]

def part (bits : UInt8) (names : List (UInt8 × String)) : String :=
  hexWide 2 bits.toNat ++ " (" ++ (names.lookup bits).getD "?" ++ ")"

/-- The parts of an encoding, one a line. -/
def text (encoding : UInt8) : String :=
  if encoding = omitted then "0xff (DW_EH_PE_omit)"
  else
    let parts := [part (base encoding) baseNames, part (modifier encoding) modifierNames]
    "\n".intercalate
      (if isIndirect encoding then parts ++ ["0x80 (DW_EH_PE_indirect)"] else parts)

/-- How the number of a pointer is stored. -/
inductive Format where
  | word (width : Nat) (signed : Bool)
  | uleb128
  | sleb128
  deriving DecidableEq, Repr

/-- The format of an encoding on a CPU with pointers of `pointerSize` bytes. -/
def format? (encoding : UInt8) (pointerSize : Nat) : Option Format :=
  let pointer := if pointerSize = 8 then 8 else 4
  match (base encoding).toNat with
  | 0x00 => some (.word pointer false)
  | 0x01 => some .uleb128
  | 0x02 => some (.word 2 false)
  | 0x03 => some (.word 4 false)
  | 0x04 => some (.word 8 false)
  | 0x08 => some (.word pointer true)
  | 0x09 => some .sleb128
  | 0x0a => some (.word 2 true)
  | 0x0b => some (.word 4 true)
  | 0x0c => some (.word 8 true)
  | _ => none

/-- The number stored at `offset`, as 64 bits, and its length. -/
def Format.read (format : Format) (order : ByteOrder) (data : Bytes) (offset : Nat) :
    Except Error (UInt64 × Nat) :=
  match format with
  | word width signed =>
    match slice? data offset width with
    | none => .error (.truncated .encodedPointer offset width (data.length - offset))
    | some bytes =>
      let raw := order.word bytes
      .ok (if signed then (signExtend raw (8 * width)).toUInt64 else raw, width)
  | uleb128 => Leb128.unsigned data offset
  | sleb128 => (Leb128.signed data offset).map fun (value, length) => (value.toUInt64, length)

end Encoding

/-- A pointer as it was stored. -/
structure Pointer where
  /-- The stored number; signed formats are sign-extended. -/
  raw : UInt64
  /-- Bytes taken. -/
  length : Nat
  /-- What it points to, for absolute and program-counter-relative pointers. -/
  address : Option UInt64
  deriving DecidableEq, Repr

/-- What a stored number points to. `field` is the address it is stored at. -/
def pointee? (encoding : UInt8) (field raw : UInt64) : Option UInt64 :=
  if Encoding.isIndirect encoding then none
  else if Encoding.modifier encoding = 0x00 then some raw
  else if Encoding.modifier encoding = 0x10 then some (field + raw)
  else none

/-- Reads the pointer at `offset`, which stands at address `field`. -/
def Pointer.read (order : ByteOrder) (pointerSize : Nat) (data : Bytes) (offset : Nat)
    (encoding : UInt8) (field : UInt64) : Except Error Pointer :=
  if encoding = omitted then .ok ⟨0, 0, none⟩
  else
    match Encoding.format? encoding pointerSize with
    | none => .error (.unsupported (.pointerFormat (Encoding.base encoding)))
    | some format => do
      let (raw, length) ← format.read order data offset
      return ⟨raw, length, pointee? encoding field raw⟩

/-- A pointer in words, with names for the addresses it stands for. -/
def Pointer.text (name : UInt64 → String) (encoding : UInt8) (p : Pointer) : String :=
  if encoding = omitted then "omitted"
  else if Encoding.isIndirect encoding then hex p.raw.toNat ++ " (indirect)"
  else
    match p.address with
    | none => hex p.raw.toNat
    | some address =>
      if Encoding.modifier encoding = 0x10 then
        "pc" ++ offsetText p.raw.toInt64.toInt ++ " = " ++ name address
      else name address

end MachInspect.Frame
